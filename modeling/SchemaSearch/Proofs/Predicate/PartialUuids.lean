import SchemaSearch.Proofs.Predicate.Meaning
import SchemaSearch.Proofs.Predicate.Patterns
import SchemaSearch.Proofs.Text.Plain

/-!
# Searching for UUIDs

A whole UUID is compared as a value.  A part of one is compared as text, but the text that the database
makes of a UUID is that of its bytes, not its hyphenated form.

Main statements: what whole UUIDs and parts of them select (`selects_uuid`), and a row that is not found by a
part of its UUID (`not_findsPartialUuid`).
-/

namespace SchemaSearch

open Query Schema Store CodePoint

/-! ## Parts of the text of a UUID -/

namespace Uuid

variable {u : Uuid} {p : String} {c : Char}

/-- What is in ASCII in lower case is in ASCII, and no NUL unless it was one. -/
theorem toNat_of_toLower_mem (h : c.toLower ∈ u.toText.toList) : 0 < c.toNat ∧ c.toNat < 0x80 := by
  have hlower : 0 < c.toLower.toNat ∧ c.toLower.toNat < 0x80 := by
    rcases mem_toText h with hhyphen | ⟨n, hn, hdigit⟩
    · rw [hhyphen]
      decide
    · rw [hdigit]
      exact (by decide : ∀ n < 16, 0 < (Text.hexDigit n).toNat ∧ (Text.hexDigit n).toNat < 0x80) n hn
  have hcase := Text.toNat_toLower c
  split at hcase
  · omega
  · omega

/-- A part of the text of a UUID, in any case. -/
def Shows (u : Uuid) (p : String) : Prop := Text.asciiLower p.toList <:+: u.toText.toList

theorem Shows.toNat (h : u.Shows p) : ∀ c ∈ p.toList, 0 < c.toNat ∧ c.toNat < 0x80 := by
  intro c hc
  exact toNat_of_toLower_mem (h.subset (List.mem_map_of_mem hc))

theorem Shows.nul_not_mem (h : u.Shows p) : '\x00' ∉ p.toList := by
  intro hmem
  exact absurd (h.toNat _ hmem).1 (by decide)

theorem Shows.folded_upper (h : u.Shows p) : folded (Text.upper p.toList) = folded p.toList :=
  SchemaSearch.folded_upper fun c hc => Text.isAsciiCased_of_lt (h.toNat c hc).2

theorem Shows.folded_lt (h : u.Shows p) : ∀ q ∈ folded p.toList, q < 0x80 := by
  intro q hq
  obtain ⟨c, hc, rfl⟩ := List.mem_map.mp hq
  have hascii := (h.toNat c hc).2
  rw [keepsAscii_ofChar.ascii c hascii]
  exact Nat.lt_of_le_of_lt (toUpper_le _) hascii

/-! ## They are no whole UUIDs -/

theorem hyphen_not_mem_of_readBytes : ∀ {cs : List Char} {bytes : List UInt8}, readBytes cs = some bytes →
    '-' ∉ cs
  | [], _, _ => List.not_mem_nil
  | [_], _, h => by cases h
  | high :: low :: rest, bytes, h => by
    rw [readBytes] at h
    obtain ⟨byte, hbyte, h⟩ := Option.bind_eq_some_iff.mp h
    obtain ⟨tail, htail, -⟩ := Option.bind_eq_some_iff.mp h
    rw [List.mem_cons, List.mem_cons]
    rintro (rfl | rfl | hmem)
    · cases hbyte
    · rw [Text.escapedByte] at hbyte
      cases hhigh : Text.hexValue high with
      | none =>
        rw [hhigh] at hbyte
        cases hbyte
      | some n =>
        rw [hhigh] at hbyte
        cases hbyte
    · exact hyphen_not_mem_of_readBytes htail hmem

/-- The ninth character is a hyphen. -/
theorem getElem?_toText (hu : u.bytes.length = 16) : u.toText.toList[8]? = some '-' := by
  have hgroup : ((u.bytes.flatMap hexPair).take 8).length = 8 := by
    rw [List.length_take, length_hexPairs, hu]
    rfl
  rw [toText, String.toList_ofList]
  show ((u.bytes.flatMap hexPair).take 8 ++ '-' :: _)[8]? = some '-'
  rw [List.getElem?_append_right (Nat.le_of_eq hgroup), hgroup]
  rfl

/-- So no text of digits starts so. -/
theorem read_eq_none_of_front (hu : u.bytes.length = 16) (hp : Text.asciiLower p.toList <+: u.toText.toList)
    (hlength : p.toList.length < 36) : read p = none := by
  rw [read]
  split
  · rename_i hdigits
    -- 32 characters reach beyond the first hyphen
    have hninth : (Text.asciiLower p.toList)[8]? = some '-' := by
      obtain ⟨rest, hrest⟩ := hp
      rw [← getElem?_toText hu, ← hrest, List.getElem?_append_left]
      rw [Text.asciiLower, List.length_map, hdigits]
      decide
    rw [Text.asciiLower, List.getElem?_map] at hninth
    obtain ⟨c, hc, hlower⟩ := Option.map_eq_some_iff.mp hninth
    have hhyphen : c = '-' := by
      have hcase := Text.toNat_toLower c
      rw [hlower, show '-'.toNat = 0x2D from rfl] at hcase
      rw [← Char.toNat_inj, show '-'.toNat = 0x2D from rfl]
      split at hcase
      · omega
      · exact hcase.symm
    rw [readDigits, if_pos hdigits]
    cases hread : readBytes p.toList with
    | none => rfl
    | some bytes =>
      refine absurd ?_ (hyphen_not_mem_of_readBytes hread)
      rw [← hhyphen]
      exact List.mem_of_getElem? hc
  · omega
  · omega
  · omega
  · rfl

/-! ## What bytes show -/

theorem fold_of_toLower {d : Char} (h : c.toLower = d) (hascii : c.toNat < 0x80) :
    (ofChar c).toUpper = CodePoint.toUpper d.toNat := by
  have hcase := Text.toNat_toLower c
  rw [← h, keepsAscii_ofChar.ascii c hascii, hcase]
  split
  · rename_i hletter
    rw [toUpper_of_not_letter (by omega), toUpper_of_letter (by omega), Nat.add_sub_cancel]
  · rfl

theorem eq_three_of_toUpper_hexDigit : ∀ high : Nat, high < 16 → ∀ low : Nat, low < 16 →
    CodePoint.toUpper (Text.hexDigit high).toNat = CodePoint.toUpper (high * 16 + low) → high = 3 ∧ low = 3 := by
  decide

/-- Only one byte is the character of its own first digit. -/
theorem eq_of_toUpper_hexDigit {b : UInt8}
    (h : CodePoint.toUpper (Text.hexDigit (b.toNat / 16)).toNat = CodePoint.toUpper b.toNat) : b = 0x33 := by
  have hb := b.toNat_lt
  have hdigits : b.toNat / 16 * 16 + b.toNat % 16 = b.toNat := Nat.div_add_mod' b.toNat 16
  have hthree := eq_three_of_toUpper_hexDigit (b.toNat / 16) (by omega) (b.toNat % 16) (Nat.mod_lt _ (by decide))
  rw [hdigits] at hthree
  obtain ⟨hhigh, hlow⟩ := hthree h
  refine UInt8.toNat_inj.mp ?_
  show b.toNat = 0x33
  omega

/-- The bytes of a UUID start with the front of its text only if the first of them is a `3`. -/
theorem head_of_folded_front (hp : Text.asciiLower p.toList <+: u.toText.toList) (hsome : p ≠ "")
    (hfolded : folded p.toList <+: foldedBytes u.bytes) : u.bytes.head? = some 0x33 := by
  cases hchars : p.toList with
  | nil => exact absurd (String.toList_eq_nil_iff.mp hchars) hsome
  | cons c rest =>
    rw [hchars] at hp hfolded
    have hascii := (toNat_of_toLower_mem (hp.subset List.mem_cons_self)).2
    cases hbytes : u.bytes with
    | nil =>
      rw [hbytes] at hfolded
      cases List.prefix_nil.mp hfolded
    | cons b bytes =>
      have hdigit : c.toLower = Text.hexDigit (b.toNat / 16) := by
        rw [toText, String.toList_ofList, hbytes] at hp
        exact (List.cons_prefix_cons.mp hp).1
      have hfirst : (ofChar c).toUpper = CodePoint.toUpper b.toNat := by
        by_cases hb : b = 0
        · rw [hbytes, hb] at hfolded
          cases List.prefix_nil.mp hfolded
        · have htake : (b :: bytes).takeWhile (· ≠ 0) = b :: bytes.takeWhile (· ≠ 0) :=
            List.takeWhile_cons_of_pos (decide_eq_true hb)
          rw [hbytes, foldedBytes, htake] at hfolded
          exact (List.cons_prefix_cons.mp hfolded).1
      rw [fold_of_toLower hdigit hascii] at hfirst
      exact congrArg some (eq_of_toUpper_hexDigit hfirst)

/-- They contain no more of it than their number. -/
theorem length_le_of_folded_part (hu : u.bytes.length = 16) (hfolded : folded p.toList <:+: foldedBytes u.bytes) :
    p.toList.length ≤ 16 := by
  have hlength := hfolded.length_le
  rw [folded, List.length_map, foldedBytes, List.length_map] at hlength
  rw [← hu]
  exact hlength.trans (List.takeWhile_prefix _).length_le

end Uuid

/-! ## Searching -/

/-- A column of a row holds a UUID, or nothing. -/
def Store.Row.HoldsUuid (row : Row) (column : String) : Prop :=
  row.get column = .null ∨ ∃ bytes, row.get column = .blob bytes

section Compiled

variable {r : Registry} {root path p : String} {target : Target} {u : Uuid} {v : Value}

/-- UUIDs and parts of them can be searched for. -/
theorem exists_compile_of_uuid (hpath : r.resolve root path = .ok target) (hkind : target.kind = .uuid)
    {lookup : Lookup} (hlookup : lookup = .startsWith p ∨ lookup = .contains p) :
    ∃ c, (Predicate.field path lookup).compile r root = .ok c := by
  rw [Predicate.compile_field hpath, fieldCondition, leafCondition, hkind]
  rcases hlookup with rfl | rfl
  · show ∃ c, ((uuidTest path _ (.startsWith p) >>= _) >>= _) = Except.ok c
    rw [uuidTest]
    cases Uuid.read p <;> exact ⟨_, rfl⟩
  · exact ⟨_, rfl⟩

/-- A whole UUID is passed by its own bytes alone. -/
theorem accepts_whole_iff (hread : Uuid.read p = some u) :
    (Lookup.startsWith p).accepts .uuid v = true ↔ v = .blob u.bytes := by
  have hwhole : FieldKind.uuid.wholeValue? p = some (.blob u.bytes) := by
    rw [FieldKind.wholeValue?, hread]
    rfl
  rw [accepts_comparison rfl, Bool.and_eq_true, bne_iff_ne, Lookup.compares, hwhole, beq_iff_eq]
  refine ⟨And.right, fun hv => ⟨?_, hv⟩⟩
  rw [hv]
  exact Value.noConfusion

/-- A part of one is passed by the bytes that are its characters. -/
theorem accepts_partial_iff (hshows : u.Shows p) (hv : v = .null ∨ ∃ bytes, v = .blob bytes) :
    (Uuid.read p = none → ((Lookup.startsWith p).accepts .uuid v = true
        ↔ ∃ bytes, v = .blob bytes ∧ folded p.toList <+: foldedBytes bytes))
      ∧ ((Lookup.contains p).accepts .uuid v = true
        ↔ ∃ bytes, v = .blob bytes ∧ folded p.toList <:+: foldedBytes bytes) := by
  rcases hv with rfl | ⟨bytes, rfl⟩
  · have hnone : ∀ {q : List UInt8 → Prop}, ¬ ∃ bytes, Value.null = .blob bytes ∧ q bytes := by
      rintro q ⟨bytes, hnull, -⟩
      cases hnull
    rw [accepts_comparison rfl, accepts_comparison rfl]
    exact ⟨fun _ => iff_of_false Bool.false_ne_true hnone, iff_of_false Bool.false_ne_true hnone⟩
  · have hblob : ∀ {q : List UInt8 → Prop}, (∃ found, Value.blob bytes = .blob found ∧ q found) ↔ q bytes := by
      intro q
      simp
    have hpoints : (Value.blob bytes).codePoints = some (CodePoint.ofBytes bytes) := rfl
    rw [accepts_of_ne_null rfl _ Value.noConfusion, accepts_of_ne_null rfl _ Value.noConfusion, hblob, hblob]
    constructor
    · intro hread
      have hpattern : (Lookup.startsWith p).compares .uuid (.blob bytes)
          = (Value.blob bytes).isLike (startPattern p) := by
        rw [Lookup.compares, FieldKind.wholeValue?, hread]
        rfl
      rw [hpattern, isLike_startPattern hshows.nul_not_mem hpoints, hshows.folded_upper,
        prefix_ofBytes_iff hshows.folded_lt]
    · rw [Lookup.compares, isLike_containsPattern hshows.nul_not_mem hpoints, hshows.folded_upper,
        infix_ofBytes_iff hshows.folded_lt]
      simp

/-- A whole UUID in any notation selects the rows that hold it.  A front or a part of the text of a UUID
selects the rows whose bytes start with its characters or contain them: a front selects its own UUID only if
that starts with the byte of a `3`, a part only if it is no longer than sixteen characters. -/
theorem selects_uuid (hpath : r.resolve root path = .ok target) (hkind : target.kind = .uuid) :
    (∀ s u, Uuid.read s = some u → ∃ c, (Predicate.field path (.startsWith s)).compile r root = .ok c
      ∧ ∀ db row, selects db root c row = true
        ↔ ∃ last ∈ reached db target.hops row, last.get target.column = .blob u.bytes)
    ∧ (∀ (u : Uuid) p, u.bytes.length = 16 → p ≠ "" → p.toList.length < 36 →
        Text.asciiLower p.toList <+: u.toText.toList →
        ∃ c, (Predicate.field path (.startsWith p)).compile r root = .ok c
          ∧ (∀ db row, (∀ last ∈ reached db target.hops row, last.HoldsUuid target.column) →
            (selects db root c row = true ↔ ∃ last ∈ reached db target.hops row, ∃ bytes,
              last.get target.column = .blob bytes ∧ folded p.toList <+: foldedBytes bytes))
          ∧ (folded p.toList <+: foldedBytes u.bytes → u.bytes.head? = some 0x33))
    ∧ ∀ (u : Uuid) p, u.bytes.length = 16 → Text.asciiLower p.toList <:+: u.toText.toList →
        ∃ c, (Predicate.field path (.contains p)).compile r root = .ok c
          ∧ (∀ db row, (∀ last ∈ reached db target.hops row, last.HoldsUuid target.column) →
            (selects db root c row = true ↔ ∃ last ∈ reached db target.hops row, ∃ bytes,
              last.get target.column = .blob bytes ∧ folded p.toList <:+: foldedBytes bytes))
          ∧ (folded p.toList <:+: foldedBytes u.bytes → p.toList.length ≤ 16) := by
  refine ⟨?_, ?_, ?_⟩
  · intro s u hread
    obtain ⟨c, hc⟩ := exists_compile_of_uuid (p := s) hpath hkind (.inl rfl)
    refine ⟨c, hc, fun db row => ?_⟩
    rw [Predicate.selects_field_iff hpath rfl hc, hkind]
    exact exists_congr fun last => and_congr_right fun _ => accepts_whole_iff hread
  · intro u p hu hsome hlength hp
    have hshows : u.Shows p := hp.isInfix
    have hread := Uuid.read_eq_none_of_front hu hp hlength
    obtain ⟨c, hc⟩ := exists_compile_of_uuid (p := p) hpath hkind (.inl rfl)
    refine ⟨c, hc, fun db row hrows => ?_, Uuid.head_of_folded_front hp hsome⟩
    rw [Predicate.selects_field_iff hpath rfl hc, hkind]
    exact exists_congr fun last => and_congr_right fun hlast =>
      (accepts_partial_iff hshows (hrows last hlast)).1 hread
  · intro u p hu hp
    obtain ⟨c, hc⟩ := exists_compile_of_uuid (p := p) hpath hkind (.inr rfl)
    refine ⟨c, hc, fun db row hrows => ?_, Uuid.length_le_of_folded_part hu⟩
    rw [Predicate.selects_field_iff hpath rfl hc, hkind]
    exact exists_congr fun last => and_congr_right fun hlast =>
      (accepts_partial_iff hp (hrows last hlast)).2

end Compiled

/-- The UUID of sixteen bytes that are each a `3`. -/
def threes : Uuid := ⟨List.replicate 16 0x33⟩

/-- A question with that UUID is found by it, by the front of its text and by a part of it. -/
theorem selects_uuid_sample :
    ∃ whole front part,
      (Predicate.field "question_id" (.startsWith "urn:uuid:33333333-3333-3333-3333-333333333333")).compile
        Service.registry "questions" = .ok whole
      ∧ (Predicate.field "question_id" (.startsWith "3333")).compile Service.registry "questions" = .ok front
      ∧ (Predicate.field "question_id" (.contains "33")).compile Service.registry "questions" = .ok part
      ∧ ∀ c ∈ [whole, front, part],
        selects Service.sampleDatabase "questions" c ⟨[("question_id", .blob threes.bytes)]⟩ = true := by
  have hpath : Service.registry.resolve "questions" "question_id" = .ok ⟨[], "questions", "question_id", .uuid⟩ :=
    rfl
  obtain ⟨hwhole, hfront, hpart⟩ := selects_uuid hpath rfl
  obtain ⟨whole, hwhole, hrow⟩ := hwhole _ threes (rfl :
    Uuid.read "urn:uuid:33333333-3333-3333-3333-333333333333" = some threes)
  obtain ⟨front, hfront, hfrontRow, -⟩ := hfront threes "3333" rfl (by decide) (by decide) (by decide)
  obtain ⟨part, hpart, hpartRow, -⟩ := hpart threes "33" rfl (by decide)
  have hheld : ∀ last ∈ [(⟨[("question_id", .blob threes.bytes)]⟩ : Row)], last.HoldsUuid "question_id" := by
    intro last hlast
    rw [List.mem_singleton.mp hlast]
    exact .inr ⟨threes.bytes, rfl⟩
  refine ⟨whole, front, part, hwhole, hfront, hpart, ?_⟩
  simp only [List.forall_mem_cons, List.not_mem_nil, false_implies, implies_true, and_true]
  exact ⟨(hrow _ _).mpr ⟨_, List.mem_singleton.mpr rfl, rfl⟩,
    (hfrontRow _ _ hheld).mpr ⟨_, List.mem_singleton.mpr rfl, _, rfl, by decide⟩,
    (hpartRow _ _ hheld).mpr ⟨_, List.mem_singleton.mpr rfl, _, rfl, by decide⟩⟩

/-- The demand that a UUID is found by the parts of its text. -/
def FindsPartialUuid (r : Registry) (root path : String) (u : Uuid) (p : String) : Prop :=
  ∀ target, r.resolve root path = .ok target → target.kind = .uuid → ∀ db row,
    ∀ last ∈ reached db target.hops row, last.get target.column = .blob u.bytes →
      (p ≠ "" → p.toList.length < 36 → Text.asciiLower p.toList <+: u.toText.toList →
        ∃ c, (Predicate.field path (.startsWith p)).compile r root = .ok c ∧ selects db root c row = true)
      ∧ (Text.asciiLower p.toList <:+: u.toText.toList →
        ∃ c, (Predicate.field path (.contains p)).compile r root = .ok c ∧ selects db root c row = true)

/-- No question of the sample is found by the zeros that its UUID starts with. -/
theorem not_findsPartialUuid :
    ¬ ∀ (r : Registry) (root path : String) (u : Uuid) (p : String), u.bytes.length = 16 →
      FindsPartialUuid r root path u p := by
  intro h
  have hid : (Service.sampleQuestions.getD 0 ⟨[]⟩).get "question_id"
      = .blob (Uuid.mk (List.replicate 14 0 ++ [3, 0])).bytes := rfl
  obtain ⟨c, hc, hfound⟩ := (h Service.registry "questions" "question_id" _ "0" rfl _ rfl rfl
    Service.sampleDatabase (Service.sampleQuestions.getD 0 ⟨[]⟩) _ (List.mem_singleton.mpr rfl) hid).1
    (by decide) (by decide) (by decide)
  cases hc
  exact Bool.false_ne_true hfound

end SchemaSearch
