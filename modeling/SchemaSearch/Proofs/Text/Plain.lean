import Mathlib.Algebra.GroupWithZero.Nat
import SchemaSearch.Uuid

/-!
# Plain text

A text of ASCII characters that separate, escape and mark nothing is read as it is written, in a path and in
form data.  The text of a UUID is plain, and it is read as the UUID that it was written for.

Main statements: plain fields of a form are read as they are (`FormData.read_plain`), and so is a UUID in any
place (`Uuid.read_toText`).
-/

namespace SchemaSearch

namespace Text

/-! ## Splitting -/

section Splitting

variable {separator : Char} {cs piece rest : List Char}

theorem ne_of_not_mem (h : separator ∉ piece) : ∀ c ∈ piece, decide (c ≠ separator) = true := by
  rintro c hc
  refine decide_eq_true fun heq => h ?_
  rwa [← heq]

theorem splitFirst_of_not_mem (h : separator ∉ cs) : splitFirst separator cs = (cs, none) := by
  have hnone : (cs ++ []).dropWhile (· ≠ separator) = [].dropWhile (· ≠ separator) :=
    List.dropWhile_append_of_pos (ne_of_not_mem h)
  rw [List.append_nil, List.dropWhile_nil] at hnone
  rw [splitFirst, hnone]

theorem splitFirst_append (h : separator ∉ piece) :
    splitFirst separator (piece ++ separator :: rest) = (piece, some rest) := by
  have hstop : (separator :: rest).dropWhile (· ≠ separator) = separator :: rest :=
    List.dropWhile_cons_of_neg (by simp)
  have htake : (separator :: rest).takeWhile (· ≠ separator) = [] := List.takeWhile_cons_of_neg (by simp)
  rw [splitFirst, List.dropWhile_append_of_pos (ne_of_not_mem h), hstop,
    List.takeWhile_append_of_pos (ne_of_not_mem h), htake, List.append_nil]

theorem splitOn_of_not_mem (h : separator ∉ cs) : splitOn separator cs = [cs] := by
  induction cs with
  | nil => rfl
  | cons c cs ih =>
    rw [List.mem_cons, not_or] at h
    rw [splitOn, if_neg (Ne.symm h.1), ih h.2]
    rfl

theorem splitOn_append (h : separator ∉ piece) :
    splitOn separator (piece ++ separator :: rest) = piece :: splitOn separator rest := by
  induction piece with
  | nil => exact if_pos rfl
  | cons c piece ih =>
    rw [List.mem_cons, not_or] at h
    rw [List.cons_append, splitOn, if_neg (Ne.symm h.1), ih h.2]
    rfl

end Splitting

/-! ## Plain characters -/

/-- Whether a character is one byte that separates, escapes and marks nothing. -/
def isPlain (c : Char) : Bool := c.toNat < 0x80 && !"%+&=/?#^$".toList.contains c

/-- A text of plain characters. -/
def IsPlain (cs : List Char) : Prop := ∀ c ∈ cs, isPlain c = true

instance (cs : List Char) : Decidable (IsPlain cs) := List.decidableBAll (isPlain · = true) cs

namespace IsPlain

variable {cs : List Char} (h : IsPlain cs)

include h

theorem not_mem {c : Char} (hc : isPlain c = false) : c ∉ cs := fun hmem => by
  rw [h c hmem] at hc
  cases hc

theorem head {c : Char} {rest : List Char} (heq : cs = c :: rest) : isPlain c = true ∧ IsPlain rest := by
  subst heq
  exact ⟨h c List.mem_cons_self, fun d hd => h d (List.mem_cons_of_mem _ hd)⟩

end IsPlain

/-! ## Reading it as bytes -/

/-- A plain character is its byte. -/
theorem encodeChar_of_isPlain {c : Char} (h : isPlain c = true) :
    Utf8.encodeChar c = [UInt8.ofNat c.toNat] := by
  rw [isPlain, Bool.and_eq_true, decide_eq_true_iff] at h
  exact if_pos h.1

theorem percentDecode_of_isPlain : ∀ {cs : List Char}, IsPlain cs →
    percentDecode cs = cs.map fun c => UInt8.ofNat c.toNat
  | [], _ => rfl
  | c :: rest, h => by
    obtain ⟨hc, hrest⟩ := h.head rfl
    have hescape : ∀ high low tail, c = '%' → rest = high :: low :: tail → False := by
      rintro _ _ _ rfl _
      cases hc
    rw [percentDecode.eq_2 c rest hescape, encodeChar_of_isPlain hc, percentDecode_of_isPlain hrest]
    rfl

/-- The bytes of plain text are read as its characters. -/
theorem units_of_isPlain : ∀ {cs : List Char}, IsPlain cs →
    Utf8.units (cs.map fun c => UInt8.ofNat c.toNat) = cs.map some
  | [], _ => rfl
  | c :: rest, h => by
    obtain ⟨hc, hrest⟩ := h.head rfl
    rw [isPlain, Bool.and_eq_true, decide_eq_true_iff] at hc
    have hbyte : (UInt8.ofNat c.toNat).toNat = c.toNat := by
      rw [UInt8.toNat_ofNat']
      omega
    have ih := units_of_isPlain hrest
    rw [Utf8.units] at ih ⊢
    rw [List.map_cons, Utf8.unitsFrom, Utf8.step, Utf8.start, hbyte, if_pos hc.1, Char.ofNat_toNat]
    exact congrArg (some c :: ·) ih

theorem decode?_of_isPlain {cs : List Char} (h : IsPlain cs) :
    Utf8.decode? (percentDecode cs) = some cs := by
  rw [percentDecode_of_isPlain h, Utf8.decode?, units_of_isPlain h]
  clear h
  induction cs with
  | nil => rfl
  | cons c cs ih =>
    rw [List.map_cons, List.mapM_cons, ih]
    rfl

namespace FormData

theorem readField_of_isPlain {cs : List Char} (h : IsPlain cs) : readField cs = String.ofList cs := by
  have hplus : cs.map (fun c => if c = '+' then ' ' else c) = cs := by
    refine (List.map_congr_left fun c hc => if_neg ?_).trans (List.map_id cs)
    rintro rfl
    exact h.not_mem rfl hc
  rw [readField, hplus, percentDecode_of_isPlain h, Utf8.decodeLossy, units_of_isPlain h, List.map_map]
  exact congrArg String.ofList (List.map_id cs)

/-- A form of one plain field is read as it is. -/
theorem read_plain {name value : String} (hname : IsPlain name.toList) (hvalue : IsPlain value.toList) :
    read (name ++ "=" ++ value) = [(name, value)] := by
  have hpiece : (name ++ "=" ++ value).toList = name.toList ++ '=' :: value.toList := by
    simp
  have hone : splitOn '&' (name ++ "=" ++ value).toList = [(name ++ "=" ++ value).toList] := by
    refine splitOn_of_not_mem ?_
    rw [hpiece, List.mem_append, List.mem_cons]
    rintro (hmem | hmem | hmem)
    · exact hname.not_mem rfl hmem
    · cases hmem
    · exact hvalue.not_mem rfl hmem
  have hsome : (name ++ "=" ++ value).toList.isEmpty = false := by
    rw [hpiece]
    cases name.toList <;> rfl
  have hpair : readPair (name ++ "=" ++ value).toList = (name, value) := by
    rw [readPair, hpiece, splitFirst_append (hname.not_mem rfl)]
    show (readField name.toList, readField value.toList) = _
    rw [readField_of_isPlain hname, readField_of_isPlain hvalue, String.ofList_toList, String.ofList_toList]
  rw [read, hone, List.filter_cons_of_pos (by rw [hsome]; rfl), List.filter_nil, List.map_singleton, hpair]

end FormData

/-! ## Digits -/

theorem hexValue_hexDigit : ∀ n < 16, hexValue (hexDigit n) = some n := by decide

theorem isPlain_hexDigit : ∀ n < 16, isPlain (hexDigit n) = true := by decide

end Text

/-! ## UUIDs -/

namespace Uuid

open Text

theorem escapedByte_hexPair (b : UInt8) :
    escapedByte (hexDigit (b.toNat / 16)) (hexDigit (b.toNat % 16)) = some b := by
  have hb := b.toNat_lt
  have hdigits : b.toNat / 16 * 16 + b.toNat % 16 = b.toNat := Nat.div_add_mod' b.toNat 16
  rw [escapedByte, hexValue_hexDigit _ (by omega), hexValue_hexDigit _ (by omega)]
  show some (UInt8.ofNat (b.toNat / 16 * 16 + b.toNat % 16)) = some b
  rw [hdigits, UInt8.ofNat_toNat]

theorem readBytes_hexPairs (bytes : List UInt8) : readBytes (bytes.flatMap hexPair) = some bytes := by
  induction bytes with
  | nil => rfl
  | cons b bytes ih =>
    show readBytes (hexDigit (b.toNat / 16) :: hexDigit (b.toNat % 16) :: bytes.flatMap hexPair) = _
    rw [readBytes, escapedByte_hexPair, ih]
    rfl

theorem length_hexPairs (bytes : List UInt8) : (bytes.flatMap hexPair).length = 2 * bytes.length := by
  induction bytes with
  | nil => rfl
  | cons b bytes ih =>
    rw [List.flatMap_cons, List.length_append, ih, List.length_cons]
    show 2 + _ = _
    omega

/-- Hyphens that were put in are found where the groups end. -/
theorem dropHyphens_hyphenate : ∀ {ns : List Nat} {cs : List Char}, ns ≠ [] → cs.length = ns.sum →
    dropHyphens ns (hyphenate ns cs) = some cs
  | [], _, h, _ => absurd rfl h
  | [n], cs, _, h => by
    rw [List.sum_singleton] at h
    exact if_pos h
  | n :: m :: ns, cs, _, h => by
    rw [List.sum_cons] at h
    have hgroup : (cs.take n).length = n := by
      rw [List.length_take]
      omega
    have hrest : (cs.drop n).length = (m :: ns).sum := by
      rw [List.length_drop]
      omega
    have ih := dropHyphens_hyphenate (List.cons_ne_nil m ns) hrest
    rw [hyphenate, dropHyphens, List.drop_left' hgroup]
    · show (dropHyphens (m :: ns) (hyphenate (m :: ns) (cs.drop n))).map _ = _
      rw [ih, Option.map_some, List.take_left' hgroup, List.take_append_drop]
    all_goals simp

theorem length_hyphenate : ∀ {ns : List Nat} {cs : List Char}, ns ≠ [] → cs.length = ns.sum →
    (hyphenate ns cs).length + 1 = cs.length + ns.length
  | [], _, h, _ => absurd rfl h
  | [n], cs, _, _ => rfl
  | n :: m :: ns, cs, _, h => by
    rw [List.sum_cons] at h
    have hrest : (cs.drop n).length = (m :: ns).sum := by
      rw [List.length_drop]
      omega
    have ih := length_hyphenate (List.cons_ne_nil m ns) hrest
    rw [List.length_drop] at ih
    rw [hyphenate, List.length_append, List.length_take, List.length_cons]
    · simp only [List.length_cons] at ih ⊢
      omega
    all_goals simp

theorem mem_hyphenate {c : Char} : ∀ {ns : List Nat} {cs : List Char}, c ∈ hyphenate ns cs → c = '-' ∨ c ∈ cs
  | [], _, h => .inr h
  | [_], _, h => .inr h
  | n :: m :: ns, cs, h => by
    rw [hyphenate, List.mem_append, List.mem_cons] at h
    · rcases h with h | h | h
      · exact .inr (List.mem_of_mem_take h)
      · exact .inl h
      · exact (mem_hyphenate h).imp_right List.mem_of_mem_drop
    all_goals simp

/-- The text of a UUID is of digits and hyphens. -/
theorem mem_toText {u : Uuid} {c : Char} (h : c ∈ u.toText.toList) : c = '-' ∨ ∃ n < 16, c = hexDigit n := by
  rw [toText, String.toList_ofList] at h
  refine (mem_hyphenate h).imp_right fun hdigit => ?_
  obtain ⟨b, _, hdigit⟩ := List.mem_flatMap.mp hdigit
  have hb := b.toNat_lt
  rcases List.mem_cons.mp hdigit with rfl | hdigit
  · exact ⟨_, by omega, rfl⟩
  · exact ⟨_, by omega, List.mem_singleton.mp hdigit⟩

theorem isPlain_toText (u : Uuid) : IsPlain u.toText.toList := by
  intro c hc
  rcases mem_toText hc with rfl | ⟨n, hn, rfl⟩
  · rfl
  · exact isPlain_hexDigit n hn

section Whole

variable {u : Uuid} (hu : u.bytes.length = 16)

include hu

theorem length_toText : u.toText.toList.length = 36 := by
  have hdigits : (u.bytes.flatMap hexPair).length = groupLengths.sum := by
    rw [length_hexPairs, hu]
    rfl
  have hlength := length_hyphenate (List.cons_ne_nil _ _) hdigits
  rw [hdigits] at hlength
  rw [toText, String.toList_ofList]
  exact Nat.succ.inj hlength

/-- The text of a UUID is read as the UUID. -/
theorem read_toText : read u.toText = some u := by
  have hdigits : (u.bytes.flatMap hexPair).length = groupLengths.sum := by
    rw [length_hexPairs, hu]
    rfl
  have hdropped := dropHyphens_hyphenate (List.cons_ne_nil _ _) hdigits
  rw [read, length_toText hu]
  show readHyphenated u.toText.toList = some u
  rw [readHyphenated, toText, String.toList_ofList, groupLengths, hdropped]
  show readDigits (u.bytes.flatMap hexPair) = some u
  rw [readDigits, if_pos (by exact hdigits), readBytes_hexPairs]
  rfl

end Whole

end Uuid

end SchemaSearch
