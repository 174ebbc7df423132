import Mathlib.Data.List.Induction
import Mathlib.Data.List.TakeWhile
import SchemaSearch.Decimal.Shortest
import SchemaSearch.Proofs.Decimal.Padded

/-!
# Numerals

What number a text denotes: each digit counts ten times the digits in front of it, and a sign may stand in
front of them all.

Main statements: a text is read as the number that it denotes, and as none if it denotes none
(`readInt_eq_some_iff`); the text of a whole number denotes that number (`denotes_toString`), and the text of
a number with a fraction or an exponent denotes none (`Binary64.not_denotes_toText`).
-/

namespace SchemaSearch

/-! ## White space -/

namespace Text

variable {cs : List Char} {c : Char}

theorem mem_trimStart (hc : isBlank c = false) (h : c ∈ cs) : c ∈ trimStart cs := by
  rw [← List.takeWhile_append_dropWhile (p := isBlank) (l := cs), List.mem_append] at h
  refine h.resolve_left fun hmem => ?_
  rw [List.mem_takeWhile_imp hmem] at hc
  cases hc

/-- Trimming takes nothing but white space. -/
theorem mem_trim (hc : isBlank c = false) (h : c ∈ cs) : c ∈ trim cs :=
  List.mem_reverse.mpr (mem_trimStart hc (List.mem_reverse.mpr (mem_trimStart hc h)))

theorem trimStart_eq_self : ∀ {cs : List Char}, (∀ c ∈ cs, isBlank c = false) → trimStart cs = cs
  | [], _ => rfl
  | c :: cs, h => List.dropWhile_cons_of_neg (by rw [h c List.mem_cons_self]; exact Bool.false_ne_true)

theorem trim_eq_self (h : ∀ c ∈ cs, isBlank c = false) : trim cs = cs := by
  rw [trim, trimStart_eq_self h, trimEnd, trimStart_eq_self fun c hc => h c (List.mem_reverse.mp hc),
    List.reverse_reverse]

end Text

namespace Decimal

variable {cs : List Char}

/-! ## Digits -/

theorem isDigit_digitChar : ∀ d < 10, isDigit (Nat.digitChar d) = true := by decide

theorem digitValue_digitChar : ∀ d < 10, digitValue (Nat.digitChar d) = d := by decide

/-- A digit is that of its value. -/
theorem exists_digitChar {c : Char} (h : isDigit c = true) : ∃ d < 10, c = Nat.digitChar d := by
  simp only [isDigit, Bool.and_eq_true, decide_eq_true_eq] at h
  obtain ⟨hzero, hnine⟩ : '0'.toNat ≤ c.toNat ∧ c.toNat ≤ '0'.toNat + 9 := h
  obtain ⟨d, hd⟩ := Nat.exists_eq_add_of_le hzero
  have hlt : d < 10 := by omega
  refine ⟨d, hlt, ?_⟩
  have hchars : ∀ d < 10, Char.ofNat ('0'.toNat + d) = Nat.digitChar d := by decide
  rw [← hchars d hlt, ← hd, Char.ofNat_toNat]

theorem natOfDigits_concat (cs : List Char) (c : Char) :
    natOfDigits (cs ++ [c]) = 10 * natOfDigits cs + digitValue c := by
  rw [natOfDigits, List.foldl_append]
  rfl

/-- A run of digits denotes a natural number. -/
inductive DenotesNat : List Char → Nat → Prop
  | digit {d : Nat} (hd : d < 10) : DenotesNat [Nat.digitChar d] d
  | snoc {cs : List Char} {n d : Nat} (h : DenotesNat cs n) (hd : d < 10) :
    DenotesNat (cs ++ [Nat.digitChar d]) (10 * n + d)

/-- What is read has digits, nothing else, and is what they add up to. -/
theorem readNat_eq_some {n : Nat} :
    readNat cs = some n ↔ cs ≠ [] ∧ (∀ c ∈ cs, isDigit c = true) ∧ natOfDigits cs = n := by
  unfold readNat
  split
  · rename_i hbad
    simp only [Bool.or_eq_true, List.isEmpty_iff, Bool.not_eq_true', List.all_eq_false] at hbad
    refine iff_of_false (Option.some_ne_none n).symm ?_
    rintro ⟨hne, hdigits, _⟩
    obtain hnil | ⟨c, hc, hbad⟩ := hbad
    · exact hne hnil
    · exact hbad (hdigits c hc)
  · rename_i hgood
    simp only [Bool.or_eq_true, List.isEmpty_iff, Bool.not_eq_true', not_or, Bool.not_eq_false,
      List.all_eq_true] at hgood
    rw [Option.some_inj]
    exact ⟨fun h => ⟨hgood.1, hgood.2, h⟩, fun h => h.2.2⟩

/-- Digits are read as the number that they denote. -/
theorem readNat_eq_some_iff {n : Nat} : readNat cs = some n ↔ DenotesNat cs n := by
  rw [readNat_eq_some]
  constructor
  · rintro ⟨hne, hdigits, rfl⟩
    -- from the right, as the number grows
    induction cs using List.reverseRecOn with
    | nil => exact absurd rfl hne
    | append_singleton cs c ih =>
      obtain ⟨d, hd, rfl⟩ := exists_digitChar (hdigits c (List.mem_append_right _ List.mem_cons_self))
      rw [natOfDigits_concat, digitValue_digitChar d hd]
      by_cases hnil : cs = []
      · subst hnil
        simpa [natOfDigits] using DenotesNat.digit hd
      · exact .snoc (ih hnil fun c hc => hdigits c (List.mem_append_left _ hc)) hd
  · intro h
    induction h with
    | digit hd =>
      refine ⟨List.cons_ne_nil _ _, ?_, ?_⟩
      · rw [List.forall_mem_singleton]
        exact isDigit_digitChar _ hd
      · exact (natOfDigits_concat [] _).trans (by rw [digitValue_digitChar _ hd]; exact Nat.zero_add _)
    | snoc _ hd ih =>
      obtain ⟨_, hdigits, hvalue⟩ := ih
      refine ⟨List.append_ne_nil_of_right_ne_nil _ (List.cons_ne_nil _ _), ?_, ?_⟩
      · rw [List.forall_mem_append, List.forall_mem_singleton]
        exact ⟨hdigits, isDigit_digitChar _ hd⟩
      · rw [natOfDigits_concat, digitValue_digitChar _ hd, hvalue]

/-! ## Signs -/

/-- Digits denote a whole number, with a sign in front of them or without. -/
inductive Denotes : List Char → Int → Prop
  | plain {cs : List Char} {n : Nat} (h : DenotesNat cs n) : Denotes cs n
  | plus {cs : List Char} {n : Nat} (h : DenotesNat cs n) : Denotes ('+' :: cs) n
  | minus {cs : List Char} {n : Nat} (h : DenotesNat cs n) : Denotes ('-' :: cs) (-n)

theorem DenotesNat.isDigit {n : Nat} (h : DenotesNat cs n) : ∀ c ∈ cs, isDigit c = true :=
  (readNat_eq_some.mp (readNat_eq_some_iff.mpr h)).2.1

/-- A text is read as the number that it denotes. -/
theorem readInt_eq_some_iff {n : Int} : readInt cs = some n ↔ Denotes cs n := by
  constructor
  · intro h
    unfold readInt at h
    split at h
    · obtain ⟨m, hm, rfl⟩ := Option.map_eq_some_iff.mp ((readInt_minus _).symm.trans h)
      exact .minus (readNat_eq_some_iff.mp hm)
    · obtain ⟨m, hm, rfl⟩ := Option.map_eq_some_iff.mp ((readInt_plus _).symm.trans h)
      exact .plus (readNat_eq_some_iff.mp hm)
    · cases hm : readNat cs with
      | none =>
        rw [hm] at h
        cases h
      | some m =>
        rw [hm] at h
        cases h
        exact .plain (readNat_eq_some_iff.mp hm)
  · intro h
    cases h with
    | plain h => rw [readInt_of_isDigit h.isDigit, readNat_eq_some_iff.mpr h, Option.map_some]
    | plus h => rw [readInt_plus, readNat_eq_some_iff.mpr h, Option.map_some]
    | minus h => rw [readInt_minus, readNat_eq_some_iff.mpr h, Option.map_some]

/-- A text denotes at most one number. -/
theorem Denotes.unique {m n : Int} (hm : Denotes cs m) (hn : Denotes cs n) : m = n :=
  Option.some_inj.mp ((readInt_eq_some_iff.mpr hm).symm.trans (readInt_eq_some_iff.mpr hn))

/-- Nothing but digits and signs denotes a number. -/
theorem Denotes.isDigit_or {n : Int} (h : Denotes cs n) :
    ∀ c ∈ cs, isDigit c = true ∨ c = '+' ∨ c = '-' := by
  cases h with
  | plain h => exact fun c hc => .inl (h.isDigit c hc)
  | plus h =>
    rw [List.forall_mem_cons]
    exact ⟨.inr (.inl rfl), fun c hc => .inl (h.isDigit c hc)⟩
  | minus h =>
    rw [List.forall_mem_cons]
    exact ⟨.inr (.inr rfl), fun c hc => .inl (h.isDigit c hc)⟩

/-- A text that denotes a number has no white space. -/
theorem Denotes.trim_eq {n : Int} (h : Denotes cs n) : Text.trim cs = cs := by
  have hdigits : ∀ d < 10, Text.isBlank (Nat.digitChar d) = false := by decide
  refine Text.trim_eq_self fun c hc => ?_
  obtain hdigit | rfl | rfl := h.isDigit_or c hc
  · obtain ⟨d, hd, rfl⟩ := exists_digitChar hdigit
    exact hdigits d hd
  · rfl
  · rfl

/-- Of the numbers that texts denote, those that fit are read. -/
theorem readSigned_eq_some_iff {n : Int} :
    readSigned cs = some n ↔ Denotes cs n ∧ minSigned ≤ n ∧ n ≤ maxSigned := by
  rw [readSigned, Option.filter_eq_some_iff, readInt_eq_some_iff, Bool.and_eq_true, decide_eq_true_iff,
    decide_eq_true_iff]

/-! ## Texts of numbers -/

theorem denotesNat_toString (n : Nat) : DenotesNat (toString n).toList n := by
  have hpadded : (padded 0 n).toList = (toString n).toList := by
    rw [toList_padded, Nat.zero_sub, List.replicate_zero, List.nil_append, Nat.toString_eq_repr,
      Nat.toList_repr]
  exact readNat_eq_some_iff.mp (hpadded ▸ readNat_padded 0 n)

/-- The text of a whole number denotes it. -/
theorem denotes_toString (n : Int) : Denotes (toString n).toList n := by
  cases n with
  | ofNat n => exact .plain (denotesNat_toString n)
  | negSucc n =>
    have htext : (toString (Int.negSucc n)).toList = '-' :: (toString (n + 1)).toList := by
      simp [Int.toString_eq_repr, Int.repr]
    rw [htext, Int.negSucc_eq]
    exact .minus (denotesNat_toString (n + 1))

namespace Binary64

variable {digits wholeTail : List Char}

theorem point_mem_positional (htail : '.' ∈ wholeTail) (place : Int) :
    '.' ∈ positional wholeTail digits place := by
  cases place with
  | ofNat k =>
    refine List.mem_append_right _ ?_
    split
    · exact htail
    · exact List.mem_cons_self
  | negSucc k =>
    exact List.mem_append_left _ (List.mem_append_left _ (by decide))

theorem mark_mem_exponential (digits : List Char) (place : Int) : 'e' ∈ exponential digits place := by
  refine List.mem_append_left _ (List.mem_append_right _ ?_)
  split <;> exact List.mem_cons_self

/-- The text of a double shows that it is one. -/
theorem exists_mark {format : RealFormat} (htail : '.' ∈ format.wholeTail) (x : Binary64) :
    ∃ mark ∈ (toTextIn format x).toList, mark = '.' ∨ mark = 'e' := by
  have hbody : ∀ (inside : Prop) [Decidable inside] (sign digits : List Char) (place : Int),
      ∃ mark ∈ sign ++ if inside then positional format.wholeTail digits place else exponential digits place,
        mark = '.' ∨ mark = 'e' := by
    intro inside _ sign digits place
    split
    · exact ⟨'.', List.mem_append_right _ (point_mem_positional htail place), .inl rfl⟩
    · exact ⟨'e', List.mem_append_right _ (mark_mem_exponential digits place), .inr rfl⟩
  simp only [toTextIn]
  by_cases hzero : x.magnitude = 0
  · rw [if_pos hzero, String.toList_ofList]
    exact ⟨'.', List.mem_append_right _ (List.mem_cons_of_mem _ htail), .inl rfl⟩
  · rw [if_neg hzero, String.toList_ofList]
    exact hbody _ _ _ _

/-- So it denotes no whole number. -/
theorem not_denotes_toText (x : Binary64) (n : Int) : ¬ Denotes (Text.trim x.toText.toList) n := by
  intro h
  rw [toText] at h
  obtain ⟨mark, hmem, hmark⟩ := @exists_mark jsonFormat List.mem_cons_self x
  have hblank : Text.isBlank mark = false := by
    rcases hmark with rfl | rfl
    · rfl
    · rfl
  have hdigit := h.isDigit_or mark (Text.mem_trim hblank hmem)
  rcases hmark with rfl | rfl
  · exact absurd hdigit (by decide)
  · exact absurd hdigit (by decide)

end Binary64

end Decimal

end SchemaSearch
