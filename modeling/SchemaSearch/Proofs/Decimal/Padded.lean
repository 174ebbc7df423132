import Mathlib.Data.List.Lex
import Mathlib.Data.String.Basic
import SchemaSearch.Decimal.Integer

/-!
# Padded numbers

Numbers that are written with leading zeros are read back, and where they have as many digits as each
other their texts are in their own order.

Main statements: a padded number is read back (`readNat_padded`), and numbers that fit the width they are
padded to are ordered as their texts are (`padded_lt_padded_iff`).
-/

namespace SchemaSearch

/-! ## Lists that go on -/

namespace Text

variable {α : Type} [LinearOrder α] {xs ys us vs : List α}

/-- Of two lists of one length that go on, the first items that differ decide. -/
theorem append_lt_append_iff : ∀ {xs ys : List α}, xs.length = ys.length →
    (xs ++ us < ys ++ vs ↔ xs < ys ∨ xs = ys ∧ us < vs)
  | [], [], _ => by simp
  | [], _ :: _, h => by simp at h
  | _ :: _, [], h => by simp at h
  | x :: xs, y :: ys, h => by
    have hlength : xs.length = ys.length := by simpa using h
    rw [List.cons_append, List.cons_append, List.cons_lt_cons_iff, List.cons_lt_cons_iff,
      append_lt_append_iff hlength, List.cons.injEq]
    tauto

/-- Lists that go on with an item below all of theirs are told apart before it. -/
theorem append_cons_lt_iff {mark : α} : ∀ {xs ys : List α}, (∀ x ∈ xs, mark < x) → (∀ y ∈ ys, mark < y) →
    xs ≠ ys → (xs ++ mark :: us < ys ++ mark :: vs ↔ xs < ys)
  | [], [], _, _, hne => absurd rfl hne
  | [], y :: ys, _, hys, _ => by
    have hy : mark < y := hys y List.mem_cons_self
    simp [List.cons_lt_cons_iff, hy]
  | x :: xs, [], hxs, _, _ => by
    have hx : mark < x := hxs x List.mem_cons_self
    simp [List.cons_lt_cons_iff, hx.le, hx.ne']
  | x :: xs, y :: ys, hxs, hys, hne => by
    rw [List.cons_append, List.cons_append, List.cons_lt_cons_iff, List.cons_lt_cons_iff]
    by_cases hxy : x = y
    · subst hxy
      have htail : xs ≠ ys := fun h => hne (by rw [h])
      rw [append_cons_lt_iff (fun a ha => hxs a (List.mem_cons_of_mem _ ha))
        (fun a ha => hys a (List.mem_cons_of_mem _ ha)) htail]
    · simp [hxy]

/-- Lists that are filled up with least items to one length are ordered as they were before. -/
theorem lt_of_append_replicate_lt {least : α} {i j : Nat} : ∀ {xs ys : List α}, (∀ x ∈ xs, least ≤ x) →
    xs ++ List.replicate i least < ys ++ List.replicate j least →
    xs.length + i = ys.length + j → xs < ys
  | [], [], _, h, hlength => by
    obtain rfl : i = j := by simpa using hlength
    exact absurd h (lt_irrefl _)
  | [], y :: ys, _, _, _ => by simp
  | x :: xs, [], hxs, h, hlength => by
    obtain ⟨j, rfl⟩ : ∃ k, j = k + 1 := ⟨j - 1, by simp at hlength; omega⟩
    rw [List.cons_append, List.nil_append, List.replicate_succ, List.cons_lt_cons_iff] at h
    have hx : least ≤ x := hxs x List.mem_cons_self
    rcases h with h | ⟨_, h⟩
    · exact absurd h (not_lt.mpr hx)
    · have hnil : xs < [] := lt_of_append_replicate_lt (fun a ha => hxs a (List.mem_cons_of_mem _ ha)) h
        (by simp at hlength ⊢; omega)
      exact absurd hnil (List.not_lt_nil _)
  | x :: xs, y :: ys, hxs, h, hlength => by
    rw [List.cons_append, List.cons_append, List.cons_lt_cons_iff] at h
    rw [List.cons_lt_cons_iff]
    refine h.imp_right fun ⟨hxy, h⟩ => ⟨hxy, ?_⟩
    exact lt_of_append_replicate_lt (fun a ha => hxs a (List.mem_cons_of_mem _ ha)) h
      (by simp at hlength; omega)

end Text

/-! ## Digits -/

namespace Decimal

theorem digitChar_lt_digitChar_iff :
    ∀ m < 10, ∀ n < 10, Nat.digitChar m < Nat.digitChar n ↔ m < n := by
  decide

theorem zero_le_of_isDigit {c : Char} (h : isDigit c = true) : '0' ≤ c := by
  simp only [isDigit, Bool.and_eq_true, decide_eq_true_eq] at h
  exact h.1

/-- The digits of a number, and zeros in front of them. -/
theorem toList_padded (width n : Nat) :
    (padded width n).toList
      = List.replicate (width - (Nat.toDigits 10 n).length) '0' ++ Nat.toDigits 10 n := by
  rw [padded, String.toList_append, String.toList_ofList, ← String.length_toList, Nat.toString_eq_repr,
    Nat.toList_repr]

/-- The last digit of a number that is padded by at least one more. -/
theorem toList_padded_succ {width : Nat} (hwidth : 0 < width) (n : Nat) :
    (padded (width + 1) n).toList = (padded width (n / 10)).toList ++ [(n % 10).digitChar] := by
  rw [toList_padded, toList_padded]
  rcases Nat.lt_or_ge n 10 with hn | hn
  · obtain ⟨k, rfl⟩ : ∃ k, width = k + 1 := ⟨width - 1, by omega⟩
    have hzero : n / 10 = 0 := Nat.div_eq_of_lt hn
    rw [hzero, Nat.toDigits_of_lt_base hn, Nat.toDigits_zero, Nat.mod_eq_of_lt hn]
    simp [List.replicate_succ']
  · rw [Nat.toDigits_eq_if (by decide) (n := n), if_neg (by omega), List.length_append,
      List.length_singleton, Nat.add_sub_add_right, List.append_assoc]

/-- Zeros behind a number are places that its width has more. -/
theorem toList_padded_mul_pow {width : Nat} (hwidth : 0 < width) (n : Nat) : ∀ places,
    (padded (width + places) (n * 10 ^ places)).toList
      = (padded width n).toList ++ List.replicate places '0'
  | 0 => by simp
  | places + 1 => by
    have hlast : n * 10 ^ (places + 1) = n * 10 ^ places * 10 := by rw [Nat.pow_succ, Nat.mul_assoc]
    rw [← Nat.add_assoc, toList_padded_succ (by omega), hlast, Nat.mul_div_cancel _ (by decide),
      Nat.mul_mod_left, toList_padded_mul_pow hwidth n places, List.append_assoc, List.replicate_succ']
    rfl

theorem isDigit_of_mem_padded {width n : Nat} {c : Char} (h : c ∈ (padded width n).toList) :
    isDigit c = true := by
  rw [toList_padded, List.mem_append] at h
  rcases h with h | h
  · rw [List.eq_of_mem_replicate h]
    rfl
  · have hdigit := Nat.isDigit_of_mem_toDigits (by decide) (by decide) h
    simpa [isDigit, Char.isDigit, Char.le_def] using hdigit

/-- A number that fits the width takes all of it. -/
theorem length_padded {width n : Nat} (hwidth : 0 < width) (hn : n < 10 ^ width) :
    (padded width n).toList.length = width := by
  have hfits := (Nat.length_toDigits_le_iff (b := 10) (n := n) (by decide) hwidth).mpr hn
  rw [toList_padded, List.length_append, List.length_replicate]
  omega

/-! ## Reading back -/

theorem natOfDigits_padded (width n : Nat) : natOfDigits (padded width n).toList = n := by
  have hzeros : ∀ k, (List.replicate k '0').foldl (fun n c => 10 * n + digitValue c) 0 = 0 := by
    intro k
    induction k with
    | zero => rfl
    | succ k ih => rw [List.replicate_succ, List.foldl_cons]; exact ih
  rw [toList_padded, natOfDigits, List.foldl_append, hzeros]
  exact Nat.ofDigitChars_ten_toDigits

theorem readNat_padded (width n : Nat) : readNat (padded width n).toList = some n := by
  have hempty : (padded width n).toList.isEmpty = false := by
    rw [toList_padded, List.isEmpty_eq_false_iff]
    exact List.append_ne_nil_of_right_ne_nil _ Nat.toDigits_ne_nil
  have hdigits : (padded width n).toList.all isDigit = true :=
    List.all_eq_true.mpr fun c hc => isDigit_of_mem_padded hc
  rw [readNat, hempty, hdigits, natOfDigits_padded]
  rfl

theorem readInt_minus (cs : List Char) :
    readInt ('-' :: cs) = (readNat cs).map fun n : Nat => -(n : Int) := by
  rw [readInt]
  cases readNat cs <;> rfl

theorem readInt_plus (cs : List Char) :
    readInt ('+' :: cs) = (readNat cs).map fun n : Nat => (n : Int) := by
  rw [readInt]
  cases readNat cs <;> rfl

/-- A text without a sign is read as a natural number. -/
theorem readInt_of_isDigit {cs : List Char} (h : ∀ c ∈ cs, isDigit c = true) :
    readInt cs = (readNat cs).map fun n : Nat => (n : Int) := by
  unfold readInt
  split
  · exact absurd (h '-' List.mem_cons_self) (by decide)
  · exact absurd (h '+' List.mem_cons_self) (by decide)
  · cases readNat cs <;> rfl

/-! ## Order -/

theorem strictMonoOn_padded {width : Nat} (hwidth : 0 < width) :
    StrictMonoOn (fun n => (padded width n).toList) (Set.Iio (10 ^ width)) := by
  -- on the width: the last digit decides only between texts that agree in front of it
  induction width, hwidth using Nat.le_induction with
  | base =>
    intro m (hm : m < 10) n (hn : n < 10) hmn
    dsimp only
    rw [toList_padded, toList_padded, Nat.toDigits_of_lt_base hm, Nat.toDigits_of_lt_base hn]
    simpa [List.cons_lt_cons_iff] using (digitChar_lt_digitChar_iff m hm n hn).mpr hmn
  | succ width hwidth ih =>
    intro m (hm : m < 10 ^ (width + 1)) n (hn : n < 10 ^ (width + 1)) hmn
    have hm' : m / 10 < 10 ^ width := by rw [Nat.pow_succ] at hm; omega
    have hn' : n / 10 < 10 ^ width := by rw [Nat.pow_succ] at hn; omega
    have hlength : (padded width (m / 10)).toList.length = (padded width (n / 10)).toList.length := by
      rw [length_padded hwidth hm', length_padded hwidth hn']
    dsimp only
    rw [toList_padded_succ hwidth, toList_padded_succ hwidth, Text.append_lt_append_iff hlength]
    rcases Nat.lt_or_eq_of_le (Nat.div_le_div_right (c := 10) (Nat.le_of_lt hmn)) with hfront | hfront
    · exact .inl (ih hm' hn' hfront)
    · refine .inr ⟨by rw [hfront], List.cons_lt_cons_iff.mpr (.inl ?_)⟩
      exact (digitChar_lt_digitChar_iff _ (Nat.mod_lt _ (by decide)) _ (Nat.mod_lt _ (by decide))).mpr
        (by omega)

/-- Numbers that fit the width are ordered as their texts. -/
theorem padded_lt_padded_iff {width m n : Nat} (hwidth : 0 < width) (hm : m < 10 ^ width)
    (hn : n < 10 ^ width) : (padded width m).toList < (padded width n).toList ↔ m < n :=
  (strictMonoOn_padded hwidth).lt_iff_lt hm hn

/-- Of two texts that start with padded numbers, the numbers decide if they differ. -/
theorem padded_append_lt_iff {width m n : Nat} {us vs : List Char} (hwidth : 0 < width)
    (hm : m < 10 ^ width) (hn : n < 10 ^ width) :
    (padded width m).toList ++ us < (padded width n).toList ++ vs ↔ m < n ∨ m = n ∧ us < vs := by
  have hlength : (padded width m).toList.length = (padded width n).toList.length := by
    rw [length_padded hwidth hm, length_padded hwidth hn]
  have hsame : (padded width m).toList = (padded width n).toList ↔ m = n :=
    ⟨fun h => (strictMonoOn_padded hwidth).injOn hm hn h, fun h => by rw [h]⟩
  rw [Text.append_lt_append_iff hlength, padded_lt_padded_iff hwidth hm hn, hsame]

end Decimal

end SchemaSearch
