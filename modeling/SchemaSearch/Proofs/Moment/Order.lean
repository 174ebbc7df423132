import SchemaSearch.Moment.Reader
import SchemaSearch.Proofs.Decimal.Padded

/-!
# Stored moments in order

A database column holds moments as text and compares them as text.  Below the year every part is written
with as many digits as it may have, and the fraction only leaves out zeros at its end, so the texts are in
the order of the parts.  Years are not padded to one width and those outside four digits carry a sign, so
two moments of different years are stored in order where the texts of their years are.

Main statements: only moments that exist are read (`isValid_of_read`), stored moments are in the order of
time if and only if their years are (`storedText_lt_iff_before`), and a year of four digits is in order with
every year but those of more digits (`yearsSort_iff_of_fourDigits`).
-/

namespace SchemaSearch.Moment

open Decimal

/-! ## Moments that exist -/

section Reading

variable {cs : List Char} {m : Moment}

theorem isValid_of_readLoose {separator : Separator} {withSeconds : Bool}
    (h : readLoose separator withSeconds cs = some m) : m.isValid = true := by
  cases withSeconds <;>
    simp only [readLoose, Option.bind_eq_bind, Option.bind_eq_some_iff, if_true, Bool.false_eq_true,
      if_false] at h <;>
    grind

theorem isValid_of_readDate (h : readDate cs = some m) : m.isValid = true := by
  simp only [readDate, Option.bind_eq_bind, Option.bind_eq_some_iff] at h
  grind

/-- Only moments that exist are read, in whatever form. -/
theorem isValid_of_read {s : String} (h : read s = some m) : m.isValid = true := by
  obtain ⟨form, hform, hread⟩ := List.exists_of_findSome?_eq_some h
  simp only [forms, List.mem_cons, List.not_mem_nil, or_false] at hform
  rcases hform with rfl | rfl | rfl | rfl | rfl | rfl
  · exact isValid_of_readShown hread
  · exact isValid_of_readLoose hread
  · exact isValid_of_readLoose hread
  · exact isValid_of_readLoose hread
  · exact isValid_of_readLoose hread
  · exact isValid_of_readDate hread

end Reading

/-- The widths of the parts of a moment that exists. -/
theorem bounds_of_isValid {m : Moment} (h : m.isValid = true) :
    m.month < 10 ^ 2 ∧ m.day < 10 ^ 2 ∧ m.hour < 10 ^ 2 ∧ m.minute < 10 ^ 2 ∧ m.second < 10 ^ 2
      ∧ m.nanosecond < 10 ^ 9 := by
  simp only [isValid, Bool.and_eq_true, decide_eq_true_eq] at h
  obtain ⟨⟨⟨⟨⟨⟨-, hday⟩, hdays⟩, hhour⟩, hminute⟩, hsecond⟩, hnanosecond⟩ := h
  have hmonth : m.month < 13 ∧ daysInMonth m.year m.month ≤ 31 := by
    unfold daysInMonth at hdays ⊢
    split at hdays <;> try omega
    all_goals (try split) <;> omega
  omega

/-! ## Fractions -/

/-- A fraction is a point and the nanoseconds without zeros at the end. -/
theorem exists_fractionText {m : Moment} (hpositive : m.nanosecond ≠ 0) (h : m.nanosecond < 10 ^ 9) :
    ∃ digits places, m.fractionText.toList = '.' :: digits ∧ (∀ c ∈ digits, '0' ≤ c)
      ∧ (padded 9 m.nanosecond).toList = digits ++ List.replicate places '0'
      ∧ digits.length + places = 9 := by
  obtain ⟨width, places, n, hwidth, hsum, hn, htext⟩ : ∃ width places n, 0 < width
      ∧ width + places = 9 ∧ m.nanosecond = n * 10 ^ places
      ∧ m.fractionText = "." ++ padded width n := by
    unfold fractionText
    rw [if_neg hpositive]
    split
    · exact ⟨3, 6, m.nanosecond / 1000000, by decide, rfl, by omega, rfl⟩
    · split
      · exact ⟨6, 3, m.nanosecond / 1000, by decide, rfl, by omega, rfl⟩
      · exact ⟨9, 0, m.nanosecond, by decide, rfl, by omega, rfl⟩
  have hfits : n < 10 ^ width := by
    rw [hn, ← hsum, Nat.pow_add] at h
    exact Nat.lt_of_mul_lt_mul_right h
  refine ⟨(padded width n).toList, places, ?_, ?_, ?_, ?_⟩
  · rw [htext, String.toList_append]
    rfl
  · exact fun c hc => zero_le_of_isDigit (isDigit_of_mem_padded hc)
  · rw [hn, ← hsum, toList_padded_mul_pow hwidth]
  · rw [length_padded hwidth hfits, hsum]

variable {a b : Moment}

theorem fractionText_lt (h : a.nanosecond < b.nanosecond) (hb : b.nanosecond < 10 ^ 9) :
    a.fractionText.toList < b.fractionText.toList := by
  obtain ⟨later, j, hlater, -, hlaterPadded, hlaterLength⟩ := exists_fractionText (by omega) hb
  rw [hlater]
  by_cases hzero : a.nanosecond = 0
  · rw [fractionText, if_pos hzero]
    exact List.nil_lt_cons _ _
  · have ha : a.nanosecond < 10 ^ 9 := by omega
    obtain ⟨earlier, i, hearlier, hdigits, hearlierPadded, hearlierLength⟩ :=
      exists_fractionText hzero ha
    have hpadded := (padded_lt_padded_iff (by decide) ha hb).mpr h
    rw [hearlierPadded, hlaterPadded] at hpadded
    rw [hearlier, List.cons_lt_cons_iff]
    exact .inr ⟨rfl, Text.lt_of_append_replicate_lt hdigits hpadded (by omega)⟩

/-- Fractions are in the order of the nanoseconds, whatever their lengths. -/
theorem fractionText_lt_iff (ha : a.nanosecond < 10 ^ 9) (hb : b.nanosecond < 10 ^ 9) :
    a.fractionText.toList < b.fractionText.toList ↔ a.nanosecond < b.nanosecond := by
  refine ⟨fun h => ?_, fun h => fractionText_lt h hb⟩
  rcases Nat.lt_trichotomy a.nanosecond b.nanosecond with hlt | heq | hgt
  · exact hlt
  · rw [fractionText, fractionText, heq] at h
    exact absurd h (lt_irrefl _)
  · exact absurd h (lt_asymm (fractionText_lt hgt ha))

/-! ## Years -/

/-- A year of four digits has no sign, an earlier one a minus and a later one a plus. -/
theorem toList_yearText (year : Int) :
    (0 ≤ year ∧ year ≤ 9999 ∧ (yearText year).toList = (padded 4 year.natAbs).toList)
      ∨ (year < 0 ∧ (yearText year).toList = '-' :: (padded 4 year.natAbs).toList)
      ∨ (9999 < year ∧ (yearText year).toList = '+' :: (padded 4 year.natAbs).toList) := by
  unfold yearText
  split
  · rename_i h
    exact .inl ⟨h.1, h.2, rfl⟩
  · split
    · rename_i h
      exact .inr (.inl ⟨h, by rw [String.toList_append]; rfl⟩)
    · exact .inr (.inr ⟨by omega, by rw [String.toList_append]; rfl⟩)

/-- The text of a year is read as the year. -/
theorem readInt_yearText (year : Int) : readInt (yearText year).toList = some year := by
  rcases toList_yearText year with ⟨hlow, -, htext⟩ | ⟨hnegative, htext⟩ | ⟨hlate, htext⟩
  · rw [htext, readInt_of_isDigit fun c hc => isDigit_of_mem_padded hc, readNat_padded, Option.map_some,
      Int.natAbs_of_nonneg hlow]
  · rw [htext, readInt_minus, readNat_padded, Option.map_some, Int.ofNat_natAbs_of_nonpos (by omega),
      Int.neg_neg]
  · rw [htext, readInt_plus, readNat_padded, Option.map_some, Int.natAbs_of_nonneg (by omega)]

theorem yearText_inj {y z : Int} : yearText y = yearText z ↔ y = z := by
  refine ⟨fun h => ?_, fun h => by rw [h]⟩
  have hread := readInt_yearText y
  rw [h, readInt_yearText, Option.some.injEq] at hread
  exact hread.symm

theorem minus_lt_of_isDigit {c : Char} (h : isDigit c = true) : '-' < c :=
  lt_of_lt_of_le (by decide) (zero_le_of_isDigit h)

/-- Behind its first character a year has digits only. -/
theorem exists_yearText (year : Int) :
    ∃ first digits, (yearText year).toList = first :: digits ∧ ∀ c ∈ digits, '-' < c := by
  have hdigits : ∀ c ∈ (padded 4 year.natAbs).toList, '-' < c :=
    fun c hc => minus_lt_of_isDigit (isDigit_of_mem_padded hc)
  rcases toList_yearText year with ⟨-, -, htext⟩ | ⟨-, htext⟩ | ⟨-, htext⟩
  · cases hpadded : (padded 4 year.natAbs).toList with
    | nil =>
      have hread := readNat_padded 4 year.natAbs
      rw [hpadded] at hread
      cases hread
    | cons first digits =>
      rw [hpadded] at hdigits
      exact ⟨first, digits, by rw [htext, hpadded], fun c hc => hdigits c (List.mem_cons_of_mem _ hc)⟩
  · exact ⟨_, _, htext, hdigits⟩
  · exact ⟨_, _, htext, hdigits⟩

/-- Two texts that start with different years and a dash are told apart by the years. -/
theorem yearText_append_lt_iff {y z : Int} {us vs : List Char} (h : y ≠ z) :
    (yearText y).toList ++ '-' :: us < (yearText z).toList ++ '-' :: vs ↔ yearText y < yearText z := by
  obtain ⟨c, cs, hc, hcs⟩ := exists_yearText y
  obtain ⟨d, ds, hd, hds⟩ := exists_yearText z
  rw [String.lt_iff_toList_lt, hc, hd, List.cons_append, List.cons_append, List.cons_lt_cons_iff,
    List.cons_lt_cons_iff]
  by_cases hfirst : c = d
  · have hrest : cs ≠ ds := by
      rintro rfl
      have hsame : yearText y = yearText z := String.toList_inj.mp (by rw [hc, hd, hfirst])
      exact h (yearText_inj.mp hsame)
    rw [Text.append_cons_lt_iff hcs hds hrest]
  · simp [hfirst]

/-! ## Whole moments -/

/-- Whether the years of two moments are in order as texts. -/
def YearsSort (a b : Moment) : Prop := a.year < b.year ↔ yearText a.year < yearText b.year

instance (a b : Moment) : Decidable (a.YearsSort b) := inferInstanceAs (Decidable (_ ↔ _))

theorem before_iff :
    a.before b = true ↔ a.year < b.year ∨ a.year = b.year ∧ a.parts.tail < b.parts.tail := by
  rw [before, List.lex_eq_true_iff_lt]
  exact List.cons_lt_cons_iff

theorem toList_storedText (m : Moment) :
    m.storedText.toList = (yearText m.year).toList ++ '-' :: ((padded 2 m.month).toList
      ++ '-' :: ((padded 2 m.day).toList ++ ' ' :: ((padded 2 m.hour).toList
      ++ ':' :: ((padded 2 m.minute).toList ++ ':' :: ((padded 2 m.second).toList
      ++ m.fractionText.toList))))) := by
  simp [storedText, dateText, clockText]

/-- Below the year, stored texts are in the order of the parts. -/
theorem storedText_lt_iff (ha : a.isValid = true) (hb : b.isValid = true) :
    a.storedText < b.storedText
      ↔ yearText a.year < yearText b.year ∨ a.year = b.year ∧ a.parts.tail < b.parts.tail := by
  obtain ⟨ha₁, ha₂, ha₃, ha₄, ha₅, ha₆⟩ := bounds_of_isValid ha
  obtain ⟨hb₁, hb₂, hb₃, hb₄, hb₅, hb₆⟩ := bounds_of_isValid hb
  rw [String.lt_iff_toList_lt, toList_storedText, toList_storedText]
  by_cases hyear : a.year = b.year
  · simp only [hyear, Text.append_lt_append_iff, List.cons_lt_cons_iff, lt_irrefl, true_and, false_or,
      padded_append_lt_iff (Nat.succ_pos 1) ha₁ hb₁, padded_append_lt_iff (Nat.succ_pos 1) ha₂ hb₂,
      padded_append_lt_iff (Nat.succ_pos 1) ha₃ hb₃, padded_append_lt_iff (Nat.succ_pos 1) ha₄ hb₄,
      padded_append_lt_iff (Nat.succ_pos 1) ha₅ hb₅, fractionText_lt_iff ha₆ hb₆, parts, List.tail_cons,
      Int.ofNat_lt, Int.ofNat_inj, and_false, or_false]
  · rw [yearText_append_lt_iff hyear]
    simp [hyear]

/-- Stored moments are in the order of time if and only if their years are. -/
theorem storedText_lt_iff_before (ha : a.isValid = true) (hb : b.isValid = true) :
    (a.storedText < b.storedText ↔ a.before b = true) ↔ a.YearsSort b := by
  rw [storedText_lt_iff ha hb, before_iff, YearsSort]
  by_cases hyear : a.year = b.year
  · simp [hyear]
  · simp [hyear, iff_comm]

/-- A stored text stands for one moment. -/
theorem storedText_inj (ha : a.isValid = true) (hb : b.isValid = true) :
    a.storedText = b.storedText ↔ a = b := by
  refine ⟨fun h => ?_, fun h => by rw [h]⟩
  have hlt : ¬ a.storedText < b.storedText := by rw [h]; exact lt_irrefl _
  have hgt : ¬ b.storedText < a.storedText := by rw [h]; exact lt_irrefl _
  rw [storedText_lt_iff ha hb, not_or] at hlt
  rw [storedText_lt_iff hb ha, not_or] at hgt
  have hyear : a.year = b.year := yearText_inj.mp (le_antisymm (not_lt.mp hgt.1) (not_lt.mp hlt.1))
  have hrest : a.parts.tail = b.parts.tail :=
    le_antisymm (not_lt.mp fun h => hgt.2 ⟨hyear.symm, h⟩) (not_lt.mp fun h => hlt.2 ⟨hyear, h⟩)
  simp only [parts, List.tail_cons, List.cons.injEq, Int.ofNat_inj, and_true] at hrest
  cases a
  cases b
  simp_all

/-! ## Years of four digits -/

section FourDigits

variable {y z : Int} (hlow : 0 ≤ y) (hhigh : y ≤ 9999)

include hlow hhigh

theorem toList_yearText_of_fourDigits : (yearText y).toList = (padded 4 y.natAbs).toList := by
  rcases toList_yearText y with ⟨-, -, htext⟩ | ⟨hsign, -⟩ | ⟨hsign, -⟩
  · exact htext
  · omega
  · omega

theorem yearText_lt_iff_of_fourDigits (hlow' : 0 ≤ z) (hhigh' : z ≤ 9999) :
    yearText y < yearText z ↔ y < z := by
  rw [String.lt_iff_toList_lt, toList_yearText_of_fourDigits hlow hhigh,
    toList_yearText_of_fourDigits hlow' hhigh', padded_lt_padded_iff (by decide) (by omega) (by omega)]
  omega

/-- Every sign comes before every digit. -/
theorem yearText_lt_of_sign (hsign : z < 0 ∨ 9999 < z) : yearText z < yearText y := by
  obtain ⟨first, digits, htext, -⟩ := exists_yearText y
  have hfirst : isDigit first = true := by
    rw [toList_yearText_of_fourDigits hlow hhigh] at htext
    exact isDigit_of_mem_padded (by rw [htext]; exact List.mem_cons_self)
  have hdigit := minus_lt_of_isDigit hfirst
  rw [String.lt_iff_toList_lt, htext]
  rcases toList_yearText z with ⟨_, _, _⟩ | ⟨-, hsigned⟩ | ⟨-, hsigned⟩
  · omega
  · rw [hsigned, List.cons_lt_cons_iff]
    exact .inl hdigit
  · rw [hsigned, List.cons_lt_cons_iff]
    exact .inl (lt_trans (by decide) hdigit)

end FourDigits

/-- A year of four digits is in order with another one, on either side, unless that one is too late for
four digits. -/
theorem yearsSort_iff_of_fourDigits (hlow : 0 ≤ a.year) (hhigh : a.year ≤ 9999) :
    (a.YearsSort b ↔ b.year ≤ 9999) ∧ (b.YearsSort a ↔ b.year ≤ 9999) := by
  unfold YearsSort
  rcases lt_or_ge b.year 0 with hnegative | hb
  · have htext := yearText_lt_of_sign hlow hhigh (.inl hnegative)
    simp only [htext, lt_asymm htext, iff_true, iff_false]
    omega
  · rcases lt_or_ge 9999 b.year with hlate | hb'
    · have htext := yearText_lt_of_sign hlow hhigh (.inr hlate)
      simp only [htext, lt_asymm htext, iff_true, iff_false]
      omega
    · rw [yearText_lt_iff_of_fourDigits hlow hhigh hb hb', yearText_lt_iff_of_fourDigits hb hb' hlow hhigh]
      simp [hb']

end SchemaSearch.Moment
