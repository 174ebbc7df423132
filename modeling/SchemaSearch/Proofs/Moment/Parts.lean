import SchemaSearch.Proofs.Decimal.Numerals
import SchemaSearch.Proofs.Moment.Order

/-!
# The parts of a written moment

What the readers of moments make of the parts: white space at the ends of a text, numbers that are padded to
the width of their field, the fraction of a second, and the offset of the clocks.  Each part is read whole,
and what follows it stays.
-/

namespace SchemaSearch

open Decimal

/-! ## White space around a text -/

namespace Text

variable {cs before after : List Char}

theorem trimStart_append (h : ∀ c ∈ before, isBlank c = true) (cs : List Char) :
    trimStart (before ++ cs) = trimStart cs := List.dropWhile_append_of_pos h

theorem trimEnd_append (h : ∀ c ∈ after, isBlank c = true) (cs : List Char) :
    trimEnd (cs ++ after) = trimEnd cs := by
  rw [trimEnd, List.reverse_append, trimStart_append fun c hc => h c (List.mem_reverse.mp hc), trimEnd]

/-- White space around a text is trimmed, whatever the text. -/
theorem trim_surrounded (hbefore : ∀ c ∈ before, isBlank c = true) (hafter : ∀ c ∈ after, isBlank c = true)
    (cs : List Char) : trim (before ++ cs ++ after) = trim cs := by
  rw [trim, List.append_assoc, trimStart_append hbefore]
  by_cases hblank : trimStart cs = []
  · have hall : trimStart (cs ++ after) = [] := by
      rw [trimStart, List.dropWhile_eq_nil_iff] at hblank ⊢
      rw [List.forall_mem_append]
      exact ⟨hblank, hafter⟩
    rw [hall, trim, hblank]
  · have happend : trimStart (cs ++ after) = trimStart cs ++ after := by
      rw [trimStart, List.dropWhile_append, if_neg (by rwa [List.isEmpty_iff])]
      rfl
    rw [happend, trimEnd_append hafter, trim]

theorem trimStart_eq_self_of_head (h : ∀ c ∈ cs.head?, isBlank c = false) : trimStart cs = cs := by
  cases cs with
  | nil => rfl
  | cons c cs => exact List.dropWhile_cons_of_neg (by rw [h c rfl]; exact Bool.false_ne_true)

/-- A text that has no white space at its ends is trimmed already. -/
theorem trim_eq_self_of_ends (hfirst : ∀ c ∈ cs.head?, isBlank c = false)
    (hlast : ∀ c ∈ cs.getLast?, isBlank c = false) : trim cs = cs := by
  rw [← List.head?_reverse] at hlast
  rw [trim, trimStart_eq_self_of_head hfirst, trimEnd, trimStart_eq_self_of_head hlast, List.reverse_reverse]

theorem trim_append_eq_self {front back : List Char} (hfirst : ∀ c ∈ (front ++ back).head?, isBlank c = false)
    (hne : back ≠ []) (hback : ∀ c ∈ back, isBlank c = false) : trim (front ++ back) = front ++ back := by
  refine trim_eq_self_of_ends hfirst fun c hc => ?_
  rw [List.getLast?_append_of_ne_nil _ hne] at hc
  exact hback c (List.mem_of_getLast? hc)

end Text

/-! ## Numbers of a width -/

namespace Decimal

theorem isBlank_of_isDigit {c : Char} (h : isDigit c = true) : Text.isBlank c = false := by
  have hdigits : ∀ d < 10, Text.isBlank (Nat.digitChar d) = false := by decide
  obtain ⟨d, hd, rfl⟩ := exists_digitChar h
  exact hdigits d hd

theorem isBlank_of_mem_padded {width n : Nat} : ∀ c ∈ (padded width n).toList, Text.isBlank c = false :=
  fun _ hc => isBlank_of_isDigit (isDigit_of_mem_padded hc)

/-- A padded number starts with a digit. -/
theorem exists_padded {width n : Nat} (hwidth : 0 < width) (hn : n < 10 ^ width) :
    ∃ first rest, (padded width n).toList = first :: rest ∧ isDigit first = true := by
  cases hpadded : (padded width n).toList with
  | nil =>
    have hlength := length_padded hwidth hn
    rw [hpadded] at hlength
    exact absurd hlength (Nat.ne_of_lt hwidth)
  | cons first rest =>
    exact ⟨first, rest, rfl, isDigit_of_mem_padded (hpadded ▸ List.mem_cons_self)⟩

end Decimal

namespace Moment

section Numbers

variable {least most width n : Nat} {digits rest : List Char}

/-- Digits are taken as far as they are asked for, or as far as they go. -/
theorem takeDigits_append (hdigits : ∀ c ∈ digits, isDigit c = true) (hlength : digits.length ≤ most)
    (hstop : digits.length = most ∨ ∀ c ∈ rest.head?, isDigit c = false) :
    takeDigits most (digits ++ rest) = digits := by
  induction digits generalizing most with
  | nil =>
    cases most with
    | zero => rfl
    | succ most =>
      cases rest with
      | nil => rfl
      | cons c rest =>
        have hc : isDigit c = false := hstop.resolve_left (by simp) c rfl
        rw [List.nil_append, takeDigits, hc, if_neg Bool.false_ne_true]
  | cons d digits ih =>
    rw [List.length_cons] at hlength hstop
    obtain ⟨most, rfl⟩ : ∃ k, most = k + 1 := ⟨most - 1, by omega⟩
    rw [List.cons_append, takeDigits, if_pos (hdigits d List.mem_cons_self),
      ih (fun c hc => hdigits c (List.mem_cons_of_mem _ hc)) (by omega) (hstop.imp_left Nat.succ.inj)]

/-- A number that is padded to the most digits of a field is read whole. -/
theorem number_padded (hleast : least ≤ width) (hwidth : 0 < width) (hn : n < 10 ^ width) :
    number least width ((padded width n).toList ++ rest) = some (n, rest) := by
  have hlength := length_padded hwidth hn
  have htaken : takeDigits width ((padded width n).toList ++ rest) = (padded width n).toList :=
    takeDigits_append (fun c hc => isDigit_of_mem_padded hc) hlength.le (.inl hlength)
  rw [number, htaken, hlength, if_pos hleast, natOfDigits_padded, List.drop_left' hlength]

/-- The part that is next is a number, and the rest is read behind it. -/
theorem bind_number_padded {α : Type} (hleast : least ≤ width) (hwidth : 0 < width) (hn : n < 10 ^ width)
    (next : Nat × List Char → Option α) :
    (number least width ((padded width n).toList ++ rest) >>= next) = next (n, rest) := by
  rw [number_padded hleast hwidth hn]
  rfl

theorem bind_mark {α : Type} (c : Char) (next : List Char → Option α) :
    (mark c (c :: rest) >>= next) = next rest := by
  rw [mark, if_pos rfl]
  rfl

theorem bind_timeMark {α : Type} {c : Char} (hc : isTimeMark c = true) (next : List Char → Option α) :
    (timeMark (c :: rest) >>= next) = next rest := by
  rw [timeMark, if_pos hc]
  rfl

theorem trimStart_padded (hwidth : 0 < width) (hn : n < 10 ^ width) :
    Text.trimStart ((padded width n).toList ++ rest) = (padded width n).toList ++ rest := by
  obtain ⟨first, tail, htext, hfirst⟩ := exists_padded hwidth hn
  rw [htext]
  exact Text.trimStart_eq_self_of_head fun c hc => by
    cases hc
    exact isBlank_of_isDigit hfirst

theorem looseNumber_padded (hwidth : 0 < width) (hn : n < 10 ^ width) :
    looseNumber width ((padded width n).toList ++ rest) = some (n, rest) := by
  rw [looseNumber, trimStart_padded hwidth hn, number_padded hwidth hwidth hn]

/-- No number starts with a letter. -/
theorem looseNumber_eq_none {c : Char} (hblank : Text.isBlank c = false) (hdigit : isDigit c = false) :
    looseNumber (most + 1) (c :: rest) = none := by
  have hstart : Text.trimStart (c :: rest) = c :: rest :=
    Text.trimStart_eq_self_of_head fun d hd => by
      cases hd
      exact hblank
  rw [looseNumber, hstart, number, takeDigits, hdigit, if_neg Bool.false_ne_true]
  rfl

theorem looseYear_padded (hn : n < 10 ^ 4) : looseYear ((padded 4 n).toList ++ rest) = some ((n : Int), rest) := by
  obtain ⟨first, tail, htext, hfirst⟩ := exists_padded (by decide) hn
  rw [looseYear, trimStart_padded (by decide) hn]
  split
  · rename_i heq
    rw [htext] at heq
    cases heq
    cases hfirst
  · rename_i heq
    rw [htext] at heq
    cases heq
    cases hfirst
  · rw [number_padded (by decide) (by decide) hn]
    rfl

end Numbers

/-! ## Fractions and offsets -/

/-- How a fraction is written: not at all when it is zero, or as a point and up to nine digits. -/
inductive IsFraction : Nat → String → Prop
  | none : IsFraction 0 ""
  | point {digits : List Char} {n : Nat} (hdigits : DenotesNat digits n) (hshort : digits.length ≤ 9) :
    IsFraction (n * 10 ^ (9 - digits.length)) (String.ofList ('.' :: digits))

/-- How an offset in minutes is written: by a letter, or as a sign, hours and minutes. -/
inductive IsOffset : Int → String → Prop
  | upper : IsOffset 0 "Z"
  | lower : IsOffset 0 "z"
  | ahead {hours minutes : Nat} (hhours : hours < 24) (hminutes : minutes < 60) :
    IsOffset (60 * hours + minutes) ("+" ++ padded 2 hours ++ ":" ++ padded 2 minutes)
  | behind {hours minutes : Nat} (hhours : hours < 24) (hminutes : minutes < 60) :
    IsOffset (-(60 * hours + minutes)) ("-" ++ padded 2 hours ++ ":" ++ padded 2 minutes)

section Parts

variable {n : Nat} {text : String} {rest : List Char}

theorem isBlank_of_mem_fraction (h : IsFraction n text) : ∀ c ∈ text.toList, Text.isBlank c = false := by
  cases h with
  | none => simp
  | point hdigits hshort =>
    rw [String.toList_ofList, List.forall_mem_cons]
    exact ⟨by decide, fun c hc => isBlank_of_isDigit (hdigits.isDigit c hc)⟩

theorem isBlank_of_mem_offset {minutes : Int} (h : IsOffset minutes text) :
    ∀ c ∈ text.toList, Text.isBlank c = false := by
  obtain ⟨hupper, hlower, hplus, hminus, hcolon⟩ : Text.isBlank 'Z' = false ∧ Text.isBlank 'z' = false
      ∧ Text.isBlank '+' = false ∧ Text.isBlank '-' = false ∧ Text.isBlank ':' = false := by decide
  have hsigned : ∀ sign : Char, Text.isBlank sign = false → ∀ hours minutes : Nat,
      ∀ c ∈ sign :: ((padded 2 hours).toList ++ ':' :: (padded 2 minutes).toList), Text.isBlank c = false := by
    intro sign hsign hours minutes
    simp only [List.forall_mem_cons, List.forall_mem_append]
    exact ⟨hsign, isBlank_of_mem_padded, hcolon, isBlank_of_mem_padded⟩
  cases h with
  | upper => simpa using hupper
  | lower => simpa using hlower
  | ahead => simpa using hsigned '+' hplus _ _
  | behind => simpa using hsigned '-' hminus _ _

theorem fraction_append (h : IsFraction n text) (hrest : ∀ c ∈ rest.head?, isDigit c = false ∧ c ≠ '.') :
    fraction (text.toList ++ rest) = some (n, rest) := by
  cases h with
  | none =>
    cases rest with
    | nil => rfl
    | cons c rest =>
      have hc : c ≠ '.' := (hrest c rfl).2
      show fraction (c :: rest) = some (0, c :: rest)
      unfold fraction
      split
      · rename_i heq
        cases heq
        exact absurd rfl hc
      · rfl
  | @point digits n hdigits hshort =>
    obtain ⟨hne, hall, hvalue⟩ := readNat_eq_some.mp (readNat_eq_some_iff.mpr hdigits)
    have htaken : takeDigits 9 (digits ++ rest) = digits :=
      takeDigits_append hall hshort (.inr fun c hc => (hrest c hc).1)
    have hdropped : rest.dropWhile isDigit = rest := by
      cases rest with
      | nil => rfl
      | cons c rest => exact List.dropWhile_cons_of_neg (by rw [(hrest c rfl).1]; exact Bool.false_ne_true)
    rw [String.toList_ofList, List.cons_append, fraction, nanoseconds, htaken,
      if_neg fun hempty => hne (List.isEmpty_iff.mp hempty), hvalue, List.drop_left' rfl, hdropped]
    rfl

/-- The two digits of a number below a hundred. -/
theorem toList_padded_two {n : Nat} (hn : n < 100) :
    (padded 2 n).toList = [(n / 10).digitChar, (n % 10).digitChar] := by
  rw [toList_padded_succ (by decide), toList_padded, Nat.toDigits_of_lt_base (by omega)]
  rfl

/-- The digits of a number below a hundred, as hours and minutes are read. -/
theorem two_digits {n : Nat} (hn : n < 100) :
    isDigit (n / 10).digitChar = true ∧ isDigit (n % 10).digitChar = true
      ∧ natOfDigits [(n / 10).digitChar, (n % 10).digitChar] = n :=
  ⟨isDigit_digitChar _ (by omega), isDigit_digitChar _ (by omega),
    toList_padded_two hn ▸ natOfDigits_padded 2 n⟩

theorem offset_signed {sign : Char} (hsign : sign = '+' ∨ sign = '-') {hours minutes : Nat} (hhours : hours < 24)
    (hminutes : minutes < 60) :
    offset (sign :: ((padded 2 hours).toList ++ ':' :: (padded 2 minutes).toList))
      = some (if sign = '+' then (60 * hours + minutes : Int) else -(60 * hours + minutes)) := by
  have htens : ∀ d < 6, '0' ≤ Nat.digitChar d ∧ Nat.digitChar d ≤ '5' := by decide
  obtain ⟨hlow, hhigh⟩ := htens (minutes / 10) (by omega)
  obtain ⟨hfirst, hsecond, hhoursValue⟩ := two_digits (n := hours) (by omega)
  obtain ⟨-, hlast, hminutesValue⟩ := two_digits (n := minutes) (by omega)
  rw [toList_padded_two (by omega), toList_padded_two (by omega)]
  unfold offset
  -- the sign decides which form it is, so it comes first
  rcases hsign with rfl | rfl <;>
    simp [hhoursValue, hminutesValue, hfirst, hsecond, hlast, hlow, hhigh, hhours]

/-- An offset starts with a sign or a letter. -/
theorem IsOffset.head {minutes : Int} (h : IsOffset minutes text) :
    ∀ c ∈ text.toList.head?, isDigit c = false ∧ c ≠ '.' := by
  cases h <;> simp [isDigit]

theorem offset_eq_some {minutes : Int} (h : IsOffset minutes text) : offset text.toList = some minutes := by
  cases h with
  | upper => rfl
  | lower => rfl
  | ahead hhours hminutes => simpa using offset_signed (.inl rfl) hhours hminutes
  | behind hhours hminutes => simpa using offset_signed (.inr rfl) hhours hminutes

end Parts

end Moment

end SchemaSearch
