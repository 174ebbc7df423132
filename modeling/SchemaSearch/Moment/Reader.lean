import SchemaSearch.Moment.Zone

/-!
# Reading moments

A moment is read in the first of six forms that fits the whole text, after trimming: the Internet
date/time form with an offset, of which the time on the clocks of the place is kept; then four forms of date
and time that differ in the separator and in whether seconds are given; then a bare date, which stands for its
midnight.

The Internet form wants every digit.  The others are lenient: a number may have fewer digits than its
field and blanks in front of it, the blank between date and time may be missing, and a year with a
sign may have any number of digits.
-/

namespace SchemaSearch.Moment

open Decimal

/-! ## Numbers and marks -/

/-- Take at most `most` digits. -/
def takeDigits : Nat → List Char → List Char
  | 0, _ => []
  | _ + 1, [] => []
  | most + 1, c :: cs => if isDigit c then c :: takeDigits most cs else []

/-- Read a number of `least` to `most` digits; further digits stay. -/
def number (least most : Nat) (cs : List Char) : Option (Nat × List Char) :=
  let digits := takeDigits most cs
  if least ≤ digits.length then some (natOfDigits digits, cs.drop digits.length) else none

/-- Read one given character. -/
def mark (c : Char) : List Char → Option (List Char)
  | [] => none
  | d :: ds => if d = c then some ds else none

/-- The digits after a point as nanoseconds; digits past the ninth are skipped. -/
def nanoseconds (cs : List Char) : Option (Nat × List Char) :=
  let digits := takeDigits 9 cs
  if digits.isEmpty then none
  else
    some (natOfDigits digits * Nat.pow 10 (9 - digits.length), (cs.drop digits.length).dropWhile isDigit)

/-- Read a fraction if there is a point. -/
def fraction : List Char → Option (Nat × List Char)
  | '.' :: cs => nanoseconds cs
  | cs => some (0, cs)

/-! ## The Internet form -/

/-- The letters and the blank that may stand between date and time. -/
def isTimeMark (c : Char) : Bool := c = 'T' || c = 't' || c = ' '

/-- Read the separator of date and time. -/
def timeMark : List Char → Option (List Char)
  | [] => none
  | c :: cs => if isTimeMark c then some cs else none

/-- Read an offset to the end of the text, in minutes: `Z`, or a sign, hours up to 23 and minutes.  The sign
may be the typographic minus. -/
def offset : List Char → Option Int
  | ['Z'] | ['z'] => some 0
  | sign :: h₁ :: h₂ :: ':' :: m₁ :: [m₂] =>
    if (sign = '+' || sign = '-' || sign = '\u2212') && isDigit h₁ && isDigit h₂
        && '0' ≤ m₁ && m₁ ≤ '5' && isDigit m₂ && natOfDigits [h₁, h₂] < 24 then
      let minutes := 60 * natOfDigits [h₁, h₂] + natOfDigits [m₁, m₂]
      some (if sign = '+' then (minutes : Int) else -minutes)
    else none
  | _ => none

/-- Read date and time with exact widths and seconds. -/
def exactMoment (cs : List Char) : Option (Moment × List Char) := do
  let (year, cs) ← number 4 4 cs
  let (month, cs) ← number 2 2 (← mark '-' cs)
  let (day, cs) ← number 2 2 (← mark '-' cs)
  let (hour, cs) ← number 2 2 (← timeMark cs)
  let (minute, cs) ← number 2 2 (← mark ':' cs)
  let (second, cs) ← number 2 2 (← mark ':' cs)
  let (nanosecond, cs) ← fraction cs
  some (⟨year, month, day, hour, minute, second, nanosecond⟩, cs)

/-- Read the Internet form.  Four digits of a year leave room for a day on either side, so there always is a
moment in universal time. -/
def readInternet (cs : List Char) : Option Zoned := do
  let (shown, cs) ← exactMoment cs
  let offset ← offset cs
  if shown.isValid then some (Zoned.ofShown shown offset) else none

/-- Read the Internet form as what the clocks of its place show. -/
def readShown (cs : List Char) : Option Moment := (readInternet cs).map Zoned.shown

/-! ## The lenient forms -/

/-- Read a number of at most `most` digits after any blanks. -/
def looseNumber (most : Nat) (cs : List Char) : Option (Nat × List Char) := number 1 most (Text.trimStart cs)

/-- Read a year: up to four digits, or a sign and any digits. -/
def looseYear (cs : List Char) : Option (Int × List Char) :=
  match Text.trimStart cs with
  | '-' :: cs => (number 1 cs.length cs).map fun (n, rest) => (-(n : Int), rest)
  | '+' :: cs => (number 1 cs.length cs).map fun (n, rest) => ((n : Int), rest)
  | cs => (number 1 4 cs).map fun (n, rest) => ((n : Int), rest)

/-- What stands between the date and the time of a lenient form. -/
inductive Separator where
  /-- The letter `T`. -/
  | letter
  /-- Any run of blanks, also none. -/
  | blanks
  deriving DecidableEq, Repr

/-- Read a separator. -/
def Separator.read : Separator → List Char → Option (List Char)
  | .letter, cs => mark 'T' cs
  | .blanks, cs => some (Text.trimStart cs)

/-- Read year, month and day. -/
def looseDate (cs : List Char) : Option ((Int × Nat × Nat) × List Char) := do
  let (year, cs) ← looseYear cs
  let (month, cs) ← looseNumber 2 (← mark '-' cs)
  let (day, cs) ← looseNumber 2 (← mark '-' cs)
  some ((year, month, day), cs)

/-- Read date and time, with or without seconds. -/
def readLoose (separator : Separator) (withSeconds : Bool) (cs : List Char) : Option Moment := do
  let ((year, month, day), cs) ← looseDate cs
  let (hour, cs) ← looseNumber 2 (← separator.read cs)
  let (minute, cs) ← looseNumber 2 (← mark ':' cs)
  let ((second, nanosecond), cs) ←
    if withSeconds then do
      let (second, cs) ← looseNumber 2 (← mark ':' cs)
      let (nanosecond, cs) ← fraction cs
      some ((second, nanosecond), cs)
    else some ((0, 0), cs)
  let m : Moment := ⟨year, month, day, hour, minute, second, nanosecond⟩
  if cs.isEmpty && m.isValid then some m else none

/-- Read a bare date as its midnight. -/
def readDate (cs : List Char) : Option Moment := do
  let ((year, month, day), cs) ← looseDate cs
  let m : Moment := ⟨year, month, day, 0, 0, 0, 0⟩
  if cs.isEmpty && m.isValid then some m else none

/-- The forms in the order in which they are tried. -/
def forms : List (List Char → Option Moment) :=
  [readShown, readLoose .letter true, readLoose .blanks true, readLoose .letter false,
   readLoose .blanks false, readDate]

/-- Read a moment. -/
def read (s : String) : Option Moment :=
  let cs := Text.trim s.toList
  forms.findSome? (· cs)

/-! ## What is read -/

/-- An offset is less than a day. -/
theorem offset_bounds {cs : List Char} {minutes : Int} (h : offset cs = some minutes) :
    -1440 < minutes ∧ minutes < 1440 := by
  unfold offset at h
  split at h
  · cases h
    decide
  · cases h
    decide
  · rename_i sign h₁ h₂ m₁ m₂
    split at h
    · rename_i htest
      simp only [isDigit, Bool.and_eq_true, decide_eq_true_eq] at htest
      obtain ⟨⟨⟨⟨-, -⟩, hfirst⟩, -, hlast⟩, hhours⟩ := htest
      have hminutes : natOfDigits [m₁, m₂] < 60 := by
        have htens : m₁.toNat ≤ '5'.toNat := hfirst
        have hones : m₂.toNat ≤ '9'.toNat := hlast
        simp only [natOfDigits, digitValue, List.foldl_cons, List.foldl_nil]
        simp only [Char.reduceToNat] at htens hones ⊢
        omega
      dsimp only at h
      split at h <;> cases h <;> omega
    · cases h
  · cases h

/-- The Internet form is read to a moment that exists, with an offset of less than a day. -/
theorem readInternet_eq_some {cs : List Char} {z : Zoned} (h : readInternet cs = some z) :
    ∃ shown : Moment, shown.isValid = true ∧ -1440 < z.offset ∧ z.offset < 1440
      ∧ z = Zoned.ofShown shown z.offset := by
  obtain ⟨⟨shown, rest⟩, _, h⟩ := Option.bind_eq_some_iff.mp h
  obtain ⟨minutes, hminutes, h⟩ := Option.bind_eq_some_iff.mp h
  obtain ⟨hlow, hhigh⟩ := offset_bounds hminutes
  rw [Option.ite_none_right_eq_some, Option.some.injEq] at h
  obtain ⟨hvalid, rfl⟩ := h
  exact ⟨shown, hvalid, hlow, hhigh, rfl⟩

/-- Clocks show a moment that exists. -/
theorem isValid_of_readShown {cs : List Char} {m : Moment} (h : readShown cs = some m) :
    m.isValid = true := by
  obtain ⟨z, hz, rfl⟩ := Option.map_eq_some_iff.mp h
  obtain ⟨shown, hvalid, hlow, hhigh, hz⟩ := readInternet_eq_some hz
  rw [hz, shown_ofShown (isOnCalendar_of_isValid hvalid) hlow hhigh]
  exact hvalid

end SchemaSearch.Moment
