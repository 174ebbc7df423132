import SchemaSearch.Text.Blank

/-!
# Whole numbers as text

Reading a whole number: an optional sign, then one or more ASCII digits and nothing else.  Numbers
that do not fit the 64-bit range they are read for are refused.
-/

namespace SchemaSearch.Decimal

/-- Whether a character is one of `0` to `9`. -/
def isDigit (c : Char) : Bool := '0' ≤ c && c ≤ '9'

/-- The value of a digit. -/
def digitValue (c : Char) : Nat := c.toNat - '0'.toNat

/-- The number that a run of digits denotes. -/
def natOfDigits (digits : List Char) : Nat := digits.foldl (fun n c => 10 * n + digitValue c) 0

/-- Read a non-empty text of digits. -/
def readNat (cs : List Char) : Option Nat :=
  if cs.isEmpty || !cs.all isDigit then none else some (natOfDigits cs)

/-- The least signed 64-bit number. -/
def minSigned : Int := -9223372036854775808

/-- The greatest signed 64-bit number. -/
def maxSigned : Int := 9223372036854775807

/-- The greatest unsigned 64-bit number. -/
def maxUnsigned : Nat := 18446744073709551615

/-- Read an optional sign and digits. -/
def readInt : List Char → Option Int
  | '-' :: cs => (readNat cs).map fun n => -(n : Int)
  | '+' :: cs => (readNat cs).map fun n => (n : Int)
  | cs => (readNat cs).map fun n => (n : Int)

/-- Read a signed 64-bit number. -/
def readSigned (cs : List Char) : Option Int :=
  (readInt cs).filter fun n => minSigned ≤ n && n ≤ maxSigned

/-- A number is only read if it fits. -/
theorem readSigned_bounds {cs : List Char} {n : Int} (h : readSigned cs = some n) :
    minSigned ≤ n ∧ n ≤ maxSigned := by
  simpa [readSigned, Option.filter_eq_some_iff] using (Option.filter_eq_some_iff.1 h).2

/-- `n` in decimal, with leading zeros up to `width` digits. -/
def padded (width n : Nat) : String :=
  let digits := toString n
  String.ofList (List.replicate (width - digits.length) '0') ++ digits

end SchemaSearch.Decimal
