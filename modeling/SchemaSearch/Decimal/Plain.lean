import SchemaSearch.Decimal.Integer
import SchemaSearch.Decimal.Shortest
import SchemaSearch.Text.Pieces

/-!
# Plain decimals

Doubles as people write them in settings: read to the nearest double from a decimal of any length, with
words for infinity and for what is no number; written with the fewest digits and never with an exponent.
-/

namespace SchemaSearch.Decimal.Binary64

/-! ## Patterns that are no number -/

/-- Positive infinity. -/
def infinity : Binary64 := ⟨2047 * hiddenBit⟩

/-- What is no number. -/
def notNumber : Binary64 := ⟨2047 * hiddenBit + 1⟩

/-- Whether the pattern stands for what is no number. -/
def isNotNumber (x : Binary64) : Bool := infinity.bits < x.magnitude

/-- Whether the pattern is positive infinity. -/
def isInfinity (x : Binary64) : Bool := x == infinity

/-! ## Reading -/

/-- The double nearest to `digits · 10 ^ exponent`; infinity when that is too large.  Powers far beyond
the doubles are never computed. -/
def ofDecimal (digits : Nat) (exponent : Int) : Binary64 :=
  let place := exponent + (toString digits).length
  if digits = 0 ∨ place < -400 then zero
  else if 400 < place then infinity
  else
    let (n, d) := scaleByTen digits 1 exponent
    (nearest n d).getD infinity

/-- Read what may follow the digits: an exponent, or nothing. -/
def readExponent : List Char → Option Int
  | [] => some 0
  | c :: cs => if c = 'e' || c = 'E' then readInt cs else none

/-- Read the digits in front of the point, the digits after it, and the exponent.  One of the two runs
of digits may be empty. -/
def readDecimal (cs : List Char) : Option Binary64 :=
  let whole := cs.takeWhile isDigit
  let (fraction, rest) := match cs.dropWhile isDigit with
    | '.' :: rest => (rest.takeWhile isDigit, rest.dropWhile isDigit)
    | rest => ([], rest)
  if whole.isEmpty && fraction.isEmpty then none
  else
    (readExponent rest).map fun exponent =>
      ofDecimal (natOfDigits (whole ++ fraction)) (exponent - fraction.length)

/-- Read a double without a sign. -/
def readUnsigned (cs : List Char) : Option Binary64 :=
  let word := String.ofList (Text.asciiLower cs)
  if word = "inf" || word = "infinity" then some infinity
  else if word = "nan" then some notNumber
  else readDecimal cs

/-- Read a double with an optional sign. -/
def readPlain : List Char → Option Binary64
  | '-' :: cs => (readUnsigned cs).map (·.withSign true)
  | '+' :: cs => readUnsigned cs
  | cs => readUnsigned cs

/-! ## Writing -/

/-- The text of a double, without an exponent. -/
def plainText (x : Binary64) : String :=
  if x.isNotNumber then "NaN"
  else if x.isFinite then toTextIn plainFormat x
  else if x.negative then "-inf"
  else "inf"

/-- The nearest natural number that fits 64 bits; a half counts as above. -/
def toCount (x : Binary64) : Nat :=
  if x.isNotNumber || x.negative then 0
  else
    let (n, d) := x.quotient
    min ((2 * n + d) / (2 * d)) maxUnsigned

end SchemaSearch.Decimal.Binary64
