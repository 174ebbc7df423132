import SchemaSearch.Decimal.Binary64

/-!
# The shortest decimal of a double

The text of a double has the fewest digits that read back to the same double, and of those decimals
the nearest.  The search goes through the decimal grids with 1, 2, … 17 digits and tests the two grid
points beside the value; all of it is exact arithmetic on naturals.
-/

namespace SchemaSearch.Decimal

/-- A positive decimal: `digits · 10 ^ exponent`. -/
structure Scientific where
  digits : Nat
  exponent : Int
  deriving DecidableEq, Repr

/-- A quotient times a power of ten, as a quotient. -/
def scaleByTen (num den : Nat) (exponent : Int) : Nat × Nat :=
  match exponent with
  | .ofNat k => (num * Nat.pow 10 k, den)
  | .negSucc k => (num, den * Nat.pow 10 (k + 1))

/-- The place of the leading digit of `num / den`: the `e` with `10 ^ e ≤ num / den < 10 ^ (e + 1)`. -/
def leadingPlace (num den : Nat) : Int :=
  let guess : Int := ((toString num).length : Int) - (toString den).length
  let (n, d) := scaleByTen num den (-guess)
  if n < d then guess - 1 else guess

namespace Binary64

/-- The numbers that round to a double: its value and the two ends, all over one denominator.  An end
belongs to the interval iff the significand is even. -/
structure Interval where
  low : Nat
  value : Nat
  high : Nat
  den : Nat
  closed : Bool

/-- The interval of a finite double that is not zero.  Below a power of two the gap is half as wide. -/
def interval (x : Binary64) : Interval :=
  let m := x.significand
  let unit := Nat.pow 2 x.raisedExponent
  let narrow := m = hiddenBit ∧ 0 < x.raisedExponent
  { low := (4 * m - if narrow then 1 else 2) * unit
    value := 4 * m * unit
    high := (4 * m + 2) * unit
    den := 4 * Nat.pow 2 1074
    closed := m % 2 = 0 }

/-- Whether the decimal `digits · 10 ^ exponent` rounds to the double. -/
def Interval.holds (i : Interval) (s : Scientific) : Bool :=
  let (n, d) := scaleByTen s.digits 1 s.exponent
  if i.closed then i.low * d ≤ n * i.den && n * i.den ≤ i.high * d
  else i.low * d < n * i.den && n * i.den < i.high * d

/-- Of the grid points below and above the value, the nearer one that reads back; a tie goes to the
even one. -/
def Interval.pick (i : Interval) (exponent : Int) : Option Scientific :=
  let (n, d) := scaleByTen i.value i.den (-exponent)
  let below : Scientific := ⟨n / d, exponent⟩
  let above : Scientific := ⟨n / d + 1, exponent⟩
  let rest := 2 * (n % d)
  let lowerFirst := rest < d || (rest == d && (n / d) % 2 == 0)
  let (first, second) := if lowerFirst then (below, above) else (above, below)
  if i.holds first then some first else if i.holds second then some second else none

/-- Try grids of `count` digits and more. -/
def Interval.search (i : Interval) (place : Int) : List Nat → Scientific
  | [] => ⟨0, 0⟩
  | count :: counts =>
    match i.pick (place - count + 1) with
    | some s => s
    | none => i.search place counts

/-- The shortest decimal of a finite double that is not zero.  Seventeen digits always suffice. -/
def shortest (x : Binary64) : Scientific :=
  let i := x.interval
  i.search (leadingPlace i.value i.den) ((List.range 17).map (· + 1))

/-! ## Its text -/

/-- How the text of a double is laid out: the leading places that are written positionally, and what
follows a number without a fraction. -/
structure RealFormat where
  leastPlace : Int
  greatestPlace : Int
  wholeTail : List Char

/-- Numbers from `0.00001` to below `10 ^ 16` are written positionally, with a digit after the
point. -/
def jsonFormat : RealFormat := ⟨-5, 15, ['.', '0']⟩

/-- Every number is written positionally, and the point only where digits follow it. -/
def plainFormat : RealFormat := ⟨-400, 400, []⟩

/-- Drop trailing zeros; at least one digit stays. -/
def stripZeros (digits : List Char) : List Char :=
  match (digits.reverse.dropWhile (· = '0')).reverse with
  | [] => ['0']
  | kept => kept

/-- Digits with the point after the leading digit moved by `place`; there is always a digit in front
of the point. -/
def positional (wholeTail digits : List Char) (place : Int) : List Char :=
  match place with
  | .ofNat k =>
    let whole := digits.take (k + 1)
    let fraction := digits.drop (k + 1)
    whole ++ List.replicate (k + 1 - whole.length) '0'
      ++ (if fraction.isEmpty then wholeTail else '.' :: fraction)
  | .negSucc k => ['0', '.'] ++ List.replicate k '0' ++ digits

/-- Digits with a signed exponent; the point is only written when digits follow it. -/
def exponential (digits : List Char) (place : Int) : List Char :=
  let mantissa :=
    match digits with
    | [] => ['0']
    | [d] => [d]
    | d :: ds => d :: '.' :: ds
  let mark := if place < 0 then ['e', '-'] else ['e', '+']
  mantissa ++ mark ++ (toString place.natAbs).toList

/-- The text of a finite double in a format. -/
def toTextIn (format : RealFormat) (x : Binary64) : String :=
  let sign := if x.negative then ['-'] else []
  if x.magnitude = 0 then String.ofList (sign ++ '0' :: format.wholeTail)
  else
    let s := x.shortest
    let all := (toString s.digits).toList
    let place := s.exponent + all.length - 1
    let digits := stripZeros all
    let body :=
      if format.leastPlace ≤ place ∧ place ≤ format.greatestPlace then
        positional format.wholeTail digits place
      else exponential digits place
    String.ofList (sign ++ body)

/-- The text of a finite double in JSON. -/
def toText (x : Binary64) : String := toTextIn jsonFormat x

end Binary64

end SchemaSearch.Decimal
