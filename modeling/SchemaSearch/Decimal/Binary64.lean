/-!
# Binary floating point

IEEE 754 doubles as bit patterns, with exact arithmetic on the numbers they stand for.  A finite
double is `± m · 2 ^ q`; `nearest` rounds a quotient of naturals to the closest one, ties to even.
No operation of the machine is involved, so every fact about these numbers can be computed.
-/

namespace SchemaSearch.Decimal

/-- A double, as its bit pattern. -/
structure Binary64 where
  bits : Nat
  deriving DecidableEq, Repr

namespace Binary64

/-- The sign bit, the highest of 64. -/
def signBit : Nat := 9223372036854775808

/-- The bit above the 52 bits of the fraction. -/
def hiddenBit : Nat := 4503599627370496

/-- Whether the sign is set; it is for `-0.0` too. -/
def negative (x : Binary64) : Bool := signBit ≤ x.bits

/-- The bits without the sign. -/
def magnitude (x : Binary64) : Nat := x.bits % signBit

/-- The biased exponent. -/
def exponentField (x : Binary64) : Nat := x.magnitude / hiddenBit

/-- Whether the pattern stands for a number. -/
def isFinite (x : Binary64) : Bool := x.exponentField < 2047

/-- The whole number `m` of `m · 2 ^ q`. -/
def significand (x : Binary64) : Nat :=
  if x.exponentField = 0 then x.magnitude else x.magnitude % hiddenBit + hiddenBit

/-- The exponent `q` of `m · 2 ^ q`, raised by 1074 so that it is never negative. -/
def raisedExponent (x : Binary64) : Nat := x.exponentField - 1

/-- The magnitude as a quotient of naturals. -/
def quotient (x : Binary64) : Nat × Nat := (x.significand * Nat.pow 2 x.raisedExponent, Nat.pow 2 1074)

/-- The number with the sign set or cleared. -/
def withSign (x : Binary64) (negative : Bool) : Binary64 :=
  ⟨if negative then x.magnitude + signBit else x.magnitude⟩

/-- Zero. -/
def zero : Binary64 := ⟨0⟩

/-! ## Rounding -/

/-- The quotient rounded to a whole number, a half to the even neighbour. -/
def roundHalfEven (num den : Nat) : Nat :=
  let whole := num / den
  let rest := 2 * (num % den)
  if rest < den then whole
  else if den < rest then whole + 1
  else if whole % 2 = 0 then whole else whole + 1

/-- The quotient times a power of two, as a quotient. -/
def scaleByPow (num den : Nat) (exponent : Int) : Nat × Nat :=
  match exponent with
  | .ofNat k => (num * Nat.pow 2 k, den)
  | .negSucc k => (num, den * Nat.pow 2 (k + 1))

/-- The double nearest to `num / den`, or `none` when it is too large for every one of them. -/
def nearest (num den : Nat) : Option Binary64 :=
  if num = 0 ∨ den = 0 then some zero
  else
    let guess : Int := (Nat.log2 num : Int) - Nat.log2 den
    let (n, d) := scaleByPow num den (-guess)
    let exponent := if n < d then guess - 1 else guess
    let q := max (exponent - 52) (-1074)
    let (n, d) := scaleByPow num den (-q)
    let m := roundHalfEven n d
    let bits := (q + 1074).toNat * hiddenBit + m
    if bits < 2047 * hiddenBit then some ⟨bits⟩ else none

end Binary64

end SchemaSearch.Decimal
