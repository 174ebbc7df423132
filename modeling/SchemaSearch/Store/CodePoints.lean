/-!
# Code points of stored values

Patterns are matched code point by code point, and any bytes can be read as code points.  A byte from
`0xC0` on leads a code point and takes every byte from `0x80` to `0xBF` behind it as six more bits;
all else stands for itself, even a byte from `0x80` to `0xBF` that follows no leading byte.  A led
code point below `0x80`, a surrogate, U+FFFE and U+FFFF count as U+FFFD.  A text ends in front of its
first NUL.
-/

namespace SchemaSearch.Store

/-- The number of a code point as it is read from bytes; it may be larger than any character's. -/
abbrev CodePoint := Nat

namespace CodePoint

/-- What stands in for a code point that no character may have. -/
def replacement : CodePoint := 0xFFFD

/-- Whether a code point is a surrogate, U+FFFE or U+FFFF. -/
def isForbidden (n : CodePoint) : Bool := (0xD800 ≤ n && n ≤ 0xDFFF) || n == 0xFFFE || n == 0xFFFF

/-! ## Case -/

/-- The code point with `a` to `z` in upper case. -/
def toUpper (n : CodePoint) : CodePoint := if 0x61 ≤ n ∧ n ≤ 0x7A then n - 0x20 else n

/-- Equality that ignores the case of `A` to `Z` only. -/
def sameIgnoringCase (a b : CodePoint) : Bool := toUpper a == toUpper b

/-! ## Characters -/

/-- The code point of a character. -/
def ofChar (c : Char) : CodePoint := if isForbidden c.toNat then replacement else c.toNat

/-- The code points in front of the first NUL. -/
def upToNul (points : List CodePoint) : List CodePoint := points.takeWhile (· ≠ 0)

/-- The code points of a text. -/
def ofText (s : String) : List CodePoint := upToNul (s.toList.map ofChar)

/-! ## Bytes -/

/-- The bits that a leading byte gives to its code point. -/
def leadBits (b : Nat) : Nat :=
  if b < 0xE0 then b - 0xC0
  else if b < 0xF0 then b - 0xE0
  else if b < 0xF8 then b - 0xF0
  else if b < 0xFC then b - 0xF8
  else if b < 0xFE then b - 0xFC
  else 0

/-- One byte more for a code point of 32 bits. -/
def extend (bits b : Nat) : Nat := (bits * 64 + (b - 0x80)) % 0x100000000

/-- The code point that led bits stand for. -/
def settle (bits : Nat) : CodePoint := if bits < 0x80 || isForbidden bits then replacement else bits

/-- The code points of some bytes; `led` holds the bits of the code point under way. -/
def readFrom (led : Option Nat) : List UInt8 → List CodePoint
  | [] => (led.map settle).toList
  | b :: bytes =>
    let n := b.toNat
    if n < 0x80 then (led.map settle).toList ++ n :: readFrom none bytes
    else if 0xC0 ≤ n then (led.map settle).toList ++ readFrom (some (leadBits n)) bytes
    else
      match led with
      | some bits => readFrom (some (extend bits n)) bytes
      | none => n :: readFrom none bytes

/-- The code points of some bytes, read as a text. -/
def ofBytes (bytes : List UInt8) : List CodePoint := upToNul (readFrom none bytes)

end CodePoint

end SchemaSearch.Store
