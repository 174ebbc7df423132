/-!
# UTF-8

Characters as bytes and back.  Reading splits any byte string into *units*: a character, or one
longest piece that starts like a character and cannot go on.  The strict reader refuses a text with a
bad piece, the forgiving one puts U+FFFD in the place of each.
-/

namespace SchemaSearch.Text.Utf8

/-! ## Writing -/

/-- The bytes of a character. -/
def encodeChar (c : Char) : List UInt8 :=
  let n := c.toNat
  let tail (k : Nat) : UInt8 := UInt8.ofNat (0x80 + n / Nat.pow 64 k % 64)
  if n < 0x80 then [UInt8.ofNat n]
  else if n < 0x800 then [UInt8.ofNat (0xC0 + n / 64), tail 0]
  else if n < 0x10000 then [UInt8.ofNat (0xE0 + n / 4096), tail 1, tail 0]
  else [UInt8.ofNat (0xF0 + n / 262144), tail 2, tail 1, tail 0]

/-! ## Reading -/

/-- A character that is under way: the bits so far, the bytes still owed, and the range in which the
next byte has to lie. -/
structure Pending where
  bits : Nat
  owed : Nat
  low : Nat
  high : Nat

/-- What the first byte of a character says.  The range of the second byte keeps out overlong forms,
surrogates and everything past U+10FFFF. -/
def leading (b : Nat) : Option Pending :=
  if 0xC2 ≤ b && b ≤ 0xDF then some ⟨b - 0xC0, 1, 0x80, 0xBF⟩
  else if b == 0xE0 then some ⟨0, 2, 0xA0, 0xBF⟩
  else if b == 0xED then some ⟨0xD, 2, 0x80, 0x9F⟩
  else if 0xE1 ≤ b && b ≤ 0xEF then some ⟨b - 0xE0, 2, 0x80, 0xBF⟩
  else if b == 0xF0 then some ⟨0, 3, 0x90, 0xBF⟩
  else if 0xF1 ≤ b && b ≤ 0xF3 then some ⟨b - 0xF0, 3, 0x80, 0xBF⟩
  else if b == 0xF4 then some ⟨4, 3, 0x80, 0x8F⟩
  else none

/-- Take one byte between characters: the units it completes and what it leaves under way. -/
def start (b : Nat) : List (Option Char) × Option Pending :=
  if b < 0x80 then ([some (Char.ofNat b)], none)
  else
    match leading b with
    | some pending => ([], some pending)
    | none => ([none], none)

/-- Take one byte. -/
def step (pending : Option Pending) (b : Nat) : List (Option Char) × Option Pending :=
  match pending with
  | none => start b
  | some p =>
    if p.low ≤ b && b ≤ p.high then
      let bits := p.bits * 64 + (b - 0x80)
      if p.owed == 1 then ([some (Char.ofNat bits)], none)
      else ([], some ⟨bits, p.owed - 1, 0x80, 0xBF⟩)
    else
      let (units, next) := start b
      (none :: units, next)

/-- The units of a byte string, `none` for each bad piece. -/
def unitsFrom (pending : Option Pending) : List UInt8 → List (Option Char)
  | [] => if pending.isSome then [none] else []
  | b :: bs =>
    let (units, next) := step pending b.toNat
    units ++ unitsFrom next bs

/-- The units of a byte string, `none` for each bad piece. -/
def units (bytes : List UInt8) : List (Option Char) := unitsFrom none bytes

/-- Read bytes, with U+FFFD for each bad piece. -/
def decodeLossy (bytes : List UInt8) : List Char := (units bytes).map (·.getD '\uFFFD')

/-- Read bytes, or refuse them if any piece is bad. -/
def decode? (bytes : List UInt8) : Option (List Char) := (units bytes).mapM id

end SchemaSearch.Text.Utf8
