import SchemaSearch.Text.FormData

/-!
# UUIDs

A UUID is sixteen bytes.  It is written as 32 lower-case hexadecimal digits in groups of 8, 4, 4, 4 and
12, and read from that form in any case, bare, in braces or behind `urn:uuid:`, and from 32 digits
without hyphens.
-/

namespace SchemaSearch

/-- A UUID, as its bytes. -/
structure Uuid where
  bytes : List UInt8
  deriving DecidableEq, Repr

namespace Uuid

/-- The lengths of the groups. -/
def groupLengths : List Nat := [8, 4, 4, 4, 12]

/-! ## Writing -/

/-- The two digits of a byte. -/
def hexPair (b : UInt8) : List Char := [Text.hexDigit (b.toNat / 16), Text.hexDigit (b.toNat % 16)]

/-- Put hyphens between groups of the given lengths. -/
def hyphenate : List Nat → List Char → List Char
  | [], cs => cs
  | [_], cs => cs
  | n :: ns, cs => cs.take n ++ '-' :: hyphenate ns (cs.drop n)

/-- The hyphenated text. -/
def toText (u : Uuid) : String := String.ofList (hyphenate groupLengths (u.bytes.flatMap hexPair))

/-! ## Reading -/

/-- Read pairs of digits as bytes. -/
def readBytes : List Char → Option (List UInt8)
  | [] => some []
  | high :: low :: rest => do
    let byte ← Text.escapedByte high low
    let bytes ← readBytes rest
    some (byte :: bytes)
  | [_] => none

/-- Read 32 digits. -/
def readDigits (cs : List Char) : Option Uuid :=
  if cs.length = 32 then (readBytes cs).map Uuid.mk else none

/-- Take the hyphens out of a text that has them where the groups end, and nowhere else. -/
def dropHyphens : List Nat → List Char → Option (List Char)
  | [], cs => if cs.isEmpty then some [] else none
  | [n], cs => if cs.length = n then some cs else none
  | n :: ns, cs =>
    match cs.drop n with
    | '-' :: rest => (dropHyphens ns rest).map (cs.take n ++ ·)
    | _ => none

/-- Read the hyphenated form. -/
def readHyphenated (cs : List Char) : Option Uuid := (dropHyphens groupLengths cs).bind readDigits

/-- The letters in front of a UUID used as a name; they may be written in any case. -/
def urnMark : List Char := "urn:uuid:".toList

/-- Whether the text starts like a UUID used as a name. -/
def inUrn (cs : List Char) : Bool := urnMark.isPrefixOf (Text.asciiLower cs)

/-- Whether the text is in braces. -/
def inBraces (cs : List Char) : Bool := cs.head? == some '\x7b' && cs.getLast? == some '\x7d'

/-- Read a UUID in any of its forms. -/
def read (s : String) : Option Uuid :=
  let cs := s.toList
  match cs.length with
  | 32 => readDigits cs
  | 36 => readHyphenated cs
  | 38 => if inBraces cs then readHyphenated ((cs.drop 1).dropLast) else none
  | 45 => if inUrn cs then readHyphenated (cs.drop urnMark.length) else none
  | _ => none

/-! ## Why a text is no UUID -/

/-- What is wrong with a text that is no UUID. -/
inductive Flaw where
  | character (found : Char) (index : Nat)
  | length (found : Nat)
  | groupCount (found : Nat)
  | groupLength (group expected found : Nat)
  deriving DecidableEq, Repr

/-- The words for a flaw. -/
def Flaw.message : Flaw → String
  | .character c index =>
    "invalid character: found `" ++ String.singleton c ++ "` at " ++ toString index
  | .length found => "invalid length: found " ++ toString found
  | .groupCount found => "invalid group count: expected 5, found " ++ toString found
  | .groupLength group expected found =>
    "invalid group length in group " ++ toString group ++ ": expected " ++ toString expected
      ++ ", found " ++ toString found

/-- The first character that is neither a digit nor a hyphen, with the bytes in front of it. -/
def strayCharacter (index : Nat) : List Char → Option (Char × Nat)
  | [] => none
  | c :: cs =>
    if c = '-' || (Text.hexValue c).isSome then strayCharacter (index + c.utf8Size) cs
    else some (c, index)

/-- The first group of a wrong length, by number; `total` is the length of the whole text. -/
def wrongGroup (total : Nat) (group : Nat) : List Nat → List (List Char) → Flaw
  | n :: m :: ns, piece :: pieces =>
    if piece.length = n then wrongGroup total (group + 1) (m :: ns) pieces
    else .groupLength group n piece.length
  | _, _ => .groupLength 4 12 (total - 24)

/-- The part of a text that should hold the digits: from which byte its places are counted, and whether
it may do without hyphens. -/
structure Body where
  text : List Char
  start : Nat
  bare : Bool

/-- The part of a text that should hold the digits.  A text as long as one of the forms is taken to be
of that form, and places are counted from the first digit; any other loses what it has of braces or
`urn:uuid:`, and places are counted from its front. -/
def Body.ofText (cs : List Char) : Body :=
  let size := Text.byteSize cs
  if size = 32 then ⟨cs, 0, true⟩
  else if size = 36 then ⟨cs, 0, false⟩
  else if size = 38 ∧ inBraces cs then ⟨(cs.drop 1).dropLast, 0, false⟩
  else if size = 45 ∧ inUrn cs then ⟨cs.drop urnMark.length, 0, false⟩
  else if 2 ≤ size ∧ inBraces cs then ⟨(cs.drop 1).dropLast, 1, false⟩
  else if inUrn cs then ⟨cs.drop urnMark.length, urnMark.length, false⟩
  else ⟨cs, 0, true⟩

/-- The bytes of the longest form. -/
def maxSize : Nat := 45

/-- What is wrong with a text that `read` refuses. -/
def flaw (s : String) : Flaw :=
  let cs := s.toList
  let size := Text.byteSize cs
  if maxSize < size then .length size
  else
    let body := Body.ofText cs
    match strayCharacter body.start body.text with
    | some (c, index) => .character c index
    | none =>
      let pieces := Text.splitOn '-' body.text
      if pieces.length = 1 ∧ body.bare then .length size
      else if pieces.length ≠ 5 then .groupCount pieces.length
      else wrongGroup size 0 groupLengths pieces

end Uuid

end SchemaSearch
