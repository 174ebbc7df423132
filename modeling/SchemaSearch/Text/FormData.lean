import SchemaSearch.Text.Pieces
import SchemaSearch.Text.Utf8

/-!
# Form data

Percent-encoding and the `application/x-www-form-urlencoded` form of a list of pairs.  Reading is
forgiving: an escape that is not two hexadecimal digits stays as it is, empty pieces are skipped and a
piece without `=` is a name with an empty value.
-/

namespace SchemaSearch.Text

/-- The value of a hexadecimal digit of either case. -/
def hexValue (c : Char) : Option Nat :=
  if '0' ≤ c && c ≤ '9' then some (c.toNat - '0'.toNat)
  else if 'a' ≤ c && c ≤ 'f' then some (c.toNat - 'a'.toNat + 10)
  else if 'A' ≤ c && c ≤ 'F' then some (c.toNat - 'A'.toNat + 10)
  else none

/-- The lower-case hexadecimal digit of a value below 16. -/
def hexDigit (n : Nat) : Char :=
  Char.ofNat (if n < 10 then '0'.toNat + n else 'a'.toNat + (n - 10))

/-- The byte that a percent escape stands for. -/
def escapedByte (high low : Char) : Option UInt8 :=
  match hexValue high, hexValue low with
  | some h, some l => some (UInt8.ofNat (h * 16 + l))
  | _, _ => none

/-- The bytes of a text after its percent escapes are undone. -/
def percentDecode : List Char → List UInt8
  | '%' :: high :: low :: rest =>
    match escapedByte high low with
    | some byte => byte :: percentDecode rest
    | none => Utf8.encodeChar '%' ++ percentDecode (high :: low :: rest)
  | c :: rest => Utf8.encodeChar c ++ percentDecode rest
  | [] => []

namespace FormData

/-- Read a name or a value: `+` is a space, escapes are undone, bad bytes become U+FFFD. -/
def readField (cs : List Char) : String :=
  String.ofList (Utf8.decodeLossy (percentDecode (cs.map fun c => if c = '+' then ' ' else c)))

/-- Read one piece between two `&`. -/
def readPair (piece : List Char) : String × String :=
  let (name, value) := splitFirst '=' piece
  (readField name, readField (value.getD []))

/-- The pairs of a query string, in order. -/
def read (query : String) : List (String × String) :=
  ((splitOn '&' query.toList).filter (!·.isEmpty)).map readPair

end FormData

end SchemaSearch.Text
