import SchemaSearch.Decimal.Shortest
import SchemaSearch.Table

/-!
# JSON values

The values that clients send and the service answers with.  Members of an object keep their order; a
key that is written twice keeps its first place and its last value.  A number is whole if it was
written without a fraction and fits 64 bits, and a double otherwise.
-/

namespace SchemaSearch

open Decimal

/-- A JSON number. -/
inductive Number where
  | whole (n : Int)
  | real (x : Binary64)
  deriving DecidableEq, Repr

/-- The text of a number. -/
def Number.toText : Number → String
  | .whole n => toString n
  | .real x => x.toText

/-- A JSON value. -/
inductive Json where
  | null
  | bool (value : Bool)
  | number (value : Number)
  | text (value : String)
  | list (items : List Json)
  | object (members : List (String × Json))
  deriving BEq, Repr, Inhabited

namespace Json

/-- The object with these members, set one after another. -/
def ofMembers (members : List (String × Json)) : Json :=
  .object (members.foldl (fun acc (k, v) => Table.insert k v acc) [])

/-- The value of a key, if the value is an object that has it. -/
def get? (value : Json) (key : String) : Option Json :=
  match value with
  | .object members => Table.find? key members
  | _ => none

/-- The text form of a scalar: a string as it is, a number or a boolean printed.  The null value,
lists and objects have none. -/
def scalarText : Json → Option String
  | .text s => some s
  | .number n => some n.toText
  | .bool b => some (if b then "true" else "false")
  | .null | .list _ | .object _ => none

/-- A whole number as a value. -/
def ofNat (n : Nat) : Json := .number (.whole n)

/-- A whole number as a value. -/
def ofInt (n : Int) : Json := .number (.whole n)

/-- A text or the null value. -/
def ofText? : Option String → Json
  | some s => .text s
  | none => .null

end Json

end SchemaSearch
