import SchemaSearch.Error
import SchemaSearch.Text.FormData

/-!
# Search parameters

What a client sends: an ordered table from keys to lists of values.  Keys keep the order in which they
first came and may carry several values, or none.  A query string gives texts, a JSON body keeps the
types of its values.
-/

namespace SchemaSearch

/-- Search parameters in the order of their keys. -/
structure Params where
  entries : List (String × List Json)
  deriving BEq, Repr

namespace Params

/-- No parameters. -/
def empty : Params := ⟨[]⟩

/-! ## Reading -/

/-- The keys in order. -/
def keys (p : Params) : List String := Table.keys p.entries

/-- The values of a key, if it is there. -/
def find? (p : Params) (key : String) : Option (List Json) := Table.find? key p.entries

/-- Every value of a key. -/
def getAll (p : Params) (key : String) : List Json := (Table.find? key p.entries).getD []

/-- The last value of a key. -/
def get? (p : Params) (key : String) : Option Json := (p.getAll key).getLast?

/-- The last value of a key in text form. -/
def getText? (p : Params) (key : String) : Option String := (p.get? key).bind Json.scalarText

/-- Whether a key is there. -/
def hasKey (p : Params) (key : String) : Bool := Table.hasKey key p.entries

/-- The first key that equals the given one up to the case of ASCII letters. -/
def findKeyIgnoringCase (p : Params) (key : String) : Option String :=
  p.keys.find? (Text.sameIgnoringAsciiCase · key)

/-- The number of keys. -/
def size (p : Params) : Nat := p.entries.length

/-! ## Changing -/

/-- Add a value to a key. -/
def push (p : Params) (key : String) (value : Json) : Params :=
  ⟨Table.upsert key (· ++ [value]) [value] p.entries⟩

/-- Replace the values of a key. -/
def setAll (p : Params) (key : String) (values : List Json) : Params :=
  ⟨Table.insert key values p.entries⟩

/-- Take a key out. -/
def remove (p : Params) (key : String) : Params := ⟨Table.erase key p.entries⟩

/-- Take a key out and give back its values, if it was there. -/
def extract (p : Params) (key : String) : Option (List Json) × Params := (p.find? key, p.remove key)

/-- The parameters without some keys. -/
def without (p : Params) (excluded : List String) : Params :=
  ⟨p.entries.filter fun (key, _) => !excluded.contains key⟩

/-! ## Building -/

/-- The parameters that come from adding pairs one after another. -/
def ofPairs (pairs : List (String × Json)) : Params :=
  pairs.foldl (fun p (key, value) => p.push key value) empty

/-- The parameters of a query string. -/
def ofQuery (query : String) : Params :=
  ofPairs ((Text.FormData.read query).map fun (key, value) => (key, .text value))

/-- Add one member of a JSON object: a list gives all values of its key. -/
def addMember (p : Params) (member : String × Json) : Params :=
  match member with
  | (key, .list values) => p.setAll key values
  | (key, value) => p.push key value

/-- The parameters of a JSON body. -/
def ofJson : Json → Except SearchError Params
  | .object members => .ok (members.foldl addMember empty)
  | _ => .error (.invalidParameter "body" .bodyNotObject)

/-! ## What a change does -/

@[simp] theorem getAll_push_self (p : Params) (key : String) (value : Json) :
    (p.push key value).getAll key = p.getAll key ++ [value] := by
  simp only [getAll, push, Table.find?_upsert_self]
  cases Table.find? key p.entries <;> simp

theorem getAll_push_of_ne {key other : String} (h : other ≠ key) (p : Params) (value : Json) :
    (p.push key value).getAll other = p.getAll other := by
  simp [getAll, push, Table.find?_upsert_of_ne h]

@[simp] theorem getAll_setAll_self (p : Params) (key : String) (values : List Json) :
    (p.setAll key values).getAll key = values := by
  simp only [getAll, setAll, Table.insert, Table.find?_upsert_self]
  cases Table.find? key p.entries <;> simp

theorem getAll_setAll_of_ne {key other : String} (h : other ≠ key) (p : Params)
    (values : List Json) : (p.setAll key values).getAll other = p.getAll other := by
  simp [getAll, setAll, Table.insert, Table.find?_upsert_of_ne h]

end Params

end SchemaSearch
