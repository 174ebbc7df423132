import SchemaSearch.Table

/-!
# Aliases

The names under which clients may write field paths: an ordered table from an alias to the path it
stands for.  Setting an alias again changes its path and keeps its place.
-/

namespace SchemaSearch.Schema

/-- What stands between the names of a path. -/
def pathSeparator : String := "__"

/-- Aliases and the paths they stand for, in order. -/
structure Renames where
  entries : List (String × String)
  deriving DecidableEq, Repr

namespace Renames

/-- No aliases. -/
def empty : Renames := ⟨[]⟩

/-- Set an alias. -/
def insert (r : Renames) (key path : String) : Renames := ⟨Table.insert key path r.entries⟩

/-- Set every alias of another table, in its order. -/
def extend (r other : Renames) : Renames :=
  other.entries.foldl (fun acc (key, path) => acc.insert key path) r

/-- The table of these pairs, set one after another. -/
def ofPairs (pairs : List (String × String)) : Renames := empty.extend ⟨pairs⟩

/-- The path of an alias. -/
def get? (r : Renames) (key : String) : Option String := Table.find? key r.entries

/-- What a key stands for: the path of its alias, or itself. -/
def targetOf (r : Renames) (key : String) : String := (r.get? key).getD key

/-- Whether a path is the one some alias stands for. -/
def isTarget (r : Renames) (path : String) : Bool := r.entries.any (·.2 == path)

/-- A name seen from the far end of a relation path. -/
def join (lead name : String) : String := lead ++ pathSeparator ++ name

/-- The table with a relation path in front of every alias and every path. -/
def prefixed (r : Renames) (lead : String) : Renames :=
  ⟨r.entries.map fun (key, path) => (join lead key, join lead path)⟩

/-- The number of aliases. -/
def size (r : Renames) : Nat := r.entries.length

@[simp] theorem get?_insert_self (r : Renames) (key path : String) :
    (r.insert key path).get? key = some path := by
  simp only [get?, insert, Table.insert, Table.find?_upsert_self]
  cases Table.find? key r.entries <;> rfl

theorem get?_insert_of_ne {key other : String} (h : other ≠ key) (r : Renames) (path : String) :
    (r.insert key path).get? other = r.get? other := by
  simp [get?, insert, Table.insert, Table.find?_upsert_of_ne h]

end Renames

end SchemaSearch.Schema
