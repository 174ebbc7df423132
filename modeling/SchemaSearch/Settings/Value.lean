import SchemaSearch.Decimal.Binary64
import SchemaSearch.Table
import SchemaSearch.Text.Pieces

/-!
# Setting values

What a source of settings may hold: scalars, lists and tables.  Sources are laid over each other with
`put` and `assign`: a table is merged into the table that is there, anything else replaces what is
there.  Keys are written in lower case.
-/

namespace SchemaSearch

open Decimal

/-- The value of a setting. -/
inductive Setting where
  /-- A place in a list that no source has filled. -/
  | missing
  | boolean (b : Bool)
  | whole (n : Int)
  | real (x : Binary64)
  | text (s : String)
  | list (items : List Setting)
  | table (entries : List (String × Setting))
  deriving BEq, Repr, Inhabited

namespace Setting

/-- A table without entries. -/
def noEntries : Setting := .table []

/-- The entries of a table; nothing else has any. -/
def entries : Setting → List (String × Setting)
  | .table entries => entries
  | _ => []

/-- The items of a list; nothing else has any. -/
def items : Setting → List Setting
  | .list items => items
  | _ => []

/-- How a key is kept. -/
def keyOf (name : String) : String := String.ofList (Text.asciiLower name.toList)

/-! ## Merging -/

mutual

/-- Put a value under a key of a table; what is no table becomes one. -/
def put (root : Setting) (key : String) : Setting → Setting
  | .table entries =>
    .table (Table.upsert (keyOf key) (fun old => putAll old entries) (putAll noEntries entries)
      root.entries)
  | value => .table (Table.insert (keyOf key) value root.entries)
termination_by structural value => value

/-- Put the entries of a table one after another. -/
def putAll (root : Setting) : List (String × Setting) → Setting
  | [] => root
  | entry :: rest => putAll (putEntry root entry) rest
termination_by structural entries => entries

/-- Put one entry of a table. -/
def putEntry (root : Setting) : String × Setting → Setting
  | (key, value) => put root key value
termination_by structural entry => entry

end

/-! ## Paths -/

/-- One step of a path. -/
inductive Step where
  | key (name : String)
  /-- A place of a list, counted from the end when negative. -/
  | index (n : Int)
  deriving DecidableEq, Repr

/-- Change one item of a list, which grows as needed.  A place in front of the list is nowhere. -/
def changeItem (change : Setting → Setting) (n : Int) (items : List Setting) : List Setting :=
  let place := if 0 ≤ n then n else items.length + n
  match place with
  | .negSucc _ => items
  | .ofNat k =>
    let grown := items ++ List.replicate (k + 1 - items.length) .missing
    grown.modify k change

/-- Change what a path leads to.  What the path goes through becomes a table or a list. -/
def changeAt (change : Setting → Setting) : List Step → Setting → Setting
  | [], root => change root
  | .key name :: path, root =>
    .table (Table.upsert (keyOf name) (changeAt change path) (changeAt change path .missing)
      root.entries)
  | .index n :: path, root => .list (changeItem (changeAt change path) n root.items)

/-- Put a value where one step leads. -/
def putStep (value : Setting) (step : Step) (root : Setting) : Setting :=
  match step with
  | .key name => put root name value
  | .index n => .list (changeItem (fun _ => value) n root.items)

/-- Put a value where a path leads. -/
def assign (root : Setting) (path : List Step) (value : Setting) : Setting :=
  match path.reverse with
  | [] => root
  | last :: before => changeAt (putStep value last) before.reverse root

end Setting

end SchemaSearch
