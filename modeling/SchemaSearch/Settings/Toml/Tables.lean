import SchemaSearch.Settings.Value

/-!
# Building TOML tables

A document states each table once.  A header may name a table that so far was only implied by longer
headers, a dotted key may extend a table that dotted keys made, and a header in double brackets adds an
element to its list; everything else that names a key twice is refused.
-/

namespace SchemaSearch.Toml

/-- How a table came to be. -/
inductive Origin where
  /-- By a header of its own. -/
  | stated
  /-- On the way of a longer header. -/
  | implied
  /-- On the way of a dotted key. -/
  | dotted
  deriving DecidableEq, Repr

/-- What a key of a document holds while the document is read. -/
inductive Node where
  | value (value : Setting)
  | table (origin : Origin) (entries : List (String × Node))
  /-- The elements that headers in double brackets have added, the last first. -/
  | elements (tables : List (List (String × Node)))

/-- The entries of a table that is being built. -/
abbrev Entries := List (String × Node)

namespace Entries

/-- Change what a key holds, unless the change is refused. -/
def alter (key : String) (change : Option Node → Option Node) : Entries → Option Entries
  | [] => (change none).map fun node => [(key, node)]
  | (k, node) :: rest =>
    if k = key then (change (some node)).map fun node => (k, node) :: rest
    else (alter key change rest).map ((k, node) :: ·)

/-- Change the table that a path leads to.  Tables on the way are made as needed; `fresh` is the origin
that they get.  A dotted key does not go through tables that have a header. -/
def changeTable (fresh : Origin) (change : Origin → Entries → Option Entries) :
    List String → Origin → Entries → Option Entries
  | [], origin, entries => change origin entries
  | key :: path, _, entries =>
    entries.alter key fun
      | none => (changeTable fresh change path fresh []).map (.table fresh)
      | some (.table origin inner) =>
        if fresh = .dotted ∧ origin = .stated then none
        else (changeTable fresh change path origin inner).map (.table origin)
      | some (.elements (last :: earlier)) =>
        (changeTable fresh change path .stated last).map fun last => .elements (last :: earlier)
      | some (.elements []) => none
      | some (.value _) => none

/-- Add a key that is not there. -/
def addFresh (key : String) (value : Setting) (entries : Entries) : Option Entries :=
  entries.alter key fun
    | none => some (.value value)
    | some _ => none

/-- Add a value under a key: the names in front of the last lead to tables of dotted keys. -/
def addPair (entries : Entries) (pair : (List String × String) × Setting) : Option Entries :=
  let ((path, key), value) := pair
  entries.changeTable .dotted (fun origin inner =>
    if path.isEmpty ∨ origin = .dotted then inner.addFresh key value else none) path .stated

/-- Add values one after another. -/
def addPairs (entries : Entries) (pairs : List ((List String × String) × Setting)) : Option Entries :=
  pairs.foldlM addPair entries

end Entries

/-! ## Sections -/

/-- A part of a document: its header and the pairs below it. -/
structure Section where
  path : List String
  key : String
  /-- Whether the header is in double brackets. -/
  isElement : Bool
  pairs : List ((List String × String) × Setting)

/-- Add the table of a section to what its key holds. -/
def Section.change (part : Section) : Option Node → Option Node
  | none =>
    (Entries.addPairs [] part.pairs).map fun made =>
      if part.isElement then .elements [made] else .table .stated made
  | some (.elements tables) =>
    if part.isElement then (Entries.addPairs [] part.pairs).map fun made => .elements (made :: tables)
    else none
  | some (.table .implied inner) =>
    if part.isElement then none else (Entries.addPairs inner part.pairs).map (.table .stated)
  | some _ => none

/-- Add a section to a document. -/
def Entries.addSection (entries : Entries) (part : Section) : Option Entries :=
  entries.changeTable .implied (fun _ inner => inner.alter part.key part.change) part.path .stated

/-! ## The finished tables -/

mutual

/-- What a node holds once the document is read. -/
def Node.toSetting : Node → Setting
  | .value value => value
  | .table _ entries => .table (entriesToSettings entries)
  | .elements tables => .list (tablesToSettings tables).reverse
termination_by structural node => node

/-- The finished entries of a table. -/
def entriesToSettings : List (String × Node) → List (String × Setting)
  | [] => []
  | entry :: rest => entryToSetting entry :: entriesToSettings rest
termination_by structural entries => entries

/-- A finished entry. -/
def entryToSetting : String × Node → String × Setting
  | (key, node) => (key, node.toSetting)
termination_by structural entry => entry

/-- The finished elements of a list, in the order in which they are given. -/
def tablesToSettings : List (List (String × Node)) → List Setting
  | [] => []
  | entries :: rest => .table (entriesToSettings entries) :: tablesToSettings rest
termination_by structural tables => tables

end

end SchemaSearch.Toml
