import SchemaSearch.Query.SortKey
import SchemaSearch.Schema.Path
import SchemaSearch.Text.Blank

/-!
# Sort orders

A client writes `field` or `-field`.  A field of the root sorts by its column.  A path through
relationships sorts by the least related value when ascending and the greatest when descending, so no
row repeats; rows without a related value sort as NULL.  The tables inside such a key have aliases of
their own, so a path that comes back to the root's table is still tied to the row that is sorted.
-/

namespace SchemaSearch

open Query Schema

/-- What a search is ordered by. -/
structure SortOrder where
  field : String
  direction : Direction
  key : SortKey
  deriving DecidableEq, Repr

namespace SortOrder

/-- The alias of the target of a hop. -/
def hopAlias (depth : Nat) : String := "order_" ++ toString depth

/-- The alias of the junction table of a hop. -/
def linkAlias (depth : Nat) : String := hopAlias depth ++ "_link"

/-- The sources of one hop: the junction table if there is one, then the target. -/
def hopSources (depth : Nat) (owner : String) (edge : Edge) : List Source :=
  let target := hopAlias depth
  match edge.junction with
  | none =>
    [⟨edge.target, target, ⟨target, edge.remoteColumn⟩, ⟨owner, edge.localColumn⟩⟩]
  | some junction =>
    let link := linkAlias depth
    [⟨junction.table, link, ⟨link, junction.ownerColumn⟩, ⟨owner, edge.localColumn⟩⟩,
     ⟨edge.target, target, ⟨target, edge.remoteColumn⟩, ⟨link, junction.targetColumn⟩⟩]

/-- The sources of some hops, and the alias of the last table. -/
def sources (depth : Nat) (owner : String) : List Hop → List Source × String
  | [] => ([], owner)
  | hop :: hops =>
    let (rest, last) := sources (depth + 1) (hopAlias depth) hops
    (hopSources depth owner hop.edge ++ rest, last)

/-- The sort key of a path. -/
def keyOf (root : String) (target : Target) (direction : Direction) : SortKey :=
  if target.isNested then
    let (chain, last) := sources 0 root target.hops
    .related direction.extreme ⟨last, target.column⟩ chain
  else .column ⟨target.table, target.column⟩

/-- The field and the direction of a written order. -/
def split (cs : List Char) : List Char × Direction :=
  match cs with
  | '-' :: field => (field, .descending)
  | field => (field, .ascending)

/-- Read an order. -/
def read (value : String) (r : Registry) (root : String) : Except SearchError SortOrder :=
  let (cs, direction) := split (Text.trim value.toList)
  let field := String.ofList cs
  if cs.isEmpty then .error (.invalidOrdering value)
  else
    match r.resolve root field with
    | .ok target => .ok ⟨field, direction, keyOf root target direction⟩
    | .error _ => .error (.invalidOrdering value)

end SortOrder

end SchemaSearch
