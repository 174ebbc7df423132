import SchemaSearch.Schema.Registry

/-!
# Discovery

Which entities a root reaches without going through a junction table, and under which relation path.
The walk keeps a stack and takes the entity found last.  An edge is told by its name and its target:
one seen before is not followed again, even under another path, so every walk ends.
-/

namespace SchemaSearch.Schema

/-- An entity that was reached; name and path are empty for the root. -/
structure Found where
  /-- The name of the edge that reached it. -/
  name : String
  /-- The relation path from the root. -/
  lead : String
  entity : Entity
  deriving DecidableEq, Repr

namespace Found

/-- The root of a walk. -/
def root (e : Entity) : Found := ⟨"", "", e⟩

/-- The path of an edge that leaves an entity. -/
def leadOf (parent : Found) (edge : Edge) : String :=
  if parent.lead.isEmpty then edge.name else Renames.join parent.lead edge.name

/-- What tells the edge that reached the entity. -/
def label (f : Found) : String × String := (f.name, f.entity.name)

end Found

namespace Registry

/-- The entities that some edges of `parent` reach for the first time. -/
def newlyFound (r : Registry) (parent : Found) (seen : List (String × String)) :
    List Edge → List Found
  | [] => []
  | edge :: edges =>
    if edge.isTraversable && !seen.contains edge.label then
      match r.get? edge.target with
      | some target =>
        ⟨edge.name, parent.leadOf edge, target⟩
          :: r.newlyFound parent (edge.label :: seen) edges
      | none => r.newlyFound parent seen edges
    else r.newlyFound parent seen edges

/-- Everything reached from the entities on the stack, each in the order in which it is found.  One
unit of fuel pays for one entity. -/
def walk (r : Registry) : Nat → List Found → List (String × String) → List Found
  | 0, _, _ => []
  | _ + 1, [], _ => []
  | fuel + 1, parent :: stack, seen =>
    let fresh := r.newlyFound parent seen parent.entity.relationships
    fresh ++ r.walk fuel (fresh.reverse ++ stack) (fresh.map (·.label) ++ seen)

/-- The number of edges, which bounds what a walk can find. -/
def edgeCount (r : Registry) : Nat :=
  r.entities.foldr (fun e n => e.relationships.length + n) 0

/-- What an entity reaches, without itself. -/
def nested (r : Registry) (e : Entity) : List Found :=
  r.walk (r.edgeCount + 1) [Found.root e] []

/-- The root and everything it reaches, in the order of discovery. -/
def discover (r : Registry) (root : String) : Except SearchError (List Found) :=
  (r.entity root).map fun e => Found.root e :: r.nested e

end Registry

end SchemaSearch.Schema
