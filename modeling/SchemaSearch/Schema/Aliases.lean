import SchemaSearch.Schema.Discovery
import SchemaSearch.Schema.Path

/-!
# The aliases of a root

A root has its own aliases and, with the relation path in front, those of every entity it reaches.
`Registry.build` accepts only registries in which every alias of every root leads to a field.
-/

namespace SchemaSearch.Schema.Registry

/-- The aliases of a list of discovered entities, merged in order. -/
def mergeRenames (found : List Found) (own : Renames) : Renames :=
  found.foldl (fun acc f => acc.extend (f.entity.renames.prefixed f.lead)) own

/-- The aliases of a root, not yet checked. -/
def mergedRenames (r : Registry) (e : Entity) : Renames := mergeRenames (r.nested e) e.renames

/-- The aliases of a root, or the first that leads nowhere. -/
def renames (r : Registry) (root : String) : Except SearchError Renames := do
  let e ← r.entity root
  let merged := r.mergedRenames e
  match merged.entries.find? fun (_, path) => !(r.resolve root path).isOk with
  | some (key, path) => .error (.unresolvedRename root key path)
  | none => .ok merged

/-- Whether every root can be searched, and the first error if not. -/
def check (r : Registry) : List String → Except SearchError Unit
  | [] => .ok ()
  | name :: names =>
    match r.renames name with
    | .ok _ => r.check names
    | .error error => .error error

/-- The registry of these entities, provided all aliases of all roots lead to fields.  Roots are
checked in the order of their names. -/
def build (entities : List Entity) : Except SearchError Registry :=
  let r := ofEntities entities
  (r.check r.sortedNames).map fun _ => r

/-- The paths of the boolean fields of a root: its own, then those of what it reaches. -/
def booleanPaths (r : Registry) (e : Entity) : List String :=
  e.booleanFields
    ++ (r.nested e).flatMap fun f => f.entity.booleanFields.map (Renames.join f.lead)

end SchemaSearch.Schema.Registry
