import SchemaSearch.Error
import SchemaSearch.Schema.Edge
import SchemaSearch.Schema.Kind
import SchemaSearch.Schema.Renames

/-!
# Entities and the registry

An entity is a table as far as search knows it: its fields, its relationships and its aliases.  The
registry holds every entity that can be searched; registering a name again replaces the entity.
-/

namespace SchemaSearch.Schema

/-- A scalar field of an entity. -/
structure Field where
  name : String
  kind : FieldKind
  deriving DecidableEq, Repr

/-- A searchable table. -/
structure Entity where
  /-- The name of the table. -/
  name : String
  fields : List Field
  relationships : List Edge
  renames : Renames
  deriving DecidableEq, Repr

namespace Entity

/-- The first field of a name. -/
def field? (e : Entity) (name : String) : Option Field := e.fields.find? (·.name == name)

/-- The first relationship of a name. -/
def relationship? (e : Entity) (name : String) : Option Edge :=
  e.relationships.find? (·.name == name)

/-- The names of the boolean fields. -/
def booleanFields (e : Entity) : List String :=
  (e.fields.filter (·.kind == .boolean)).map (·.name)

/-- The kind of a column, for columns that are fields. -/
def kindOf (e : Entity) (column : String) : FieldKind :=
  ((e.field? column).map (·.kind)).getD .other

end Entity

/-- Every entity that can be searched, the last registered first. -/
structure Registry where
  entities : List Entity
  deriving DecidableEq, Repr

namespace Registry

/-- The registry after registering these entities in order. -/
def ofEntities (entities : List Entity) : Registry := ⟨entities.reverse⟩

/-- The entity of a name; the last one registered counts. -/
def get? (r : Registry) (name : String) : Option Entity := r.entities.find? (·.name == name)

/-- Whether a name is registered. -/
def contains (r : Registry) (name : String) : Bool := (r.get? name).isSome

/-- The entity of a name, or the error that there is none. -/
def entity (r : Registry) (name : String) : Except SearchError Entity :=
  match r.get? name with
  | some e => .ok e
  | none => .error (.unknownEntity name)

/-- The names in order. -/
def sortedNames (r : Registry) : List String :=
  (r.entities.map (·.name)).mergeSort fun a b => decide (a ≤ b)

/-- An entity is found under its own name. -/
theorem name_of_get? {r : Registry} {name : String} {e : Entity} (h : r.get? name = some e) :
    e.name = name := by
  simpa using List.find?_some h

theorem mem_of_get? {r : Registry} {name : String} {e : Entity} (h : r.get? name = some e) :
    e ∈ r.entities := List.mem_of_find?_eq_some h

end Registry

end SchemaSearch.Schema
