import SchemaSearch.Schema.Registry

/-!
# Field paths

A path is a list of names with `__` between.  All but the last name relationships, one after another;
the last names a field, or a key of its owner.  `resolve` says which column a path leads to and through
which hops, or that it leads nowhere.
-/

namespace SchemaSearch.Schema

/-- The names of a path.  Separators are found from the left and do not overlap. -/
def segmentsOf : List Char → List (List Char)
  | [] => [[]]
  | '_' :: '_' :: rest => [] :: segmentsOf rest
  | c :: rest =>
    match segmentsOf rest with
    | [] => [[c]]
    | segment :: segments => (c :: segment) :: segments

/-- The names of a path. -/
def segments (path : String) : List String := (segmentsOf path.toList).map String.ofList

/-- One relationship on the way, with the table it starts from. -/
structure Hop where
  owner : String
  edge : Edge
  deriving DecidableEq, Repr

/-- Where a path leads: the hops, then a column of the last table. -/
structure Target where
  hops : List Hop
  table : String
  column : String
  kind : FieldKind
  deriving DecidableEq, Repr

/-- Whether the path leaves its root. -/
def Target.isNested (t : Target) : Bool := !t.hops.isEmpty

/-- The column that the last name of a path stands for. -/
def Entity.column? (e : Entity) (name : String) : Option Target :=
  match e.field? name with
  | some field => some ⟨[], e.name, field.name, field.kind⟩
  | none =>
    match (e.relationship? name).filter (·.isForeignKey) with
    | some edge => some ⟨[], e.name, edge.localColumn, e.kindOf edge.localColumn⟩
    | none => none

namespace Registry

/-- Follow names from an entity. -/
def follow (r : Registry) (e : Entity) : List String → Option Target
  | [] => none
  | [last] => if last.isEmpty then none else e.column? last
  | name :: rest =>
    if name.isEmpty then none
    else
      match e.relationship? name with
      | none => none
      | some edge =>
        match r.get? edge.target with
        | none => none
        | some next =>
          (r.follow next rest).map fun t => { t with hops := ⟨e.name, edge⟩ :: t.hops }

/-- Where a path leads from a root. -/
def resolve (r : Registry) (root path : String) : Except SearchError Target :=
  match r.get? root with
  | none => .error (.unknownEntity root)
  | some e =>
    match r.follow e (segments path) with
    | some target => .ok target
    | none => .error (.unknownField root path)

/-- What a path resolves to is where it leads from the entity of the root. -/
theorem follow_of_resolve {r : Registry} {root path : String} {t : Target} (h : r.resolve root path = .ok t) :
    ∃ e, r.get? root = some e ∧ r.follow e (segments path) = some t := by
  unfold resolve at h
  split at h
  · cases h
  · rename_i e he
    split at h
    · rename_i found hfound
      cases h
      exact ⟨e, he, hfound⟩
    · cases h

/-- A registered root fails only by an unknown field. -/
theorem resolve_error {r : Registry} {root path : String} {error : SearchError} {e : Entity}
    (hroot : r.get? root = some e) (h : r.resolve root path = .error error) :
    error = .unknownField root path := by
  simp only [resolve, hroot] at h
  split at h
  · cases h
  · injection h with h
    exact h.symm

end Registry

end SchemaSearch.Schema
