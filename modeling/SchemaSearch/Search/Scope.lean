import SchemaSearch.Predicate.Compile
import SchemaSearch.Search.Term

/-!
# Scopes

A scope is a narrowing view of one root entity: the predicates added so far, the condition they compile
to, and whether only active records show.  Predicates are compiled when they are added, so a path that
leads nowhere fails at once.
-/

namespace SchemaSearch

open Query Schema

/-- The field that marks a record as active. -/
def activeField : String := "is_active"

/-- A filtered view of one entity. -/
structure Scope where
  registry : Registry
  root : Entity
  predicates : List Predicate
  /-- The condition of the predicates. -/
  base : Condition
  activeOnly : Bool
  deriving Repr

namespace Scope

/-- The whole entity. -/
def ofEntity (r : Registry) (e : Entity) : Scope := ⟨r, e, [], .always, false⟩

/-- The whole entity of a name. -/
def ofRoot (r : Registry) (root : String) : Except SearchError Scope :=
  (r.entity root).map (ofEntity r)

/-- Demand one more predicate. -/
def filter (s : Scope) (p : Predicate) : Except SearchError Scope := do
  let condition ← p.compile s.registry s.root.name
  .ok { s with predicates := s.predicates ++ [p], base := s.base.and condition }

/-- Show active records only. -/
def restrictToActive (s : Scope) : Scope := { s with activeOnly := true }

/-- Show inactive records too. -/
def includeInactive (s : Scope) : Scope := { s with activeOnly := false }

/-- Whether the entity marks its active records. -/
def hasActiveFlag (s : Scope) : Bool :=
  (s.root.field? activeField).any (·.kind == .boolean)

/-- The test for an active record. -/
def activeCondition (s : Scope) : Condition :=
  .test (.equals ⟨s.root.name, activeField⟩ (.boolean true))

/-- The condition of the scope.  Entities without the mark have no inactive records. -/
def condition (s : Scope) : Condition :=
  if s.activeOnly && s.hasActiveFlag then s.base.and s.activeCondition else s.base

/-- Narrow the scope by a plain search.  No terms, no change. -/
def searchTerms (s : Scope) (p : Params) (excluded : List String) : Except SearchError Scope := do
  let predicates ← p.termPredicates excluded
  match Predicate.all? predicates with
  | some predicate => s.filter predicate
  | none => .ok s

end Scope

end SchemaSearch
