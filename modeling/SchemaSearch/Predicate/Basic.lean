import SchemaSearch.Moment.Basic

/-!
# Predicates

A boolean filter over field paths, before it is known which columns the paths lead to.  The operations
`and`, `or` and `not` keep predicates in a normal form: a node never holds a node of its own kind, and
a negation never negates a negation.
-/

namespace SchemaSearch

/-- How one field is compared. -/
inductive Lookup where
  /-- Starts with a text, in any case. -/
  | startsWith (value : String)
  /-- Contains a text, in any case. -/
  | contains (value : String)
  /-- Is NULL, or is not. -/
  | isNull (expected : Bool)
  /-- Lies between two moments, both included. -/
  | range (start finish : Moment)
  /-- Is not before a moment. -/
  | atLeast (start : Moment)
  /-- Is not after a moment. -/
  | atMost (finish : Moment)
  /-- Is one of some values. -/
  | oneOf (values : List String)
  deriving DecidableEq, Repr

/-- A filter over field paths. -/
inductive Predicate where
  | field (path : String) (lookup : Lookup)
  | and (items : List Predicate)
  | or (items : List Predicate)
  | not (inner : Predicate)
  deriving BEq, Repr

namespace Predicate

/-! ## The algebra -/

/-- The items of a conjunction, or the predicate itself. -/
def conjuncts : Predicate → List Predicate
  | .and items => items
  | p => [p]

/-- The items of a disjunction, or the predicate itself. -/
def disjuncts : Predicate → List Predicate
  | .or items => items
  | p => [p]

/-- Both hold. -/
def both (p q : Predicate) : Predicate := .and (p.conjuncts ++ q.conjuncts)

/-- At least one holds. -/
def either (p q : Predicate) : Predicate := .or (p.disjuncts ++ q.disjuncts)

/-- Does not hold. -/
def negate : Predicate → Predicate
  | .not inner => inner
  | p => .not p

/-- All of a non-empty list hold. -/
def all? : List Predicate → Option Predicate
  | [] => none
  | p :: ps => some (ps.foldl both p)

/-- Some of a non-empty list hold. -/
def any? : List Predicate → Option Predicate
  | [] => none
  | p :: ps => some (ps.foldl either p)

end Predicate

end SchemaSearch
