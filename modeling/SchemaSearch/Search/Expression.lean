import SchemaSearch.Search.Term

/-!
# Expressions

Search terms combined by `_AND`, `_OR` and `_NOT`, read from JSON: a list stands for its items in a
row, an object for its members, one of which is either an operation over its value or a field with its
values.  `_NOT` demands that no child holds.  Every operation needs a child.
-/

namespace SchemaSearch

/-- How an expression combines its children. -/
inductive Operation where
  | and | or | not
  deriving DecidableEq, Repr

namespace Operation

/-- The key that stands for an operation. -/
def key : Operation → String
  | .and => "_AND"
  | .or => "_OR"
  | .not => "_NOT"

/-- The operation of a key. -/
def ofKey? (key : String) : Option Operation :=
  if key = "_AND" then some .and
  else if key = "_OR" then some .or
  else if key = "_NOT" then some .not
  else none

@[simp] theorem ofKey?_key (op : Operation) : ofKey? op.key = some op := by
  cases op <;> rfl

end Operation

/-- A tree of search terms. -/
inductive Expression where
  | node (operation : Operation) (children : List Expression)
  | term (field : String) (value : Json)
  deriving BEq, Repr

namespace Expression

/-! ## Reading -/

mutual

/-- The terms of a field: one for each scalar, at any depth of lists. -/
def terms (field : String) : Json → List Expression
  | .list items => termsOfItems field items
  | value => [.term field value]
termination_by structural value => value

/-- The terms of a list of values. -/
def termsOfItems (field : String) : List Json → List Expression
  | [] => []
  | item :: items => terms field item ++ termsOfItems field items
termination_by structural items => items

end

mutual

/-- The expressions that a node stands for. -/
def children : Json → Except SearchError (List Expression)
  | .list items => childrenOfItems items
  | .object members => childrenOfMembers members
  | scalar => .error (.operator (.scalarNode scalar))
termination_by structural node => node

/-- The expressions of a list of nodes. -/
def childrenOfItems : List Json → Except SearchError (List Expression)
  | [] => .ok []
  | item :: items => do
    let first ← children item
    let rest ← childrenOfItems items
    .ok (first ++ rest)
termination_by structural items => items

/-- The expressions of the members of an object. -/
def childrenOfMembers : List (String × Json) → Except SearchError (List Expression)
  | [] => .ok []
  | member :: members => do
    let first ← childrenOfMember member
    let rest ← childrenOfMembers members
    .ok (first ++ rest)
termination_by structural members => members

/-- The expressions of one member: an operation, or the terms of a field. -/
def childrenOfMember : String × Json → Except SearchError (List Expression)
  | (key, value) =>
    match Operation.ofKey? key with
    | some operation => do
      let inner ← children value
      .ok [.node operation inner]
    | none => .ok (terms key value)
termination_by structural member => member

end

/-! ## Folding -/

/-- Combine predicates by an operation; there has to be one. -/
def combine (operation : Operation) (predicates : List Predicate) : Option Predicate :=
  match operation with
  | .and => Predicate.all? predicates
  | .or => Predicate.any? predicates
  | .not => (Predicate.any? predicates).map Predicate.negate

mutual

/-- The predicate of an expression. -/
def toPredicate : Expression → Except SearchError Predicate
  | .term field value => Predicate.ofTerm field value
  | .node operation children =>
    match children with
    | [] => .error (.operator (.noTerms operation.key))
    | children => do
      let predicates ← toPredicates children
      match combine operation predicates with
      | some predicate => .ok predicate
      | none => .error (.operator (.noTerms operation.key))
termination_by structural e => e

/-- The predicates of some expressions, or the first error. -/
def toPredicates : List Expression → Except SearchError (List Predicate)
  | [] => .ok []
  | e :: es => do
    let predicate ← toPredicate e
    let predicates ← toPredicates es
    .ok (predicate :: predicates)
termination_by structural es => es

end

end Expression

end SchemaSearch
