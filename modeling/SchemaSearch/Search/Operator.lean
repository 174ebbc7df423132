import SchemaSearch.Json.Reader
import SchemaSearch.Search.Expression
import SchemaSearch.Search.Scope

/-!
# Operator searches

The parameter `operator` asks for the other parameters to be combined: by `AND`, `OR` or `NOT`, as
members of a list (`IN`), or as one tree under a single outer operation (`ADVANCED`), whose elements
may be JSON texts.  Every error of an operator search says that it is one.
-/

namespace SchemaSearch

/-- How a search combines its parameters. -/
inductive Operator where
  | and | or | not | oneOf | advanced
  deriving DecidableEq, Repr

namespace Operator

/-- The parameter that asks for an operator. -/
def param : String := "operator"

/-- The name of an operator. -/
def name : Operator → String
  | .and => "AND"
  | .or => "OR"
  | .not => "NOT"
  | .oneOf => "IN"
  | .advanced => "ADVANCED"

/-- Every operator. -/
def every : List Operator := [.and, .or, .not, .oneOf, .advanced]

/-- Read the name of an operator, in any case and with blanks around it. -/
def read (s : String) : Except SearchError Operator :=
  let folded := String.ofList (Text.upper (Text.trim s.toList))
  match every.find? (·.name == folded) with
  | some operator => .ok operator
  | none => .error (.operator (.unknownName s))

/-- The operator that some parameters ask for, if any. -/
def ofParams? (p : Params) : Option (Except SearchError Operator) :=
  (p.get? param).map fun value =>
    match value.scalarText with
    | some s => read s
    | none => .error (.operator (.notAName value))

/-! ## The predicate -/

/-- The parameters as one node: each key with the list of its values. -/
def nodeOf (p : Params) : Json := .object (p.entries.map fun (key, values) => (key, .list values))

/-- The text of a member of a list. -/
def memberText (field : String) (value : Json) : Except SearchError String :=
  match value.scalarText with
  | some s => .ok s
  | none => .error (.invalidParameter field .membersNotScalar)

/-- The members that some texts stand for: a single text with commas is a list. -/
def splitMembers : List String → List String
  | [single] =>
    if Text.contains single "," then
      (Text.splitOn ',' single.toList).map fun piece => String.ofList (Text.trim piece)
    else [single]
  | members => members

/-- The first key is one of its values. -/
def membershipPredicate (p : Params) : Except SearchError (Option Predicate) :=
  match p.entries with
  | [] => .ok none
  | (field, values) :: _ => do
    let texts ← values.mapM (memberText field)
    .ok (some (.field field (.oneOf (splitMembers texts))))

/-- An element of an advanced search: a text is JSON, all else is itself. -/
def decodeElement : Json → Except SearchError Json
  | .text s =>
    match Json.parse s.toList with
    | .ok value => .ok value
    | .error fault => .error (.operator (.undecodable s (fault.message s.toList)))
  | value => .ok value

/-- The tree of an advanced search. -/
def advancedExpression (p : Params) : Except SearchError Expression :=
  match p.keys.filter (Operation.ofKey? · |>.isSome) with
  | [] => .error (.operator .noOuterOperation)
  | [key] => do
    let elements ← (p.getAll key).mapM decodeElement
    let children ← Expression.children (.list elements)
    match Operation.ofKey? key with
    | some operation => .ok (.node operation children)
    | none => .error (.operator .noOuterOperation)
  | keys => .error (.operator (.manyOuterOperations keys))

/-- The expression of a search with an outer operation. -/
def outerExpression (operation : Operation) (p : Params) : Except SearchError Expression := do
  let children ← Expression.children (nodeOf p)
  .ok (.node operation children)

/-- The predicate that an operator makes of the parameters. -/
def predicate (operator : Operator) (p : Params) : Except SearchError (Option Predicate) :=
  match operator with
  | .oneOf => membershipPredicate p
  | .and => do (← outerExpression .and p).toPredicate.map some
  | .or => do (← outerExpression .or p).toPredicate.map some
  | .not => do (← outerExpression .not p).toPredicate.map some
  | .advanced => do (← advancedExpression p).toPredicate.map some

end Operator

/-- Narrow the scope by an optional predicate. -/
def Scope.filter? (s : Scope) : Option Predicate → Except SearchError Scope
  | some p => s.filter p
  | none => .ok s

/-- Narrow the scope by an operator search over the parameters that are no search filters, and to
active records.  Without such parameters the scope stays as it is. -/
def Scope.searchOperator (s : Scope) (operator : Operator) (p : Params) (filters : List String) :
    Except SearchError Scope :=
  let remaining := p.without filters
  if remaining.entries.isEmpty then .ok s
  else
    match operator.predicate remaining >>= s.filter? with
    | .ok narrowed => .ok narrowed.restrictToActive
    | .error error => .error error.asOperatorError

end SchemaSearch
