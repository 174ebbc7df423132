import SchemaSearch.Moment.Reader
import SchemaSearch.Search.Scope

/-!
# Date bounds

Keys that contain `date_start` or `date_end` bound a date field: `created_at_date_start` demands that
`created_at` is not before its value.  All such keys have to name one field.  They are taken out of the
parameters, so no later stage sees them.
-/

namespace SchemaSearch

open Schema

/-- The bounds that some keys set. -/
structure DateBounds where
  /-- The field that the keys name. -/
  field : Option String
  start : Option Moment
  finish : Option Moment
  deriving DecidableEq, Repr

namespace DateBounds

/-- What marks a lower bound. -/
def startMark : String := "date_start"

/-- What marks an upper bound. -/
def finishMark : String := "date_end"

/-- No bounds. -/
def none : DateBounds := ⟨.none, .none, .none⟩

/-- Whether a key sets a bound. -/
def isBoundKey (key : String) : Bool := Text.contains key startMark || Text.contains key finishMark

/-- The field that a key names: what comes before its last two words. -/
def fieldOf (key : String) : String :=
  let words := (Text.splitOn '_' key.toList).map String.ofList
  if words.length ≤ 2 then words.headD ""
  else "_".intercalate (words.take (words.length - 2))

/-- Take the bound of one key. -/
def record (b : DateBounds) (p : Params) (key : String) : Except SearchError DateBounds :=
  let field := fieldOf key
  if b.field.any (· != field) then .error (.date .mixedAttributes)
  else
    match (p.getText? key).bind Moment.read with
    | .none => .error (.date .badFormat)
    | some m =>
      if Text.contains key startMark then .ok { b with field := some field, start := some m }
      else .ok { b with field := some field, finish := some m }

/-- The bounds of some parameters. -/
def ofParams (p : Params) : Except SearchError DateBounds :=
  (p.keys.filter isBoundKey).foldlM (fun b key => b.record p key) none

/-- The lookup of the bounds, if any is set.  A range must not be empty. -/
def lookup? (b : DateBounds) : Except SearchError (Option Lookup) :=
  match b.start, b.finish with
  | some start, some finish =>
    if start.before finish then .ok (some (.range start finish)) else .error (.date .emptyRange)
  | some start, .none => .ok (some (.atLeast start))
  | .none, some finish => .ok (some (.atMost finish))
  | .none, .none => .ok .none

/-- The path of a bounded field: that of its alias, or the field itself, which has to lead to a date
column. -/
def pathOf (s : Scope) (renames : Renames) (field : String) : Except SearchError String :=
  match renames.get? field with
  | some path => .ok path
  | .none =>
    match s.registry.resolve s.root.name field with
    | .ok target => if target.kind.isTemporal then .ok field else .error (.date .notTemporal)
    | .error (.unknownField _ _) => .error (.date .unknownAttribute)
    | .error error => .error error

end DateBounds

/-- Narrow the scope by the date bounds of some parameters, and take their keys out. -/
def Scope.searchDates (s : Scope) (p : Params) (renames : Renames) :
    Except SearchError (Scope × Params) := do
  let bounds ← DateBounds.ofParams p
  match bounds.field with
  | none => .ok (s, p)
  | some field =>
    let remaining := p.without (p.keys.filter DateBounds.isBoundKey)
    let path ← DateBounds.pathOf s renames field
    match ← bounds.lookup? with
    | none => .ok (s, remaining)
    | some lookup =>
      let narrowed ← s.filter (.field path lookup)
      .ok (narrowed, remaining)

end SchemaSearch
