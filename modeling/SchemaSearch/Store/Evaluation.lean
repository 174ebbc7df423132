import SchemaSearch.Query.SortKey
import SchemaSearch.Store.Pattern
import SchemaSearch.Store.Value

/-!
# The meaning of conditions and sort keys

What conditions and sort keys say about the rows of a database.  A column belongs to the innermost table
of its name.
-/

namespace SchemaSearch.Store

open Query

/-- The rows in reach, each under the name of its table or alias, the innermost first. -/
abbrev Bindings := List (String × Row)

/-- The value of a column. -/
def valueOf (env : Bindings) (c : Column) : Value :=
  match Table.find? c.table env with
  | some row => row.get c.name
  | none => .null

/-- What an operand makes of the value of its column. -/
def operandValue (value : Value) : Operand → Value
  | .column _ => value
  | .castToText _ => value.castToText

/-! ## Conditions -/

/-- The truth of a test on the value of its column.  Patterns read any value as text, so a cast changes
nothing for them. -/
def truthOn (value : Value) : Test → Truth
  | .isNull _ => .ofBool (value == .null)
  | .isNotNull _ => .ofBool (value != .null)
  | .equals _ other => value.equals (.ofLiteral other)
  | .matchesPattern _ pattern =>
    match value.codePoints with
    | some text => .ofBool (Pattern.isLike (text.map CodePoint.toUpper) pattern)
    | none => .unknown
  | .oneOf operand values => (operandValue value operand).isAmong (values.map .ofLiteral)
  | .between _ low high =>
    ((Value.ofLiteral low).atMost value).and (value.atMost (.ofLiteral high))
  | .atLeast _ low => (Value.ofLiteral low).atMost value
  | .atMost _ high => value.atMost (.ofLiteral high)

/-- The truth of a test. -/
def testTruth (env : Bindings) (t : Test) : Truth := truthOn (valueOf env t.column) t

/-- The truth of a group, given the truths of its items. -/
def groupTruth (joint : Joint) (negated : Bool) (truths : List Truth) : Truth :=
  let joined := match joint with
    | .all => Truth.all truths
    | .any => Truth.any truths
  if negated then joined.not else joined

/-- The truth of a membership, given the keys. -/
def membershipTruth (negated : Bool) (value : Value) (keys : List Value) : Truth :=
  if negated then (value.isAmong keys).not else value.isAmong keys

mutual

/-- The truth of a condition. -/
def truth (db : Database) (env : Bindings) : Condition → Truth
  | .test t => testTruth env t
  | .within column negated key rows =>
    let kept := (db.rows key.table).filter fun row => (truth db ((key.table, row) :: env) rows).holds
    membershipTruth negated (valueOf env column)
      (kept.map fun row => valueOf ((key.table, row) :: env) key)
  | .group joint negated items => groupTruth joint negated (truths db env items)
termination_by structural c => c

/-- The truths of some conditions. -/
def truths (db : Database) (env : Bindings) : List Condition → List Truth
  | [] => []
  | c :: cs => truth db env c :: truths db env cs
termination_by structural cs => cs

end

/-- Whether a row of a table fulfils a condition. -/
def selects (db : Database) (table : String) (c : Condition) (row : Row) : Bool :=
  (truth db [(table, row)] c).holds

/-! ## Sort keys -/

/-- Every way to extend some bindings by one row for each source. -/
def joinSources (db : Database) : List Source → Bindings → List Bindings
  | [], env => [env]
  | s :: sources, env =>
    (db.rows s.table).flatMap fun row =>
      let inner := (s.tableAlias, row) :: env
      if ((valueOf inner s.left).equals (valueOf inner s.right)).holds then
        joinSources db sources inner
      else []

/-- Of two values, the one that sorts first, or last. -/
def pick : Extreme → Value → Value → Value
  | .least, a, b => if a.sortsBefore b then a else b
  | .greatest, a, b => if a.sortsBefore b then b else a

/-- The extreme of some values, NULL if there is none but NULL. -/
def extremeOf (extreme : Extreme) (values : List Value) : Value :=
  match values.filter (· != .null) with
  | [] => .null
  | v :: vs => vs.foldl (pick extreme) v

/-- What a row sorts by. -/
def keyValue (db : Database) (table : String) (row : Row) : SortKey → Value
  | .column c => valueOf [(table, row)] c
  | .related extreme value sources =>
    extremeOf extreme ((joinSources db sources [(table, row)]).map (valueOf · value))

/-- Sort rows by a key; rows with equal keys stay in order. -/
def sortRows (db : Database) (table : String) (key : SortKey) (direction : Direction)
    (rows : List Row) : List Row :=
  let keyed := rows.map fun row => (keyValue db table row key, row)
  let sorted := match direction with
    | .ascending => keyed.mergeSort fun a b => a.1.sortsBefore b.1
    | .descending => keyed.mergeSort fun a b => b.1.sortsBefore a.1
  sorted.map (·.2)

end SchemaSearch.Store
