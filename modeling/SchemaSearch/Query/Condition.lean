import SchemaSearch.Moment.Basic
import SchemaSearch.Uuid

/-!
# Conditions

The filter of a query as data: atomic tests on columns, membership in the keys of other rows, and
groups that join conditions with AND or OR, possibly negated.  What a condition means is said by its
evaluation (`Store.Evaluation`), how it is written by its SQL text (`Query.Sql`).
-/

namespace SchemaSearch.Query

/-- A column of a table, or of an alias of a table. -/
structure Column where
  table : String
  name : String
  deriving DecidableEq, Repr

/-- A value inside a query. -/
inductive Literal where
  | text (s : String)
  | boolean (b : Bool)
  | integer (n : Int)
  | uuid (u : Uuid)
  | dateTime (m : Moment)
  /-- The date of a moment. -/
  | date (m : Moment)
  deriving DecidableEq, Repr

/-- What a pattern or a list of values is compared with. -/
inductive Operand where
  | column (c : Column)
  /-- The column cast to text. -/
  | castToText (c : Column)
  deriving DecidableEq, Repr

/-- The column of an operand. -/
def Operand.base : Operand → Column
  | .column c | .castToText c => c

/-- An atomic test. -/
inductive Test where
  | isNull (c : Column)
  | isNotNull (c : Column)
  | equals (c : Column) (value : Literal)
  /-- The operand in upper case matches a pattern with `%`, `_` and the escape character. -/
  | matchesPattern (operand : Operand) (pattern : String)
  | oneOf (operand : Operand) (values : List Literal)
  | between (c : Column) (low high : Literal)
  | atLeast (c : Column) (low : Literal)
  | atMost (c : Column) (high : Literal)
  deriving DecidableEq, Repr

/-- The column of a test. -/
def Test.column : Test → Column
  | .isNull c | .isNotNull c | .equals c _ | .between c _ _ | .atLeast c _ | .atMost c _ => c
  | .matchesPattern operand _ | .oneOf operand _ => operand.base

/-- How a group joins its items. -/
inductive Joint where
  | all | any
  deriving DecidableEq, Repr

/-- A filter on the rows of a table. -/
inductive Condition where
  | test (t : Test)
  /-- `column` is (or is not) among the `key` values of the rows of `key.table` that fulfil `rows`. -/
  | within (column : Column) (negated : Bool) (key : Column) (rows : Condition)
  | group (joint : Joint) (negated : Bool) (items : List Condition)
  deriving Repr

namespace Condition

/-- What joins a group as one of its items: a group of one item that is not negated stands for that
item. -/
def asItem : Condition → Condition
  | .group _ false [item] => item
  | c => c

/-- All of the items hold. -/
def all (items : List Condition) : Condition := .group .all false (items.map asItem)

/-- Some of the items hold. -/
def any (items : List Condition) : Condition := .group .any false (items.map asItem)

/-- The condition does not hold. -/
def not (c : Condition) : Condition := .group .all true [c.asItem]

/-- The items of a plain conjunction, or the condition as one item. -/
def conjuncts : Condition → List Condition
  | .group .all false items => items
  | c => [c.asItem]

/-- Narrow a conjunction by one more condition. -/
def and (c extra : Condition) : Condition := .group .all false (c.conjuncts ++ [extra.asItem])

/-- Narrow a conjunction by the parts of another condition. -/
def merge (c extra : Condition) : Condition := .group .all false (c.conjuncts ++ extra.conjuncts)

/-- No restriction. -/
def always : Condition := .group .all false []

end Condition

end SchemaSearch.Query
