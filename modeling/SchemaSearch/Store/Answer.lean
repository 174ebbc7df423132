import SchemaSearch.Store.Plan

/-!
# Answers to queries

Running a query filters the rows of its table, sorts those that are left and cuts out the window.
-/

namespace SchemaSearch.Store

open Query

/-- The rows of a table that fulfil a condition. -/
def selectedRows (db : Database) (table : String) (c : Option Condition) : List Row :=
  match c with
  | some c =>
    let plan := Plan.ofCondition db c
    (db.rows table).filter (plan.selects db table)
  | none => db.rows table

/-- The rows that are selected are those that fulfil the condition. -/
theorem selectedRows_some (db : Database) (table : String) (c : Condition) :
    selectedRows db table (some c) = (db.rows table).filter (selects db table c) := by
  simp only [selectedRows]
  exact congrArg (List.filter · _) (funext (Plan.selects_ofCondition db table c))

/-- The rows of a window. -/
def cut (w : Window) (rows : List Row) : List Row := (rows.drop w.offset).take w.limit

/-- The rows that a query finds, in order. -/
def run (db : Database) (q : Select) : List Row :=
  let rows := selectedRows db q.table q.condition
  let sorted := match q.order with
    | some (key, direction) => sortRows db q.table key direction rows
    | none => rows
  match q.window with
  | some w => cut w sorted
  | none => sorted

end SchemaSearch.Store
