import SchemaSearch.Store.Evaluation

/-!
# Plans

A plan is a condition made ready for one database.  Where the rows of a membership can be told without
the row that is filtered, their keys are looked up once and kept, so a chain of memberships costs a
sum and not a product of table sizes.  Main statement: a plan says of every row what its condition says
(`truth_ofCondition`).
-/

namespace SchemaSearch

open Query Store

/-! ## Conditions on one table -/

namespace Query.Condition

mutual

/-- Whether all columns, those inside of memberships apart, are columns of `table`; inside, they have to
be columns of the inner table. -/
def isAbout (table : String) : Condition → Bool
  | .test t => t.column.table == table
  | .within column _ key rows => column.table == table && isAbout key.table rows
  | .group _ _ items => allAbout table items
termination_by structural c => c

/-- Whether every one of some conditions is about `table`. -/
def allAbout (table : String) : List Condition → Bool
  | [] => true
  | c :: cs => isAbout table c && allAbout table cs
termination_by structural cs => cs

end

end Query.Condition

namespace Store

/-- Bindings that follow those of `table` do not matter to its columns. -/
theorem valueOf_cons (table : String) (row : Row) (env : Bindings) {c : Column}
    (h : c.table = table) : valueOf ((table, row) :: env) c = row.get c.name := by
  simp [valueOf, Table.find?, h]

theorem testTruth_cons (table : String) (row : Row) (env : Bindings) {t : Test}
    (h : t.column.table = table) :
    testTruth ((table, row) :: env) t = testTruth [(table, row)] t := by
  simp only [testTruth, valueOf_cons table row env h, valueOf_cons table row [] h]

mutual

/-- A condition about one table needs no row but one of it. -/
theorem truth_cons (db : Database) (table : String) (row : Row) (env : Bindings) :
    ∀ c : Condition, c.isAbout table = true →
      truth db ((table, row) :: env) c = truth db [(table, row)] c
  | .test t, h => by
    simp only [truth]
    exact testTruth_cons table row env (by simpa [Condition.isAbout] using h)
  | .within column negated key rows, h => by
    simp only [Condition.isAbout, Bool.and_eq_true, beq_iff_eq] at h
    have hrows : ∀ (inner : Row) (outer : Bindings),
        truth db ((key.table, inner) :: outer) rows = truth db [(key.table, inner)] rows :=
      fun inner outer => truth_cons db key.table inner outer rows h.2
    have hkeys : ∀ (inner : Row) (outer : Bindings),
        valueOf ((key.table, inner) :: outer) key = inner.get key.name :=
      fun inner outer => valueOf_cons key.table inner outer rfl
    simp only [truth, hrows, hkeys, valueOf_cons table row _ h.1]
  | .group joint negated items, h => by
    simp only [truth, truths_cons db table row env items h]

/-- Conditions about one table need no row but one of it. -/
theorem truths_cons (db : Database) (table : String) (row : Row) (env : Bindings) :
    ∀ cs : List Condition, Condition.allAbout table cs = true →
      truths db ((table, row) :: env) cs = truths db [(table, row)] cs
  | [], _ => rfl
  | c :: cs, h => by
    simp only [Condition.allAbout, Bool.and_eq_true] at h
    simp only [truths, truth_cons db table row env c h.1, truths_cons db table row env cs h.2]

end

/-! ## Plans -/

/-- A condition made ready for a database. -/
inductive Plan where
  | test (t : Test)
  /-- The column is (or is not) among keys that were looked up. -/
  | among (column : Column) (negated : Bool) (keys : List Value)
  /-- The column is (or is not) among keys that depend on the row. -/
  | within (column : Column) (negated : Bool) (key : Column) (rows : Plan)
  | group (joint : Joint) (negated : Bool) (items : List Plan)
  deriving Repr

namespace Plan

mutual

/-- The truth of a plan. -/
def truth (db : Database) (env : Bindings) : Plan → Truth
  | .test t => testTruth env t
  | .among column negated keys => membershipTruth negated (valueOf env column) keys
  | .within column negated key rows =>
    let kept := (db.rows key.table).filter fun row => (truth db ((key.table, row) :: env) rows).holds
    membershipTruth negated (valueOf env column)
      (kept.map fun row => valueOf ((key.table, row) :: env) key)
  | .group joint negated items => groupTruth joint negated (truths db env items)
termination_by structural p => p

/-- The truths of some plans. -/
def truths (db : Database) (env : Bindings) : List Plan → List Truth
  | [] => []
  | p :: ps => truth db env p :: truths db env ps
termination_by structural ps => ps

end

/-- The keys of the rows of a table on which a plan holds. -/
def keys (db : Database) (key : Column) (rows : Plan) : List Value :=
  let kept := (db.rows key.table).filter fun row => (rows.truth db [(key.table, row)]).holds
  kept.map fun row => row.get key.name

mutual

/-- The plan of a condition. -/
def ofCondition (db : Database) : Condition → Plan
  | .test t => .test t
  | .within column negated key rows =>
    let plan := ofCondition db rows
    if rows.isAbout key.table then .among column negated (plan.keys db key)
    else .within column negated key plan
  | .group joint negated items => .group joint negated (ofConditions db items)
termination_by structural c => c

/-- The plans of some conditions. -/
def ofConditions (db : Database) : List Condition → List Plan
  | [] => []
  | c :: cs => ofCondition db c :: ofConditions db cs
termination_by structural cs => cs

end

mutual

/-- A plan says what its condition says. -/
theorem truth_ofCondition (db : Database) :
    ∀ (c : Condition) (env : Bindings), (ofCondition db c).truth db env = Store.truth db env c
  | .test t, env => by simp only [ofCondition, truth, Store.truth]
  | .within column negated key rows, env => by
    have hplan := truth_ofCondition db rows
    simp only [ofCondition]
    split
    · rename_i h
      have hrows : ∀ row : Row, Store.truth db ((key.table, row) :: env) rows
          = Store.truth db [(key.table, row)] rows :=
        fun row => truth_cons db key.table row env rows h
      simp only [truth, keys, Store.truth, hplan, hrows, valueOf_cons key.table _ env rfl]
    · simp only [truth, Store.truth, hplan]
  | .group joint negated items, env => by
    simp only [ofCondition, truth, Store.truth, truths_ofConditions db items env]

/-- Plans say what their conditions say. -/
theorem truths_ofConditions (db : Database) :
    ∀ (cs : List Condition) (env : Bindings), truths db env (ofConditions db cs) = Store.truths db env cs
  | [], _ => rfl
  | c :: cs, env => by
    simp only [ofConditions, truths, Store.truths, truth_ofCondition db c env,
      truths_ofConditions db cs env]

end

/-- Whether a plan keeps a row of a table. -/
def selects (db : Database) (table : String) (p : Plan) (row : Row) : Bool :=
  (p.truth db [(table, row)]).holds

theorem selects_ofCondition (db : Database) (table : String) (c : Condition) (row : Row) :
    (ofCondition db c).selects db table row = Store.selects db table c row := by
  simp only [selects, Store.selects, truth_ofCondition]

end Plan

end Store

end SchemaSearch
