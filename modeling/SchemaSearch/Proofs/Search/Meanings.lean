import SchemaSearch.Proofs.Agreement
import SchemaSearch.Proofs.Search.Fields
import SchemaSearch.Proofs.Search.Narrowing

/-!
# What expressions mean

The meaning of an expression is what it says of rows, if it becomes a condition at all.  An operation has
its meaning from those of its children, as a bag: neither whether it becomes a condition nor which rows it
selects depends on their order, nor on how the children are written.

Main statement: two scopes that select the same rows do so after they are narrowed by expressions of one
meaning (`Scope.agree_demand`).
-/

namespace SchemaSearch

open Query Schema Store

/-- What is said of the rows of a database. -/
abbrev Saying := Database → Row → Bool

/-! ## Predicates -/

namespace Predicate

/-! ### Folds -/

section Folds

variable {holds : String → Lookup → Bool}

theorem evals_eq_map (ps : List Predicate) : evals holds ps = ps.map (eval holds) := by
  induction ps with
  | nil => rfl
  | cons p ps ih => rw [evals, ih, List.map_cons]

theorem eval_and (ps : List Predicate) : (and ps).eval holds = ps.all (eval holds) := by
  rw [eval, evals_eq_map, List.all_map]
  rfl

theorem eval_or (ps : List Predicate) : (or ps).eval holds = ps.any (eval holds) := by
  rw [eval, evals_eq_map, List.any_map]
  rfl

theorem all_conjuncts (p : Predicate) : p.conjuncts.all (eval holds) = p.eval holds := by
  cases p with
  | and ps => rw [conjuncts, eval_and]
  | field path lookup => simp [conjuncts]
  | or ps => simp [conjuncts]
  | not inner => simp [conjuncts]

theorem any_disjuncts (p : Predicate) : p.disjuncts.any (eval holds) = p.eval holds := by
  cases p with
  | or ps => rw [disjuncts, eval_or]
  | field path lookup => simp [disjuncts]
  | and ps => simp [disjuncts]
  | not inner => simp [disjuncts]

@[simp] theorem eval_negate (p : Predicate) : p.negate.eval holds = !p.eval holds := by
  rcases negate_eq p with ⟨inner, rfl, hnegate⟩ | hnegate
  · rw [hnegate, eval, Bool.not_not]
  · rw [hnegate, eval]

/-- All of a list hold if each does. -/
theorem eval_all? {ps : List Predicate} {p : Predicate} (h : all? ps = some p) :
    p.eval holds = ps.all (eval holds) := by
  have hparts : p.conjuncts = ps.flatMap conjuncts := parts_joinAll? .all h
  rw [← all_conjuncts p, hparts, List.all_flatMap]
  simp only [all_conjuncts]

/-- Some of a list hold if one does. -/
theorem eval_any? {ps : List Predicate} {p : Predicate} (h : any? ps = some p) :
    p.eval holds = ps.any (eval holds) := by
  have hparts : p.disjuncts = ps.flatMap disjuncts := parts_joinAll? .any h
  rw [← any_disjuncts p, hparts, List.any_flatMap]
  simp only [any_disjuncts]

end Folds

/-! ### Conditions -/

variable (r : Registry) (root : String)

/-- Whether a predicate becomes a condition. -/
def compiles (p : Predicate) : Bool := (p.compile r root).isOk

variable {r root}

mutual

/-- A predicate becomes a condition if each of its fields does. -/
theorem compiles_eq_all : ∀ p : Predicate,
    p.compiles r root = p.leaves.all fun leaf => (field leaf.1 leaf.2).compiles r root
  | .field path lookup => by simp [leaves]
  | .and ps => by
    rw [leaves, ← isOk_compileAll ps, compiles, compile]
    cases compileAll r root ps <;> rfl
  | .or ps => by
    rw [leaves, ← isOk_compileAll ps, compiles, compile]
    cases compileAll r root ps <;> rfl
  | .not inner => by
    rw [leaves, ← compiles_eq_all inner, compiles, compile, compiles]
    cases compile r root inner <;> rfl

theorem isOk_compileAll : ∀ ps : List Predicate,
    (compileAll r root ps).isOk = (leavesOf ps).all fun leaf => (field leaf.1 leaf.2).compiles r root
  | [] => rfl
  | p :: ps => by
    rw [leavesOf, List.all_append, ← compiles_eq_all p, ← isOk_compileAll ps, compileAll, compiles]
    cases compile r root p with
    | error error => rfl
    | ok c => cases compileAll r root ps <;> rfl

end

/-- A list of predicates has the fields of all of them. -/
theorem all_leavesOf (ps : List Predicate) (test : String × Lookup → Bool) :
    (leavesOf ps).all test = ps.all fun p => p.leaves.all test := by
  induction ps with
  | nil => rfl
  | cons p ps ih => rw [leavesOf, List.all_append, ih, List.all_cons]

variable (r root)

/-- What a predicate says of rows, if it becomes a condition. -/
def meaning (p : Predicate) : Option Saying :=
  if p.compiles r root then some fun db row => p.holdsOn r root db row else none

end Predicate

/-! ## Expressions -/

namespace Operation

/-- What an operation says of a row, given what its children say. -/
def truthOf (operation : Operation) (saidOf : List Bool) : Bool :=
  match operation with
  | .and => saidOf.all id
  | .or => saidOf.any id
  | .not => !saidOf.any id

/-- The meaning of an operation over children with some meanings: it has to have a child, and every child
a meaning. -/
def meaning (operation : Operation) (children : List (Option Saying)) : Option Saying :=
  if children.isEmpty || children.any (·.isNone) then none
  else some fun db row => operation.truthOf (children.map fun child => child.any fun saying => saying db row)

/-- The order of the children does not matter. -/
theorem meaning_perm (operation : Operation) {children children' : List (Option Saying)}
    (h : children.Perm children') : operation.meaning children = operation.meaning children' := by
  have hmeans : ∀ bs bs' : List Bool, bs.Perm bs' → operation.truthOf bs = operation.truthOf bs' := by
    intro bs bs' hperm
    cases operation with
    | and => exact hperm.all_eq
    | or => exact hperm.any_eq
    | not => exact congrArg Bool.not hperm.any_eq
  unfold meaning
  rw [h.isEmpty_eq, h.any_eq]
  split
  · rfl
  · congr 1
    funext db row
    exact hmeans _ _ (h.map _)

end Operation

namespace Expression

/-! ### Lists of expressions -/

theorem childrenOfItems_eq_gather (items : List Json) : childrenOfItems items = gather children items := by
  induction items with
  | nil => rfl
  | cons item items ih => rw [childrenOfItems, gather, ih]

theorem childrenOfMembers_eq_gather (members : List (String × Json)) :
    childrenOfMembers members = gather childrenOfMember members := by
  induction members with
  | nil => rfl
  | cons member members ih => rw [childrenOfMembers, gather, ih]

theorem toPredicates_eq_mapM (es : List Expression) : toPredicates es = es.mapM toPredicate := by
  induction es with
  | nil => rfl
  | cons e es ih =>
    rw [toPredicates, List.mapM_cons, ih]
    rfl

/-! ### Meanings -/

section Combine

variable {operation : Operation} {ps : List Predicate} {p : Predicate}

theorem eval_combine {holds : String → Lookup → Bool} (h : combine operation ps = some p) :
    p.eval holds = operation.truthOf (ps.map (Predicate.eval holds)) := by
  cases operation with
  | and => simp [Operation.truthOf, Predicate.eval_all? h]
  | or => simp [Operation.truthOf, Predicate.eval_any? h]
  | not =>
    obtain ⟨q, hq, rfl⟩ := Option.map_eq_some_iff.mp h
    simp [Operation.truthOf, Predicate.eval_any? hq]

theorem exists_combine (operation : Operation) (first : Predicate) (rest : List Predicate) :
    ∃ p, combine operation (first :: rest) = some p := by
  cases operation with
  | and => exact ⟨_, rfl⟩
  | or => exact ⟨_, rfl⟩
  | not => exact ⟨_, rfl⟩

variable {r : Registry} {root : String}

/-- What is combined means what the operation makes of the meanings. -/
theorem meaning_combine (h : combine operation ps = some p) :
    p.meaning r root = operation.meaning (ps.map (Predicate.meaning r root)) := by
  have hsome : ps.isEmpty = false := by
    cases ps with
    | nil => cases operation <;> cases h
    | cons first rest => rfl
  have hcompiles : p.compiles r root = ps.all (Predicate.compiles r root) := by
    rw [Predicate.compiles_eq_all, leaves_combine h, Predicate.all_leavesOf]
    simp only [← Predicate.compiles_eq_all]
  have hnone : (ps.map (Predicate.meaning r root)).any (·.isNone) = !ps.all (Predicate.compiles r root) := by
    rw [List.any_map, List.not_all_eq_any_not]
    congr 1
    funext q
    simp only [Function.comp_apply, Predicate.meaning]
    cases q.compiles r root <;> rfl
  rw [Predicate.meaning, Operation.meaning, List.isEmpty_map, hsome, hnone, hcompiles]
  cases hall : ps.all (Predicate.compiles r root) with
  | false => rfl
  | true =>
    simp only [if_true, Bool.not_true, Bool.or_self, Bool.false_eq_true, if_false]
    congr 1
    funext db row
    rw [Predicate.holdsOn, eval_combine h, List.map_map]
    congr 1
    apply List.map_congr_left
    intro q hq
    -- every child has a meaning here, so none of them counts as false for want of one
    have hq' : q.compiles r root = true := List.all_eq_true.mp hall q hq
    simp only [Function.comp_apply, Predicate.meaning, hq', if_true, Option.any_some]
    rfl

end Combine

variable (r : Registry) (root : String)

/-- What an expression says of rows, if it becomes a condition. -/
def meaning (e : Expression) : Option Saying :=
  match e.toPredicate with
  | .ok p => p.meaning r root
  | .error _ => none

/-- Expressions mean what their predicates mean; if one has no predicate, the list has none. -/
theorem map_meaning_cases : ∀ es : List Expression,
    (∃ ps, toPredicates es = .ok ps ∧ es.map (meaning r root) = ps.map (Predicate.meaning r root))
      ∨ (∃ error, toPredicates es = .error error) ∧ (es.map (meaning r root)).any (·.isNone) = true
  | [] => .inl ⟨[], rfl, rfl⟩
  | e :: es => by
    rw [toPredicates, List.map_cons, List.any_cons]
    cases he : e.toPredicate with
    | error error =>
      refine .inr ⟨⟨error, rfl⟩, ?_⟩
      simp [meaning, he]
    | ok p =>
      rcases map_meaning_cases es with ⟨ps, hps, hmeaning⟩ | ⟨⟨error, herror⟩, hnone⟩
      · refine .inl ⟨p :: ps, by rw [hps]; rfl, ?_⟩
        simp [hmeaning, meaning, he]
      · refine .inr ⟨⟨error, by rw [herror]; rfl⟩, ?_⟩
        rw [hnone, Bool.or_true]

variable {r root}

/-- An operation means what it makes of the meanings of its children. -/
theorem meaning_node (operation : Operation) (es : List Expression) :
    (node operation es).meaning r root = operation.meaning (es.map (meaning r root)) := by
  cases es with
  | nil => rfl
  | cons e es =>
    rw [meaning, toPredicate.eq_3 _ _ (List.cons_ne_nil e es)]
    rcases map_meaning_cases r root (e :: es) with
      ⟨ps, hps, hmeaning⟩ | ⟨⟨error, herror⟩, hnone⟩
    · cases ps with
      | nil => cases hmeaning
      | cons first rest =>
        obtain ⟨p, hp⟩ := exists_combine operation first rest
        simp only [hps, ok_bind, hp]
        rw [hmeaning]
        exact meaning_combine hp
    · rw [herror, Operation.meaning, hnone, Bool.or_true, if_pos rfl]
      rfl

end Expression

namespace Operator

/-- The tree that an operator reads, for all but `IN`. -/
def tree? : Operator → Option (Params → Except SearchError Expression)
  | .and => some (outerExpression .and)
  | .or => some (outerExpression .or)
  | .not => some (outerExpression .not)
  | .advanced => some advancedExpression
  | .oneOf => none

theorem predicate_eq_tree {operator : Operator} {tree : Params → Except SearchError Expression}
    (h : operator.tree? = some tree) (p : Params) :
    operator.predicate p = (do (← tree p).toPredicate.map some) := by
  cases operator <;> cases h <;> rfl

end Operator

/-! ## Scopes -/

namespace Scope

/-- Two scopes show the same rows of one root. -/
structure Alike (s s' : Scope) : Prop where
  registry : s'.registry = s.registry
  root : s'.root = s.root
  activeOnly : s'.activeOnly = s.activeOnly
  faithful : s.Faithful
  faithful' : s'.Faithful
  demands : ∀ db row, s'.demands db row = s.demands db row

namespace Alike

variable {s s' : Scope}

theorem refl (h : s.Faithful) : Alike s s := ⟨rfl, rfl, rfl, h, h, fun _ _ => rfl⟩

theorem marked (h : Alike s s') (inactive : Bool) : Alike (s.marked inactive) (s'.marked inactive) := by
  rw [marked_eq, marked_eq]
  exact ⟨h.registry, h.root, rfl, h.faithful, h.faithful', h.demands⟩

/-- Scopes that are alike select the same rows. -/
theorem selects_eq (h : Alike s s') (db : Database) (row : Row) :
    selects db s'.root.name s'.condition row = selects db s.root.name s.condition row := by
  rw [selects_condition h.faithful, selects_condition h.faithful', h.demands]
  simp only [shows, hasActiveFlag, h.activeOnly, h.root]

end Alike

/-- Narrow a scope by an expression. -/
def demand (s : Scope) (e : Expression) : Except SearchError Scope := e.toPredicate >>= s.filter

/-- An operator that reads a tree demands it. -/
theorem predicate_eq_demand (s : Scope) {operator : Operator} {tree : Params → Except SearchError Expression}
    (h : operator.tree? = some tree) (p : Params) :
    operator.predicate p >>= s.filter? = tree p >>= s.demand := by
  rw [Operator.predicate_eq_tree h]
  cases tree p with
  | error error => rfl
  | ok e =>
    simp only [ok_bind, demand]
    cases e.toPredicate <;> rfl

/-- A scope demands one thing more of its rows. -/
structure Narrows (s : Scope) (saying : Saying) (s' : Scope) : Prop where
  registry : s'.registry = s.registry
  root : s'.root = s.root
  activeOnly : s'.activeOnly = s.activeOnly
  faithful : s'.Faithful
  demands : ∀ db row, s'.demands db row = (s.demands db row && saying db row)

/-- What narrows a scope by one thing gives one result. -/
theorem Narrows.alike {s a b : Scope} {saying : Saying} (ha : s.Narrows saying a) (hb : s.Narrows saying b) :
    Alike a b where
  registry := hb.registry.trans ha.registry.symm
  root := hb.root.trans ha.root.symm
  activeOnly := hb.activeOnly.trans ha.activeOnly.symm
  faithful := ha.faithful
  faithful' := hb.faithful
  demands db row := (hb.demands db row).trans (ha.demands db row).symm

variable {s : Scope}

/-- A predicate narrows a scope by its meaning, or not at all. -/
theorem filter_cases (hs : s.Faithful) (p : Predicate) :
    (p.meaning s.registry s.root.name = none ∧ ∃ error, s.filter p = .error error)
      ∨ ∃ saying s', p.meaning s.registry s.root.name = some saying ∧ s.filter p = .ok s'
        ∧ s.Narrows saying s' := by
  cases hp : p.compile s.registry s.root.name with
  | error error =>
    refine .inl ⟨?_, error, ?_⟩
    · rw [Predicate.meaning, Predicate.compiles, hp]
      rfl
    · rw [filter, hp]
      rfl
  | ok c =>
    have hfilter : s.filter p = .ok { s with predicates := s.predicates ++ [p], base := s.base.and c } := by
      rw [filter, hp]
      rfl
    refine .inr ⟨fun db row => p.holdsOn s.registry s.root.name db row, _, ?_, hfilter, rfl, rfl, rfl,
      faithful_filter hs hfilter, ?_⟩
    · rw [Predicate.meaning, Predicate.compiles, hp]
      rfl
    · intro db row
      simp [demands]

/-- So does an expression. -/
theorem demand_cases (hs : s.Faithful) (e : Expression) :
    (e.meaning s.registry s.root.name = none ∧ ∃ error, s.demand e = .error error)
      ∨ ∃ saying s', e.meaning s.registry s.root.name = some saying ∧ s.demand e = .ok s'
        ∧ s.Narrows saying s' := by
  unfold demand Expression.meaning
  cases e.toPredicate with
  | error error => exact .inl ⟨rfl, error, rfl⟩
  | ok p => exact filter_cases hs p

/-- Two expressions of one meaning narrow a scope alike. -/
theorem agree_demand (hs : s.Faithful) {e e' : Expression}
    (h : e.meaning s.registry s.root.name = e'.meaning s.registry s.root.name) :
    Agree Alike (s.demand e) (s.demand e') := by
  rcases demand_cases hs e with ⟨hnone, error, herror⟩ | ⟨saying, narrowed, hmeans, hnarrowed, hby⟩
  · rcases demand_cases hs e' with ⟨_, error', herror'⟩ | ⟨_, _, hmeans', _, _⟩
    · rw [herror, herror']
      exact .error _ _
    · rw [← h, hnone] at hmeans'
      cases hmeans'
  · rcases demand_cases hs e' with ⟨hnone', _⟩ | ⟨_, narrowed', hmeans', hnarrowed', hby'⟩
    · rw [← h, hmeans] at hnone'
      cases hnone'
    · rw [← h, hmeans] at hmeans'
      cases hmeans'
      rw [hnarrowed, hnarrowed']
      exact .ok (hby.alike hby')

end Scope

end SchemaSearch
