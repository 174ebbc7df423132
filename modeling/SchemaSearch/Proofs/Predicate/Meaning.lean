import SchemaSearch.Proofs.Predicate.Hops
import SchemaSearch.Service.Sample

/-!
# The meaning of predicates

A predicate is a boolean tree over fields.  What a field says of a row is told by the rows that its path
reaches, without conditions; what the tree says follows by plain boolean evaluation.

Main statements: a compiled predicate is true on a row or false on it, as its meaning says
(`truth_compile`), and where NULL is asked for only in the root's own columns, its meaning is that every
field holds for some row at the end of its path (`truth_compile_iff_reached`).
-/

namespace SchemaSearch

open Query Schema Store

namespace Predicate

/-! ## Evaluation of the tree -/

mutual

/-- What a predicate says, given what its fields say. -/
def eval (holds : String → Lookup → Bool) : Predicate → Bool
  | .field path lookup => holds path lookup
  | .and items => (evals holds items).all id
  | .or items => (evals holds items).any id
  | .not inner => !eval holds inner
termination_by structural p => p

/-- What some predicates say. -/
def evals (holds : String → Lookup → Bool) : List Predicate → List Bool
  | [] => []
  | p :: ps => eval holds p :: evals holds ps
termination_by structural ps => ps

end

mutual

/-- The fields of a predicate, each with its lookup. -/
def leaves : Predicate → List (String × Lookup)
  | .field path lookup => [(path, lookup)]
  | .and items | .or items => leavesOf items
  | .not inner => leaves inner
termination_by structural p => p

/-- The fields of some predicates. -/
def leavesOf : List Predicate → List (String × Lookup)
  | [] => []
  | p :: ps => leaves p ++ leavesOf ps
termination_by structural ps => ps

end

mutual

/-- Evaluation looks at nothing but the fields of the tree. -/
theorem eval_congr {f g : String → Lookup → Bool} :
    ∀ p : Predicate, (∀ leaf ∈ p.leaves, f leaf.1 leaf.2 = g leaf.1 leaf.2) → p.eval f = p.eval g
  | .field path lookup, h => h (path, lookup) (List.mem_singleton.mpr rfl)
  | .and items, h => by rw [eval, eval, evals_congr items h]
  | .or items, h => by rw [eval, eval, evals_congr items h]
  | .not inner, h => by rw [eval, eval, eval_congr inner h]

theorem evals_congr {f g : String → Lookup → Bool} :
    ∀ ps : List Predicate, (∀ leaf ∈ leavesOf ps, f leaf.1 leaf.2 = g leaf.1 leaf.2) →
      evals f ps = evals g ps
  | [], _ => rfl
  | p :: ps, h => by
    rw [evals, evals, eval_congr p fun leaf hleaf => h leaf (List.mem_append_left _ hleaf),
      evals_congr ps fun leaf hleaf => h leaf (List.mem_append_right _ hleaf)]

end

/-! ## What a field says -/

variable (r : Registry) (root : String) (db : Database) (row : Row)

/-- Whether some row at the end of a path passes a lookup. -/
def pathReaches (path : String) (lookup : Lookup) : Bool :=
  match r.resolve root path with
  | .ok target => (reached db target.hops row).any fun last =>
      lookup.accepts target.kind (last.get target.column)
  | .error _ => false

/-- Whether some row at the end of a path passes a lookup, or one is missing on the way where missing
rows count. -/
def pathHolds (path : String) (lookup : Lookup) : Bool :=
  match r.resolve root path with
  | .ok target => chainHolds db lookup.countsMissing
      (fun last => lookup.accepts target.kind (last.get target.column)) target.hops row
  | .error _ => false

/-- What a predicate says of a row of the root. -/
def holdsOn (p : Predicate) : Bool := p.eval (pathHolds r root db row)

/-- Whether a predicate asks for NULL in columns of the root alone. -/
def asksNullAtRoot (p : Predicate) : Bool :=
  p.leaves.all fun (path, lookup) =>
    !lookup.countsMissing || match r.resolve root path with
      | .ok target => !target.isNested
      | .error _ => true

/-- Without missing rows that count, a field holds for a row that its path reaches. -/
theorem pathHolds_eq_pathReaches {path : String} {lookup : Lookup}
    (h : (!lookup.countsMissing || match r.resolve root path with
      | .ok target => !target.isNested
      | .error _ => true) = true) :
    pathHolds r root db row path lookup = pathReaches r root db row path lookup := by
  unfold pathHolds pathReaches
  cases htarget : r.resolve root path with
  | error error => rfl
  | ok target =>
    rw [htarget] at h
    dsimp only at h ⊢
    cases hmissing : lookup.countsMissing with
    | false => exact chainHolds_false db _ target.hops row
    | true =>
      rw [hmissing, Bool.not_true, Bool.false_or, Target.isNested, Bool.not_not,
        List.isEmpty_iff] at h
      rw [h, chainHolds, reached, List.any_cons, List.any_nil, Bool.or_false]

/-! ## Compiled predicates -/

variable {r root db row}

mutual

/-- A compiled predicate is known on every row, and says what the predicate says. -/
theorem truth_compile (env : Bindings) : ∀ (p : Predicate) {c : Condition},
    p.compile r root = .ok c → truth db ((root, row) :: env) c = .ofBool (p.holdsOn r root db row)
  | .field path lookup, c, h => by
    rw [compile] at h
    obtain ⟨target, htarget, hc⟩ := bind_eq_ok h
    rw [truth_fieldCondition htarget hc, holdsOn, eval, pathHolds, htarget]
  | .and items, c, h => by
    rw [compile] at h
    obtain ⟨cs, hcs, hc⟩ := bind_eq_ok h
    cases hc
    rw [truth_all, truths_compileAll env items hcs, Truth.all_map_ofBool]
    rfl
  | .or items, c, h => by
    rw [compile] at h
    obtain ⟨cs, hcs, hc⟩ := bind_eq_ok h
    cases hc
    rw [truth_any, truths_compileAll env items hcs, Truth.any_map_ofBool]
    rfl
  | .not inner, c, h => by
    rw [compile] at h
    obtain ⟨ci, hci, hc⟩ := bind_eq_ok h
    cases hc
    rw [truth_not, truth_compile env inner hci, Truth.not_ofBool]
    rfl

/-- Compiled predicates say what the predicates say, one by one. -/
theorem truths_compileAll (env : Bindings) : ∀ (ps : List Predicate) {cs : List Condition},
    compileAll r root ps = .ok cs →
      cs.map (truth db ((root, row) :: env)) = (evals (pathHolds r root db row) ps).map Truth.ofBool
  | [], cs, h => by
    rw [compileAll] at h
    cases h
    rfl
  | p :: ps, cs, h => by
    rw [compileAll] at h
    obtain ⟨first, hfirst, h⟩ := bind_eq_ok h
    obtain ⟨rest, hrest, h⟩ := bind_eq_ok h
    cases h
    rw [List.map_cons, truth_compile env p hfirst, truths_compileAll env ps hrest]
    rfl

end

theorem selects_compile {p : Predicate} {c : Condition} (hc : p.compile r root = .ok c) :
    selects db root c row = p.holdsOn r root db row := by
  rw [selects, truth_compile [] p hc, Truth.holds_ofBool]

/-- A path that is found has the condition of its target. -/
theorem compile_field {path : String} {target : Target} (hpath : r.resolve root path = .ok target)
    (lookup : Lookup) : (Predicate.field path lookup).compile r root = fieldCondition path target lookup := by
  rw [compile, hpath]
  rfl

/-- A field for which missing rows do not count selects the rows whose path reaches a value that passes. -/
theorem selects_field_iff {path : String} {lookup : Lookup} {target : Target} {c : Condition}
    (hpath : r.resolve root path = .ok target) (hmissing : lookup.countsMissing = false)
    (hc : (Predicate.field path lookup).compile r root = .ok c) :
    selects db root c row = true ↔ ∃ last ∈ reached db target.hops row,
      lookup.accepts target.kind (last.get target.column) = true := by
  rw [selects_compile hc, holdsOn, eval, pathHolds_eq_pathReaches r root db row (by rw [hmissing]; rfl),
    pathReaches, hpath]
  exact List.any_eq_true

/-! ## Negations -/

theorem negate_eq (p : Predicate) :
    (∃ inner, p = .not inner ∧ p.negate = inner) ∨ p.negate = .not p := by
  cases p with
  | not inner => exact .inl ⟨inner, rfl, rfl⟩
  | field path lookup => exact .inr rfl
  | and items => exact .inr rfl
  | or items => exact .inr rfl

theorem compile_not (p : Predicate) :
    p.not.compile r root = p.compile r root >>= fun c => .ok c.not := by
  rw [compile]

/-- A predicate and its negation compile together. -/
theorem compile_negate (p : Predicate) :
    (∃ c c', p.compile r root = .ok c ∧ p.negate.compile r root = .ok c')
      ∨ ∃ error, p.compile r root = .error error ∧ p.negate.compile r root = .error error := by
  rcases negate_eq p with ⟨inner, rfl, hnegate⟩ | hnegate
  · rw [hnegate, compile_not]
    cases inner.compile r root with
    | ok c => exact .inl ⟨c.not, c, rfl, rfl⟩
    | error error => exact .inr ⟨error, rfl, rfl⟩
  · rw [hnegate, compile_not]
    cases p.compile r root with
    | ok c => exact .inl ⟨c, c.not, rfl, rfl⟩
    | error error => exact .inr ⟨error, rfl, rfl⟩

theorem holdsOn_negate (p : Predicate) (db : Database) (row : Row) :
    p.negate.holdsOn r root db row = !p.holdsOn r root db row := by
  rcases negate_eq p with ⟨inner, rfl, hnegate⟩ | hnegate
  · rw [hnegate]
    exact (Bool.not_not _).symm
  · rw [hnegate]
    rfl

/-- The negation of a predicate, written or taken, compiles and selects the other rows. -/
theorem compile_negation {predicate negation : Predicate}
    {c : Condition} (hc : predicate.compile r root = .ok c)
    (hnegation : negation = .not predicate ∨ negation = predicate.negate) :
    ∃ c', negation.compile r root = .ok c' ∧ ∀ db row,
      truth db [(root, row)] c ≠ .unknown ∧ truth db [(root, row)] c' ≠ .unknown
      ∧ selects db root c' row = !selects db root c row := by
  have hknown : ∀ {q : Predicate} {d : Condition}, q.compile r root = .ok d → ∀ db row,
      truth db [(root, row)] d ≠ .unknown := by
    intro q d hd db row
    rw [truth_compile [] q hd]
    cases q.holdsOn r root db row <;> decide
  have hholds : ∀ db row, negation.holdsOn r root db row = !predicate.holdsOn r root db row := by
    intro db row
    rcases hnegation with rfl | rfl
    · rfl
    · exact holdsOn_negate predicate db row
  obtain ⟨c', hc'⟩ : ∃ c', negation.compile r root = .ok c' := by
    rcases hnegation with rfl | rfl
    · rw [compile_not, hc]
      exact ⟨c.not, rfl⟩
    · rcases compile_negate predicate with ⟨_, c', _, hc'⟩ | ⟨error, herror, _⟩
      · exact ⟨c', hc'⟩
      · rw [hc] at herror
        cases herror
  refine ⟨c', hc', ?_⟩
  intro db row
  refine ⟨hknown hc db row, hknown hc' db row, ?_⟩
  rw [selects_compile hc, selects_compile hc', hholds]

/-! ## Paths that ask for a row -/

/-- Compilation is correct: where NULL is asked for in the root's own columns alone, the condition is
true on exactly the rows on which the tree is true, a field being true if some row at the end of its path
passes its lookup. -/
theorem truth_compile_iff_reached {p : Predicate} {c : Condition} (hc : p.compile r root = .ok c)
    (hnull : p.asksNullAtRoot r root = true) (db : Database) (row : Row) :
    truth db [(root, row)] c = .true ↔ p.eval (pathReaches r root db row) = true := by
  -- the two meanings of a field differ only where a missing row counts
  have hmeaning : p.eval (pathHolds r root db row) = p.eval (pathReaches r root db row) := by
    refine eval_congr p ?_
    intro leaf hleaf
    exact pathHolds_eq_pathReaches r root db row (List.all_eq_true.mp hnull leaf hleaf)
  rw [truth_compile [] p hc, holdsOn, hmeaning]
  cases p.eval (pathReaches r root db row) <;> decide

/-- Questions with a title that starts with "how" and no topic about billing.  The path of the title
comes back to the questions. -/
def howOutsideBilling : Predicate :=
  .and [.field "answers__question__title" (.startsWith "how"),
    .not (.field "topics__title" (.startsWith "bill"))]

theorem truth_compile_iff_reached_sample :
    ∃ c, howOutsideBilling.compile Service.registry "questions" = .ok c
      ∧ (Service.sampleQuestions.filter fun row =>
            truth Service.sampleDatabase [("questions", row)] c = .true).map (·.get "question_id")
          = [Service.sampleId 0x301, Service.sampleId 0x303] := by
  obtain ⟨c, hc⟩ : ∃ c, howOutsideBilling.compile Service.registry "questions" = .ok c := ⟨_, rfl⟩
  have hrow := truth_compile_iff_reached hc rfl Service.sampleDatabase
  refine ⟨c, hc, ?_⟩
  simp only [hrow]
  decide +kernel

end Predicate

end SchemaSearch
