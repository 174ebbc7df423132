import SchemaSearch.Proofs.Search.Operators
import SchemaSearch.Service.Sample

/-!
# Negation is complement

A compiled predicate is true or false on every row, so its negation selects exactly the other rows.  The
same holds of whole searches: `NOT` selects what `OR` does not, within the rows that the dates and the
mark of active records leave.

Main statement: both, for predicates and for searches (`negation_is_complement`).  Which keys are fields
is told after aliases are replaced: one that leads to a steering key is searched by neither operator.
-/

namespace SchemaSearch

open Query Schema Store

/-! ## Scopes -/

/-- Of two searches that narrow one scope, by a predicate and by its negation, one selects what the other
leaves. -/
theorem Scope.selects_negation {s searched searched' : Scope} {predicate : Predicate} (inactive : Bool)
    (hs : s.Faithful) (hextends : Extends s searched) (hextends' : Extends s searched')
    (hpredicates : searched.predicates = s.predicates ++ [predicate])
    (hpredicates' : searched'.predicates = s.predicates ++ [predicate.negate])
    (db : Database) (row : Row) :
    selects db s.root.name (searched'.marked inactive).condition row
      = (selects db s.root.name (s.marked inactive).condition row
        && !selects db s.root.name (searched.marked inactive).condition row) := by
  have hselects : ∀ s' : Scope, Extends s s' →
      selects db s.root.name (s'.marked inactive).condition row
        = (s'.predicates.all (·.holdsOn s.registry s.root.name db row)
          && (s.marked inactive).shows row) := by
    intro s' h
    -- the mark and the root are the same for all three
    have hmarked := selects_condition (h.trans (.marked s' inactive) |>.faithful hs) db row
    rw [marked_eq] at hmarked ⊢
    rw [marked_eq]
    simp only [demands, shows, hasActiveFlag, h.root, h.registry] at hmarked ⊢
    exact hmarked
  rw [hselects searched' hextends', hselects searched hextends, hselects s (.refl s), hpredicates,
    hpredicates', List.all_append, List.all_append, List.all_cons, List.all_cons, List.all_nil,
    Bool.and_true, Bool.and_true, Predicate.holdsOn_negate]
  cases s.predicates.all (·.holdsOn s.registry s.root.name db row)
    <;> cases predicate.holdsOn s.registry s.root.name db row
    <;> cases (s.marked inactive).shows row <;> rfl

/-! ## Searches -/

section Searches

variable {r : Registry} {root : String} {p : Params} {renames : Renames}

/-- Searches by `OR` and by `NOT` end together, in an error or in scopes that complement each other. -/
theorem Prepared.or_not_cases (hrenames : r.renames root = .ok renames)
    (hnamed : renames.get? Operator.param = none) (hkeys : p.keys.Nodup)
    (hoperator : ∀ key ∈ p.keys, renames.targetOf key ≠ Operator.param) {key : String}
    (hkey : p.getAll key ≠ [])
    (hfilter : renames.targetOf key ∉ SearchConfig.standard.searchFilters)
    (hbound : DateBounds.isBoundKey (renames.targetOf key) = false) (i j : Nat) :
    (∃ n s t, Narrowed.ofParams r .standard root p = .ok n
        ∧ Prepared.ofParams r .standard root (p.insertAt i Operator.param [.text "OR"]) = .ok s
        ∧ Prepared.ofParams r .standard root (p.insertAt j Operator.param [.text "NOT"]) = .ok t
        ∧ ∀ db row, selects db root t.scope.condition row
          = (selects db root n.baseScope.condition row && !selects db root s.scope.condition row))
      ∨ (∀ s, Prepared.ofParams r .standard root (p.insertAt i Operator.param [.text "OR"]) ≠ .ok s)
        ∧ ∀ t, Prepared.ofParams r .standard root (p.insertAt j Operator.param [.text "NOT"]) ≠ .ok t := by
  obtain ⟨transformer, ht, rfl⟩ := Transformer.ofRoot_of_renames hrenames
  by_cases hboolean : Operator.param ∈ transformer.booleans
  · -- a boolean field of that name takes `OR` and `NOT` for its values, and they are none
    have hfresh : Operator.param ∉ p.keys := by
      intro hmem
      refine hoperator _ hmem ?_
      rw [Renames.targetOf, hnamed]
      rfl
    exact .inr ⟨ofParams_insertAt_ne_ok ht hboolean hfresh (by decide) i,
      ofParams_insertAt_ne_ok ht hboolean hfresh (by decide) j⟩
  · rw [ofParams_insertAt ht hboolean hkeys hnamed hoperator
        (show Operator.read "OR" = .ok .or from rfl) i,
      ofParams_insertAt ht hboolean hkeys hnamed hoperator
        (show Operator.read "NOT" = .ok .not from rfl) j]
    cases hn : Narrowed.ofParams r .standard root p with
    | error error => exact .inr ⟨fun s h => (by cases h), fun t h => (by cases h)⟩
    | ok n =>
      rw [ok_bind, ok_bind]
      rcases Narrowed.finishWith_or_not (Narrowed.remaining_ne_nil hrenames hkey hfilter hbound hn) with
        ⟨s, t, predicate, searched, searched', hs, ht, hor, hnot, hscope, hscope', hpredicates,
          hpredicates'⟩ | ⟨error, error', hs, ht⟩
      · refine .inl ⟨n, s, t, rfl, hs, ht, ?_⟩
        obtain ⟨e, he, _, hentity, hfaithful⟩ := Narrowed.scope_of_ofParams hn
        have hname : n.scope.root.name = root := by rw [hentity, Registry.name_of_get? he]
        intro db row
        rw [hscope, hscope', Narrowed.baseScope, ← hname]
        exact Scope.selects_negation n.inactive hfaithful (.searchOperator hor) (.searchOperator hnot)
          hpredicates hpredicates' db row
      · rw [hs, ht]
        exact .inr ⟨fun s h => (by cases h), fun t h => (by cases h)⟩

end Searches

/-- Negation is exact complement.  A compiled predicate is never unknown, and its negation, written or
taken, compiles and selects the other rows.  And of searches with some field to search, once aliases are
replaced, those by `OR` and by `NOT` are prepared together, and `NOT` selects the rows of their common
scope that `OR` does not. -/
theorem negation_is_complement :
    (∀ (r : Registry) (root : String) (predicate : Predicate) (c : Condition),
      predicate.compile r root = .ok c → ∀ negation, negation = .not predicate ∨ negation = predicate.negate →
        ∃ c', negation.compile r root = .ok c' ∧ ∀ db row,
          truth db [(root, row)] c ≠ .unknown ∧ truth db [(root, row)] c' ≠ .unknown
          ∧ selects db root c' row = !selects db root c row)
    ∧ ∀ (r : Registry) (root : String) (p : Params) (renames : Renames) (i j : Nat),
      r.renames root = .ok renames → renames.get? Operator.param = none → p.keys.Nodup →
      (∀ key ∈ p.keys, renames.targetOf key ≠ Operator.param) →
      (∃ key, p.getAll key ≠ [] ∧ renames.targetOf key ∉ SearchConfig.standard.searchFilters
        ∧ DateBounds.isBoundKey (renames.targetOf key) = false) →
      ((∃ s, Prepared.ofParams r .standard root (p.insertAt i Operator.param [.text "OR"]) = .ok s)
        ↔ ∃ t, Prepared.ofParams r .standard root (p.insertAt j Operator.param [.text "NOT"]) = .ok t)
      ∧ ∀ s t, Prepared.ofParams r .standard root (p.insertAt i Operator.param [.text "OR"]) = .ok s →
        Prepared.ofParams r .standard root (p.insertAt j Operator.param [.text "NOT"]) = .ok t →
        ∃ n, Narrowed.ofParams r .standard root p = .ok n ∧ ∀ db row,
          selects db root t.scope.condition row
            = (selects db root n.baseScope.condition row && !selects db root s.scope.condition row) := by
  constructor
  · intro r root predicate c hc negation hnegation
    exact Predicate.compile_negation hc hnegation
  · intro r root p renames i j hrenames hnamed hkeys hoperator ⟨key, hkey, hfilter, hbound⟩
    rcases Prepared.or_not_cases hrenames hnamed hkeys hoperator hkey hfilter hbound i j with
      ⟨n, s, t, hn, hs, ht, hselects⟩ | ⟨hs, ht⟩
    · refine ⟨iff_of_true ⟨s, hs⟩ ⟨t, ht⟩, ?_⟩
      intro s' t' hs' ht'
      cases hs.symm.trans hs'
      cases ht.symm.trans ht'
      exact ⟨n, hn, hselects⟩
    · refine ⟨iff_of_false (fun ⟨s, h⟩ => hs s h) (fun ⟨t, h⟩ => ht t h), ?_⟩
      intro s _ h
      exact absurd h (hs s)

/-- Questions of the sample: those with a title on "how" or a context on "help", and all others. -/
theorem negation_is_complement_sample :
    ∃ s t n, Prepared.ofParams Service.registry .standard "questions"
        (.ofPairs [("operator", .text "OR"), ("title", .text "how"), ("context", .text "$help")]) = .ok s
      ∧ Prepared.ofParams Service.registry .standard "questions"
        (.ofPairs [("title", .text "how"), ("context", .text "$help"), ("operator", .text "NOT")]) = .ok t
      ∧ Narrowed.ofParams Service.registry .standard "questions"
        (.ofPairs [("title", .text "how"), ("context", .text "$help")]) = .ok n
      ∧ ∀ row ∈ Service.sampleQuestions,
        selects Service.sampleDatabase "questions" t.scope.condition row
          = (selects Service.sampleDatabase "questions" n.baseScope.condition row
            && !selects Service.sampleDatabase "questions" s.scope.condition row) := by
  obtain ⟨htogether, hcomplement⟩ := negation_is_complement.2 Service.registry "questions"
    (.ofPairs [("title", .text "how"), ("context", .text "$help")]) _ 0 2 rfl rfl (by decide) (by decide)
    ⟨"title", by decide, by decide, by decide⟩
  obtain ⟨s, hs⟩ : ∃ s, Prepared.ofParams Service.registry .standard "questions"
      (.ofPairs [("operator", .text "OR"), ("title", .text "how"), ("context", .text "$help")]) = .ok s :=
    ⟨_, rfl⟩
  obtain ⟨t, ht⟩ := htogether.mp ⟨s, hs⟩
  obtain ⟨n, hn, hselects⟩ := hcomplement s t hs ht
  exact ⟨s, t, n, hs, ht, hn, fun row _ => hselects Service.sampleDatabase row⟩

/-- What is asked of searches by `OR` and `NOT` where keys fulfil a condition and no alias is named like
a key that steers. -/
def OrNotComplement (side : Renames → Params → Prop) : Prop :=
  ∀ (r : Registry) (root : String) (p : Params) (renames : Renames) (i j : Nat) (s t : Prepared)
    (n : Narrowed) (db : Database), ∀ row ∈ db.rows root, r.renames root = .ok renames →
    (∀ key ∈ SearchConfig.standard.searchFilters, renames.get? key = none) → p.keys.Nodup →
    side renames p →
    Prepared.ofParams r .standard root (p.insertAt i Operator.param [.text "OR"]) = .ok s →
    Prepared.ofParams r .standard root (p.insertAt j Operator.param [.text "NOT"]) = .ok t →
    Narrowed.ofParams r .standard root p = .ok n →
    selects db root t.scope.condition row
      = (selects db root n.baseScope.condition row && !selects db root s.scope.condition row)

/-- A field may be named like a key that steers: the value of an alias that leads to it is searched by
neither operator, and an alias that leads to the operator takes the place of both. -/
theorem not_orNotComplement :
    ¬ OrNotComplement (fun renames p => (∀ key ∈ p.keys, renames.targetOf key ≠ Operator.param)
        ∧ ∃ key, p.getAll key ≠ [] ∧ key ∉ SearchConfig.standard.searchFilters
          ∧ DateBounds.isBoundKey key = false)
    ∧ ¬ OrNotComplement fun renames p => Operator.param ∉ p.keys
        ∧ ∃ key, p.getAll key ≠ [] ∧ renames.targetOf key ∉ SearchConfig.standard.searchFilters
          ∧ DateBounds.isBoundKey (renames.targetOf key) = false := by
  constructor
  · intro h
    have hrow := h (.ofEntities [⟨"sheets", [⟨"title", .text⟩, ⟨"page", .integer⟩,
        ⟨"created_at", .dateTime⟩, ⟨"is_active", .boolean⟩], [], .ofPairs [("sheet", "page")]⟩]) "sheets"
      (.ofPairs [("sheet", .text "1")]) _ 1 1 _ _ _ ⟨[("sheets", [⟨[("is_active", .integer 1)]⟩])]⟩ _
      List.mem_cons_self rfl (by decide) (by decide)
      ⟨by decide, "sheet", by decide, by decide, by decide⟩ rfl rfl rfl
    revert hrow
    decide
  · intro h
    have hrow := h (.ofEntities [⟨"calls", [⟨"title", .text⟩, ⟨"operator", .text⟩,
        ⟨"created_at", .dateTime⟩], [], .ofPairs [("by", "operator")]⟩]) "calls"
      (.ofPairs [("title", .text "x"), ("by", .text "AND")]) _ 0 0 _ _ _
      ⟨[("calls", [⟨[("title", .text "x")]⟩])]⟩ _ List.mem_cons_self rfl (by decide) (by decide)
      ⟨by decide, "title", by decide, by decide, by decide⟩ rfl rfl rfl
    revert hrow
    decide

end SchemaSearch
