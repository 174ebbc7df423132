import SchemaSearch.Proofs.Search.Hidden
import SchemaSearch.Proofs.Search.Narrowing

/-!
# Searches with an operator

What the parameter that names the operator does to a search, and what it does not: no stage in front of
the operator looks at it, and behind it nothing is different but the predicate.  `OR` and `NOT` make a
predicate and its negation, or both fail.

Main statement: a search with an operator is narrowed as the one without, wherever the operator stands
among the parameters (`Prepared.ofParams_insertAt`).
-/

namespace SchemaSearch

open Query Schema Store

/-! ## The two operators -/

/-- `NOT` makes the negation of the predicate that `OR` makes, or both make none. -/
theorem Operator.predicate_or_not (p : Params) :
    (∃ predicate, Operator.or.predicate p = .ok (some predicate)
        ∧ Operator.not.predicate p = .ok (some predicate.negate))
      ∨ ∃ error error', Operator.or.predicate p = .error error
        ∧ Operator.not.predicate p = .error error' := by
  unfold Operator.predicate Operator.outerExpression
  cases Expression.children (nodeOf p) with
  | error error => exact .inr ⟨error, error, rfl, rfl⟩
  | ok children =>
    cases children with
    | nil => exact .inr ⟨_, _, rfl, rfl⟩
    | cons child children =>
      simp only [bind, Except.bind, Expression.toPredicate]
      cases Expression.toPredicates (child :: children) with
      | error error => exact .inr ⟨error, error, rfl, rfl⟩
      | ok predicates =>
        simp only [Expression.combine]
        -- without predicates each operator reports its own name
        cases Predicate.any? predicates with
        | none => exact .inr ⟨_, _, rfl, rfl⟩
        | some predicate => exact .inl ⟨predicate, rfl, rfl⟩

/-- An operator that makes a predicate of what is left to search demands it of active records. -/
theorem Scope.searchOperator_eq_ok_iff {s searched : Scope} {operator : Operator} {p : Params}
    {filters : List String} {made : Except SearchError Predicate}
    (hsome : (p.without filters).entries.isEmpty = false)
    (hmade : operator.predicate (p.without filters) = some <$> made) :
    s.searchOperator operator p filters = .ok searched ↔
      ∃ predicate narrowed, made = .ok predicate ∧ s.filter predicate = .ok narrowed
        ∧ searched = narrowed.restrictToActive := by
  simp only [Scope.searchOperator, hsome, Bool.false_eq_true, if_false, hmade]
  constructor
  · intro h
    split at h
    · rename_i narrowed hnarrowed
      cases h
      obtain ⟨predicate?, hpredicate?, hfilter⟩ := bind_eq_ok hnarrowed
      obtain ⟨predicate, hpredicate, rfl⟩ := map_eq_ok hpredicate?
      exact ⟨predicate, narrowed, hpredicate, hfilter, rfl⟩
    · cases h
  · rintro ⟨predicate, narrowed, rfl, hfilter, rfl⟩
    have hnarrowed : (some <$> Except.ok predicate >>= s.filter?) = .ok narrowed := hfilter
    rw [hnarrowed]

/-- Over some parameters, `OR` and `NOT` narrow a scope together: one demands a predicate, the other its
negation. -/
theorem Scope.searchOperator_or_not (s : Scope) {p : Params} {filters : List String}
    (hsome : (p.without filters).entries.isEmpty = false) :
    (∃ predicate searched searched', s.searchOperator .or p filters = .ok searched
        ∧ s.searchOperator .not p filters = .ok searched'
        ∧ searched.predicates = s.predicates ++ [predicate]
        ∧ searched'.predicates = s.predicates ++ [predicate.negate])
      ∨ ∃ error error', s.searchOperator .or p filters = .error error
        ∧ s.searchOperator .not p filters = .error error' := by
  simp only [Scope.searchOperator, hsome, Bool.false_eq_true, if_false]
  rcases Operator.predicate_or_not (p.without filters) with
    ⟨predicate, hor, hnot⟩ | ⟨error, error', hor, hnot⟩
  · rw [hor, hnot]
    simp only [bind, Except.bind, Scope.filter?, Scope.filter]
    rcases Predicate.compile_negate predicate with ⟨c, c', hc, hc'⟩ | ⟨error, hc, hc'⟩
    · rw [hc, hc']
      exact .inl ⟨predicate, _, _, rfl, rfl, rfl, rfl⟩
    · rw [hc, hc']
      exact .inr ⟨_, _, rfl, rfl⟩
  · rw [hor, hnot]
    exact .inr ⟨_, _, rfl, rfl⟩

/-! ## One key more -/

namespace Params

/-- The parameters with one more key at some place. -/
def insertAt (p : Params) (place : Nat) (key : String) (values : List Json) : Params :=
  ⟨p.entries.take place ++ (key, values) :: p.entries.drop place⟩

variable {p : Params} {key : String}

theorem keys_insertAt (p : Params) (place : Nat) (key : String) (values : List Json) :
    (p.insertAt place key values).keys.Perm (key :: p.keys) := by
  simp only [insertAt, keys, Table.keys, List.map_append, List.map_cons, List.map_take, List.map_drop]
  refine List.perm_middle.trans ?_
  rw [List.take_append_drop]

theorem mem_keys_insertAt {place : Nat} {values : List Json} {k : String} :
    k ∈ (p.insertAt place key values).keys ↔ k = key ∨ k ∈ p.keys :=
  (keys_insertAt p place key values).mem_iff.trans List.mem_cons

theorem nodup_keys_insertAt (hkeys : p.keys.Nodup) (hfresh : key ∉ p.keys) (place : Nat)
    (values : List Json) : (p.insertAt place key values).keys.Nodup :=
  (keys_insertAt p place key values).nodup_iff.mpr (List.nodup_cons.mpr ⟨hfresh, hkeys⟩)

/-- Without the key that was put in, the parameters are what they were. -/
theorem without_insertAt (hfresh : key ∉ p.keys) (place : Nat) (values : List Json) :
    (p.insertAt place key values).without [key] = p := by
  have hkeep : ∀ entry ∈ p.entries, (!List.contains [key] entry.1) = true := by
    intro entry hentry
    have hne : entry.1 ≠ key := by
      rintro rfl
      exact hfresh (List.mem_map_of_mem hentry)
    simpa using hne
  have hgone : (!List.contains [key] key) = false := by simp
  rw [without_eq, insertAt, List.filter_append, List.filter_cons, hgone, if_neg Bool.false_ne_true,
    ← List.filter_append, List.take_append_drop, List.filter_eq_self.mpr hkeep]

theorem getAll_insertAt (hfresh : key ∉ p.keys) (place : Nat) (values : List Json) :
    (p.insertAt place key values).getAll key = values := by
  have hnone : Table.find? key (p.entries.take place) = none := by
    refine Table.find?_eq_none fun hmem => hfresh ?_
    rw [Table.keys, List.map_take] at hmem
    exact List.mem_of_mem_take hmem
  rw [getAll, insertAt, Table.find?_append, hnone, Option.none_or]
  simp only [Table.find?, if_true, Option.getD_some]

end Params

/-! ## The stages around the operator -/

section Stages

variable {r : Registry} {c : SearchConfig} {root : String} {p : Params} {key : String}

/-- What narrows a search does not depend on a key that steers neither it nor the activity of records. -/
theorem Narrowed.ofParams_without {t : Transformer} (ht : Transformer.ofRoot r root = .ok t)
    (hboolean : key ∉ t.booleans) (hparam : c.includeInactiveParam ≠ key)
    (hbound : DateBounds.isBoundKey key = false)
    (hself : ∀ k ∈ p.keys, t.renames.targetOf k = key ↔ k = key) :
    Narrowed.ofParams r c root (p.without [key])
      = (fun n => { n with params := n.params.without [key] }) <$> Narrowed.ofParams r c root p := by
  have hprocess := Transformer.process_without_key hboolean hself
  have hcoerce : ∀ q : Params, (q.without [key]).coerceBooleans [c.includeInactiveParam]
      = (·.without [key]) <$> q.coerceBooleans [c.includeInactiveParam] := by
    refine Params.coerceBooleans_without ?_
    intro name hname hmem
    exact hparam ((List.mem_singleton.mp hname).symm.trans (List.mem_singleton.mp hmem))
  have hdates : ∀ (s : Scope) (q : Params), s.searchDates (q.without [key]) t.renames
      = (fun found => (found.1, found.2.without [key])) <$> s.searchDates q t.renames := by
    intro s q
    refine Scope.searchDates_without ?_ s q t.renames
    intro k hk
    rw [List.mem_singleton.mp hk, hbound]
  have hasks : ∀ q : Params, Prepared.asksForInactive c (q.without [key])
      = Prepared.asksForInactive c q := by
    intro q
    rw [Prepared.asksForInactive, Prepared.asksForInactive,
      Params.getText?_without fun hmem => hparam (List.mem_singleton.mp hmem)]
  unfold Narrowed.ofParams
  simp only [ht, ok_bind, map_bind, hprocess, hcoerce, hdates, bind_map_left, hasks]
  rfl

/-- Date bounds take nothing away but keys that set bounds. -/
theorem Scope.getAll_searchDates {s s' : Scope} {p' : Params} {renames : Renames}
    (hbound : DateBounds.isBoundKey key = false) (h : s.searchDates p renames = .ok (s', p')) :
    p'.getAll key = p.getAll key := by
  rw [remaining_searchDates h]
  refine Params.getAll_without ?_ p
  rw [List.mem_filter, hbound]
  exact fun hmem => Bool.false_ne_true hmem.2

/-- Parameters that ask neither for inactive records nor for dates are left as they are transformed. -/
theorem Narrowed.ofParams_plain {t : Transformer} {e : Entity} {q : Params} (hroot : r.get? root = some e)
    (ht : Transformer.ofRoot r root = .ok t) (hprocess : t.process p = .ok q)
    (hinactive : q.getAll c.includeInactiveParam = [])
    (hbounds : ∀ key ∈ q.keys, DateBounds.isBoundKey key = false) :
    Narrowed.ofParams r c root p = .ok ⟨Scope.ofEntity r e, q, false⟩ := by
  have hcoerced : q.coerceBooleans [c.includeInactiveParam] = .ok q := by
    refine Params.coerceBooleans_eq_self fun name hname => ?_
    rw [List.mem_singleton.mp hname, hinactive]
  have hasks : Prepared.asksForInactive c q = false := by
    rw [Prepared.asksForInactive, Params.getText?, Params.get?, hinactive]
    rfl
  unfold Narrowed.ofParams
  rw [ht, ok_bind, hprocess, ok_bind, hcoerced, ok_bind, Scope.ofRoot_of_get? hroot, ok_bind,
    Scope.searchDates_eq_self hbounds, ok_bind, hasks]

/-- In front of the operator, a key that steers nothing there keeps the values that it has once aliases are
replaced. -/
theorem Narrowed.getAll_transformed {t : Transformer} {q : Params} {n : Narrowed}
    (ht : Transformer.ofRoot r root = .ok t)
    (hq : t.process p = .ok q) (hparam : key ≠ c.includeInactiveParam)
    (hbound : DateBounds.isBoundKey key = false) (h : Narrowed.ofParams r c root p = .ok n) :
    n.params.getAll key = q.getAll key := by
  obtain ⟨t', transformed, coerced, scope, ht', htransformed, hcoerced, _, hdates, _⟩ :=
    ofParams_eq_ok h
  cases ht'.symm.trans ht
  cases htransformed.symm.trans hq
  rw [Scope.getAll_searchDates hbound hdates, Params.getAll_coerceBooleans ?_ hcoerced]
  exact fun hmem => hparam (List.mem_singleton.mp hmem)

/-- A key that steers nothing in front of the operator comes through with its values. -/
theorem Narrowed.getAll_params {t : Transformer} {n : Narrowed}
    (ht : Transformer.ofRoot r root = .ok t) (hboolean : key ∉ t.booleans) (horder : key ≠ orderParam)
    (hparam : key ≠ c.includeInactiveParam) (hbound : DateBounds.isBoundKey key = false)
    (hkeys : p.keys.Nodup) (hself : ∀ k ∈ p.keys, t.renames.targetOf k = key ↔ k = key)
    (h : Narrowed.ofParams r c root p = .ok n) : n.params.getAll key = p.getAll key := by
  obtain ⟨t', transformed, coerced, scope, ht', htransformed, hcoerced, _, hdates, _⟩ :=
    ofParams_eq_ok h
  have hsame : t' = t := Except.ok.inj (ht'.symm.trans ht)
  subst hsame
  obtain ⟨first, hfirst, hvalues⟩ := getAll_process htransformed hkeys horder hself
  rw [Scope.getAll_searchDates hbound hdates,
    Params.getAll_coerceBooleans (fun hmem => hparam (List.mem_singleton.mp hmem)) hcoerced, hvalues,
    Params.getAll_coerceBooleans hboolean hfirst]

/-- What a key carries comes through under the path that it stands for, unless that sets a bound. -/
theorem Narrowed.getAll_params_ne_nil {renames : Renames} {n : Narrowed}
    (hrenames : r.renames root = .ok renames) (hkey : p.getAll key ≠ [])
    (hbound : DateBounds.isBoundKey (renames.targetOf key) = false)
    (h : Narrowed.ofParams r c root p = .ok n) : n.params.getAll (renames.targetOf key) ≠ [] := by
  obtain ⟨t, transformed, coerced, scope, ht, htransformed, hcoerced, _, hdates, _⟩ := ofParams_eq_ok h
  obtain ⟨_, _, hsame, _⟩ := Transformer.ofRoot_eq_ok ht
  rw [hrenames] at hsame
  cases hsame
  rw [Scope.getAll_searchDates hbound hdates]
  exact (Params.coerced_coerceBooleans hcoerced).getAll_ne_nil (getAll_process_ne_nil htransformed hkey)

end Stages

/-- The order and the page are read from the texts under their own keys. -/
theorem Prepared.orderText_congr {p q : Params} (c : SearchConfig)
    (h : q.getText? orderParam = p.getText? orderParam) : orderText c q = orderText c p := by
  rw [orderText, orderText, h]

theorem Page.ofParams_congr {p q : Params} (defaultSize : Nat) (h : q.getText? param = p.getText? param)
    (h' : q.getText? sizeParam = p.getText? sizeParam) : ofParams q defaultSize = ofParams p defaultSize := by
  simp only [ofParams, readKey, h, h']

theorem Prepared.orderText_without {c : SearchConfig} {excluded : List String} (h : orderParam ∉ excluded)
    (p : Params) : orderText c (p.without excluded) = orderText c p :=
  orderText_congr c (Params.getText?_without h p)

theorem Page.ofParams_without {excluded : List String} (h : param ∉ excluded) (h' : sizeParam ∉ excluded)
    (p : Params) (defaultSize : Nat) : ofParams (p.without excluded) defaultSize = ofParams p defaultSize :=
  ofParams_congr defaultSize (Params.getText?_without h p) (Params.getText?_without h' p)

/-! ## Searches with an operator -/

namespace Narrowed

/-- A search without the parameter that asks for an operator. -/
def withoutOperator (n : Narrowed) : Narrowed := { n with params := n.params.without [Operator.param] }

/-- Search the remaining parameters by an operator, and read the order and the page. -/
def finishWith (n : Narrowed) (r : Registry) (c : SearchConfig) (root : String) (operator : Operator) :
    Except SearchError Prepared := do
  let searched ← n.scope.searchOperator operator n.params c.searchFilters
  let order ← SortOrder.read (Prepared.orderText c n.params) r root
  let page ← Page.ofParams n.params c.defaultPageSize
  .ok ⟨searched.marked n.inactive, order, page⟩

variable {r : Registry} {c : SearchConfig} {root : String} {n : Narrowed}

/-- The parameter of the operator decides which one it is, and nothing else. -/
theorem finish_eq_finishWith {operator : Operator} {name : String}
    (hasked : n.params.getAll Operator.param = [.text name]) (hread : Operator.read name = .ok operator)
    (hfilter : Operator.param ∈ c.searchFilters) :
    n.finish r c root = n.withoutOperator.finishWith r c root operator := by
  have hoperator : Operator.ofParams? n.params = some (.ok operator) := by
    rw [Operator.ofParams?, Params.get?, hasked, ← hread]
    rfl
  have hsearch : Prepared.searchFields c n.scope n.params
      = n.scope.searchOperator operator (n.params.without [Operator.param]) c.searchFilters := by
    have hfilters : [Operator.param] ⊆ c.searchFilters := by
      intro key hkey
      rw [List.mem_singleton.mp hkey]
      exact hfilter
    unfold Prepared.searchFields Scope.searchOperator
    rw [hoperator, Params.without_without hfilters]
    rfl
  have horder : Prepared.orderText c (n.params.without [Operator.param])
      = Prepared.orderText c n.params := Prepared.orderText_without (by decide) n.params
  have hpage : Page.ofParams (n.params.without [Operator.param]) c.defaultPageSize
      = Page.ofParams n.params c.defaultPageSize := Page.ofParams_without (by decide) (by decide) n.params _
  unfold finish finishWith withoutOperator
  rw [hsearch]
  simp only [horder, hpage]

/-- With something left to search, `OR` and `NOT` are finished together, and differ in one predicate. -/
theorem finishWith_or_not (hsome : (n.params.without c.searchFilters).entries.isEmpty = false) :
    (∃ s t predicate searched searched', n.finishWith r c root .or = .ok s
        ∧ n.finishWith r c root .not = .ok t
        ∧ n.scope.searchOperator .or n.params c.searchFilters = .ok searched
        ∧ n.scope.searchOperator .not n.params c.searchFilters = .ok searched'
        ∧ s.scope = searched.marked n.inactive ∧ t.scope = searched'.marked n.inactive
        ∧ searched.predicates = n.scope.predicates ++ [predicate]
        ∧ searched'.predicates = n.scope.predicates ++ [predicate.negate])
      ∨ ∃ error error', n.finishWith r c root .or = .error error
        ∧ n.finishWith r c root .not = .error error' := by
  unfold finishWith
  rcases Scope.searchOperator_or_not n.scope hsome with
    ⟨predicate, searched, searched', hor, hnot, hpredicates, hpredicates'⟩ | ⟨error, error', hor, hnot⟩
  · rw [hor, hnot]
    cases SortOrder.read (Prepared.orderText c n.params) r root with
    | error error => exact .inr ⟨error, error, rfl, rfl⟩
    | ok order =>
      cases Page.ofParams n.params c.defaultPageSize with
      | error error => exact .inr ⟨error, error, rfl, rfl⟩
      | ok page =>
        exact .inl ⟨_, _, predicate, searched, searched', rfl, rfl, rfl, rfl, rfl, rfl, hpredicates,
          hpredicates'⟩
  · rw [hor, hnot]
    exact .inr ⟨error, error', rfl, rfl⟩

end Narrowed

section Operators

variable {r : Registry} {root : String} {p : Params} {renames : Renames} {name : String}

/-- A search with an operator is narrowed as the one without, and then finished with the operator,
wherever the operator stands among the parameters. -/
theorem Prepared.ofParams_insertAt {t : Transformer} {operator : Operator}
    (ht : Transformer.ofRoot r root = .ok t) (hboolean : Operator.param ∉ t.booleans)
    (hkeys : p.keys.Nodup) (hnamed : t.renames.get? Operator.param = none)
    (hoperator : ∀ key ∈ p.keys, t.renames.targetOf key ≠ Operator.param)
    (hread : Operator.read name = .ok operator) (place : Nat) :
    Prepared.ofParams r .standard root (p.insertAt place Operator.param [.text name])
      = Narrowed.ofParams r .standard root p >>= fun n => n.finishWith r .standard root operator := by
  have htarget : t.renames.targetOf Operator.param = Operator.param := by
    rw [Renames.targetOf, hnamed]
    rfl
  have hfresh : Operator.param ∉ p.keys := fun hmem => hoperator _ hmem htarget
  have hself : ∀ k ∈ (p.insertAt place Operator.param [.text name]).keys,
      t.renames.targetOf k = Operator.param ↔ k = Operator.param := by
    intro k hk
    rcases Params.mem_keys_insertAt.mp hk with rfl | hk
    · exact iff_of_true htarget rfl
    · refine iff_of_false (hoperator k hk) ?_
      rintro rfl
      exact hfresh hk
  have hnarrow := Narrowed.ofParams_without (c := .standard) ht hboolean (by decide) (by decide) hself
  rw [Params.without_insertAt hfresh] at hnarrow
  -- both sides now narrow with the operator; the left one still has to read it
  rw [Prepared.ofParams_eq, hnarrow]
  cases hn : Narrowed.ofParams r .standard root (p.insertAt place Operator.param [.text name]) with
  | error error => rfl
  | ok n =>
    refine Narrowed.finish_eq_finishWith ?_ hread (by decide)
    rw [Narrowed.getAll_params ht hboolean (by decide) (by decide) (by decide)
      (Params.nodup_keys_insertAt hkeys hfresh place _) hself hn]
    exact Params.getAll_insertAt hfresh place _

/-- Where the operator is a boolean field, its name is no token for one, and no such search is
prepared. -/
theorem Prepared.ofParams_insertAt_ne_ok {t : Transformer} (ht : Transformer.ofRoot r root = .ok t)
    (hboolean : Operator.param ∈ t.booleans) (hfresh : Operator.param ∉ p.keys)
    (htoken : classifyBoolean name = none) (place : Nat) (s : Prepared) :
    Prepared.ofParams r .standard root (p.insertAt place Operator.param [.text name]) ≠ .ok s := by
  rw [Prepared.ofParams_eq]
  intro h
  obtain ⟨n, hn, _⟩ := bind_eq_ok h
  obtain ⟨t', transformed, _, _, ht', htransformed, _⟩ := Narrowed.ofParams_eq_ok hn
  have hsame : t' = t := Except.ok.inj (ht'.symm.trans ht)
  subst hsame
  obtain ⟨coerced, hcoerced, _⟩ := process_eq_ok htransformed
  exact Params.coerceBooleans_ne_ok hboolean (Params.getAll_insertAt hfresh place [.text name]) htoken
    coerced hcoerced

/-- What is left to search is not nothing, if some key carries a value and stands for a field. -/
theorem Narrowed.remaining_ne_nil {n : Narrowed} (hrenames : r.renames root = .ok renames)
    {key : String} (hkey : p.getAll key ≠ [])
    (hfilter : renames.targetOf key ∉ SearchConfig.standard.searchFilters)
    (hbound : DateBounds.isBoundKey (renames.targetOf key) = false)
    (h : Narrowed.ofParams r .standard root p = .ok n) :
    (n.params.without SearchConfig.standard.searchFilters).entries.isEmpty = false := by
  have hvalues := Narrowed.getAll_params_ne_nil hrenames hkey hbound h
  rw [← Params.getAll_without hfilter] at hvalues
  cases hentries : (n.params.without SearchConfig.standard.searchFilters).entries with
  | nil =>
    rw [Params.getAll, hentries] at hvalues
    exact absurd rfl hvalues
  | cons entry rest => rfl

/-- A root with aliases has a transformer. -/
theorem Transformer.ofRoot_of_renames (hrenames : r.renames root = .ok renames) :
    ∃ t, Transformer.ofRoot r root = .ok t ∧ t.renames = renames := by
  obtain ⟨e, he, _⟩ := bind_eq_ok hrenames
  refine ⟨⟨renames, r.booleanPaths e⟩, ?_, rfl⟩
  unfold Transformer.ofRoot
  rw [he, hrenames]
  rfl

end Operators

end SchemaSearch
