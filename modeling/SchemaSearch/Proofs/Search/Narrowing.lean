import SchemaSearch.Proofs.Predicate.Meaning
import SchemaSearch.Proofs.Search.Bounds
import SchemaSearch.Search.Prepare

/-!
# Narrowing

The condition of a scope says exactly what its predicates say, and every stage of a search keeps it so:
dates, terms and operators only demand more of the same entity.  Whether inactive records show is no
predicate but a mark beside them, which counts once, at the very end.

Main statement: the rows that a scope selects (`Scope.selects_condition`).  A prepared search is split in
two, what narrows it before the operator is read and the rest (`Prepared.ofParams_eq`).
-/

namespace SchemaSearch

open Query Schema Store

theorem Schema.Registry.get?_of_entity {r : Registry} {name : String} {e : Entity}
    (h : r.entity name = .ok e) : r.get? name = some e := by
  unfold Registry.entity at h
  split at h
  · rename_i hfound
    cases h
    exact hfound
  · cases h

theorem Transformer.ofRoot_eq_ok {r : Registry} {root : String} {t : Transformer}
    (h : Transformer.ofRoot r root = .ok t) :
    ∃ e, r.get? root = some e ∧ r.renames root = .ok t.renames ∧ t.booleans = r.booleanPaths e := by
  obtain ⟨e, he, h⟩ := bind_eq_ok h
  obtain ⟨renames, hrenames, h⟩ := bind_eq_ok h
  cases h
  exact ⟨e, Registry.get?_of_entity he, hrenames, rfl⟩

/-- Without a key that sets a bound there is no bound. -/
theorem DateBounds.ofParams_eq_none {p : Params} (h : ∀ key ∈ p.keys, DateBounds.isBoundKey key = false) :
    DateBounds.ofParams p = .ok .none := by
  have hnone : p.keys.filter DateBounds.isBoundKey = [] :=
    List.filter_eq_nil_iff.mpr fun key hkey => by rw [h key hkey]; exact Bool.false_ne_true
  rw [DateBounds.ofParams, hnone, List.foldlM_nil]
  rfl

/-- Bounds that are found name a field. -/
theorem DateBounds.field_of_ofParams {p : Params} {bounds : DateBounds}
    (h : ofParams p = .ok bounds) (hfield : bounds.field = .none) : p.keys.filter isBoundKey = [] := by
  obtain ⟨⟨field, _, hkeys⟩, rfl⟩ := foldlM_record_eq_ok_iff.mp h
  rw [field_foldl_set fun key hkey => (hkeys key hkey).1] at hfield
  split at hfield
  · rename_i hnone
    exact List.isEmpty_iff.mp hnone
  · cases hfield

/-- A predicate that is made by way of an expression. -/
theorem Operator.predicate_eq_ok {expression : Except SearchError Expression} {predicate? : Option Predicate}
    (h : (do (← expression).toPredicate.map some) = Except.ok predicate?) :
    ∃ predicate, (expression >>= fun e => e.toPredicate) = .ok predicate ∧ predicate? = some predicate := by
  obtain ⟨e, he, h⟩ := bind_eq_ok h
  obtain ⟨predicate, hpredicate, h⟩ := map_eq_ok h
  exact ⟨predicate, by rw [he, ok_bind, hpredicate], h.symm⟩

/-! ## Scopes and their predicates -/

namespace Scope

/-- Whether all predicates of a scope hold on a row. -/
def demands (s : Scope) (db : Database) (row : Row) : Bool :=
  s.predicates.all (·.holdsOn s.registry s.root.name db row)

/-- The condition of a scope says what its predicates say. -/
def Faithful (s : Scope) : Prop :=
  ∀ db row, truth db [(s.root.name, row)] s.base = .ofBool (s.demands db row)

/-- Whether a scope shows a row as far as its being active goes. -/
def shows (s : Scope) (row : Row) : Bool :=
  !(s.activeOnly && s.hasActiveFlag) || row.get activeField == .integer 1

/-- A scope with the mark that a search sets in the end. -/
def marked (s : Scope) (inactive : Bool) : Scope :=
  if inactive then s.includeInactive else s.restrictToActive

theorem marked_eq (s : Scope) (inactive : Bool) :
    s.marked inactive = { s with activeOnly := !inactive } := by
  cases inactive <;> rfl

theorem ofRoot_eq_ok {r : Registry} {root : String} {s : Scope} (h : ofRoot r root = .ok s) :
    ∃ e, r.get? root = some e ∧ s = ofEntity r e := by
  unfold ofRoot at h
  cases he : r.entity root with
  | error error =>
    rw [he] at h
    cases h
  | ok e =>
    rw [he] at h
    cases h
    exact ⟨e, Registry.get?_of_entity he, rfl⟩

theorem ofRoot_of_get? {r : Registry} {root : String} {e : Entity} (h : r.get? root = some e) :
    ofRoot r root = .ok (ofEntity r e) := by
  rw [ofRoot, Registry.entity, h]
  rfl

/-- Nothing is demanded of the whole entity. -/
theorem faithful_ofRoot {r : Registry} {root : String} {s : Scope} (h : ofRoot r root = .ok s) :
    s.Faithful := by
  obtain ⟨e, _, rfl⟩ := ofRoot_eq_ok h
  intro db row
  rfl

theorem filter_eq_ok {s s' : Scope} {p : Predicate} (h : s.filter p = .ok s') :
    ∃ c, p.compile s.registry s.root.name = .ok c
      ∧ s' = { s with predicates := s.predicates ++ [p], base := s.base.and c } := by
  obtain ⟨c, hc, h⟩ := bind_eq_ok h
  cases h
  exact ⟨c, hc, rfl⟩

/-- One more predicate is one more thing that the condition says. -/
theorem faithful_filter {s s' : Scope} {p : Predicate} (hs : s.Faithful) (h : s.filter p = .ok s') :
    s'.Faithful := by
  obtain ⟨c, hc, rfl⟩ := filter_eq_ok h
  intro db row
  show truth db [(s.root.name, row)] (s.base.and c)
    = .ofBool ((s.predicates ++ [p]).all (·.holdsOn s.registry s.root.name db row))
  rw [truth_and, hs db row, Predicate.truth_compile [] p hc, Truth.and_ofBool, List.all_append,
    List.all_cons, List.all_nil, Bool.and_true]
  rfl

/-- The test for an active record is true on records that are marked so. -/
theorem holds_activeCondition (s : Scope) (db : Database) (row : Row) :
    (truth db [(s.root.name, row)] s.activeCondition).holds
      = (row.get activeField == .integer 1) := by
  have hvalue : truth db [(s.root.name, row)] s.activeCondition
      = (row.get activeField).equals (.integer 1) := by
    rw [activeCondition, truth, testTruth]
    show truthOn (valueOf _ ⟨s.root.name, activeField⟩) _ = _
    rw [valueOf_head]
    rfl
  rw [hvalue, Value.holds_equals]
  cases row.get activeField <;> rfl

/-- A scope selects the rows on which all its predicates hold and that it shows. -/
theorem selects_condition {s : Scope} (hs : s.Faithful) (db : Database) (row : Row) :
    selects db s.root.name s.condition row = (s.demands db row && s.shows row) := by
  have hbase : (truth db [(s.root.name, row)] s.base).holds = s.demands db row := by
    rw [hs db row, Truth.holds_ofBool]
  unfold selects condition shows
  cases s.activeOnly && s.hasActiveFlag with
  | true =>
    rw [if_pos rfl, truth_and, Truth.holds_and, hbase, holds_activeCondition]
    rfl
  | false =>
    rw [if_neg Bool.false_ne_true, hbase, Bool.not_false, Bool.true_or, Bool.and_true]

/-! ## Stages that narrow -/

/-- What a search by dates can do: nothing without a bound; else it takes the keys of bounds out, and
demands the range that they set, if any. -/
theorem searchDates_eq_ok {s s' : Scope} {p p' : Params} {renames : Renames}
    (h : s.searchDates p renames = .ok (s', p')) :
    ∃ bounds, DateBounds.ofParams p = .ok bounds
      ∧ (bounds.field = none ∧ s' = s ∧ p' = p
        ∨ ∃ field path lookup?, bounds.field = some field
          ∧ p' = p.without (p.keys.filter DateBounds.isBoundKey)
          ∧ DateBounds.pathOf s renames field = .ok path ∧ bounds.lookup? = .ok lookup?
          ∧ (lookup? = none ∧ s' = s
            ∨ ∃ lookup, lookup? = some lookup ∧ s.filter (.field path lookup) = .ok s')) := by
  obtain ⟨bounds, hbounds, h⟩ := bind_eq_ok h
  refine ⟨bounds, hbounds, ?_⟩
  cases hfield : bounds.field with
  | none =>
    simp only [hfield] at h
    cases h
    exact .inl ⟨rfl, rfl, rfl⟩
  | some field =>
    simp only [hfield] at h
    obtain ⟨path, hpath, h⟩ := bind_eq_ok h
    obtain ⟨lookup?, hlookup, h⟩ := bind_eq_ok h
    cases lookup? with
    | none =>
      cases h
      exact .inr ⟨field, path, none, rfl, rfl, hpath, hlookup, .inl ⟨rfl, rfl⟩⟩
    | some lookup =>
      obtain ⟨narrowed, hfilter, h⟩ := bind_eq_ok h
      cases h
      exact .inr ⟨field, path, some lookup, rfl, rfl, hpath, hlookup, .inr ⟨lookup, rfl, hfilter⟩⟩

/-- Whenever dates are searched, the keys with a mark are taken out. -/
theorem remaining_searchDates {s s' : Scope} {p p' : Params} {renames : Renames}
    (h : s.searchDates p renames = .ok (s', p')) : p' = p.without (p.keys.filter DateBounds.isBoundKey) := by
  obtain ⟨bounds, hbounds, ⟨hfield, _, rfl⟩ | ⟨_, _, _, _, rfl, _⟩⟩ := searchDates_eq_ok h
  · rw [DateBounds.field_of_ofParams hbounds hfield]
    exact (congrArg Params.mk (List.filter_eq_self.mpr fun _ _ => rfl)).symm
  · rfl

/-- A search by dates demands one field, or nothing. -/
theorem filter?_of_searchDates {s s' : Scope} {p p' : Params} {renames : Renames}
    (h : s.searchDates p renames = .ok (s', p')) :
    ∃ demanded, s.filter? demanded = .ok s' ∧ ∀ q ∈ demanded, ∃ path lookup, q = .field path lookup := by
  obtain ⟨_, _, ⟨_, rfl, _⟩ | ⟨_, path, _, _, _, _, _, ⟨_, rfl⟩ | ⟨lookup, _, hfilter⟩⟩⟩ := searchDates_eq_ok h
  · exact ⟨none, rfl, nofun⟩
  · exact ⟨none, rfl, nofun⟩
  · exact ⟨some (.field path lookup), hfilter, fun q hq => ⟨path, lookup, (Option.mem_some.mp hq).symm⟩⟩

/-- A search by terms demands what their predicates are joined to, if there are any. -/
theorem searchTerms_eq (s : Scope) (p : Params) (excluded : List String) :
    s.searchTerms p excluded = p.termPredicates excluded >>= fun ps => s.filter? (Predicate.all? ps) := rfl

theorem searchTerms_eq_ok {s s' : Scope} {p : Params} {excluded : List String}
    (h : s.searchTerms p excluded = .ok s') :
    ∃ ps, p.termPredicates excluded = .ok ps ∧ s.filter? (Predicate.all? ps) = .ok s' := by
  rw [searchTerms_eq] at h
  exact bind_eq_ok h

/-- What a search by an operator can do: nothing without parameters of its own; else it demands the
predicate that the operator makes of them, and active records. -/
theorem searchOperator_eq_ok {s s' : Scope} {operator : Operator} {p : Params} {filters : List String}
    (h : s.searchOperator operator p filters = .ok s') :
    (p.without filters).entries = [] ∧ s' = s
      ∨ ∃ demanded narrowed, operator.predicate (p.without filters) = .ok demanded
        ∧ s.filter? demanded = .ok narrowed ∧ s' = narrowed.restrictToActive := by
  simp only [searchOperator] at h
  split at h
  · rename_i hempty
    cases h
    exact .inl ⟨List.isEmpty_iff.mp hempty, rfl⟩
  · split at h
    · rename_i narrowed hnarrowed
      cases h
      obtain ⟨demanded, hdemanded, hfilter⟩ := bind_eq_ok hnarrowed
      exact .inr ⟨demanded, narrowed, hdemanded, hfilter, rfl⟩
    · cases h

/-- Without a key that sets a bound there is nothing to do. -/
theorem searchDates_eq_self {p : Params} (h : ∀ key ∈ p.keys, DateBounds.isBoundKey key = false)
    (s : Scope) (renames : Renames) : s.searchDates p renames = .ok (s, p) := by
  rw [searchDates, DateBounds.ofParams_eq_none h]
  rfl

/-- A scope comes from another by demanding more of the same entity. -/
structure Extends (s s' : Scope) : Prop where
  registry : s'.registry = s.registry
  root : s'.root = s.root
  faithful : s.Faithful → s'.Faithful

namespace Extends

theorem refl (s : Scope) : Extends s s := ⟨rfl, rfl, id⟩

theorem trans {s s' s'' : Scope} (h : Extends s s') (h' : Extends s' s'') : Extends s s'' :=
  ⟨h'.registry.trans h.registry, h'.root.trans h.root, h'.faithful ∘ h.faithful⟩

theorem restrictToActive (s : Scope) : Extends s s.restrictToActive := ⟨rfl, rfl, id⟩

theorem marked (s : Scope) (inactive : Bool) : Extends s (s.marked inactive) := by
  rw [marked_eq]
  exact ⟨rfl, rfl, id⟩

theorem filter {s s' : Scope} {p : Predicate} (h : s.filter p = .ok s') : Extends s s' := by
  refine ⟨?_, ?_, fun hs => faithful_filter hs h⟩
  all_goals
    obtain ⟨c, _, rfl⟩ := filter_eq_ok h
    rfl

theorem filter? {s s' : Scope} {p : Option Predicate} (h : s.filter? p = .ok s') : Extends s s' := by
  cases p with
  | none =>
    cases h
    exact refl s
  | some p => exact filter h

theorem searchTerms {s s' : Scope} {p : Params} {excluded : List String}
    (h : s.searchTerms p excluded = .ok s') : Extends s s' := by
  obtain ⟨_, _, hfilter⟩ := searchTerms_eq_ok h
  exact filter? hfilter

theorem searchOperator {s s' : Scope} {operator : Operator} {p : Params} {filters : List String}
    (h : s.searchOperator operator p filters = .ok s') : Extends s s' := by
  obtain ⟨_, rfl⟩ | ⟨_, narrowed, _, hfilter, rfl⟩ := searchOperator_eq_ok h
  · exact refl _
  · exact (filter? hfilter).trans (Extends.restrictToActive narrowed)

theorem searchFields {c : SearchConfig} {s s' : Scope} {p : Params}
    (h : Prepared.searchFields c s p = .ok s') : Extends s s' := by
  unfold Prepared.searchFields at h
  split at h
  · obtain ⟨operator, _, h⟩ := bind_eq_ok h
    exact searchOperator h
  · exact searchTerms h

theorem searchDates {s s' : Scope} {p p' : Params} {renames : Renames}
    (h : s.searchDates p renames = .ok (s', p')) : Extends s s' := by
  obtain ⟨_, hfilter, _⟩ := filter?_of_searchDates h
  exact filter? hfilter

end Extends

end Scope

/-! ## Prepared searches in two parts -/

/-- A search before its operator is read: narrowed by dates, with the parameters that are left. -/
structure Narrowed where
  scope : Scope
  params : Params
  /-- Whether inactive records are asked for. -/
  inactive : Bool
  deriving Repr

namespace Narrowed

/-- The scope that a search has without terms of its own. -/
def baseScope (n : Narrowed) : Scope := n.scope.marked n.inactive

/-- Narrow a root by the dates of some parameters. -/
def ofParams (r : Registry) (c : SearchConfig) (root : String) (p : Params) :
    Except SearchError Narrowed := do
  let transformer ← Transformer.ofRoot r root
  let transformed ← transformer.process p
  let coerced ← transformed.coerceBooleans [c.includeInactiveParam]
  let scope ← Scope.ofRoot r root
  let (narrowed, remaining) ← scope.searchDates coerced transformer.renames
  .ok ⟨narrowed, remaining, Prepared.asksForInactive c coerced⟩

/-- Search the remaining parameters, and read the order and the page. -/
def finish (n : Narrowed) (r : Registry) (c : SearchConfig) (root : String) :
    Except SearchError Prepared := do
  let searched ← Prepared.searchFields c n.scope n.params
  let order ← SortOrder.read (Prepared.orderText c n.params) r root
  let page ← Page.ofParams n.params c.defaultPageSize
  .ok ⟨searched.marked n.inactive, order, page⟩

/-- The stages of narrowing. -/
theorem ofParams_eq_ok {r : Registry} {c : SearchConfig} {root : String} {p : Params} {n : Narrowed}
    (h : ofParams r c root p = .ok n) :
    ∃ transformer transformed coerced scope, Transformer.ofRoot r root = .ok transformer
      ∧ transformer.process p = .ok transformed
      ∧ transformed.coerceBooleans [c.includeInactiveParam] = .ok coerced
      ∧ Scope.ofRoot r root = .ok scope
      ∧ scope.searchDates coerced transformer.renames = .ok (n.scope, n.params)
      ∧ n.inactive = Prepared.asksForInactive c coerced := by
  obtain ⟨transformer, htransformer, h⟩ := bind_eq_ok h
  obtain ⟨transformed, htransformed, h⟩ := bind_eq_ok h
  obtain ⟨coerced, hcoerced, h⟩ := bind_eq_ok h
  obtain ⟨scope, hscope, h⟩ := bind_eq_ok h
  obtain ⟨⟨narrowed, remaining⟩, hdates, h⟩ := bind_eq_ok h
  cases h
  exact ⟨transformer, transformed, coerced, scope, htransformer, htransformed, hcoerced, hscope,
    hdates, rfl⟩

/-- The stages of finishing. -/
theorem finish_eq_ok {r : Registry} {c : SearchConfig} {root : String} {n : Narrowed} {s : Prepared}
    (h : n.finish r c root = .ok s) :
    ∃ searched, Prepared.searchFields c n.scope n.params = .ok searched
      ∧ s.scope = searched.marked n.inactive := by
  obtain ⟨searched, hsearched, h⟩ := bind_eq_ok h
  obtain ⟨order, _, h⟩ := bind_eq_ok h
  obtain ⟨page, _, h⟩ := bind_eq_ok h
  cases h
  exact ⟨searched, hsearched, rfl⟩

end Narrowed

/-- A search is narrowed first and finished then. -/
theorem Prepared.ofParams_eq (r : Registry) (c : SearchConfig) (root : String) (p : Params) :
    ofParams r c root p = Narrowed.ofParams r c root p >>= fun n => n.finish r c root := by
  unfold Prepared.ofParams Narrowed.ofParams Narrowed.finish
  simp only [bind_assoc]
  rfl

theorem Prepared.ofParams_eq_ok {r : Registry} {c : SearchConfig} {root : String} {p : Params} {s : Prepared}
    (h : ofParams r c root p = .ok s) :
    ∃ n searched, Narrowed.ofParams r c root p = .ok n ∧ searchFields c n.scope n.params = .ok searched
      ∧ s.scope = searched.marked n.inactive := by
  rw [ofParams_eq] at h
  obtain ⟨n, hn, hfinish⟩ := bind_eq_ok h
  obtain ⟨searched, hsearched, hscope⟩ := Narrowed.finish_eq_ok hfinish
  exact ⟨n, searched, hn, hsearched, hscope⟩

/-- A narrowed scope is one of its root, and faithful. -/
theorem Narrowed.scope_of_ofParams {r : Registry} {c : SearchConfig} {root : String} {p : Params}
    {n : Narrowed} (h : Narrowed.ofParams r c root p = .ok n) :
    ∃ e, r.get? root = some e ∧ n.scope.registry = r ∧ n.scope.root = e ∧ n.scope.Faithful := by
  obtain ⟨transformer, _, coerced, scope, _, _, _, hscope, hdates, _⟩ := ofParams_eq_ok h
  have hextends := Scope.Extends.searchDates hdates
  have hfaithful := hextends.faithful (Scope.faithful_ofRoot hscope)
  obtain ⟨e, he, rfl⟩ := Scope.ofRoot_eq_ok hscope
  exact ⟨e, he, hextends.registry, hextends.root, hfaithful⟩

end SchemaSearch
