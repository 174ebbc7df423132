import SchemaSearch.Proofs.Search.Causes
import SchemaSearch.Proofs.Search.Steering

/-!
# Keys that steer

The page, the order and the operator are asked for by keys among all others, and only the list of search
filters keeps such a key out of the search.  Dates do not look at search filters, and neither does what is
left to search; an unknown field is met only there.

Main statement: what a search demands of fields, and an unknown field by which it fails, comes from the other
keys (`Prepared.steeredOnly`).
-/

namespace SchemaSearch

open Query Schema

/-! ## Leaving a key out -/

namespace Params

variable {p q : Params} {renames : Renames} {dropped excluded : List String}

/-- What passes the coercion passes it without some keys. -/
theorem coerceBooleans_without_of_ok {names : List String} (h : p.coerceBooleans names = .ok q)
    (dropped : List String) : (p.without dropped).coerceBooleans names = .ok (q.without dropped) := by
  suffices hfold : ∀ (names : List String) (start : Params), names.foldlM (p.coerceKey ·) start = .ok q →
      names.foldlM ((p.without dropped).coerceKey ·) (start.without dropped) = .ok (q.without dropped) from
    hfold names p h
  intro names
  induction names with
  | nil =>
    intro start h
    cases h
    rfl
  | cons name names ih =>
    intro start h
    rw [List.foldlM_cons] at h ⊢
    obtain ⟨next, hnext, h⟩ := bind_eq_ok h
    have hstep : (p.without dropped).coerceKey (start.without dropped) name = .ok (next.without dropped) := by
      by_cases hname : name ∈ dropped
      · -- nothing is coerced, and what would have been is left out
        have hsame : next.without dropped = start.without dropped := by
          unfold coerceKey at hnext
          split at hnext
          · cases hnext
            rfl
          · obtain ⟨coerced, _, hnext⟩ := bind_eq_ok hnext
            cases hnext
            exact without_setAll_of_mem hname start coerced
        rw [coerceKey, getAll_without_of_mem hname, hsame]
      · rw [coerceKey_without hname, hnext]
        rfl
    rw [hstep, ok_bind]
    exact ih next h

/-- One set of parameters is another with something left out under some keys, and the same elsewhere. -/
structure Covers (excluded : List String) (p q : Params) : Prop where
  rest : q.without excluded = p.without excluded
  values : ∀ key, q.getAll key ⊆ p.getAll key

theorem without_pushAll_congr (h : q.without excluded = p.without excluded) (key : String)
    (values : List Json) :
    (q.pushAll key values).without excluded = (p.pushAll key values).without excluded := by
  by_cases hkey : key ∈ excluded
  · rw [without_pushAll_of_mem hkey, without_pushAll_of_mem hkey, h]
  · rw [without_pushAll hkey, without_pushAll hkey, h]

/-- Keys that stand for excluded ones may be left out before aliases are replaced. -/
theorem covers_applyRenames (h : ∀ key ∈ dropped, renames.targetOf key ∈ excluded) (p : Params) :
    Covers excluded (p.applyRenames renames) ((p.without dropped).applyRenames renames) := by
  constructor
  · rw [applyRenames_eq_foldl, applyRenames_eq_foldl, without_eq]
    suffices hfold : ∀ (entries : List (String × List Json)) (acc acc' : Params),
        acc'.without excluded = acc.without excluded →
          ((entries.filter fun e => !dropped.contains e.1).foldl
              (fun acc e => acc.pushAll (renames.targetOf e.1) e.2) acc').without excluded
            = (entries.foldl (fun acc e => acc.pushAll (renames.targetOf e.1) e.2) acc).without excluded from
      hfold p.entries .empty .empty rfl
    intro entries
    induction entries with
    | nil => exact fun _ _ hacc => hacc
    | cons entry rest ih =>
      intro acc acc' hacc
      rw [List.filter_cons, List.foldl_cons]
      split
      · rw [List.foldl_cons]
        exact ih _ _ (without_pushAll_congr hacc _ _)
      · -- an entry that is left out would have stood under an excluded key
        rename_i hdropped
        have hmem : entry.1 ∈ dropped := by simpa using hdropped
        refine ih _ _ ?_
        rw [without_pushAll_of_mem (h _ hmem), hacc]
  · intro key value hvalue
    rw [getAll_applyRenames, List.mem_flatMap] at hvalue ⊢
    obtain ⟨entry, hentry, hvalue⟩ := hvalue
    exact ⟨entry, (List.mem_filter.mp hentry).1, hvalue⟩

theorem getAll_expandOrder_self (p : Params) (renames : Renames) :
    (p.expandOrder renames).getAll orderParam = (p.getAll orderParam).map renames.expandOrder := by
  unfold expandOrder
  split
  · rename_i hnone
    rw [hnone]
    rfl
  · exact getAll_setAll_self p orderParam _

theorem Covers.expandOrder (h : Covers excluded p q) (horder : orderParam ∈ excluded) (renames : Renames) :
    Covers excluded (p.expandOrder renames) (q.expandOrder renames) := by
  constructor
  · rw [without_expandOrder horder, without_expandOrder horder, h.rest]
  · intro key
    by_cases hkey : key = orderParam
    · subst hkey
      rw [getAll_expandOrder_self, getAll_expandOrder_self]
      exact List.map_subset _ (h.values orderParam)
    · rw [getAll_expandOrder hkey, getAll_expandOrder hkey]
      exact h.values key

/-- A key is coerced if each of its values can be. -/
theorem exists_coerceKey {key : String}
    (h : ∀ value ∈ p.getAll key, ∃ coerced, coerceBoolean key value = .ok coerced) (start : Params) :
    ∃ next, p.coerceKey start key = .ok next := by
  obtain ⟨coerced, hcoerced⟩ := exists_mapM h
  unfold coerceKey
  split
  · exact ⟨start, rfl⟩
  · rw [hcoerced]
    exact ⟨_, rfl⟩

/-- With less to coerce, coercion goes well too. -/
theorem exists_coerceBooleans {names : List String} {p' : Params} (hp : p.coerceBooleans names = .ok p')
    (h : ∀ key, q.getAll key ⊆ p.getAll key) : ∃ q', q.coerceBooleans names = .ok q' := by
  refine exists_foldlM (fun name hname start => ?_) q
  obtain ⟨before, after, hstep⟩ := step_of_foldlM hname hp
  refine exists_coerceKey (fun value hvalue => ?_) start
  have hsent := h name hvalue
  rw [coerceKey_of_ne_nil (List.ne_nil_of_mem hsent)] at hstep
  obtain ⟨coerced, hcoerced, _⟩ := bind_eq_ok hstep
  exact exists_of_mapM hsent hcoerced

/-- The coercion of one key changes no more than that. -/
theorem Covers.coerceBooleans (h : Covers excluded p q) {name : String} {p' : Params}
    (hp : p.coerceBooleans [name] = .ok p') :
    ∃ q', q.coerceBooleans [name] = .ok q' ∧ q'.without excluded = p'.without excluded := by
  by_cases hname : name ∈ excluded
  · have hnames : ∀ other ∈ [name], other ∈ excluded := by
      intro other hother
      rwa [List.mem_singleton.mp hother]
    obtain ⟨q', hq'⟩ := exists_coerceBooleans hp h.values
    refine ⟨q', hq', ?_⟩
    rw [without_coerceBooleans hnames hq', without_coerceBooleans hnames hp, h.rest]
  · -- the key is one of the rest, where both are the same
    have hnames : ∀ other ∈ [name], other ∉ excluded := by
      intro other hother
      rwa [List.mem_singleton.mp hother]
    have hsame : (·.without excluded) <$> q.coerceBooleans [name]
        = (.ok (p'.without excluded) : Except SearchError Params) := by
      rw [← coerceBooleans_without hnames, h.rest, coerceBooleans_without hnames, hp]
      rfl
    exact map_eq_ok hsame

end Params

/-- Dates look at nothing but keys that set bounds. -/
theorem Scope.searchDates_congr {s s' : Scope} {p q p' : Params} {renames : Renames} {excluded : List String}
    (hbound : ∀ key ∈ excluded, DateBounds.isBoundKey key = false)
    (hrest : q.without excluded = p.without excluded) (h : s.searchDates p renames = .ok (s', p')) :
    ∃ q', s.searchDates q renames = .ok (s', q') ∧ q'.without excluded = p'.without excluded := by
  have hsame : (fun found : Scope × Params => (found.1, found.2.without excluded)) <$> s.searchDates q renames
      = (.ok (s', p'.without excluded) : Except SearchError (Scope × Params)) := by
    rw [← searchDates_without hbound, hrest, searchDates_without hbound, h]
    rfl
  obtain ⟨⟨found, remaining⟩, hfound, hpair⟩ := map_eq_ok hsame
  obtain ⟨rfl, hremaining⟩ := Prod.mk.inj hpair
  exact ⟨remaining, hfound, hremaining⟩

/-! ## Narrowing without keys that stand for search filters -/

section Searches

variable {r : Registry} {c : SearchConfig} {root : String} {e : Entity} {t : Transformer} {p : Params}
  {n n' : Narrowed} {dropped : List String}

/-- Without keys that stand for search filters a search is narrowed to the same scope, and the same is left
to search. -/
theorem Narrowed.exists_ofParams_without
    (hfilters : c.searchFilters = SearchConfig.standard.searchFilters)
    (ht : Transformer.ofRoot r root = .ok t)
    (hdropped : ∀ key ∈ dropped, t.renames.targetOf key ∈ c.searchFilters)
    (h : Narrowed.ofParams r c root p = .ok n) :
    ∃ n', Narrowed.ofParams r c root (p.without dropped) = .ok n' ∧ n'.scope = n.scope
      ∧ n'.params.without c.searchFilters = n.params.without c.searchFilters := by
  obtain ⟨t', transformed, coerced, scope, ht', htransformed, hcoerced, hscope, hdates, _⟩ :=
    ofParams_eq_ok h
  cases ht'.symm.trans ht
  have horder : orderParam ∈ c.searchFilters := by
    rw [hfilters]
    decide
  have hbound : ∀ key ∈ c.searchFilters, DateBounds.isBoundKey key = false := by
    rw [hfilters]
    decide
  obtain ⟨typed, htyped, rfl⟩ := process_eq_ok htransformed
  have htyped' := Params.coerceBooleans_without_of_ok htyped dropped
  have hcovers := (Params.covers_applyRenames hdropped typed).expandOrder horder t.renames
  obtain ⟨coerced', hcoerced', hrest⟩ := hcovers.coerceBooleans hcoerced
  obtain ⟨remaining, hdates', hremaining⟩ := Scope.searchDates_congr hbound hrest hdates
  refine ⟨⟨n.scope, remaining, Prepared.asksForInactive c coerced'⟩, ?_, rfl, hremaining⟩
  unfold Narrowed.ofParams Transformer.process
  rw [ht, ok_bind, htyped', ok_bind, ok_bind, hcoerced', ok_bind, hscope, ok_bind, hdates', ok_bind]

/-- Search what is left by the operator that is asked for, if any. -/
def Narrowed.searchBy (n : Narrowed) (c : SearchConfig) :
    Option (Except SearchError Operator) → Except SearchError Scope
  | some requested => do
    let operator ← requested
    n.scope.searchOperator operator n.params c.searchFilters
  | none => n.scope.searchTerms n.params c.searchFilters

theorem Narrowed.searchFields_eq_searchBy (n : Narrowed) (c : SearchConfig) :
    Prepared.searchFields c n.scope n.params = n.searchBy c (Operator.ofParams? n.params) := by
  unfold Prepared.searchFields searchBy
  cases Operator.ofParams? n.params <;> rfl

/-- A search sees the scope, and what is left besides search filters. -/
theorem Narrowed.searchBy_congr (hscope : n'.scope = n.scope)
    (hrest : n'.params.without c.searchFilters = n.params.without c.searchFilters)
    (requested : Option (Except SearchError Operator)) :
    n'.searchBy c requested = n.searchBy c requested := by
  cases requested with
  | none =>
    simp only [searchBy, Scope.searchTerms, Params.termPredicates, Params.terms]
    rw [hscope, hrest]
  | some requested =>
    refine bind_congr fun operator => ?_
    simp only [Scope.searchOperator]
    rw [hscope, hrest]

/-- A search filter that does not ask for an operator is not seen by the search. -/
theorem Narrowed.searchFields_without (n : Narrowed) {key : String} (hfilter : key ∈ c.searchFilters)
    (hoperator : Operator.param ∉ [key]) :
    Prepared.searchFields c n.scope (n.params.without [key]) = Prepared.searchFields c n.scope n.params := by
  have hrest : (n.params.without [key]).without c.searchFilters = n.params.without c.searchFilters := by
    refine Params.without_without ?_ n.params
    intro other hother
    rwa [List.mem_singleton.mp hother]
  have hasked : Operator.ofParams? (n.params.without [key]) = Operator.ofParams? n.params := by
    rw [Operator.ofParams?, Operator.ofParams?, Params.get?, Params.get?, Params.getAll_without hoperator]
  have hleft := searchFields_eq_searchBy { n with params := n.params.without [key] } c
  rw [hleft, hasked, searchFields_eq_searchBy]
  exact @searchBy_congr c n { n with params := n.params.without [key] } rfl hrest _

/-! ## Unknown fields -/

/-- The path of an unknown field, also of one inside of an operator search. -/
def SearchError.unknownPath? : SearchError → Option String
  | .unknownField _ path => some path
  | .wrapped _ source => source.unknownPath?
  | _ => none

/-- A computation fails by no unknown field. -/
def KnowsFields {α : Type} (x : Except SearchError α) : Prop :=
  FailsOnly (fun error => error.unknownPath? = none) x

/-- What is wrong with a value is no unknown field. -/
theorem FailsByValue.knowsFields {α : Type} {x : Except SearchError α} (h : FailsByValue x) :
    KnowsFields x := by
  refine h.mono fun error herror => ?_
  cases error with
  | invalidBoolean _ _ | invalidParameter _ _ => rfl
  | _ => cases herror

namespace DateBounds

/-- A field that is bounded is looked up first, and what is wrong with it is a fault of dates. -/
theorem knowsFields_pathOf {s : Scope} (hs : s.IsRegistered) (renames : Renames) (field : String) :
    KnowsFields (pathOf s renames field) := by
  unfold pathOf
  split
  · exact FailsOnly.ok _
  · split
    · split
      · exact FailsOnly.ok _
      · exact FailsOnly.error rfl
    · exact FailsOnly.error rfl
    · rename_i error hother herror
      exact absurd (Registry.resolve_error hs herror) (hother _ _)

/-- Its path leads to a column: that of an alias, as all of them do, or its own. -/
theorem exists_resolve_of_pathOf {s : Scope} {renames : Renames} {field path : String}
    (hleads : ∀ entry ∈ renames.entries, ∃ target, s.registry.resolve s.root.name entry.2 = .ok target)
    (h : pathOf s renames field = .ok path) :
    ∃ target, s.registry.resolve s.root.name path = .ok target := by
  unfold pathOf at h
  split at h
  · rename_i aliased halias
    cases h
    exact hleads _ (Table.mem_of_find? halias)
  · split at h
    · rename_i target htarget
      split at h
      · cases h
        exact ⟨target, htarget⟩
      · cases h
    · cases h
    · cases h

end DateBounds

/-- Dates never meet an unknown field. -/
theorem Scope.knowsFields_searchDates {s : Scope} (hs : s.IsRegistered) {renames : Renames}
    (hleads : ∀ entry ∈ renames.entries, ∃ target, s.registry.resolve s.root.name entry.2 = .ok target)
    (p : Params) : KnowsFields (s.searchDates p renames) := by
  refine failsOnly_searchDates (fun _ => rfl) (DateBounds.knowsFields_pathOf hs renames) ?_
  intro field path lookup hled
  obtain ⟨target, htarget⟩ := DateBounds.exists_resolve_of_pathOf hleads hled
  refine FailsOnly.bind ?_ fun _ _ => .ok _
  rw [Predicate.compile, htarget, ok_bind]
  exact (failsByValue_fieldCondition path target lookup).knowsFields

/-- So narrowing does not, either. -/
theorem Narrowed.knowsFields_ofParams (ht : Transformer.ofRoot r root = .ok t) (c : SearchConfig)
    (p : Params) : KnowsFields (Narrowed.ofParams r c root p) := by
  obtain ⟨e, hroot, hrenames, _⟩ := Transformer.ofRoot_eq_ok ht
  obtain ⟨_, _, _, hleads⟩ := Registry.renames_eq_ok hrenames
  obtain rfl : e.name = root := Registry.name_of_get? hroot
  unfold Narrowed.ofParams
  rw [ht, ok_bind]
  refine (failsByValue_process t p).knowsFields.bind fun transformed _ => ?_
  refine (failsByValue_coerceBooleans transformed _).knowsFields.bind fun coerced _ => ?_
  rw [Scope.ofRoot_of_get? hroot, ok_bind]
  have hscope : (Scope.ofEntity r e).IsRegistered := hroot
  exact FailsOnly.bind (Scope.knowsFields_searchDates hscope hleads coerced) fun _ _ => .ok _

/-! ## Keys that only steer -/

/-- What a search demands of fields, and an unknown field by which it fails, comes from the search of the
other keys by the same operator. -/
structure Prepared.SteeredOnly (r : Registry) (c : SearchConfig) (root : String) (p : Params)
    (dropped : List String) : Prop where
  demands : ∀ s, Prepared.ofParams r c root p = .ok s →
    ∃ n n' searched, Narrowed.ofParams r c root p = .ok n
      ∧ Narrowed.ofParams r c root (p.without dropped) = .ok n'
      ∧ n'.searchBy c (Operator.ofParams? n.params) = .ok searched
      ∧ s.scope.predicates = searched.predicates
  unknown : ∀ error, Prepared.ofParams r c root p = .error error → error.unknownPath?.isSome = true →
    ∃ n n', Narrowed.ofParams r c root p = .ok n
      ∧ Narrowed.ofParams r c root (p.without dropped) = .ok n'
      ∧ n'.searchBy c (Operator.ofParams? n.params) = .error error

/-- Keys that stand for search filters only steer. -/
theorem Prepared.steeredOnly (hfilters : c.searchFilters = SearchConfig.standard.searchFilters)
    (ht : Transformer.ofRoot r root = .ok t)
    (hdropped : ∀ key ∈ dropped, t.renames.targetOf key ∈ c.searchFilters) (p : Params) :
    Prepared.SteeredOnly r c root p dropped := by
  have hsearch : ∀ n, Narrowed.ofParams r c root p = .ok n →
      ∃ n', Narrowed.ofParams r c root (p.without dropped) = .ok n'
        ∧ n'.searchBy c (Operator.ofParams? n.params) = Prepared.searchFields c n.scope n.params := by
    intro n hn
    obtain ⟨n', hn', hscope, hrest⟩ := Narrowed.exists_ofParams_without hfilters ht hdropped hn
    refine ⟨n', hn', ?_⟩
    rw [Narrowed.searchBy_congr hscope hrest, ← Narrowed.searchFields_eq_searchBy]
  constructor
  · intro s hs
    obtain ⟨n, searched, hn, hsearched, hscope⟩ := Prepared.ofParams_eq_ok hs
    obtain ⟨n', hn', hsame⟩ := hsearch n hn
    refine ⟨n, n', searched, hn, hn', hsame.trans hsearched, ?_⟩
    rw [hscope, Scope.marked_eq]
  · intro error herror hunknown
    rw [Prepared.ofParams_eq] at herror
    cases hn : Narrowed.ofParams r c root p with
    | error error' =>
      rw [hn] at herror
      cases herror
      rw [Narrowed.knowsFields_ofParams ht c p error hn] at hunknown
      cases hunknown
    | ok n =>
      obtain ⟨n', hn', hsame⟩ := hsearch n hn
      refine ⟨n, n', rfl, hn', hsame.trans ?_⟩
      rw [hn, ok_bind] at herror
      -- neither the order nor the page tells of an unknown field
      have horder : KnowsFields (SortOrder.read (Prepared.orderText c n.params) r root) :=
        failsOnly_order (show (SearchError.invalidOrdering _).unknownPath? = none from rfl) r root
      have hpage : KnowsFields (Page.ofParams n.params c.defaultPageSize) :=
        failsOnly_page (show SearchError.pageNotInteger.unknownPath? = none from rfl) n.params _
      cases hsearched : Prepared.searchFields c n.scope n.params with
      | error error' =>
        rw [Narrowed.finish, hsearched] at herror
        cases herror
        rfl
      | ok searched =>
        rw [Narrowed.finish, hsearched, ok_bind] at herror
        have hknown := (horder.bind fun _ _ => hpage.bind fun _ _ => FailsOnly.ok _) error herror
        rw [hknown] at hunknown
        cases hunknown

end Searches

end SchemaSearch
