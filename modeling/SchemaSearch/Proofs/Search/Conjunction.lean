import SchemaSearch.Proofs.Search.Reordering

/-!
# Plain searches and `AND`

A plain search demands each value of each key; `AND` reads the same parameters as a tree and demands all of
its terms.  The one makes a list of predicates and folds it, the other makes expressions first, and needs at
least one.  Where no key stands for an operation and no value is a list, the terms are the same, and so is
what becomes of them.

Main statement: a search is prepared as it is with `operator=AND` at any place among its parameters
(`Prepared.ofParams_and`).
-/

namespace SchemaSearch

open Query Schema

/-! ## Keys with values -/

namespace Params

/-- Every key carries a value. -/
def Filled (p : Params) : Prop := ∀ key ∈ p.keys, p.getAll key ≠ []

variable {p q : Params}

theorem Filled.pairs_ne_nil (h : p.Filled) (hsome : p.entries.isEmpty = false) : p.pairs ≠ [] := by
  obtain ⟨entries⟩ := p
  cases entries with
  | nil => cases hsome
  | cons entry rest =>
    have hvalues := h entry.1 List.mem_cons_self
    simp only [getAll, Table.find?, if_true, Option.getD_some] at hvalues
    rw [pairs_cons]
    exact List.append_ne_nil_of_left_ne_nil (fun hnone => hvalues (List.map_eq_nil_iff.mp hnone)) _

theorem Filled.without (h : p.Filled) (excluded : List String) : (p.without excluded).Filled := by
  intro key hkey
  rw [keys_without, List.mem_filter] at hkey
  rw [getAll_without (by simpa using hkey.2)]
  exact h key hkey.1

theorem Filled.coerced (h : p.Filled) (hq : p.Coerced q) : q.Filled := by
  intro key hkey
  rw [hq.keys] at hkey
  exact hq.getAll_ne_nil (h key hkey)

/-- A key with a pair carries a value. -/
theorem getAll_of_mem_pairs {pair : String × Json} (hkeys : p.keys.Nodup) (hpair : pair ∈ p.pairs) :
    pair.2 ∈ p.getAll pair.1 := by
  obtain ⟨entry, hentry, hpair⟩ := List.mem_flatMap.mp hpair
  obtain ⟨value, hvalue, rfl⟩ := List.mem_map.mp hpair
  rw [← flatMap_entries hkeys]
  refine List.mem_flatMap.mpr ⟨entry, hentry, ?_⟩
  rwa [if_pos rfl]

end Params

/-- A key that comes up in a transformation carries a value. -/
theorem Transformer.filled_process {t : Transformer} {p q : Params} (hkeys : p.keys.Nodup)
    (h : t.process p = .ok q) : q.Filled := by
  intro key hkey
  obtain ⟨pair, hpair, rfl⟩ := mem_keys_process hkeys h hkey
  exact getAll_process_ne_nil h (List.ne_nil_of_mem (Params.getAll_of_mem_pairs hkeys hpair))

section Narrowed

variable {r : Registry} {c : SearchConfig} {root : String} {p q : Params} {t : Transformer} {n : Narrowed}

/-- Narrowing leaves no key but those that came out of the transformation. -/
theorem Narrowed.keys_params_subset (ht : Transformer.ofRoot r root = .ok t) (hq : t.process p = .ok q)
    (h : Narrowed.ofParams r c root p = .ok n) : n.params.keys ⊆ q.keys := by
  obtain ⟨t', transformed, coerced, scope, ht', htransformed, hcoerced, _, hdates, _⟩ := ofParams_eq_ok h
  cases ht'.symm.trans ht
  cases htransformed.symm.trans hq
  rw [← (Params.coerced_coerceBooleans hcoerced).keys]
  rw [Scope.remaining_searchDates hdates, Params.keys_without]
  exact List.filter_sublist.subset

/-- Nor does it leave a key without values. -/
theorem Narrowed.filled_params (hkeys : p.keys.Nodup) (h : Narrowed.ofParams r c root p = .ok n) :
    n.params.Filled := by
  obtain ⟨t, transformed, coerced, scope, _, htransformed, hcoerced, _, hdates, _⟩ := ofParams_eq_ok h
  have hfilled : coerced.Filled :=
    (Transformer.filled_process hkeys htransformed).coerced (Params.coerced_coerceBooleans hcoerced)
  rw [Scope.remaining_searchDates hdates]
  exact hfilled.without _

end Narrowed

/-! ## The terms of both -/

/-- Whether a value is a list. -/
def Json.isList : Json → Bool
  | .list _ => true
  | _ => false

/-- The terms of some parameters are their pairs: no key stands for an operation, and no value for several. -/
structure Params.Plain (p : Params) : Prop where
  keys : ∀ key ∈ p.keys, Operation.ofKey? key = none
  values : ∀ pair ∈ p.pairs, pair.2.isList = false

/-- A value that is no list is its own scalar. -/
theorem Json.scalars_of_isList {value : Json} (h : value.isList = false) : value.scalars = [value] := by
  cases value with
  | list items => cases h
  | null | bool _ | number _ | text _ | object _ => rfl

/-- A token is no list, and nothing else becomes one. -/
theorem Json.isList_asToken {value : Json} (h : value.isList = false) : value.asToken.isList = false := by
  unfold Json.asToken
  split
  · rfl
  · rfl
  · exact h

namespace Expression

/-- A list of values that are no lists has one term for each. -/
theorem terms_list {field : String} {values : List Json} (h : ∀ value ∈ values, value.isList = false) :
    terms field (.list values) = values.map (.term field) := by
  have hscalars : (Json.list values).scalars = values := by
    show Json.scalarsOfItems values = values
    rw [Json.scalarsOfItems_eq_flatMap]
    induction values with
    | nil => rfl
    | cons value values ih =>
      rw [List.flatMap_cons, Json.scalars_of_isList (h value List.mem_cons_self),
        ih fun value' hvalue' => h value' (List.mem_cons_of_mem _ hvalue')]
      rfl
  rw [terms_eq_map, hscalars]

/-- Plain parameters are read as their pairs. -/
theorem children_nodeOf_plain {p : Params} (h : p.Plain) :
    children (Operator.nodeOf p) = .ok (p.pairs.map fun pair => .term pair.1 pair.2) := by
  obtain ⟨entries⟩ := p
  show childrenOfMembers (entries.map fun entry => (entry.1, Json.list entry.2)) = _
  induction entries with
  | nil => rfl
  | cons entry rest ih =>
    have hkey : Operation.ofKey? entry.1 = none := h.keys _ List.mem_cons_self
    have hfirst : terms entry.1 (.list entry.2) = entry.2.map (.term entry.1) := by
      refine terms_list fun value hvalue => h.values (entry.1, value) ?_
      exact List.mem_append_left _ (List.mem_map_of_mem hvalue)
    have hrest : Params.Plain ⟨rest⟩ :=
      ⟨fun key hkey => h.keys key (List.mem_cons_of_mem _ hkey),
        fun pair hpair => h.values pair (List.mem_append_right _ hpair)⟩
    rw [List.map_cons, childrenOfMembers, childrenOfMember, hkey, ih hrest, hfirst, Params.pairs_cons,
      List.map_append, List.map_map]
    rfl

end Expression

/-- Over what is left to search a plain search and `AND` narrow a scope alike, up to the mark for active
records. -/
theorem Scope.agree_searchTerms_and (s : Scope) {p : Params} {filters : List String}
    (hplain : (p.without filters).Plain) (hfilled : p.Filled) :
    Agree (fun plain joined => ∀ inactive, Scope.marked joined inactive = Scope.marked plain inactive)
      (s.searchTerms p filters) (s.searchOperator .and p filters) := by
  rw [Scope.searchTerms_eq_demand]
  simp only [Scope.searchOperator]
  cases hentries : (p.without filters).entries.isEmpty with
  | true =>
    have hnone : (p.without filters).pairs = [] := by
      rw [Params.pairs, List.isEmpty_iff.mp hentries]
      rfl
    rw [hnone, if_pos rfl]
    exact .ok fun _ => rfl
  | false =>
    have hsome : (p.without filters).pairs.isEmpty = false := by
      rw [← Bool.not_eq_true, List.isEmpty_iff]
      exact (hfilled.without filters).pairs_ne_nil hentries
    have houter : Operator.outerExpression .and (p.without filters)
        = .ok (.node .and ((p.without filters).pairs.map fun pair => .term pair.1 pair.2)) := by
      rw [Operator.outerExpression, Expression.children_nodeOf_plain hplain]
      rfl
    rw [hsome, if_neg Bool.false_ne_true, if_neg Bool.false_ne_true, predicate_eq_demand s rfl, houter,
      ok_bind]
    cases s.demand (.node .and ((p.without filters).pairs.map fun pair => .term pair.1 pair.2)) with
    | error error => exact .error _ _
    | ok narrowed =>
      -- the operator restricts to active records at once, the plain search in the end
      refine .ok fun inactive => ?_
      rw [marked_eq, marked_eq]
      rfl

/-! ## Whole searches -/

/-- What a root has to make of some parameters for `AND` to change nothing: no field of the root and no key
of theirs stands for the operator, no key for an operation, and no value is a list. -/
structure Transformer.SearchesPlainly (t : Transformer) (p : Params) : Prop where
  unnamed : t.renames.get? Operator.param = none
  notBoolean : Operator.param ∉ t.booleans
  noOperator : ∀ key ∈ p.keys, t.renames.targetOf key ≠ Operator.param
  noOperation : ∀ q, t.process p = .ok q → ∀ key ∈ q.keys, Operation.ofKey? key = none
  noList : ∀ pair ∈ p.pairs, pair.2.isList = false

section Searches

variable {r : Registry} {root : String} {p : Params} {t : Transformer} {n : Narrowed}

/-- What is left to search of plain parameters is plain. -/
theorem Narrowed.plain_remaining (ht : Transformer.ofRoot r root = .ok t) (hkeys : p.keys.Nodup)
    (hplain : t.SearchesPlainly p) (h : Narrowed.ofParams r .standard root p = .ok n) :
    (n.params.without SearchConfig.standard.searchFilters).Plain := by
  constructor
  · intro key hkey
    obtain ⟨t', q, _, _, ht', hq, _⟩ := ofParams_eq_ok h
    cases ht'.symm.trans ht
    rw [Params.keys_without] at hkey
    exact hplain.noOperation q hq key (keys_params_subset ht hq h (List.mem_filter.mp hkey).1)
  · intro pair hpair
    have hpairs := Narrowed.pairs_remaining ht hkeys (by decide) (by decide) h
    obtain ⟨sent, hsent, rfl⟩ := List.mem_map.mp (List.mem_filter.mp (hpairs.mem_iff.mp hpair)).1
    have hvalue := hplain.noList sent hsent
    unfold Transformer.searched
    split
    · exact Json.isList_asToken hvalue
    · exact hvalue

/-- Without a key that stands for the operator, a search is a plain one. -/
theorem Narrowed.operator_params (ht : Transformer.ofRoot r root = .ok t) (hkeys : p.keys.Nodup)
    (hplain : t.SearchesPlainly p) (h : Narrowed.ofParams r .standard root p = .ok n) :
    Operator.ofParams? n.params = none := by
  obtain ⟨t', q, _, _, ht', hq, _⟩ := ofParams_eq_ok h
  cases ht'.symm.trans ht
  have hnone : n.params.getAll Operator.param = [] := by
    refine Decidable.byContradiction fun hsome => ?_
    have hkey := keys_params_subset ht hq h (Params.mem_keys_of_getAll hsome)
    obtain ⟨pair, hpair, htarget⟩ := Transformer.mem_keys_process hkeys hq hkey
    exact hplain.noOperator pair.1 (Params.mem_keys_of_mem_pairs hpair) htarget
  rw [Operator.ofParams?, Params.get?, hnone]
  rfl

/-- A narrowed search of plain parameters is finished as one with `AND`. -/
theorem Narrowed.agree_finish_and (ht : Transformer.ofRoot r root = .ok t) (hkeys : p.keys.Nodup)
    (hplain : t.SearchesPlainly p) (h : Narrowed.ofParams r .standard root p = .ok n) :
    Agree Eq (n.finish r .standard root) (n.finishWith r .standard root .and) := by
  have hsearch : Prepared.searchFields .standard n.scope n.params
      = n.scope.searchTerms n.params SearchConfig.standard.searchFilters := by
    rw [Prepared.searchFields, Narrowed.operator_params ht hkeys hplain h]
  unfold finish finishWith
  rw [hsearch]
  apply (n.scope.agree_searchTerms_and (plain_remaining ht hkeys hplain h) (filled_params hkeys h)).bind
  intro searched searched' hmarked
  apply (Agree.self _).bind
  rintro order _ rfl
  apply (Agree.self _).bind
  rintro page _ rfl
  exact .ok (by rw [hmarked])

/-- Where the value of a searched key is an object, nothing is found to search for. -/
theorem Narrowed.finish_ne_ok_of_object (ht : Transformer.ofRoot r root = .ok t) (hkeys : p.keys.Nodup)
    (hplain : t.SearchesPlainly p) {pair : String × Json} (hpair : pair ∈ p.pairs)
    {members : List (String × Json)} (hobject : pair.2 = .object members)
    (hfield : SearchConfig.standard.namesField (t.renames.targetOf pair.1) = true)
    (h : Narrowed.ofParams r .standard root p = .ok n) (s : Prepared) :
    n.finish r .standard root ≠ .ok s := by
  intro hs
  obtain ⟨searched, hsearched, _⟩ := finish_eq_ok hs
  rw [Prepared.searchFields, Narrowed.operator_params ht hkeys hplain h] at hsearched
  obtain ⟨predicates, hpredicates, _⟩ := bind_eq_ok hsearched
  have hmem : (t.renames.targetOf pair.1, Json.object members)
      ∈ (n.params.without SearchConfig.standard.searchFilters).pairs := by
    refine (Narrowed.pairs_remaining ht hkeys (by decide) (by decide) h).mem_iff.mpr ?_
    refine List.mem_filter.mpr ⟨List.mem_map.mpr ⟨pair, hpair, ?_⟩, hfield⟩
    -- an object has no text, so it is no token either
    rw [Transformer.searched, hobject]
    exact congrArg _ (ite_self _)
  obtain ⟨predicate, hpredicate⟩ := exists_of_mapM hmem hpredicates
  cases hpredicate

end Searches

/-- A search is prepared exactly as it is with `operator=AND`, at whatever place among its parameters; both
are refused if the value of a key that is searched is an object. -/
theorem Prepared.ofParams_and {r : Registry} {root : String} {p : Params} (hkeys : p.keys.Nodup)
    (hplain : ∀ t, Transformer.ofRoot r root = .ok t → t.SearchesPlainly p) (place : Nat) :
    (∀ s, Prepared.ofParams r .standard root p = .ok s
        ↔ Prepared.ofParams r .standard root (p.insertAt place Operator.param [.text "AND"]) = .ok s)
      ∧ ∀ t, Transformer.ofRoot r root = .ok t → ∀ pair ∈ p.pairs, ∀ members, pair.2 = .object members →
          SearchConfig.standard.namesField (t.renames.targetOf pair.1) = true →
          ∀ s, Prepared.ofParams r .standard root p ≠ .ok s
            ∧ Prepared.ofParams r .standard root (p.insertAt place Operator.param [.text "AND"]) ≠ .ok s := by
  have hsame : ∀ s, Prepared.ofParams r .standard root p = .ok s
      ↔ Prepared.ofParams r .standard root (p.insertAt place Operator.param [.text "AND"]) = .ok s := by
    intro s
    cases ht : Transformer.ofRoot r root with
    | error error =>
      -- a root that does not exist has no search at all
      have hnone : ∀ q, Prepared.ofParams r .standard root q = .error error := by
        intro q
        rw [Prepared.ofParams, ht]
        rfl
      rw [hnone, hnone]
    | ok t =>
      have ⟨hunnamed, hboolean, hoperator, _, _⟩ := hplain t ht
      have hread : Operator.read "AND" = .ok .and := rfl
      rw [Prepared.ofParams_insertAt ht hboolean hkeys hunnamed hoperator hread place, Prepared.ofParams_eq]
      cases hn : Narrowed.ofParams r .standard root p with
      | error error => rfl
      | ok n =>
        rw [ok_bind, ok_bind]
        rcases (Narrowed.agree_finish_and ht hkeys (hplain t ht) hn).cases_ok_error with
          ⟨a, _, ha, hb, rfl⟩ | ⟨error, error', herror, herror'⟩
        · rw [ha, hb]
        · rw [herror, herror']
          exact iff_of_false (fun h => by cases h) (fun h => by cases h)
  refine ⟨hsame, fun t ht pair hpair members hobject hfield s => ?_⟩
  have hnone : Prepared.ofParams r .standard root p ≠ .ok s := by
    rw [Prepared.ofParams_eq]
    intro h
    obtain ⟨n, hn, hs⟩ := bind_eq_ok h
    exact Narrowed.finish_ne_ok_of_object ht hkeys (hplain t ht) hpair hobject hfield hn s hs
  exact ⟨hnone, fun h => hnone ((hsame s).mpr h)⟩

/-- The parameters of a search by two texts of the title, by topic and by activity. -/
def setupTitles : Params :=
  ⟨[("title", [.text "^How", .text "setup"]), ("topic", [.null]), ("is_active", [.text "yes"])]⟩

/-- They are searched with `AND` as without; and with an object for the context, a search is refused. -/
theorem ofParams_and_sample :
    (∃ s, Prepared.ofParams Service.registry .standard "questions" setupTitles = .ok s
        ∧ Prepared.ofParams Service.registry .standard "questions"
          (setupTitles.insertAt 1 "operator" [.text "AND"]) = .ok s)
      ∧ ∀ s, Prepared.ofParams Service.registry .standard "questions"
        (Params.insertAt ⟨[("context", [.object []])]⟩ 0 "operator" [.text "AND"]) ≠ .ok s := by
  have ht : Transformer.ofRoot Service.registry "questions" = .ok ⟨_, _⟩ := rfl
  have hplain : ∀ t, Transformer.ofRoot Service.registry "questions" = .ok t →
      t.SearchesPlainly setupTitles ∧ t.SearchesPlainly ⟨[("context", [.object []])]⟩ := by
    intro t ht'
    cases ht.symm.trans ht'
    constructor
    all_goals
      refine ⟨by decide, by decide, by decide, fun q hq => ?_, by decide⟩
      cases hq
      decide
  constructor
  · have hjoined := (Prepared.ofParams_and (p := setupTitles) (by decide) (fun t ht => (hplain t ht).1) 1).1
    exact ⟨_, rfl, (hjoined _).mp rfl⟩
  · intro s
    exact ((Prepared.ofParams_and (by decide) (fun t ht => (hplain t ht).2) 0).2 _ ht ("context", .object [])
      List.mem_cons_self [] rfl (by decide) s).2

/-! ## Where `AND` changes something -/

/-- What is asked of `AND` where the parameters fulfil a condition: that it changes nothing. -/
def AndChangesNothing (side : Transformer → Params → Prop) : Prop :=
  ∀ (r : Registry) (root : String) (p q : Params) (t : Transformer) (place : Nat) (s : Prepared),
    p.keys.Nodup → Transformer.ofRoot r root = .ok t → t.renames.get? Operator.param = none →
    Operator.param ∉ p.keys → t.process p = .ok q → (∀ key ∈ q.keys, Operation.ofKey? key = none) →
    (∀ pair ∈ p.pairs, pair.2.isList = false) → side t p →
    (Prepared.ofParams r .standard root p = .ok s
      ↔ Prepared.ofParams r .standard root (p.insertAt place Operator.param [.text "AND"]) = .ok s)

/-- The operator may be a boolean field of the root, for which `AND` is no token; another key may be an
alias of it; and an object is not read where it is no search term. -/
theorem not_andChangesNothing :
    ¬ AndChangesNothing (fun t p => ∀ key ∈ p.keys, t.renames.targetOf key ≠ Operator.param)
    ∧ ¬ AndChangesNothing (fun t _ => Operator.param ∉ t.booleans)
    ∧ ¬ ∀ (p : Params) (s : Prepared), (∃ pair ∈ p.pairs, ∃ members, pair.2 = .object members) →
        Prepared.ofParams Service.registry .standard "questions" p ≠ .ok s := by
  refine ⟨fun h => ?_, fun h => ?_, fun h => ?_⟩
  · have hjoined := (h (.ofEntities [⟨"calls", [⟨"title", .text⟩, ⟨"operator", .boolean⟩,
        ⟨"created_at", .dateTime⟩], [], .empty⟩]) "calls" ⟨[("title", [.text "x"])]⟩ _ _ 1 _ (by decide) rfl
      (by decide) (by decide) rfl (by decide) (by decide) (by decide)).mp rfl
    cases hjoined
  · have hjoined := (h (.ofEntities [⟨"calls", [⟨"title", .text⟩, ⟨"body", .text⟩, ⟨"operator", .text⟩,
        ⟨"created_at", .dateTime⟩], [], .ofPairs [("by", "operator")]⟩]) "calls"
      ⟨[("by", [.text "OR"]), ("title", [.text "x"]), ("body", [.text "y"])]⟩ _ _ 3 _ (by decide) rfl
      (by decide) (by decide) rfl (by decide) (by decide) (by decide)).mp rfl
    cases hjoined
  · exact h ⟨[("format", [.object []])]⟩ _ ⟨("format", .object []), List.mem_cons_self, [], rfl⟩ rfl

end SchemaSearch
