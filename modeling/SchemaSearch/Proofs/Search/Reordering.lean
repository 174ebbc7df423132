import SchemaSearch.Proofs.Search.Childless
import SchemaSearch.Proofs.Search.Conservation
import SchemaSearch.Proofs.Search.Meanings
import SchemaSearch.Proofs.Search.Steering
import SchemaSearch.Service.Sample

/-!
# The order of parameters

Parameters that come in another order are the same search, unless `IN` takes the first key for its field:
trees are read in the order of the keys, but their meaning is one of bags, and a search fails or not
whatever comes first.  What is decided by the last value has to keep its order.

Main statement: a search of reordered parameters is prepared or refused as that of the others, and selects
the same rows in the same order and on the same page (`prepared_reordered`).
-/

namespace SchemaSearch

open Query Schema Store

/-! ## Trees -/

namespace Expression

variable (r : Registry) (root : String)

/-- Children that mean the same, up to their order. -/
def SameMeanings (es es' : List Expression) : Prop := SameBag (meaning r root) es es'

variable {r root}

/-- Operations over children that mean the same mean the same. -/
theorem meaning_node_congr (operation : Operation) {es es' : List Expression}
    (h : SameMeanings r root es es') :
    (node operation es).meaning r root = (node operation es').meaning r root := by
  rw [meaning_node, meaning_node]
  exact operation.meaning_perm h

/-- The values of one key may come in another order. -/
theorem agree_childrenOfMember (key : String) {values values' : List Json} (h : values.Perm values') :
    Agree (SameMeanings r root) (childrenOfMember (key, .list values))
      (childrenOfMember (key, .list values')) := by
  simp only [childrenOfMember]
  cases Operation.ofKey? key with
  | some operation =>
    simp only [children, childrenOfItems_eq_gather]
    apply (gather_perm children h).bind
    intro inner inner' hinner
    apply Agree.ok
    have hsame : (node operation inner).meaning r root = (node operation inner').meaning r root :=
      meaning_node_congr operation (.of_perm hinner)
    unfold SameMeanings SameBag
    rw [List.map_singleton, List.map_singleton, hsame]
  | none =>
    apply Agree.ok
    apply SameBag.of_perm
    rw [terms_eq_map, terms_eq_map]
    show ((Json.scalarsOfItems values).map _).Perm ((Json.scalarsOfItems values').map _)
    rw [Json.scalarsOfItems_eq_flatMap, Json.scalarsOfItems_eq_flatMap]
    exact (h.flatMap_right _).map _

end Expression

namespace Operator

/-- Parameters as a node, key by key. -/
theorem children_nodeOf {p : Params} (hkeys : p.keys.Nodup) :
    Expression.children (nodeOf p)
      = gather (fun key => Expression.childrenOfMember (key, .list (p.getAll key))) p.keys := by
  rw [nodeOf, Expression.children, Expression.childrenOfMembers_eq_gather, gather_map,
    Params.entries_eq_map_keys hkeys, gather_map]

variable {r : Registry} {root : String} {p q : Params}

/-- Reordered parameters are read as a node of the same children. -/
theorem agree_children_nodeOf (h : p.Shuffles q) :
    Agree (Expression.SameMeanings r root) (Expression.children (nodeOf p))
      (Expression.children (nodeOf q)) := by
  rw [children_nodeOf h.nodup, children_nodeOf h.nodup']
  -- first the keys change places, each with its own values; then the values of each key do
  have hkeys := gather_perm (fun key => Expression.childrenOfMember (key, .list (p.getAll key))) h.keys
  have hvalues : Agree (Expression.SameMeanings r root)
      (gather (fun key => Expression.childrenOfMember (key, .list (p.getAll key))) q.keys)
      (gather (fun key => Expression.childrenOfMember (key, .list (q.getAll key))) q.keys) := by
    apply gather_congr (.refl _) SameBag.append
    intro key _
    exact Expression.agree_childrenOfMember key (h.values key)
  apply (hkeys.trans hvalues).mono
  rintro es es' ⟨between, hperm, hsame⟩
  exact SameBag.trans (.of_perm hperm) hsame

theorem agree_outerExpression (operation : Operation) (h : p.Shuffles q) :
    Agree (fun e e' => e.meaning r root = e'.meaning r root) (outerExpression operation p)
      (outerExpression operation q) := by
  apply (agree_children_nodeOf h).bind
  intro es es' hes
  exact .ok (Expression.meaning_node_congr operation hes)

theorem agree_advancedExpression (h : p.Shuffles q) :
    Agree (fun e e' => e.meaning r root = e'.meaning r root) (advancedExpression p)
      (advancedExpression q) := by
  have hkeys := h.keys.filter (Operation.ofKey? · |>.isSome)
  unfold advancedExpression
  generalize p.keys.filter (Operation.ofKey? · |>.isSome) = keys at hkeys
  generalize q.keys.filter (Operation.ofKey? · |>.isSome) = keys' at hkeys
  -- one key has to name the operation; with none or several both sides fail
  rcases keys with _ | ⟨key, _ | ⟨second, rest⟩⟩
  · rw [← hkeys.nil_eq]
    exact .error _ _
  · rw [← List.singleton_perm.mp hkeys]
    apply (mapM_perm decodeElement (h.values key)).bind
    intro elements elements' helements
    simp only [Expression.children, Expression.childrenOfItems_eq_gather]
    apply (gather_perm Expression.children helements).bind
    intro es es' hes
    cases Operation.ofKey? key with
    | none => exact .error _ _
    | some operation => exact .ok (Expression.meaning_node_congr operation (.of_perm hes))
  · rcases keys' with _ | ⟨key', _ | ⟨second', rest'⟩⟩
    · exact absurd hkeys.length_eq (by simp)
    · exact absurd hkeys.length_eq (by simp)
    · exact .error _ _

theorem agree_tree {operator : Operator} {tree : Params → Except SearchError Expression}
    (htree : operator.tree? = some tree) (h : p.Shuffles q) :
    Agree (fun e e' => e.meaning r root = e'.meaning r root) (tree p) (tree q) := by
  cases operator with
  | and =>
    cases htree
    exact agree_outerExpression .and h
  | or =>
    cases htree
    exact agree_outerExpression .or h
  | not =>
    cases htree
    exact agree_outerExpression .not h
  | advanced =>
    cases htree
    exact agree_advancedExpression h
  | oneOf => cases htree

end Operator

/-! ## Scopes -/

namespace Scope

variable {s : Scope} {p q : Params}

theorem agree_searchOperator (hs : s.Faithful) {operator : Operator} (hin : operator ≠ .oneOf)
    (h : p.Shuffles q) (filters : List String) :
    Agree Alike (s.searchOperator operator p filters) (s.searchOperator operator q filters) := by
  obtain ⟨tree, htree⟩ : ∃ tree, operator.tree? = some tree := by
    cases operator with
    | oneOf => exact absurd rfl hin
    | and => exact ⟨_, rfl⟩
    | or => exact ⟨_, rfl⟩
    | not => exact ⟨_, rfl⟩
    | advanced => exact ⟨_, rfl⟩
  have hremaining := h.without filters
  have hempty : (p.without filters).entries.isEmpty = (q.without filters).entries.isEmpty := by
    have hkeys := hremaining.keys.isEmpty_eq
    rw [Params.keys, Params.keys, Table.keys, Table.keys, List.isEmpty_map, List.isEmpty_map] at hkeys
    exact hkeys
  have hnarrowed : Agree Alike (operator.predicate (p.without filters) >>= s.filter?)
      (operator.predicate (q.without filters) >>= s.filter?) := by
    rw [predicate_eq_demand s htree, predicate_eq_demand s htree]
    apply (Operator.agree_tree htree hremaining).bind
    intro e e' hmeaning
    exact agree_demand hs hmeaning
  simp only [searchOperator, hempty]
  cases (q.without filters).entries.isEmpty with
  | true => exact .ok (.refl hs)
  | false =>
    simp only [Bool.false_eq_true, if_false]
    rcases hnarrowed.cases_ok_error with ⟨a, b, ha, hb, halike⟩ | ⟨error, error', herror, herror'⟩
    · rw [ha, hb]
      exact .ok (halike.marked false)
    · rw [herror, herror']
      exact .error _ _

/-- A plain search demands its terms by one `AND`, if it has any. -/
theorem searchTerms_eq_demand (s : Scope) (p : Params) (excluded : List String) :
    s.searchTerms p excluded = if (p.without excluded).pairs.isEmpty then .ok s
      else s.demand (.node .and ((p.without excluded).pairs.map fun pair => .term pair.1 pair.2)) := by
  have hpredicates : ∀ pairs : List (String × Json),
      Expression.toPredicates (pairs.map fun pair => .term pair.1 pair.2)
        = pairs.mapM fun pair => Predicate.ofTerm pair.1 pair.2 := by
    intro pairs
    rw [Expression.toPredicates_eq_mapM, List.mapM_map]
    rfl
  show ((p.without excluded).pairs.mapM fun pair => Predicate.ofTerm pair.1 pair.2) >>= _ = _
  cases (p.without excluded).pairs with
  | nil => rfl
  | cons pair pairs =>
    have hchildren := hpredicates (pair :: pairs)
    rw [List.map_cons] at hchildren
    rw [List.isEmpty_cons, if_neg Bool.false_ne_true, demand, List.map_cons,
      Expression.toPredicate.eq_3 _ _ (List.cons_ne_nil _ _), hchildren]
    cases hps : (pair :: pairs).mapM fun pair => Predicate.ofTerm pair.1 pair.2 with
    | error error => rfl
    | ok ps =>
      -- there is a term, so there is a predicate
      obtain ⟨first, rest, _, _, rfl⟩ := mapM_cons_eq_ok hps
      rfl

theorem agree_searchTerms (hs : s.Faithful) (h : p.Shuffles q) (excluded : List String) :
    Agree Alike (s.searchTerms p excluded) (s.searchTerms q excluded) := by
  have hpairs : (p.without excluded).pairs.Perm (q.without excluded).pairs :=
    (h.without excluded).pairs_perm
  rw [searchTerms_eq_demand, searchTerms_eq_demand, hpairs.isEmpty_eq]
  split
  · exact .ok (.refl hs)
  · apply agree_demand hs
    apply Expression.meaning_node_congr
    apply SameBag.of_perm
    exact hpairs.map _

end Scope

/-! ## Whole searches -/

/-- Two prepared searches that select the same rows, in the same order and on the same page. -/
structure Prepared.Alike (s s' : Prepared) : Prop where
  scope : s.scope.Alike s'.scope
  order : s'.order = s.order
  page : s'.page = s.page

/-- A narrowed search is finished alike by reordered parameters. -/
theorem Narrowed.agree_finish {n n' : Narrowed} {r : Registry} {root : String}
    (hscope : n.scope = n'.scope) (hinactive : n.inactive = n'.inactive) (hfaithful : n.scope.Faithful)
    (h : n.params.Reorders n'.params)
    (hin : (Operator.ofParams? n.params).bind Except.toOption ≠ some .oneOf) :
    Agree Prepared.Alike (n.finish r .standard root) (n'.finish r .standard root) := by
  have hoperator : Operator.ofParams? n.params = Operator.ofParams? n'.params := by
    rw [Operator.ofParams?, Operator.ofParams?, h.last Operator.param (by decide)]
  have hfields : Agree Scope.Alike (Prepared.searchFields .standard n.scope n.params)
      (Prepared.searchFields .standard n'.scope n'.params) := by
    unfold Prepared.searchFields
    rw [← hoperator, ← hscope]
    cases hrequested : Operator.ofParams? n.params with
    | none => exact Scope.agree_searchTerms hfaithful h.toShuffles _
    | some requested =>
      cases requested with
      | error error => exact .error _ _
      | ok operator =>
        apply Scope.agree_searchOperator hfaithful _ h.toShuffles
        rintro rfl
        rw [hrequested] at hin
        exact hin rfl
  have horder : Prepared.orderText .standard n.params = Prepared.orderText .standard n'.params :=
    Prepared.orderText_congr _ (h.getText?_eq (by decide))
  have hpage : Page.ofParams n.params SearchConfig.standard.defaultPageSize
      = Page.ofParams n'.params SearchConfig.standard.defaultPageSize :=
    Page.ofParams_congr _ (h.getText?_eq (by decide)) (h.getText?_eq (by decide))
  unfold finish
  rw [← horder, ← hpage, ← hinactive]
  apply hfields.bind
  intro searched searched' halike
  apply (Agree.self _).bind
  rintro order _ rfl
  apply (Agree.self _).bind
  rintro page _ rfl
  exact .ok ⟨halike.marked n.inactive, rfl, rfl⟩

/-- A search of reordered parameters is prepared, or refused, as that of the others: with the same mark for
inactive records, the same order and the same page, and it selects the same rows.  Once aliases are
replaced, the parameters have to decide alike what is decided by the last value; `IN` is left aside. -/
theorem prepared_reordered {r : Registry} {root : String} {p q : Params} (hkeys : p.keys.Nodup)
    (hperm : p.entries.Perm q.entries)
    (hsteers : ∀ t p' q', Transformer.ofRoot r root = .ok t → t.process p = .ok p' →
      t.process q = .ok q' → p'.SteersLike q')
    (hin : ∀ t, Transformer.ofRoot r root = .ok t → t.operator? p ≠ some .oneOf) :
    (∃ s s', Prepared.ofParams r .standard root p = .ok s ∧ Prepared.ofParams r .standard root q = .ok s'
        ∧ s'.scope.activeOnly = s.scope.activeOnly ∧ s'.order = s.order ∧ s'.page = s.page
        ∧ ∀ db row, selects db root s'.scope.condition row = selects db root s.scope.condition row)
      ∨ ∃ error error', Prepared.ofParams r .standard root p = .error error
        ∧ Prepared.ofParams r .standard root q = .error error' := by
  rw [Prepared.ofParams_eq, Prepared.ofParams_eq]
  rcases (Narrowed.agree_ofParams hkeys hperm hsteers).cases_ok_error with
    ⟨n, n', hn, hn', hscope, hinactive, hreorders⟩ | ⟨error, error', herror, herror'⟩
  · rw [hn, hn', ok_bind, ok_bind]
    obtain ⟨t, _, _, _, ht, _⟩ := Narrowed.ofParams_eq_ok hn
    obtain ⟨e, hroot, _, hentity, hfaithful⟩ := Narrowed.scope_of_ofParams hn
    have hoperator := Narrowed.operator?_params ht (by decide) hn
    have hfinish : Agree Prepared.Alike (n.finish r .standard root) (n'.finish r .standard root) := by
      apply Narrowed.agree_finish hscope hinactive hfaithful hreorders
      rw [hoperator]
      exact hin t ht
    rcases hfinish.cases_ok_error with ⟨s, s', hs, hs', halike⟩ | ⟨error, error', herror, herror'⟩
    · refine .inl ⟨s, s', hs, hs', halike.scope.activeOnly, halike.order, halike.page, ?_⟩
      intro db row
      obtain ⟨searched, hsearched, hmarked⟩ := Narrowed.finish_eq_ok hs
      have hname : s.scope.root.name = root := by
        rw [hmarked, Scope.marked_eq, (Scope.Extends.searchFields hsearched).root, hentity]
        exact Registry.name_of_get? hroot
      have hselects := halike.scope.selects_eq db row
      rwa [halike.scope.root, hname] at hselects
    · exact .inr ⟨error, error', herror, herror'⟩
  · rw [herror, herror']
    exact .inr ⟨error, error', rfl, rfl⟩

/-- The parameters of a search for setup questions of one year, in some order. -/
def setupQuestions : List (String × List Json) :=
  [("operator", [.text "AND"]), ("topic", [.text "$setup"]), ("created_at_date_start", [.text "2024-01-01"]),
    ("_OR", [.object [("title", .text "^How")], .object [("context", .list [.text "a", .text "NULL"])]]),
    ("created_at_date_end", [.text "2024-12-31"]), ("page", [.text "2"]), ("is_active", [.text "yes"])]

/-- Backwards they are the same search. -/
theorem prepared_reordered_sample :
    ∃ s s', Prepared.ofParams Service.registry .standard "questions" ⟨setupQuestions⟩ = .ok s
      ∧ Prepared.ofParams Service.registry .standard "questions" ⟨setupQuestions.reverse⟩ = .ok s'
      ∧ s'.page = s.page
      ∧ ∀ row ∈ Service.sampleQuestions, selects Service.sampleDatabase "questions" s'.scope.condition row
          = selects Service.sampleDatabase "questions" s.scope.condition row := by
  have ht : Transformer.ofRoot Service.registry "questions" = .ok ⟨_, _⟩ := rfl
  have hkeys : (Params.keys ⟨setupQuestions⟩).Nodup := by decide
  have hperm : setupQuestions.Perm setupQuestions.reverse := (List.reverse_perm _).symm
  have hprepared := @prepared_reordered Service.registry "questions" ⟨setupQuestions⟩
    ⟨setupQuestions.reverse⟩ hkeys hperm ?_ ?_
  · rcases hprepared with ⟨s, s', hs, hs', _, _, hpage, hselects⟩ | ⟨error, _, herror, _⟩
    · exact ⟨s, s', hs, hs', hpage, fun row _ => hselects Service.sampleDatabase row⟩
    · cases herror
  · intro t p' q' ht' hp hq
    cases ht.symm.trans ht'
    exact Transformer.steersLike_of_keepsOrder hkeys hperm (by decide) hp hq
  · intro t ht'
    cases ht.symm.trans ht'
    decide

/-! ## What the order decides -/

/-- What is asked of parameters that come in another order, where they fulfil a condition: that the search
is prepared too, and selects the same rows. -/
def OrderIrrelevant (side : Transformer → Params → Prop) : Prop :=
  ∀ (r : Registry) (root : String) (p q : Params) (t : Transformer) (s : Prepared), p.keys.Nodup →
    p.entries.Perm q.entries → Transformer.ofRoot r root = .ok t → t.operator? p ≠ some .oneOf → side t p →
    Prepared.ofParams r .standard root p = .ok s →
    ∃ s', Prepared.ofParams r .standard root q = .ok s' ∧ ∀ db : Database, ∀ row ∈ db.rows root,
      selects db root s'.scope.condition row = selects db root s.scope.condition row

/-- Two keys may set one bound, without any alias; and an alias may stand for a key that steers.  The later
one counts. -/
theorem not_orderIrrelevant :
    ¬ OrderIrrelevant (fun t _ => t.renames.entries = [])
    ∧ ¬ OrderIrrelevant fun t p => ∀ key ∈ p.keys, DateBounds.isBoundKey (t.renames.targetOf key) = false := by
  constructor
  · intro h
    obtain ⟨s', hs', hselects⟩ := h (.ofEntities [⟨"notes", [⟨"created_at", .dateTime⟩], [], .empty⟩]) "notes"
      ⟨[("created_at_date_start", [.text "2024-01-01"]), ("created_at_date_start2", [.text "2025-01-01"])]⟩
      ⟨[("created_at_date_start2", [.text "2025-01-01"]), ("created_at_date_start", [.text "2024-01-01"])]⟩
      _ _ (by decide) (.swap _ _ _) rfl (by decide) rfl rfl
    cases hs'
    have hrow := hselects ⟨[("notes", [⟨[("created_at", .text "2024-06-01 00:00:00.000000")]⟩])]⟩ _
      List.mem_cons_self
    revert hrow
    decide
  · intro h
    obtain ⟨s', hs', hselects⟩ := h (.ofEntities [⟨"calls", [⟨"title", .text⟩, ⟨"body", .text⟩,
        ⟨"operator", .text⟩, ⟨"created_at", .dateTime⟩], [], .ofPairs [("by", "operator")]⟩]) "calls"
      ⟨[("operator", [.text "AND"]), ("by", [.text "OR"]), ("title", [.text "x"]), ("body", [.text "y"])]⟩
      ⟨[("by", [.text "OR"]), ("operator", [.text "AND"]), ("title", [.text "x"]), ("body", [.text "y"])]⟩
      _ _ (by decide) (.swap _ _ _) rfl (by decide) (by decide) rfl
    cases hs'
    have hrow := hselects ⟨[("calls", [⟨[("title", .text "x"), ("body", .text "z")]⟩])]⟩ _
      List.mem_cons_self
    revert hrow
    decide

end SchemaSearch
