import SchemaSearch.Proofs.Search.Overwrites

/-!
# Members in one text or in a list

A search by `IN` asks whether its first key is one of its values.  A single value with commas stands for the
list of its pieces, so members may be sent as one text or one by one.  The text is split when the predicate
is made, and not before: a stage in front of it that looks at the values sees the whole text.

Main statement: where no such stage looks at the key, members that are sent in one text are the same search as
members that are sent one by one (`Prepared.ofParams_members`).
-/

namespace SchemaSearch

open Schema

/-! ## Members -/

/-- Texts that may be members of a written list: there are two or more, no comma is in them and no blank at
their ends. -/
structure AreMembers (texts : List String) : Prop where
  several : 2 ≤ texts.length
  noComma : ∀ text ∈ texts, ',' ∉ text.toList
  trimmed : ∀ text ∈ texts, Text.trim text.toList = text.toList

theorem AreMembers.values_ne_nil {texts : List String} {values : List Json} (h : AreMembers texts)
    (hvalues : values.map Json.scalarText = texts.map some) : values ≠ [] := by
  rintro rfl
  have hnil : texts = [] := List.map_eq_nil_iff.mp hvalues.symm
  have hseveral := h.several
  rw [hnil] at hseveral
  exact absurd hseveral (by decide)

/-- The members in one text. -/
def joinedMembers (texts : List String) : Json := .text (",".intercalate texts)

namespace Operator

variable {texts : List String}

theorem splitMembers_of_several (h : 2 ≤ texts.length) : splitMembers texts = texts := by
  unfold splitMembers
  split
  · simp at h
  · rfl

/-- Of two members or more the text has a comma. -/
theorem contains_joined (h : 2 ≤ texts.length) : Text.contains (",".intercalate texts) "," = true := by
  obtain ⟨first, second, rest, rfl⟩ : ∃ first second rest, texts = first :: second :: rest := by
    match texts, h with
    | first :: second :: rest, _ => exact ⟨first, second, rest, rfl⟩
  rw [Text.contains_iff_isInfix, String.toList_intercalate, List.map_cons, List.map_cons,
    List.intercalate_cons_cons, List.append_assoc]
  exact List.infix_append' _ _ _

/-- The text is split into the members. -/
theorem splitMembers_joined (h : AreMembers texts) : splitMembers [",".intercalate texts] = texts := by
  have hne : texts.map String.toList ≠ [] := by
    intro hnil
    have hlength := h.several
    rw [List.map_eq_nil_iff.mp hnil] at hlength
    simp at hlength
  have hsplit : Text.splitOn ',' (",".intercalate texts).toList = texts.map String.toList := by
    rw [Text.splitOn_eq, String.toList_intercalate]
    refine List.splitOn_intercalate ',' ?_ hne
    intro piece hpiece
    obtain ⟨text, htext, rfl⟩ := List.mem_map.mp hpiece
    exact h.noComma text htext
  rw [splitMembers, if_pos (contains_joined h.several), hsplit, List.map_map]
  refine (List.map_congr_left fun text htext => ?_).trans (List.map_id texts)
  rw [Function.comp, h.trimmed text htext, String.ofList_toList, id]

theorem mapM_memberText (field : String) : ∀ {values : List Json} {texts : List String},
    values.map Json.scalarText = texts.map some → values.mapM (memberText field) = .ok texts
  | [], [], _ => rfl
  | [], _ :: _, h => by cases h
  | _ :: _, [], h => by cases h
  | value :: values, text :: texts, h => by
    obtain ⟨hvalue, hrest⟩ := List.cons.inj h
    have hfirst : memberText field value = .ok text := by rw [memberText, hvalue]
    rw [List.mapM_cons, hfirst, ok_bind, mapM_memberText field hrest]
    rfl

variable {values : List Json}

/-- Either way the predicate is the same, whether it is that of the key or of one in front of it. -/
theorem membershipPredicate_setAll (htexts : AreMembers texts)
    (hvalues : values.map Json.scalarText = texts.map some) (path : String) (p : Params) :
    membershipPredicate (p.setAll path [joinedMembers texts]) = membershipPredicate (p.setAll path values) := by
  have hread : ∀ rest : List (String × List Json),
      membershipPredicate ⟨(path, [joinedMembers texts]) :: rest⟩ = membershipPredicate ⟨(path, values) :: rest⟩ := by
    intro rest
    have hjoined : [joinedMembers texts].mapM (memberText path) = .ok [",".intercalate texts] := rfl
    simp only [membershipPredicate, hjoined, mapM_memberText path hvalues, ok_bind, splitMembers_joined htexts,
      splitMembers_of_several htexts.several]
  obtain ⟨entries⟩ := p
  cases entries with
  | nil => exact hread []
  | cons entry rest =>
    obtain ⟨k, own⟩ := entry
    simp only [Params.setAll, Table.insert, Table.upsert]
    by_cases hk : k = path
    · rw [if_pos hk, if_pos hk, hk]
      exact hread rest
    · rw [if_neg hk, if_neg hk]
      rfl

end Operator

/-! ## Searches -/

theorem isEmpty_setAll (p : Params) (key : String) (values : List Json) :
    (p.setAll key values).entries.isEmpty = false := by
  have hkey : key ∈ (p.setAll key values).keys := Params.mem_keys_setAll.mpr (.inr rfl)
  rw [List.isEmpty_eq_false_iff]
  intro hnil
  rw [Params.keys, hnil] at hkey
  cases hkey

theorem Scope.searchOperator_members {texts : List String} {values : List Json} (htexts : AreMembers texts)
    (hvalues : values.map Json.scalarText = texts.map some) (s : Scope) (path : String) (p : Params)
    (filters : List String) :
    s.searchOperator .oneOf (p.setAll path [joinedMembers texts]) filters
      = s.searchOperator .oneOf (p.setAll path values) filters := by
  unfold searchOperator
  by_cases hfilter : path ∈ filters
  · rw [Params.without_setAll_of_mem hfilter, Params.without_setAll_of_mem hfilter]
  · rw [Params.without_setAll hfilter, Params.without_setAll hfilter]
    simp only [isEmpty_setAll, Operator.predicate, Operator.membershipPredicate_setAll htexts hvalues]

theorem getText?_setAll_of_ne {key other : String} (h : other ≠ key) (p : Params) (values : List Json) :
    (p.setAll key values).getText? other = p.getText? other := by
  rw [Params.getText?, Params.getText?, Params.get?, Params.get?, Params.getAll_setAll_of_ne h]

/-- The order, the page and the operator are read from other keys. -/
theorem Narrowed.finish_members {texts : List String} {values : List Json} {n : Narrowed} {path : String}
    {c : SearchConfig} (htexts : AreMembers texts) (hvalues : values.map Json.scalarText = texts.map some)
    (hoperator : Operator.ofParams? n.params = some (.ok .oneOf))
    (hpath : path ∉ [orderParam, Operator.param, Page.param, Page.sizeParam, c.includeInactiveParam])
    (r : Registry) (root : String) :
    { n with params := n.params.setAll path [joinedMembers texts] }.finish r c root
      = { n with params := n.params.setAll path values }.finish r c root := by
  simp only [List.mem_cons, List.not_mem_nil, or_false, not_or] at hpath
  obtain ⟨horder, hparam, hpage, hsize, -⟩ := hpath
  have hasks : ∀ vs, Operator.ofParams? (n.params.setAll path vs) = some (.ok .oneOf) := by
    intro vs
    rw [Operator.ofParams?, Params.get?, Params.getAll_setAll_of_ne (Ne.symm hparam)]
    exact hoperator
  have hread : ∀ vs, Prepared.orderText c (n.params.setAll path vs) = Prepared.orderText c n.params
      ∧ Page.ofParams (n.params.setAll path vs) c.defaultPageSize
        = Page.ofParams n.params c.defaultPageSize := by
    intro vs
    constructor
    · exact Prepared.orderText_congr c (getText?_setAll_of_ne (Ne.symm horder) _ vs)
    · exact Page.ofParams_congr _ (getText?_setAll_of_ne (Ne.symm hpage) _ vs)
        (getText?_setAll_of_ne (Ne.symm hsize) _ vs)
  have hsearch : Prepared.searchFields c n.scope (n.params.setAll path [joinedMembers texts])
      = Prepared.searchFields c n.scope (n.params.setAll path values) := by
    simp only [Prepared.searchFields, hasks, ok_bind]
    exact Scope.searchOperator_members htexts hvalues n.scope path n.params c.searchFilters
  simp only [Narrowed.finish, hsearch, hread]

/-! ## Whole searches -/

/-- The members of a key reach the search by `IN`: the key that asks for the operator is the only one that
stands for it, and the key of the members passes alone.  Boolean fields do not, as a key that passes alone steers
nothing: their values are coerced before a joined text is split, so `true,false` is refused where the list of
both is not. -/
structure Transformer.SearchesMembers (t : Transformer) (p : Params) (key : String) : Prop where
  operator : t.renames.targetOf Operator.param = Operator.param
  onlyOperator : ∀ other ∈ p.keys, t.renames.targetOf other = Operator.param → other = Operator.param
  passesAlone : t.PassesAlone .standard p key

/-- Where booleans have not stopped it, the operator is asked for behind the stages in front of the search. -/
theorem Narrowed.asksMembers {r : Registry} {root key : String} {p : Params} {values : List Json} {n : Narrowed}
    {t : Transformer} (ht : Transformer.ofRoot r root = .ok t) (hkey : t.SearchesMembers p key)
    (hnodup : p.keys.Nodup) (hoperator : p.getAll Operator.param = [.text "IN"])
    (hn : Narrowed.ofParams r .standard root (p.setAll key values) = .ok n) :
    Operator.ofParams? n.params = some (.ok .oneOf) := by
  have hsteers := hkey.passesAlone.steersNothing.notSteering
  simp only [List.mem_cons, List.not_mem_nil, or_false, not_or] at hsteers
  have hne : Operator.param ≠ key := by
    rintro rfl
    exact hsteers.2.1 hkey.operator
  have hvalue : (p.setAll key values).getAll Operator.param = [.text "IN"] := by
    rw [Params.getAll_setAll_of_ne hne, hoperator]
  have hboolean : Operator.param ∉ t.booleans := by
    intro hmem
    obtain ⟨t', transformed, _, _, ht', htransformed, _⟩ := Narrowed.ofParams_eq_ok hn
    cases ht'.symm.trans ht
    obtain ⟨coerced, hcoerced, _⟩ := process_eq_ok htransformed
    exact Params.coerceBooleans_ne_ok hmem hvalue (by decide) coerced hcoerced
  have hself : ∀ k ∈ (p.setAll key values).keys, t.renames.targetOf k = Operator.param ↔ k = Operator.param := by
    intro k hk
    refine ⟨fun hpath => ?_, fun hsame => by rw [hsame, hkey.operator]⟩
    obtain hk | rfl := Params.mem_keys_setAll.mp hk
    · exact hkey.onlyOperator k hk hpath
    · exact absurd hpath hsteers.2.1
  have hcomes := Narrowed.getAll_params (c := .standard) ht hboolean (by decide) (by decide) (by decide)
    (Params.nodup_keys_setAll hnodup key values) hself hn
  rw [Operator.ofParams?, Params.get?, hcomes, hvalue]
  rfl

/-- Members in one text and members one by one are the same search, where nothing in front of the search looks
at their key. -/
theorem Prepared.ofParams_members {r : Registry} {root key : String} {p : Params} {texts : List String}
    {values : List Json} (hnodup : p.keys.Nodup) (hoperator : p.getAll Operator.param = [.text "IN"])
    (hkey : ∀ t, Transformer.ofRoot r root = .ok t → t.SearchesMembers p key) (htexts : AreMembers texts)
    (hvalues : values.map Json.scalarText = texts.map some) :
    Prepared.ofParams r .standard root (p.setAll key [joinedMembers texts])
      = Prepared.ofParams r .standard root (p.setAll key values) := by
  rw [Prepared.ofParams_eq, Prepared.ofParams_eq]
  cases ht : Transformer.ofRoot r root with
  | error error =>
    unfold Narrowed.ofParams
    rw [ht]
    rfl
  | ok t =>
    have hmembers := hkey t ht
    -- the list overwrites the text, and does so behind the stages that do not look at it
    have hsame : p.setAll key values = (p.setAll key [joinedMembers texts]).setAll key values :=
      (Params.setAll_setAll p key _ values).symm
    have hpasses := hmembers.passesAlone.setAll [joinedMembers texts]
    have hsome : (p.setAll key [joinedMembers texts]).getAll key ≠ [] := by
      rw [Params.getAll_setAll_self]
      exact List.cons_ne_nil _ _
    have hvalues' := htexts.values_ne_nil hvalues
    have hnodup' := Params.nodup_keys_setAll hnodup key [joinedMembers texts]
    have hjoined := Narrowed.ofParams_setAll ht hpasses hnodup' hsome (List.cons_ne_nil (joinedMembers texts) [])
    rw [Params.setAll_setAll] at hjoined
    rw [hsame, Narrowed.ofParams_setAll ht hpasses hnodup' hsome hvalues']
    cases hn : Narrowed.ofParams r .standard root (p.setAll key [joinedMembers texts]) with
    | error error => rfl
    | ok n =>
      rw [hn] at hjoined
      have hasks := Narrowed.asksMembers ht hmembers hnodup hoperator hn
      exact (congrArg (fun m : Narrowed => m.finish r .standard root) (Except.ok.inj hjoined)).trans
        (Narrowed.finish_members htexts hvalues hasks hpasses.steersNothing.notSteering r root)

/-- A search by `IN` without its members. -/
def asksForMembers : Params := ⟨[("operator", [.text "IN"])]⟩

/-- Two titles of topics, under their alias, of which the second is a number. -/
theorem Prepared.ofParams_members_sample :
    ∃ s, Prepared.ofParams Service.registry .standard "questions"
        (asksForMembers.setAll "topic" [joinedMembers ["billing", "7"]]) = .ok s
      ∧ Prepared.ofParams Service.registry .standard "questions"
        (asksForMembers.setAll "topic" [.text "billing", .number (.whole 7)]) = .ok s
      ∧ s.scope.predicates = [.field "topics__title" (.oneOf ["billing", "7"])] := by
  have ht : Transformer.ofRoot Service.registry "questions"
      = .ok ⟨Service.registry.mergedRenames Service.questions.entity,
        Service.registry.booleanPaths Service.questions.entity⟩ := rfl
  have hkey : ∀ t, Transformer.ofRoot Service.registry "questions" = .ok t →
      t.SearchesMembers asksForMembers "topic" := by
    intro t ht'
    cases ht'.symm.trans ht
    exact ⟨by decide, by decide, ⟨by decide, by decide⟩, by decide, by decide⟩
  obtain ⟨s, hs, hpredicates⟩ : ∃ s, Prepared.ofParams Service.registry .standard "questions"
        (asksForMembers.setAll "topic" [joinedMembers ["billing", "7"]]) = .ok s
      ∧ s.scope.predicates = [.field "topics__title" (.oneOf ["billing", "7"])] := ⟨_, rfl, rfl⟩
  refine ⟨s, hs, ?_, hpredicates⟩
  rw [← hs]
  exact (Prepared.ofParams_members (by decide) rfl hkey ⟨by decide, by decide, by decide⟩ rfl).symm

/-- A page cannot be asked for by two numbers in one text, but of two numbers in a list the last one counts. -/
theorem not_members_of_page :
    ¬ ∀ (r : Registry) (root key : String) (texts : List String), AreMembers texts →
      ((∃ s, Prepared.ofParams r .standard root (asksForMembers.setAll key [joinedMembers texts]) = .ok s)
        ↔ ∃ s, Prepared.ofParams r .standard root (asksForMembers.setAll key (texts.map .text)) = .ok s) := by
  intro h
  have hlist : ∃ s, Prepared.ofParams Service.registry .standard "questions"
      (asksForMembers.setAll "page" (["1", "2"].map .text)) = .ok s := ⟨_, rfl⟩
  obtain ⟨s, hs⟩ := (h Service.registry "questions" "page" ["1", "2"]
    ⟨by decide, by decide, by decide⟩).mpr hlist
  have hjoined : Prepared.ofParams Service.registry .standard "questions"
      (asksForMembers.setAll "page" [joinedMembers ["1", "2"]]) = .error .pageNotInteger := rfl
  cases hjoined.symm.trans hs

end SchemaSearch
