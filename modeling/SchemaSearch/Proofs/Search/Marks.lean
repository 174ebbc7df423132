import SchemaSearch.Proofs.Search.Activity
import SchemaSearch.Proofs.Search.Booleans
import SchemaSearch.Proofs.Search.Columns
import SchemaSearch.Proofs.Search.Controls
import SchemaSearch.Proofs.Search.Ordering

/-!
# The mark for inactive records

A key asks for inactive records, and the settings name it.  Where it is one of the search filters it does
nothing but lift the restriction to active records.  Where it is configured under another name it is read as
the mark, and then searched as a field like any other key.

Main statement: keys that stand for search filters only steer, the mark among them; a mark that is no search
filter is refused (`control_keys_only_steer`).
-/

namespace SchemaSearch

open Query Schema

/-! ## A name that leads nowhere -/

theorem Text.contains_join (lead name : String) :
    Text.contains (Renames.join lead name) pathSeparator = true := by
  rw [Text.contains_iff_isInfix, Renames.join, String.toList_append, String.toList_append]
  exact List.infix_append _ _ _

section Marks

variable {r : Registry} {c : SearchConfig} {root flag : String} {e : Entity} {t : Transformer} {p : Params}

/-- A plain name that leads nowhere is no boolean field. -/
theorem Schema.Registry.not_mem_booleanPaths (hroot : r.get? root = some e) (hname : flag.isEmpty = false)
    (hplain : Text.contains flag pathSeparator = false)
    (hunresolved : ∀ target, r.resolve root flag ≠ .ok target) : flag ∉ r.booleanPaths e := by
  intro hmem
  rcases Registry.mem_booleanPaths.mp hmem with hown | ⟨f, _, field, _, rfl⟩
  · obtain ⟨own, hfield, rfl⟩ := List.mem_map.mp hown
    exact hunresolved _ (Registry.resolve_field hroot (List.mem_map_of_mem (List.mem_filter.mp hfield).1)
      hname hplain)
  · rw [Text.contains_join] at hplain
    cases hplain

/-- No alias stands for a name that leads nowhere. -/
theorem Transformer.targetOf_eq_iff (ht : Transformer.ofRoot r root = .ok t)
    (hnamed : t.renames.get? flag = none) (hunresolved : ∀ target, r.resolve root flag ≠ .ok target)
    (key : String) : t.renames.targetOf key = flag ↔ key = flag := by
  obtain ⟨_, _, hrenames, _⟩ := Transformer.ofRoot_eq_ok ht
  obtain ⟨_, _, _, hleads⟩ := Registry.renames_eq_ok hrenames
  have hother : ∀ k ∈ [key], t.renames.get? k ≠ some flag := by
    intro k _ halias
    obtain ⟨target, htarget⟩ := hleads _ (Table.mem_of_find? halias)
    exact hunresolved target htarget
  exact Renames.targetOf_eq_iff hnamed hother key List.mem_cons_self

/-- The values of a key are tokens. -/
def Params.CarriesTokens (p : Params) (key : String) : Prop :=
  ∀ value ∈ p.getAll key, (value.scalarText.bind classifyBoolean).isSome = true

/-- Coercion goes well if there are only tokens to coerce. -/
theorem Params.exists_coerceBooleans_iff {names : List String} :
    (∃ q, p.coerceBooleans names = .ok q) ↔ ∀ name ∈ names, p.CarriesTokens name := by
  constructor
  · rintro ⟨q, hq⟩ name hname value hvalue
    obtain ⟨start, next, hstep⟩ := step_of_foldlM hname hq
    rw [coerceKey_of_ne_nil (List.ne_nil_of_mem hvalue)] at hstep
    obtain ⟨values, hvalues, _⟩ := bind_eq_ok hstep
    obtain ⟨coerced, hcoerced⟩ := exists_of_mapM hvalue hvalues
    obtain ⟨b, hb, _⟩ := classify_of_coerceBoolean hcoerced
    rw [hb]
    rfl
  · intro h
    refine exists_foldlM (fun name hname start => ?_) p
    refine exists_coerceKey (fun value hvalue => ?_) start
    obtain ⟨b, hb⟩ := Option.isSome_iff_exists.mp (h name hname value hvalue)
    rw [coerceBoolean, hb]
    cases b <;> exact ⟨_, rfl⟩

/-! ## A mark that is a search filter -/

/-- A search filter that has no other use is not seen after narrowing. -/
theorem Narrowed.finish_without (n : Narrowed) (hfilter : flag ∈ c.searchFilters)
    (hsteering : flag ∉ [orderParam, Operator.param, Page.param, Page.sizeParam]) :
    n.finish r c root = (fun s => { s with scope := s.scope.marked n.inactive })
      <$> Narrowed.finish ⟨n.scope, n.params.without [flag], false⟩ r c root := by
  have hother : ∀ key ∈ [orderParam, Operator.param, Page.param, Page.sizeParam], key ∉ [flag] := by
    intro key hkey hmem
    exact hsteering (List.mem_singleton.mp hmem ▸ hkey)
  have hsearch := n.searchFields_without hfilter (hother Operator.param (by decide))
  have horder : Prepared.orderText c (n.params.without [flag]) = Prepared.orderText c n.params :=
    Prepared.orderText_without (hother orderParam (by decide)) n.params
  have hpage : Page.ofParams (n.params.without [flag]) c.defaultPageSize
      = Page.ofParams n.params c.defaultPageSize :=
    Page.ofParams_without (hother Page.param (by decide)) (hother Page.sizeParam (by decide)) n.params _
  unfold finish
  simp only [hsearch, horder, hpage, map_bind, Scope.marked_eq]
  rfl

/-- Without the mark for inactive records, a search is narrowed as it is with it. -/
theorem Narrowed.ofParams_without_flag (hfilters : c.searchFilters = SearchConfig.standard.searchFilters)
    (ht : Transformer.ofRoot r root = .ok t)
    (hself : ∀ key, t.renames.targetOf key = c.includeInactiveParam ↔ key = c.includeInactiveParam)
    (hboolean : c.includeInactiveParam ∉ t.booleans) (hfilter : c.includeInactiveParam ∈ c.searchFilters)
    (horder : c.includeInactiveParam ≠ orderParam) (hkeys : p.keys.Nodup)
    (htokens : p.CarriesTokens c.includeInactiveParam) :
    Narrowed.ofParams r c root (p.without [c.includeInactiveParam])
      = (fun n => ⟨n.scope, n.params.without [c.includeInactiveParam], false⟩)
        <$> Narrowed.ofParams r c root p := by
  obtain ⟨e, hroot, _⟩ := Transformer.ofRoot_eq_ok ht
  have hbound : ∀ key ∈ [c.includeInactiveParam], DateBounds.isBoundKey key = false := by
    have hstandard : ∀ key ∈ SearchConfig.standard.searchFilters, DateBounds.isBoundKey key = false := by
      decide
    intro key hkey
    rw [List.mem_singleton.mp hkey]
    exact hstandard _ (hfilters ▸ hfilter)
  have hprocess := Transformer.process_without_key hboolean fun key (_ : key ∈ p.keys) => hself key
  unfold Narrowed.ofParams
  rw [ht, ok_bind, ok_bind, hprocess, Scope.ofRoot_of_get? hroot]
  cases hq : t.process p with
  | error error => rfl
  | ok q =>
    -- the flag comes out of the transformation as it went in
    have hqtokens : ∀ name ∈ [c.includeInactiveParam], q.CarriesTokens name := by
      intro name hname
      rw [List.mem_singleton.mp hname]
      obtain ⟨typed, htyped, hvalues⟩ := getAll_process hq hkeys horder fun key _ => hself key
      unfold Params.CarriesTokens
      rw [hvalues, Params.getAll_coerceBooleans hboolean htyped]
      exact htokens
    obtain ⟨marked, hmarked⟩ := Params.exists_coerceBooleans_iff.mpr hqtokens
    have hrest : marked.without [c.includeInactiveParam] = q.without [c.includeInactiveParam] :=
      Params.without_coerceBooleans (fun name hname => hname) hmarked
    -- without it there is nothing to coerce
    have hgone : (q.without [c.includeInactiveParam]).getAll c.includeInactiveParam = [] :=
      Params.getAll_without_of_mem List.mem_cons_self q
    have hplainly : (q.without [c.includeInactiveParam]).coerceBooleans [c.includeInactiveParam]
        = .ok (q.without [c.includeInactiveParam]) := by
      refine Params.coerceBooleans_eq_self fun name hname => ?_
      rw [List.mem_singleton.mp hname, hgone]
    have hactive : Prepared.asksForInactive c (q.without [c.includeInactiveParam]) = false := by
      rw [Prepared.asksForInactive, Params.getText?, Params.get?, hgone]
      rfl
    have hdates := Scope.searchDates_without hbound (Scope.ofEntity r e) marked t.renames
    rw [hrest] at hdates
    have hleft : (·.without [c.includeInactiveParam]) <$> (.ok q : Except SearchError Params)
        = .ok (q.without [c.includeInactiveParam]) := rfl
    rw [hleft, ok_bind, ok_bind, hmarked, hplainly, ok_bind, ok_bind, ok_bind, ok_bind, hdates, hactive]
    cases (Scope.ofEntity r e).searchDates marked t.renames with
    | error error => rfl
    | ok found => rfl

/-- The mark for inactive records lifts the restriction to active ones, if its last value is a token for
true, and does nothing else. -/
def Prepared.FlagOnlyLifts (r : Registry) (c : SearchConfig) (root : String) (p : Params) : Prop :=
  Prepared.ofParams r c root p
    = (fun s => { s with scope := s.scope.marked (p.lastIsTrue c.includeInactiveParam) })
      <$> Prepared.ofParams r c root (p.without [c.includeInactiveParam])

/-- A mark that is a search filter, and of no other use, only lifts. -/
theorem Prepared.flagOnlyLifts (hfilters : c.searchFilters = SearchConfig.standard.searchFilters)
    (ht : Transformer.ofRoot r root = .ok t)
    (hunresolved : ∀ target, r.resolve root c.includeInactiveParam ≠ .ok target)
    (hnamed : t.renames.get? c.includeInactiveParam = none)
    (hfilter : c.includeInactiveParam ∈ c.searchFilters)
    (hsteering : c.includeInactiveParam ∉ [orderParam, Operator.param, Page.param, Page.sizeParam])
    (hkeys : p.keys.Nodup) (htokens : p.CarriesTokens c.includeInactiveParam) :
    Prepared.FlagOnlyLifts r c root p := by
  obtain ⟨e, hroot, hrenames, hbooleans⟩ := Transformer.ofRoot_eq_ok ht
  have hself := Transformer.targetOf_eq_iff ht hnamed hunresolved
  have hboolean : c.includeInactiveParam ∉ t.booleans := by
    have hplain : ∀ flag ∈ SearchConfig.standard.searchFilters,
        flag.isEmpty = false ∧ Text.contains flag pathSeparator = false := by decide
    rw [hfilters] at hfilter
    obtain ⟨hname, hplain⟩ := hplain _ hfilter
    rw [hbooleans]
    exact Registry.not_mem_booleanPaths hroot hname hplain hunresolved
  have horder : c.includeInactiveParam ≠ orderParam := by
    intro hsame
    exact hsteering (hsame ▸ List.mem_cons_self)
  unfold Prepared.FlagOnlyLifts
  rw [Prepared.ofParams_eq, Prepared.ofParams_eq,
    Narrowed.ofParams_without_flag hfilters ht hself hboolean hfilter horder hkeys htokens]
  cases hn : Narrowed.ofParams r c root p with
  | error error => rfl
  | ok n =>
    have hleads : ∀ key ∈ p.keys, t.renames.get? key ≠ some c.includeInactiveParam := by
      intro key _ halias
      have hkey : key = c.includeInactiveParam := (hself key).mp (by rw [Renames.targetOf, halias]; rfl)
      rw [hkey, hnamed] at halias
      cases halias
    rw [← Narrowed.inactive_eq hrenames hnamed hleads horder hkeys hn]
    exact n.finish_without hfilter hsteering

/-! ## A mark that is no search filter -/

/-- The token of a truth. -/
theorem Json.asToken_of_token {value : Json} {b : Bool} (h : value.scalarText.bind classifyBoolean = some b) :
    value.asToken = .text (if b then "1" else "0") := by
  rw [Json.asToken, h]
  cases b <;> rfl

/-- The mark is coerced like a boolean field; a token becomes the text of its truth. -/
theorem coerceBooleans_coerced_token {value : Json} {b : Bool}
    (h : value.scalarText.bind classifyBoolean = some b) (flag : String) (names : List String) :
    ∃ coerced : Json, Params.coerceBooleans ⟨[(flag, [value])]⟩ names = .ok ⟨[(flag, [coerced])]⟩
      ∧ Params.coerceBooleans ⟨[(flag, [coerced])]⟩ [flag]
        = .ok ⟨[(flag, [.text (if b then "1" else "0")])]⟩ := by
  have hasked : value.askedByToken = some (some b) := by
    rw [Json.askedByToken, h]
    rfl
  refine ⟨if flag ∈ names then value.asToken else value, coerceBooleans_of_token hasked names, ?_⟩
  have htext : (if flag ∈ names then value.asToken else value).scalarText.bind classifyBoolean = some b := by
    split
    · rw [Json.asToken_of_token h]
      cases b <;> decide
    · exact h
  have hcoerced : (if flag ∈ names then value.asToken else value).askedByToken = some (some b) := by
    rw [Json.askedByToken, htext]
    rfl
  rw [coerceBooleans_of_token hcoerced, if_pos List.mem_cons_self, Json.asToken_of_token htext]

/-- A mark that is no search filter is searched as a field, which it is not. -/
theorem Prepared.ofParams_unfiltered_flag (hfilters : c.searchFilters = SearchConfig.standard.searchFilters)
    (ht : Transformer.ofRoot r root = .ok t)
    (hunresolved : ∀ target, r.resolve root c.includeInactiveParam ≠ .ok target)
    (hnamed : t.renames.get? c.includeInactiveParam = none)
    (hfield : c.namesField c.includeInactiveParam = true) {value : Json} {b : Bool}
    (htoken : value.scalarText.bind classifyBoolean = some b) :
    Prepared.ofParams r c root ⟨[(c.includeInactiveParam, [value])]⟩
      = .error (.unknownField root c.includeInactiveParam) := by
  obtain ⟨e, hroot, _⟩ := Transformer.ofRoot_eq_ok ht
  obtain ⟨hfilter, hbound⟩ := SearchConfig.namesField_eq_true.mp hfield
  have hself : t.renames.targetOf c.includeInactiveParam = c.includeInactiveParam := by
    rw [Renames.targetOf, hnamed]
    rfl
  have hsteering : c.includeInactiveParam ∉ [orderParam, Operator.param, Page.param, Page.sizeParam] := by
    intro hmem
    have hsub : [orderParam, Operator.param, Page.param, Page.sizeParam]
        ⊆ SearchConfig.standard.searchFilters := by decide
    exact hfilter (hfilters ▸ hsub hmem)
  have horder : t.renames.targetOf c.includeInactiveParam ≠ orderParam := by
    rw [hself]
    intro hsame
    exact hsteering (hsame ▸ List.mem_cons_self)
  obtain ⟨coerced, hcoerced, hmarked⟩ :=
    coerceBooleans_coerced_token htoken c.includeInactiveParam t.booleans
  have hprocess := process_single hcoerced horder
  rw [hself] at hprocess
  have hbounds : ∀ key ∈ Params.keys ⟨[(c.includeInactiveParam, [Json.text (if b then "1" else "0")])]⟩,
      DateBounds.isBoundKey key = false := by
    intro key hkey
    rw [List.mem_singleton.mp hkey]
    exact hbound
  obtain ⟨error, herror⟩ := exists_error hunresolved
  rw [Registry.resolve_error hroot herror] at herror
  rw [Prepared.ofParams_eq]
  unfold Narrowed.ofParams
  rw [ht, ok_bind, hprocess, ok_bind, hmarked, ok_bind, Scope.ofRoot_of_get? hroot, ok_bind,
    Scope.searchDates_eq_self hbounds, ok_bind, ok_bind,
    Narrowed.finish_single hroot hfilter hsteering]
  -- the text of a truth has a lookup, but its path leads nowhere
  cases b with
  | true =>
    show (Predicate.compile r root (.field c.includeInactiveParam (.startsWith "1")) >>= _) = _
    rw [Predicate.compile, herror]
    rfl
  | false =>
    show (Predicate.compile r root (.field c.includeInactiveParam (.startsWith "0")) >>= _) = _
    rw [Predicate.compile, herror]
    rfl

/-- A key that was coerced carries texts. -/
theorem Params.exists_text_of_coerced {q : Params} (h : p.coerceBooleans [flag] = .ok q) {value : Json}
    (hvalue : value ∈ q.getAll flag) : ∃ s, value = .text s := by
  obtain ⟨_, _, hstep⟩ := step_of_foldlM List.mem_cons_self h
  rw [getAll_coerceBooleans_of_mem List.mem_cons_self h] at hvalue
  obtain ⟨sent, hsent, rfl⟩ := List.mem_map.mp hvalue
  rw [coerceKey_of_ne_nil (List.ne_nil_of_mem hsent)] at hstep
  obtain ⟨coerced, hcoerced, _⟩ := bind_eq_ok hstep
  obtain ⟨token, htoken⟩ := exists_of_mapM hsent hcoerced
  obtain ⟨b, hb, _⟩ := Params.classify_of_coerceBoolean htoken
  exact ⟨_, Json.asToken_of_token hb⟩

/-- A text under a key that stands for no operation is a single term. -/
theorem termsOf_text {key : String} (hkey : Operation.ofKey? key = none) (trees : Bool) (text : String) :
    termsOf trees (key, .text text) = [(key, .text text)] := by
  cases trees with
  | false => rfl
  | true =>
    show Json.fieldTermsOfMember (key, .text text) = _
    rw [Json.fieldTermsOfMember, hkey]
    rfl

/-- Where all parameters are searched, a text that is left to search is asked for under its key. -/
theorem Scope.exists_leaf_of_searchFields {s s' : Scope} {operator? : Option Operator} {key text : String}
    (hasked : (Operator.ofParams? p).bind Except.toOption = operator?)
    (hall : operator?.all Operator.combinesAll = true) (hkey : Operation.ofKey? key = none)
    (hfilter : key ∉ c.searchFilters) (htext : .text text ∈ p.getAll key)
    (h : Prepared.searchFields c s p = .ok s') :
    ∃ leaf ∈ Predicate.leavesOf s'.predicates, leaf.1 = key := by
  have hpair : (key, Json.text text) ∈ (p.without c.searchFilters).pairs := by
    rw [← Params.getAll_without hfilter] at htext
    refine List.mem_flatMap.mpr ⟨_, Params.mem_entries_of_getAll (List.ne_nil_of_mem htext), ?_⟩
    exact List.mem_map_of_mem htext
  have hreading : reading (key, .text text) ∈ (Predicate.leavesOf s'.predicates).map asReading := by
    rw [leaves_searchFields hasked hall h]
    refine List.mem_append_right _ (List.mem_map_of_mem (List.mem_flatMap.mpr ⟨_, hpair, ?_⟩))
    rw [termsOf_text hkey]
    exact List.mem_cons_self
  obtain ⟨leaf, hleaf, hsame⟩ := List.mem_map.mp hreading
  exact ⟨leaf, hleaf, congrArg Prod.fst hsame⟩

/-- A mark that is no search filter is searched as a field wherever all parameters are, and what a search asks
for has to be one. -/
theorem Prepared.ofParams_ne_ok_of_unfiltered (ht : Transformer.ofRoot r root = .ok t)
    (hunresolved : ∀ target, r.resolve root c.includeInactiveParam ≠ .ok target)
    (hnamed : t.renames.get? c.includeInactiveParam = none)
    (hfield : c.namesField c.includeInactiveParam = true)
    (hoperation : Operation.ofKey? c.includeInactiveParam = none)
    (hinactive : c.includeInactiveParam ≠ Operator.param)
    (hall : (t.operator? p).all Operator.combinesAll = true)
    (hsent : p.getAll c.includeInactiveParam ≠ []) (s : Prepared) :
    Prepared.ofParams r c root p ≠ .ok s := by
  intro h
  have hgrounded := Prepared.grounded_scope h
  obtain ⟨n, searched, hn, hsearched, hscope⟩ := Prepared.ofParams_eq_ok h
  obtain ⟨_, _, hrenames, _⟩ := Transformer.ofRoot_eq_ok ht
  obtain ⟨hfilter, hbound⟩ := SearchConfig.namesField_eq_true.mp hfield
  have hself : t.renames.targetOf c.includeInactiveParam = c.includeInactiveParam := by
    rw [Renames.targetOf, hnamed]
    rfl
  -- the mark is among what is left to search, with a text
  obtain ⟨value, hvalue⟩ : ∃ value, value ∈ n.params.getAll c.includeInactiveParam := by
    have hleft := Narrowed.getAll_params_ne_nil hrenames hsent (by rwa [hself]) hn
    rw [hself] at hleft
    exact List.exists_mem_of_ne_nil _ hleft
  obtain ⟨text, rfl⟩ : ∃ text, value = .text text := by
    obtain ⟨_, _, _, _, _, _, hcoerced, _, hdates, _⟩ := Narrowed.ofParams_eq_ok hn
    rw [Scope.getAll_searchDates hbound hdates] at hvalue
    exact Params.exists_text_of_coerced hcoerced hvalue
  -- so the search asks for a field of its name
  obtain ⟨leaf, hleaf, hname⟩ := Scope.exists_leaf_of_searchFields (Narrowed.operator?_params ht hinactive hn)
    hall hoperation hfilter hvalue hsearched
  rw [hscope, Scope.marked_eq] at hgrounded
  obtain ⟨target, htarget⟩ := hgrounded leaf hleaf
  exact hunresolved target (hname ▸ htarget)

/-- Of keys that stand for search filters, a search demands nothing and knows no field.  A mark among them
that names no field lifts the restriction to active records, and does nothing else.  One that is no search
filter is refused as an unknown field; among other parameters, too, if all of them are combined. -/
theorem control_keys_only_steer (hfilters : c.searchFilters = SearchConfig.standard.searchFilters)
    (ht : Transformer.ofRoot r root = .ok t) :
    (∀ p dropped, (∀ key ∈ dropped, t.renames.targetOf key ∈ c.searchFilters) →
        Prepared.SteeredOnly r c root p dropped)
      ∧ ((∀ target, r.resolve root c.includeInactiveParam ≠ .ok target) →
        t.renames.get? c.includeInactiveParam = none →
        (c.includeInactiveParam ∈ c.searchFilters →
          c.includeInactiveParam ∉ [orderParam, Operator.param, Page.param, Page.sizeParam] →
          ∀ p : Params, p.keys.Nodup → p.CarriesTokens c.includeInactiveParam →
            Prepared.FlagOnlyLifts r c root p)
          ∧ (c.namesField c.includeInactiveParam = true →
            (∀ value : Json, (value.scalarText.bind classifyBoolean).isSome = true →
                Prepared.ofParams r c root ⟨[(c.includeInactiveParam, [value])]⟩
                  = .error (.unknownField root c.includeInactiveParam))
              ∧ (Operation.ofKey? c.includeInactiveParam = none →
                ∀ p : Params, p.getAll c.includeInactiveParam ≠ [] →
                  (t.operator? p).all Operator.combinesAll = true →
                  ∀ s, Prepared.ofParams r c root p ≠ .ok s))) := by
  refine ⟨fun p dropped hdropped => Prepared.steeredOnly hfilters ht hdropped p, ?_⟩
  intro hunresolved hnamed
  constructor
  · intro hfilter hsteering p hkeys htokens
    exact Prepared.flagOnlyLifts hfilters ht hunresolved hnamed hfilter hsteering hkeys htokens
  · intro hfield
    constructor
    · intro value htoken
      obtain ⟨b, hb⟩ := Option.isSome_iff_exists.mp htoken
      exact Prepared.ofParams_unfiltered_flag hfilters ht hunresolved hnamed hfield hb
    · intro hoperation p hsent hall
      have hinactive : c.includeInactiveParam ≠ Operator.param := by
        intro hsame
        refine (SearchConfig.namesField_eq_true.mp hfield).1 ?_
        rw [hfilters, hsame]
        decide
      exact Prepared.ofParams_ne_ok_of_unfiltered ht hunresolved hnamed hfield hoperation hinactive hall hsent

end Marks

/-- Setup questions in the order of their titles, on the second page, inactive ones included. -/
def pagedSetup : Params :=
  ⟨[("title", [.text "$setup"]), ("page", [.text "2"]), ("order_by", [.text "title"]),
    ("include_inactive", [.text "Yes"])]⟩

/-- The settings under which another key asks for inactive records. -/
def SearchConfig.marking (flag : String) : SearchConfig :=
  { SearchConfig.standard with includeInactiveParam := flag }

/-- Of the keys around the title, nothing is demanded; under another name the mark is refused. -/
theorem control_keys_only_steer_sample :
    Prepared.SteeredOnly Service.registry .standard "questions" pagedSetup
        ["page", "order_by", "include_inactive"]
      ∧ Prepared.FlagOnlyLifts Service.registry .standard "questions" pagedSetup
      ∧ Prepared.ofParams Service.registry (.marking "show_all") "questions"
          ⟨[("show_all", [.text "true"])]⟩ = .error (.unknownField "questions" "show_all")
      ∧ ∀ s, Prepared.ofParams Service.registry (.marking "show_all") "questions"
          ⟨[("operator", [.text "OR"]), ("title", [.text "$setup"]), ("show_all", [.text "no"])]⟩ ≠ .ok s := by
  have ht : Transformer.ofRoot Service.registry "questions" = .ok ⟨_, _⟩ := rfl
  have hmark := @control_keys_only_steer Service.registry .standard "questions" _ rfl ht
  have hother := @control_keys_only_steer Service.registry (.marking "show_all") "questions" _ rfl ht
  refine ⟨hmark.1 pagedSetup _ (by decide), ?_, ?_, ?_⟩
  · refine (hmark.2 (fun target h => by cases h) rfl).1 (by decide) (by decide) pagedSetup (by decide) ?_
    unfold Params.CarriesTokens
    decide
  · exact ((hother.2 (fun target h => by cases h) rfl).2 (by decide)).1 _ rfl
  · exact ((hother.2 (fun target h => by cases h) rfl).2 (by decide)).2 rfl _ (by decide) rfl

/-! ## Where keys do more than steer -/

/-- What is asked of a key that steers where a condition is fulfilled: that it does nothing else. -/
def ControlsOnlySteer (side : Transformer → SearchConfig → String → Prop) : Prop :=
  ∀ (r : Registry) (c : SearchConfig) (root : String) (t : Transformer) (p : Params) (key : String),
    c.searchFilters = SearchConfig.standard.searchFilters → Transformer.ofRoot r root = .ok t →
    (∀ target, r.resolve root c.includeInactiveParam ≠ .ok target) →
    key ∈ [c.includeInactiveParam, Page.param, Page.sizeParam, orderParam, Operator.param] →
    p.CarriesTokens c.includeInactiveParam → side t c key → Prepared.SteeredOnly r c root p [key]

/-- A mark under another name is searched as a field, and refused; a key with the name of an alias is
searched as what the alias stands for; and a mark with the name of another key that steers is read as that,
too. -/
theorem not_controlsOnlySteer :
    ¬ ControlsOnlySteer (fun t _ key => t.renames.get? key = none)
    ∧ ¬ ControlsOnlySteer (fun _ c key => key ∈ c.searchFilters)
    ∧ ¬ ∀ (c : SearchConfig) (p : Params), c.searchFilters = SearchConfig.standard.searchFilters →
        c.includeInactiveParam ∈ c.searchFilters → p.CarriesTokens c.includeInactiveParam →
        Prepared.FlagOnlyLifts Service.registry c "questions" p := by
  refine ⟨fun h => ?_, fun h => ?_, fun h => ?_⟩
  · obtain ⟨n, n', hn, hrest, hsearch⟩ := (h Service.registry (.marking "show_all") "questions" _
      ⟨[("show_all", [.text "true"])]⟩ "show_all" rfl rfl (fun target h => by cases h) (by decide)
      (by unfold Params.CarriesTokens; decide) rfl).unknown _ rfl rfl
    cases hn
    cases hrest
    cases hsearch
  · obtain ⟨n, n', searched, hn, hrest, hsearch, hpredicates⟩ := (h (.ofEntities [⟨"notes", [⟨"title", .text⟩,
        ⟨"created_at", .dateTime⟩], [], .ofPairs [("page", "title")]⟩]) .standard "notes" _
      ⟨[("page", [.text "2"])]⟩ "page" rfl rfl (fun target h => by cases h) (by decide)
      (by unfold Params.CarriesTokens; decide) (by decide)).demands _ rfl
    cases hn
    cases hrest
    cases hsearch
    cases hpredicates
  · have hlifts := h (.marking "page") ⟨[("page", [.text "no"])]⟩ rfl (by decide)
      (by unfold Params.CarriesTokens; decide)
    cases hlifts

end SchemaSearch
