import SchemaSearch.Proofs.Search.Operators

/-!
# Values with their keys

Parameters as the bag of their values, each with its key.  Every stage in front of the operator does
something simple to that bag: coercion and aliases change pairs one by one, dates and search filters leave
pairs out, and the order in which keys are merged is all that is lost.

Main statement: what is left to search is, up to order, what was sent, with each pair changed by itself and
without the keys that steer (`Narrowed.pairs_remaining`).
-/

namespace SchemaSearch

open Query Schema

/-! ## Pairs of parameters -/

namespace Params

/-- Every value with its key, in order. -/
def pairs (p : Params) : List (String × Json) :=
  p.entries.flatMap fun entry => entry.2.map (entry.1, ·)

theorem pairs_cons (entry : String × List Json) (rest : List (String × List Json)) :
    pairs ⟨entry :: rest⟩ = entry.2.map (entry.1, ·) ++ pairs ⟨rest⟩ := rfl

/-- Leaving keys out leaves their pairs out. -/
theorem pairs_without (p : Params) (excluded : List String) :
    (p.without excluded).pairs = p.pairs.filter fun pair => !excluded.contains pair.1 := by
  obtain ⟨entries⟩ := p
  induction entries with
  | nil => rfl
  | cons entry rest ih =>
    have hown : ∀ pair ∈ entry.2.map (entry.1, ·), pair.1 = entry.1 := by
      intro pair hpair
      obtain ⟨value, _, rfl⟩ := List.mem_map.mp hpair
      rfl
    have hfirst : (entry.2.map (entry.1, ·)).filter (fun pair => !excluded.contains pair.1)
        = if !excluded.contains entry.1 then entry.2.map (entry.1, ·) else [] := by
      split
      · rename_i hkeep
        exact List.filter_eq_self.mpr fun pair hpair => by rw [hown pair hpair, hkeep]
      · rename_i hdrop
        exact List.filter_eq_nil_iff.mpr fun pair hpair => by rwa [hown pair hpair]
    rw [without_eq] at ih ⊢
    rw [pairs_cons, List.filter_append, ← ih, hfirst, List.filter_cons]
    split <;> rfl

theorem mem_keys_of_mem_pairs {p : Params} {pair : String × Json} (h : pair ∈ p.pairs) :
    pair.1 ∈ p.keys := by
  obtain ⟨entry, hentry, hpair⟩ := List.mem_flatMap.mp h
  obtain ⟨value, _, rfl⟩ := List.mem_map.mp hpair
  exact List.mem_map_of_mem hentry

/-- A value that is added is one more pair. -/
theorem pairs_push (p : Params) (key : String) (value : Json) :
    (p.push key value).pairs.Perm (p.pairs ++ [(key, value)]) := by
  obtain ⟨entries⟩ := p
  induction entries with
  | nil => exact .refl _
  | cons entry rest ih =>
    obtain ⟨k, values⟩ := entry
    by_cases hk : k = key
    · subst hk
      have hpush : push ⟨(k, values) :: rest⟩ k value = ⟨(k, values ++ [value]) :: rest⟩ := by
        simp only [push, Table.upsert, if_true]
      rw [hpush, pairs_cons, pairs_cons, List.map_append, List.append_assoc, List.append_assoc]
      exact List.Perm.append_left _ List.perm_append_comm
    · have hpush : push ⟨(k, values) :: rest⟩ key value
          = ⟨(k, values) :: (push ⟨rest⟩ key value).entries⟩ := by
        simp only [push, Table.upsert, hk, if_false]
      rw [hpush, pairs_cons, pairs_cons, List.append_assoc]
      exact List.Perm.append_left _ ih

theorem pairs_pushAll (key : String) (values : List Json) :
    ∀ p : Params, (p.pushAll key values).pairs.Perm (p.pairs ++ values.map (key, ·)) := by
  induction values with
  | nil =>
    intro p
    rw [List.map_nil, List.append_nil]
    exact .refl _
  | cons value values ih =>
    intro p
    refine (ih (p.push key value)).trans ?_
    refine ((pairs_push p key value).append_right _).trans ?_
    rw [List.append_assoc]
    exact .refl _

/-- Once aliases are replaced, each value stands under the path of its key. -/
theorem pairs_applyRenames (p : Params) (renames : Renames) :
    (p.applyRenames renames).pairs.Perm
      (p.pairs.map fun pair => (renames.targetOf pair.1, pair.2)) := by
  rw [applyRenames_eq_foldl]
  -- by induction on the entries that are still to be renamed, after any others
  suffices hfold : ∀ (entries : List (String × List Json)) (acc : Params),
      (entries.foldl (fun acc e => acc.pushAll (renames.targetOf e.1) e.2) acc).pairs.Perm
        (acc.pairs ++ (pairs ⟨entries⟩).map fun pair => (renames.targetOf pair.1, pair.2)) from
    hfold p.entries .empty
  intro entries
  induction entries with
  | nil =>
    intro acc
    rw [show pairs ⟨[]⟩ = [] from rfl, List.map_nil, List.append_nil]
    exact .refl _
  | cons entry rest ih =>
    intro acc
    refine (ih _).trans (((pairs_pushAll _ entry.2 acc).append_right _).trans ?_)
    rw [pairs_cons, List.map_append, List.map_map, List.append_assoc]
    exact .refl _

/-! ## Coercion -/

/-- Where no key comes twice, each key stands with the values that it carries. -/
theorem entries_eq_map_keys {p : Params} (h : p.keys.Nodup) :
    p.entries = p.keys.map fun key => (key, p.getAll key) := by
  obtain ⟨entries⟩ := p
  induction entries with
  | nil => rfl
  | cons entry rest ih =>
    obtain ⟨hfresh, hrest⟩ := List.nodup_cons.mp h
    show entry :: rest = (entry.1, getAll ⟨entry :: rest⟩ entry.1)
      :: (keys ⟨rest⟩).map fun key => (key, getAll ⟨entry :: rest⟩ key)
    have hself : getAll ⟨entry :: rest⟩ entry.1 = entry.2 := by
      simp only [getAll, Table.find?, if_true, Option.getD_some]
    have hother : (keys ⟨rest⟩).map (fun key => (key, getAll ⟨entry :: rest⟩ key)) = rest := by
      refine Eq.trans (List.map_congr_left fun key hkey => ?_) (ih hrest).symm
      have hne : entry.1 ≠ key := by
        rintro rfl
        exact hfresh hkey
      simp only [getAll, Table.find?, hne, if_false]
    rw [hself, hother]

/-- Where no key comes twice, parameters are told by their keys and what these carry. -/
theorem eq_of_getAll {p q : Params} (hkeys : p.keys.Nodup) (hsame : q.keys = p.keys)
    (hvalues : ∀ key, q.getAll key = p.getAll key) : q = p := by
  have hentries : q.entries = p.entries := by
    rw [entries_eq_map_keys hkeys, entries_eq_map_keys (hsame ▸ hkeys), hsame]
    simp only [hvalues]
  exact congrArg Params.mk hentries

end Params

/-- The token of a value's truth, if it has one. -/
def Json.asToken (value : Json) : Json :=
  match value.scalarText.bind classifyBoolean with
  | some true => .text "1"
  | some false => .text "0"
  | none => value

theorem asToken_of_coerceBoolean {name : String} {value coerced : Json}
    (h : coerceBoolean name value = .ok coerced) : coerced = value.asToken := by
  obtain ⟨b, hb, rfl⟩ := Params.classify_of_coerceBoolean h
  rw [Json.asToken, hb]
  cases b <;> rfl

theorem map_asToken_of_mapM {name : String} :
    ∀ {values coerced : List Json}, values.mapM (coerceBoolean name) = .ok coerced →
      coerced = values.map Json.asToken
  | [], coerced, h => by
    rw [List.mapM_nil] at h
    cases h
    rfl
  | value :: values, coerced, h => by
    obtain ⟨first, rest, hfirst, hrest, rfl⟩ := mapM_cons_eq_ok h
    rw [List.map_cons, asToken_of_coerceBoolean hfirst, map_asToken_of_mapM hrest]

namespace Params

/-- The values of a key that is coerced become tokens. -/
theorem getAll_coerceBooleans_of_mem {p q : Params} {names : List String} {key : String}
    (hkey : key ∈ names) (h : p.coerceBooleans names = .ok q) :
    q.getAll key = (p.getAll key).map Json.asToken := by
  -- each step coerces what was sent, so a key that is named twice is coerced as if it were named once
  suffices hfold : ∀ (names : List String) (start : Params), names.foldlM (p.coerceKey ·) start = .ok q →
      key ∈ names ∨ start.getAll key = (p.getAll key).map Json.asToken →
        Coerced p start → q.getAll key = (p.getAll key).map Json.asToken from
    hfold names p h (.inl hkey) ⟨rfl, fun _ => .inl rfl⟩
  intro names
  induction names with
  | nil =>
    intro start h hdone _
    rw [List.foldlM_nil] at h
    cases h
    exact hdone.resolve_left List.not_mem_nil
  | cons name names ih =>
    intro start h hdone hstart
    rw [List.foldlM_cons] at h
    obtain ⟨next, hnext, h⟩ := bind_eq_ok h
    refine ih next h ?_ (coerced_coerceKey hstart hnext)
    by_cases hname : key = name
    · -- the key is coerced now
      subst hname
      right
      unfold coerceKey at hnext
      split at hnext
      · rename_i hnone
        cases hnext
        rcases hstart.values key with hsame | hcoerced
        · rw [hsame, hnone]
          rfl
        · rw [map_asToken_of_mapM hcoerced]
      · obtain ⟨coerced, hcoerced, hnext⟩ := bind_eq_ok hnext
        cases hnext
        rw [getAll_setAll_self, map_asToken_of_mapM hcoerced]
    · refine hdone.imp (fun hmem => (List.mem_cons.mp hmem).resolve_left hname) fun hsame => ?_
      rw [← hsame]
      unfold coerceKey at hnext
      split at hnext
      · cases hnext
        rfl
      · obtain ⟨coerced, _, hnext⟩ := bind_eq_ok hnext
        cases hnext
        exact getAll_setAll_of_ne hname start coerced

/-- The values of a key as coercion leaves them: as tokens if it is one of some names. -/
def coercedValues (p : Params) (names : List String) (key : String) : List Json :=
  (p.getAll key).map fun value => if key ∈ names then value.asToken else value

/-- Coercion leaves every key in its place, and changes each value by itself. -/
theorem entries_coerceBooleans {p q : Params} {names : List String} (hkeys : p.keys.Nodup)
    (h : p.coerceBooleans names = .ok q) :
    q.entries = p.keys.map fun key => (key, p.coercedValues names key) := by
  have hsame := (coerced_coerceBooleans h).keys
  rw [entries_eq_map_keys (hsame ▸ hkeys), hsame]
  refine List.map_congr_left fun key _ => ?_
  by_cases hkey : key ∈ names
  · simp only [coercedValues, getAll_coerceBooleans_of_mem hkey h, hkey, if_true]
  · simp only [coercedValues, getAll_coerceBooleans hkey h, hkey, if_false, List.map_id']

/-- Where no key comes twice, the pairs are those of each key in turn. -/
theorem pairs_eq_flatMap_keys {p : Params} (h : p.keys.Nodup) :
    p.pairs = p.keys.flatMap fun key => (p.getAll key).map (key, ·) := by
  rw [pairs, entries_eq_map_keys h, List.flatMap_map]

/-- Coercion changes each pair by itself: the values of some keys become tokens. -/
theorem pairs_coerceBooleans {p q : Params} {names : List String} (hkeys : p.keys.Nodup)
    (h : p.coerceBooleans names = .ok q) :
    q.pairs = p.pairs.map fun pair =>
      (pair.1, if pair.1 ∈ names then pair.2.asToken else pair.2) := by
  rw [pairs, entries_coerceBooleans hkeys h, pairs_eq_flatMap_keys hkeys]
  simp only [coercedValues, List.flatMap_map, List.map_flatMap, List.map_map, Function.comp_def]

/-! ## Keys that are left out in the end -/

theorem without_coerceBooleans {p q : Params} {names excluded : List String}
    (hnames : ∀ name ∈ names, name ∈ excluded) (h : p.coerceBooleans names = .ok q) :
    q.without excluded = p.without excluded := by
  refine foldlM_invariant (P := fun q => q.without excluded = p.without excluded) ?_ rfl h
  intro name hname start next hstart hnext
  unfold coerceKey at hnext
  split at hnext
  · cases hnext
    exact hstart
  · obtain ⟨coerced, _, hnext⟩ := bind_eq_ok hnext
    cases hnext
    rw [without_setAll_of_mem (hnames name hname), hstart]

theorem keys_expandOrder (p : Params) (renames : Renames) : (p.expandOrder renames).keys = p.keys := by
  unfold expandOrder
  split
  · rfl
  · rename_i hvalues
    exact keys_setAll_of_mem (mem_keys_of_getAll hvalues) _

end Params

/-! ## Dates -/

/-- Dates take out the pairs of the keys that set bounds. -/
theorem Scope.pairs_searchDates {s s' : Scope} {p p' : Params} {renames : Renames}
    (h : s.searchDates p renames = .ok (s', p')) :
    p'.pairs = p.pairs.filter fun pair => !DateBounds.isBoundKey pair.1 := by
  rw [remaining_searchDates h, Params.pairs_without]
  refine List.filter_congr fun pair hpair => ?_
  have hkey := Params.mem_keys_of_mem_pairs hpair
  congr 1
  rw [Bool.eq_iff_iff, List.contains_iff_mem, List.mem_filter]
  exact and_iff_right hkey

/-! ## What is left to search -/

/-- Whether a key names a field that is searched. -/
def SearchConfig.namesField (c : SearchConfig) (key : String) : Bool :=
  !c.isSearchFilter key && !DateBounds.isBoundKey key

theorem SearchConfig.namesField_eq_true {c : SearchConfig} {key : String} :
    c.namesField key = true ↔ key ∉ c.searchFilters ∧ DateBounds.isBoundKey key = false := by
  rw [namesField, isSearchFilter, Bool.and_eq_true, Bool.not_eq_true', Bool.not_eq_true',
    ← Bool.not_eq_true, List.contains_iff_mem]

namespace Transformer

/-- A pair as it is searched: under the path of its key, a token if its key is a boolean field. -/
def searched (t : Transformer) (pair : String × Json) : String × Json :=
  (t.renames.targetOf pair.1, if pair.1 ∈ t.booleans then pair.2.asToken else pair.2)

/-- The pairs of some parameters that are searched. -/
def searchedPairs (t : Transformer) (c : SearchConfig) (p : Params) : List (String × Json) :=
  (p.pairs.map t.searched).filter (c.namesField ·.1)

/-- Up to the order of keys, a transformation changes each pair by itself. -/
theorem pairs_process {t : Transformer} {p q : Params} {excluded : List String} (hkeys : p.keys.Nodup)
    (horder : orderParam ∈ excluded) (h : t.process p = .ok q) :
    (q.without excluded).pairs.Perm
      ((p.pairs.map t.searched).filter fun pair => !excluded.contains pair.1) := by
  obtain ⟨coerced, hcoerced, rfl⟩ := process_eq_ok h
  rw [Params.without_expandOrder horder, Params.pairs_without]
  refine ((Params.pairs_applyRenames coerced t.renames).trans ?_).filter _
  rw [Params.pairs_coerceBooleans hkeys hcoerced, List.map_map]
  exact .refl _

end Transformer

/-- What is left to search when the operator is read: the pairs that were sent, each as it is searched,
without those of keys that steer. -/
theorem Narrowed.pairs_remaining {r : Registry} {c : SearchConfig} {root : String} {p : Params}
    {n : Narrowed} {t : Transformer} (ht : Transformer.ofRoot r root = .ok t) (hkeys : p.keys.Nodup)
    (horder : orderParam ∈ c.searchFilters) (hinactive : c.includeInactiveParam ∈ c.searchFilters)
    (h : Narrowed.ofParams r c root p = .ok n) :
    (n.params.without c.searchFilters).pairs.Perm (t.searchedPairs c p) := by
  obtain ⟨t', transformed, coerced, scope, ht', htransformed, hcoerced, _, hdates, _⟩ :=
    ofParams_eq_ok h
  have hsame : t' = t := Except.ok.inj (ht'.symm.trans ht)
  subst hsame
  have hfilters : coerced.without c.searchFilters = transformed.without c.searchFilters := by
    refine Params.without_coerceBooleans ?_ hcoerced
    intro name hname
    rwa [List.mem_singleton.mp hname]
  have hremaining : (n.params.without c.searchFilters).pairs
      = (coerced.without c.searchFilters).pairs.filter fun pair => !DateBounds.isBoundKey pair.1 := by
    rw [Params.pairs_without, Scope.pairs_searchDates hdates, Params.pairs_without,
      List.filter_filter, List.filter_filter]
    exact List.filter_congr fun pair _ => Bool.and_comm _ _
  rw [hremaining, hfilters, Transformer.searchedPairs]
  refine ((Transformer.pairs_process hkeys horder htransformed).filter _).trans ?_
  rw [List.filter_filter]
  refine .of_eq (List.filter_congr fun pair _ => ?_)
  exact Bool.and_comm _ _

end SchemaSearch
