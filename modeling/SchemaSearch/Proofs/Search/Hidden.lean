import SchemaSearch.Proofs.Search.Transformed

/-!
# Keys that a stage does not see

A stage that does not look at some keys gives the same with them and without them.  For each stage in
front of the operator this is one equation: leaving the keys out commutes with the stage.
-/

namespace SchemaSearch

open Query Schema

/-! ## Tables without some keys -/

namespace Table

variable {β : Type} (keep : String → Bool)

theorem find?_filter (key : String) (entries : List (String × β)) :
    find? key (entries.filter fun e => keep e.1) = if keep key then find? key entries else none := by
  induction entries with
  | nil => cases keep key <;> rfl
  | cons entry rest ih =>
    obtain ⟨k, v⟩ := entry
    rw [List.filter_cons]
    by_cases hk : k = key
    · subst hk
      cases hkeep : keep k with
      | true => simp only [if_true, find?]
      | false => simpa only [hkeep, Bool.false_eq_true, if_false] using ih
    · split
      · simpa only [find?, hk, if_false] using ih
      · simpa only [find?, hk, if_false] using ih

theorem filter_upsert_of_keep {key : String} (hkeep : keep key = true) (change : β → β) (fresh : β)
    (entries : List (String × β)) :
    (upsert key change fresh entries).filter (fun e => keep e.1)
      = upsert key change fresh (entries.filter fun e => keep e.1) := by
  induction entries with
  | nil => simp only [upsert, List.filter_cons, hkeep, if_true, List.filter_nil]
  | cons entry rest ih =>
    obtain ⟨k, v⟩ := entry
    by_cases hk : k = key
    · subst hk
      simp only [upsert, List.filter_cons, hkeep, if_true]
    · simp only [upsert, hk, if_false, List.filter_cons, ih]
      split <;> simp only [upsert, hk, if_false]

theorem filter_upsert_of_not_keep {key : String} (hkeep : keep key = false) (change : β → β)
    (fresh : β) (entries : List (String × β)) :
    (upsert key change fresh entries).filter (fun e => keep e.1)
      = entries.filter fun e => keep e.1 := by
  induction entries with
  | nil => simp only [upsert, List.filter_cons, hkeep, Bool.false_eq_true, if_false, List.filter_nil]
  | cons entry rest ih =>
    obtain ⟨k, v⟩ := entry
    by_cases hk : k = key
    · subst hk
      simp only [upsert, if_true, List.filter_cons, hkeep, Bool.false_eq_true, if_false]
    · simp only [upsert, hk, if_false, List.filter_cons, ih]

end Table

/-! ## Parameters without some keys -/

namespace Params

variable {key : String} {excluded : List String}

/-- The entries that stay. -/
theorem without_eq (p : Params) (excluded : List String) :
    p.without excluded = ⟨p.entries.filter fun e => !excluded.contains e.1⟩ := rfl

theorem keys_without (p : Params) (excluded : List String) :
    (p.without excluded).keys = p.keys.filter fun key => !excluded.contains key := by
  rw [keys, Table.keys, without_eq, keys, Table.keys, List.filter_map]
  rfl

theorem getAll_without_of_mem (h : key ∈ excluded) (p : Params) : (p.without excluded).getAll key = [] := by
  have hgone : key ∉ (p.without excluded).keys := by
    rw [keys_without, List.mem_filter]
    simp [h]
  rw [getAll, Table.find?_eq_none hgone]
  rfl

theorem getAll_without (h : key ∉ excluded) (p : Params) :
    (p.without excluded).getAll key = p.getAll key := by
  have hkeep : (!excluded.contains key) = true := by simpa using h
  simp only [getAll, without_eq]
  rw [Table.find?_filter (fun k => !excluded.contains k) key p.entries, hkeep, if_pos rfl]

theorem getText?_without (h : key ∉ excluded) (p : Params) :
    (p.without excluded).getText? key = p.getText? key := by
  rw [getText?, getText?, get?, get?, getAll_without h]

theorem without_push_of_mem (h : key ∈ excluded) (p : Params) (value : Json) :
    (p.push key value).without excluded = p.without excluded := by
  have hkeep : (!excluded.contains key) = false := by simpa using h
  exact congrArg Params.mk
    (Table.filter_upsert_of_not_keep (fun k => !excluded.contains k) hkeep _ _ p.entries)

theorem without_push (h : key ∉ excluded) (p : Params) (value : Json) :
    (p.push key value).without excluded = (p.without excluded).push key value := by
  have hkeep : (!excluded.contains key) = true := by simpa using h
  exact congrArg Params.mk
    (Table.filter_upsert_of_keep (fun k => !excluded.contains k) hkeep _ _ p.entries)

/-- What is done to the values of a key that is left out does not show. -/
theorem without_setAll_of_mem (h : key ∈ excluded) (p : Params) (values : List Json) :
    (p.setAll key values).without excluded = p.without excluded := by
  have hkeep : (!excluded.contains key) = false := by simpa using h
  exact congrArg Params.mk
    (Table.filter_upsert_of_not_keep (fun k => !excluded.contains k) hkeep _ _ p.entries)

theorem without_setAll (h : key ∉ excluded) (p : Params) (values : List Json) :
    (p.setAll key values).without excluded = (p.without excluded).setAll key values := by
  have hkeep : (!excluded.contains key) = true := by simpa using h
  exact congrArg Params.mk
    (Table.filter_upsert_of_keep (fun k => !excluded.contains k) hkeep _ _ p.entries)

/-- The order in which keys are left out does not matter. -/
theorem without_comm (p : Params) (first second : List String) :
    (p.without first).without second = (p.without second).without first := by
  simp only [without_eq, List.filter_filter, Bool.and_comm]

/-- Keys that are left out anyway need not be left out before. -/
theorem without_without {first second : List String} (h : first ⊆ second) (p : Params) :
    (p.without first).without second = p.without second := by
  simp only [without_eq, List.filter_filter]
  refine congrArg Params.mk (List.filter_congr fun entry _ => ?_)
  cases hsecond : second.contains entry.1 with
  | true => rfl
  | false =>
    have hfirst : first.contains entry.1 = false := by
      rw [← Bool.not_eq_true, List.contains_iff_mem] at hsecond ⊢
      exact fun hmem => hsecond (h hmem)
    rw [hfirst]
    rfl

/-- Without keys that do not pass a test, the keys that pass it are the same. -/
theorem keys_without_filter {test : String → Bool} (h : ∀ key ∈ excluded, test key = false)
    (p : Params) : (p.without excluded).keys.filter test = p.keys.filter test := by
  simp only [keys, Table.keys, without_eq, List.filter_map, List.filter_filter]
  refine congrArg (List.map Prod.fst) (List.filter_congr fun entry _ => ?_)
  cases htest : test entry.1 with
  | false => simp only [Function.comp, htest, Bool.false_and]
  | true =>
    have hkeep : excluded.contains entry.1 = false := by
      rw [← Bool.not_eq_true, List.contains_iff_mem]
      intro hmem
      rw [h entry.1 hmem] at htest
      cases htest
    simp only [Function.comp, htest, hkeep, Bool.not_false, Bool.and_self]

/-! ## The stages in front of the operator -/

theorem coerceKey_without (h : key ∉ excluded) (source p : Params) :
    (source.without excluded).coerceKey (p.without excluded) key
      = (·.without excluded) <$> source.coerceKey p key := by
  unfold coerceKey
  rw [getAll_without h]
  cases source.getAll key with
  | nil => rfl
  | cons value values =>
    cases hcoerced : (value :: values).mapM (coerceBoolean key) with
    | error error => simp only [hcoerced, bind, Except.bind, Functor.map, Except.map]
    | ok coerced =>
      simp only [hcoerced, bind, Except.bind, Functor.map, Except.map, without_setAll h]

theorem coerceBooleans_without {names : List String} (h : ∀ name ∈ names, name ∉ excluded)
    (p : Params) :
    (p.without excluded).coerceBooleans names
      = (·.without excluded) <$> p.coerceBooleans names := by
  unfold coerceBooleans
  -- the values stay those of the first parameters while the keys change one by one
  suffices hfold : ∀ q : Params,
      names.foldlM ((p.without excluded).coerceKey ·) (q.without excluded)
        = (·.without excluded) <$> names.foldlM (p.coerceKey ·) q from hfold p
  induction names with
  | nil => exact fun q => rfl
  | cons name names ih =>
    intro q
    rw [List.foldlM_cons, List.foldlM_cons, coerceKey_without (h name List.mem_cons_self) p q,
      map_bind, bind_map_left]
    exact bind_congr fun next => ih (fun n hn => h n (List.mem_cons_of_mem _ hn)) next

theorem without_pushAll_of_mem (h : key ∈ excluded) (values : List Json) :
    ∀ p : Params, (p.pushAll key values).without excluded = p.without excluded := by
  induction values with
  | nil => exact fun _ => rfl
  | cons value values ih =>
    intro p
    exact (ih (p.push key value)).trans (without_push_of_mem h p value)

theorem without_pushAll (h : key ∉ excluded) (values : List Json) :
    ∀ p : Params, (p.pushAll key values).without excluded
      = (p.without excluded).pushAll key values := by
  induction values with
  | nil => exact fun _ => rfl
  | cons value values ih =>
    intro p
    refine (ih (p.push key value)).trans ?_
    rw [without_push h]
    rfl

/-- Keys that are left out may be left out before aliases are replaced, if they stand for such keys and
no other key does. -/
theorem applyRenames_without {renames : Renames} {p : Params}
    (h : ∀ k ∈ p.keys, renames.targetOf k ∈ excluded ↔ k ∈ excluded) :
    (p.without excluded).applyRenames renames = (p.applyRenames renames).without excluded := by
  rw [applyRenames_eq_foldl, applyRenames_eq_foldl, without_eq]
  suffices hfold : ∀ (entries : List (String × List Json)) (acc : Params),
      (∀ e ∈ entries, renames.targetOf e.1 ∈ excluded ↔ e.1 ∈ excluded) →
        (entries.filter fun e => !excluded.contains e.1).foldl
            (fun acc e => acc.pushAll (renames.targetOf e.1) e.2) (acc.without excluded)
          = (entries.foldl (fun acc e => acc.pushAll (renames.targetOf e.1) e.2) acc).without
              excluded from
    hfold p.entries .empty fun e he => h e.1 (List.mem_map_of_mem he)
  intro entries
  induction entries with
  | nil => exact fun _ _ => rfl
  | cons entry rest ih =>
    intro acc hentries
    have hrest := ih (acc.pushAll (renames.targetOf entry.1) entry.2)
      fun e he => hentries e (List.mem_cons_of_mem _ he)
    have hentry := hentries entry List.mem_cons_self
    rw [List.foldl_cons, ← hrest, List.filter_cons]
    by_cases hmem : entry.1 ∈ excluded
    · have hkeep : (!excluded.contains entry.1) = false := by simpa using hmem
      rw [hkeep, if_neg Bool.false_ne_true, without_pushAll_of_mem (hentry.mpr hmem)]
    · have hkeep : (!excluded.contains entry.1) = true := by simpa using hmem
      rw [hkeep, if_pos rfl, List.foldl_cons, without_pushAll fun hm => hmem (hentry.mp hm)]

theorem without_expandOrder (h : orderParam ∈ excluded) (p : Params) (renames : Renames) :
    (p.expandOrder renames).without excluded = p.without excluded := by
  unfold expandOrder
  split
  · rfl
  · exact without_setAll_of_mem h p _

theorem expandOrder_without (p : Params) (renames : Renames) :
    (p.without excluded).expandOrder renames = (p.expandOrder renames).without excluded := by
  by_cases h : orderParam ∈ excluded
  · rw [without_expandOrder h, expandOrder, getAll_without_of_mem h]
  · unfold expandOrder
    rw [getAll_without h]
    cases p.getAll orderParam with
    | nil => rfl
    | cons value values => exact (without_setAll h p _).symm

end Params

/-- Keys that the transformer does not coerce may be left out before. -/
theorem Transformer.process_without {t : Transformer} {p : Params} {excluded : List String}
    (hbooleans : ∀ name ∈ t.booleans, name ∉ excluded)
    (h : ∀ k ∈ p.keys, t.renames.targetOf k ∈ excluded ↔ k ∈ excluded) :
    t.process (p.without excluded) = (·.without excluded) <$> t.process p := by
  rw [Transformer.process, Transformer.process, Params.coerceBooleans_without hbooleans,
    bind_map_left, map_bind]
  cases hcoerced : p.coerceBooleans t.booleans with
  | error error => rfl
  | ok coerced =>
    have hkeys := (Params.coerced_coerceBooleans hcoerced).keys
    refine congrArg Except.ok ?_
    rw [Params.applyRenames_without (hkeys ▸ h), Params.expandOrder_without]

/-- So may a single one, for which no other key stands. -/
theorem Transformer.process_without_key {t : Transformer} {p : Params} {key : String}
    (hboolean : key ∉ t.booleans) (hself : ∀ k ∈ p.keys, t.renames.targetOf k = key ↔ k = key) :
    t.process (p.without [key]) = (·.without [key]) <$> t.process p := by
  refine process_without ?_ ?_
  · intro name hname hmem
    exact hboolean (List.mem_singleton.mp hmem ▸ hname)
  · intro k hk
    rw [List.mem_singleton, List.mem_singleton]
    exact hself k hk

/-! ## Date bounds -/

section Dates

variable {excluded : List String}

theorem DateBounds.record_without {key : String} (h : key ∉ excluded) (b : DateBounds) (p : Params) :
    b.record (p.without excluded) key = b.record p key := by
  rw [DateBounds.record, DateBounds.record, Params.getText?_without h]

theorem DateBounds.ofParams_without (h : ∀ key ∈ excluded, isBoundKey key = false) (p : Params) :
    ofParams (p.without excluded) = ofParams p := by
  rw [ofParams, ofParams, Params.keys_without_filter h]
  suffices hfold : ∀ (keys : List String) (b : DateBounds), (∀ key ∈ keys, key ∉ excluded) →
      keys.foldlM (fun b key => b.record (p.without excluded) key) b
        = keys.foldlM (fun b key => b.record p key) b by
    refine hfold _ none fun key hkey hmem => ?_
    rw [List.mem_filter, h key hmem] at hkey
    exact Bool.false_ne_true hkey.2
  intro keys
  induction keys with
  | nil => exact fun _ _ => rfl
  | cons key keys ih =>
    intro b hkeys
    rw [List.foldlM_cons, List.foldlM_cons, record_without (hkeys key List.mem_cons_self)]
    exact bind_congr fun next => ih next fun k hk => hkeys k (List.mem_cons_of_mem _ hk)

theorem Scope.searchDates_without (h : ∀ key ∈ excluded, DateBounds.isBoundKey key = false)
    (s : Scope) (p : Params) (renames : Renames) :
    s.searchDates (p.without excluded) renames
      = (fun found => (found.1, found.2.without excluded)) <$> s.searchDates p renames := by
  unfold Scope.searchDates
  rw [DateBounds.ofParams_without h, Params.keys_without_filter h, Params.without_comm]
  rw [map_bind]
  refine bind_congr fun bounds => ?_
  cases bounds.field with
  | none => rfl
  | some field =>
    simp only [map_bind]
    refine bind_congr fun path => bind_congr fun lookup => ?_
    cases lookup with
    | none => rfl
    | some lookup => simp only [map_bind]; rfl

end Dates

end SchemaSearch
