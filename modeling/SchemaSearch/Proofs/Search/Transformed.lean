import SchemaSearch.Proofs.Outcome
import SchemaSearch.Proofs.Tables
import SchemaSearch.Search.Prepare

/-!
# Transformed parameters

What becomes of the values of one key while parameters are prepared.  Coercion keeps the keys and changes
a value only into the token of its own truth; replacing aliases gathers the values of every key that
stands for the same path; only `order_by` has its values rewritten.
-/

namespace SchemaSearch

open Query Schema

/-! ## Keys and values -/

namespace Params

theorem keys_push (p : Params) (key : String) (value : Json) :
    (p.push key value).keys = if key ∈ p.keys then p.keys else p.keys ++ [key] :=
  Table.keys_upsert key _ _ p.entries

theorem keys_setAll (p : Params) (key : String) (values : List Json) :
    (p.setAll key values).keys = if key ∈ p.keys then p.keys else p.keys ++ [key] :=
  Table.keys_upsert key _ _ p.entries

theorem mem_keys_push {p : Params} {key other : String} {value : Json} :
    other ∈ (p.push key value).keys ↔ other ∈ p.keys ∨ other = key := Table.mem_keys_upsert

theorem mem_keys_setAll {p : Params} {key other : String} {values : List Json} :
    other ∈ (p.setAll key values).keys ↔ other ∈ p.keys ∨ other = key := Table.mem_keys_upsert

theorem nodup_keys_push {p : Params} (h : p.keys.Nodup) (key : String) (value : Json) :
    (p.push key value).keys.Nodup := Table.nodup_keys_upsert h key _ _

theorem nodup_keys_setAll {p : Params} (h : p.keys.Nodup) (key : String) (values : List Json) :
    (p.setAll key values).keys.Nodup := Table.nodup_keys_upsert h key _ _

/-- Parameters that are made pair by pair hold no key twice. -/
theorem nodup_keys_ofPairs (pairs : List (String × Json)) : (ofPairs pairs).keys.Nodup := by
  suffices hfold : ∀ p : Params, p.keys.Nodup →
      (pairs.foldl (fun p (pair : String × Json) => p.push pair.1 pair.2) p).keys.Nodup from
    hfold empty List.nodup_nil
  induction pairs with
  | nil => exact fun _ h => h
  | cons pair pairs ih => exact fun p h => ih (p.push pair.1 pair.2) (nodup_keys_push h _ _)

theorem mem_keys_of_getAll {p : Params} {key : String} (h : p.getAll key ≠ []) : key ∈ p.keys := by
  by_cases hmem : key ∈ p.keys
  · exact hmem
  · refine absurd ?_ h
    rw [getAll, Table.find?_eq_none hmem]
    rfl

/-- A key that carries values stands with them. -/
theorem mem_entries_of_getAll {p : Params} {key : String} (h : p.getAll key ≠ []) :
    (key, p.getAll key) ∈ p.entries := by
  cases hfound : Table.find? key p.entries with
  | none =>
    rw [getAll, hfound] at h
    exact absurd rfl h
  | some values =>
    rw [getAll, hfound]
    exact Table.mem_of_find? hfound

theorem getAll_single (key : String) (values : List Json) : getAll ⟨[(key, values)]⟩ key = values := by
  simp only [getAll, Table.find?, if_true, Option.getD_some]

theorem getAll_single_of_ne {key other : String} (h : key ≠ other) (values : List Json) :
    getAll ⟨[(key, values)]⟩ other = [] := by
  simp only [getAll, Table.find?, h, if_false, Option.getD_none]

/-- Setting the values that a key has changes nothing. -/
theorem setAll_self {p : Params} {key : String} (h : p.getAll key ≠ []) : p.setAll key (p.getAll key) = p := by
  cases hfound : Table.find? key p.entries with
  | none =>
    rw [getAll, hfound] at h
    exact absurd rfl h
  | some values =>
    rw [getAll, hfound]
    exact congrArg Params.mk (Table.insert_self hfound)

/-- A key that is there keeps its place when its values are set. -/
theorem keys_setAll_of_mem {p : Params} {key : String} (h : key ∈ p.keys) (values : List Json) :
    (p.setAll key values).keys = p.keys := by
  rw [keys_setAll, if_pos h]

/-- Where no key comes twice, the entries of a key hold what it carries. -/
theorem flatMap_entries {p : Params} (h : p.keys.Nodup) (key : String) :
    (p.entries.flatMap fun e => if e.1 = key then e.2 else []) = p.getAll key := by
  obtain ⟨entries⟩ := p
  induction entries with
  | nil => rfl
  | cons entry rest ih =>
    obtain ⟨hfresh, hrest⟩ := List.nodup_cons.mp h
    rw [List.flatMap_cons, ih hrest]
    by_cases hk : entry.1 = key
    · have hnone : getAll ⟨rest⟩ key = [] := by
        rw [getAll, Table.find?_eq_none (hk ▸ hfresh)]
        rfl
      rw [hnone, if_pos hk, List.append_nil]
      simp only [getAll, Table.find?, hk, if_true, Option.getD_some]
    · simp only [hk, if_false, List.nil_append, getAll, Table.find?]

/-! ## Coercion -/

/-- Whether the last value of a key is a token for true. -/
def lastIsTrue (p : Params) (key : String) : Bool :=
  (p.getText? key).bind classifyBoolean == some true

/-- One set of parameters is another after coercion: the keys stay, and so do the values of a key, or all
of them are coerced. -/
structure Coerced (p q : Params) : Prop where
  keys : q.keys = p.keys
  values : ∀ key, q.getAll key = p.getAll key
    ∨ (p.getAll key).mapM (coerceBoolean key) = .ok (q.getAll key)

theorem coerced_coerceKey {p q q' : Params} {name : String} (hq : Coerced p q)
    (h : p.coerceKey q name = .ok q') : Coerced p q' := by
  unfold coerceKey at h
  split at h
  · cases h
    exact hq
  · rename_i hvalues
    obtain ⟨coerced, hcoerced, h⟩ := bind_eq_ok h
    cases h
    -- the values are those of `p`, and `q` has its keys
    have hmem : name ∈ q.keys := hq.keys ▸ mem_keys_of_getAll hvalues
    refine ⟨(keys_setAll_of_mem hmem coerced).trans hq.keys, ?_⟩
    intro key
    by_cases hkey : key = name
    · subst hkey
      rw [getAll_setAll_self]
      exact .inr hcoerced
    · rw [getAll_setAll_of_ne hkey]
      exact hq.values key

theorem coerced_coerceBooleans {p q : Params} {names : List String}
    (h : p.coerceBooleans names = .ok q) : Coerced p q :=
  foldlM_invariant (fun _ _ _ _ hstart hstep => coerced_coerceKey hstart hstep)
    ⟨rfl, fun _ => .inl rfl⟩ h

/-- Coercion leaves all other keys alone. -/
theorem getAll_coerceBooleans {p q : Params} {names : List String} {key : String}
    (hkey : key ∉ names) (h : p.coerceBooleans names = .ok q) : q.getAll key = p.getAll key := by
  refine foldlM_invariant (P := fun q => q.getAll key = p.getAll key) ?_ rfl h
  intro name hname start next hstart hnext
  have hne : key ≠ name := by
    rintro rfl
    exact hkey hname
  unfold coerceKey at hnext
  split at hnext
  · cases hnext
    exact hstart
  · obtain ⟨coerced, _, hnext⟩ := bind_eq_ok hnext
    cases hnext
    exact (getAll_setAll_of_ne hne start coerced).trans hstart

/-- Where every value that is coerced is its own token, nothing changes. -/
theorem coerceBooleans_of_tokens {p : Params} {names : List String}
    (h : ∀ name ∈ names, ∀ value ∈ p.getAll name, coerceBoolean name value = .ok value) :
    p.coerceBooleans names = .ok p := by
  unfold coerceBooleans
  induction names with
  | nil => rfl
  | cons name names ih =>
    have hfirst : p.coerceKey p name = .ok p := by
      unfold coerceKey
      split
      · rfl
      · rename_i hvalues
        rw [mapM_eq_self (h name List.mem_cons_self), ok_bind, setAll_self hvalues]
    rw [List.foldlM_cons, hfirst, ok_bind]
    exact ih fun other hother => h other (List.mem_cons_of_mem name hother)

/-- Where no key that is coerced carries a value, nothing changes. -/
theorem coerceBooleans_eq_self {p : Params} {names : List String}
    (h : ∀ name ∈ names, p.getAll name = []) : p.coerceBooleans names = .ok p := by
  refine coerceBooleans_of_tokens fun name hname value hvalue => ?_
  rw [h name hname] at hvalue
  cases hvalue

/-- A value that is no boolean token stops the coercion of its key. -/
theorem coerceBooleans_ne_ok {p : Params} {names : List String} {key : String} {value : Json}
    (hkey : key ∈ names) (hvalue : p.getAll key = [value])
    (htoken : value.scalarText.bind classifyBoolean = none) (q : Params) :
    p.coerceBooleans names ≠ .ok q := by
  intro h
  obtain ⟨start, next, hnext⟩ := step_of_foldlM hkey h
  simp only [coerceKey, hvalue, List.mapM_cons, coerceBoolean, htoken] at hnext
  cases hnext

/-- A coerced value is the token of the truth it had. -/
theorem classify_of_coerceBoolean {name : String} {value coerced : Json}
    (h : coerceBoolean name value = .ok coerced) :
    ∃ b, value.scalarText.bind classifyBoolean = some b ∧ coerced = .text (if b then "1" else "0") := by
  unfold coerceBoolean at h
  split at h
  · rename_i htoken
    cases h
    exact ⟨true, htoken, rfl⟩
  · rename_i htoken
    cases h
    exact ⟨false, htoken, rfl⟩
  · cases h

/-- Coercion keeps the truth of every last value. -/
theorem Coerced.lastIsTrue_eq {p q : Params} (h : Coerced p q) (key : String) :
    q.lastIsTrue key = p.lastIsTrue key := by
  unfold lastIsTrue getText? get?
  rcases h.values key with hsame | hcoerced
  · rw [hsame]
  · rcases getLast?_of_mapM hcoerced with ⟨hp, hq⟩ | ⟨value, coerced, hp, hq, hvalue⟩
    · rw [hp, hq]
    · obtain ⟨b, hb, rfl⟩ := classify_of_coerceBoolean hvalue
      rw [hp, hq]
      show ((Json.text _).scalarText.bind classifyBoolean == some true)
        = (value.scalarText.bind classifyBoolean == some true)
      rw [hb]
      cases b <;> decide

/-- Coercion does not take the values of a key away. -/
theorem Coerced.getAll_ne_nil {p q : Params} (h : Coerced p q) {key : String}
    (hkey : p.getAll key ≠ []) : q.getAll key ≠ [] := by
  rcases h.values key with hsame | hcoerced
  · rwa [hsame]
  · rcases getLast?_of_mapM hcoerced with ⟨hp, _⟩ | ⟨_, coerced, _, hq, _⟩
    · exact absurd hp hkey
    · intro hnil
      rw [hnil] at hq
      cases hq

/-! ## Aliases -/

/-- The values of one key, added one after another. -/
def pushAll (p : Params) (key : String) (values : List Json) : Params :=
  values.foldl (fun acc value => acc.push key value) p

/-- Replacing aliases adds the entries again, one after another, each under the path it stands for. -/
theorem applyRenames_eq_foldl (p : Params) (renames : Renames) :
    p.applyRenames renames
      = p.entries.foldl (fun acc e => acc.pushAll (renames.targetOf e.1) e.2) .empty := rfl

theorem getAll_pushAll (key other : String) (values : List Json) :
    ∀ p : Params, (p.pushAll other values).getAll key
      = p.getAll key ++ if other = key then values else [] := by
  induction values with
  | nil =>
    intro p
    rw [ite_self, List.append_nil]
    rfl
  | cons value values ih =>
    intro p
    refine (ih (p.push other value)).trans ?_
    by_cases hkey : other = key
    · subst hkey
      rw [getAll_push_self, if_pos rfl, if_pos rfl, List.append_assoc]
      rfl
    · rw [getAll_push_of_ne (Ne.symm hkey), if_neg hkey, if_neg hkey]

/-- Once aliases are replaced, a key carries the values of all keys that stand for it. -/
theorem getAll_applyRenames (p : Params) (renames : Renames) (key : String) :
    (p.applyRenames renames).getAll key
      = p.entries.flatMap fun e => if renames.targetOf e.1 = key then e.2 else [] := by
  rw [applyRenames_eq_foldl]
  suffices hfold : ∀ (entries : List (String × List Json)) (acc : Params),
      (entries.foldl (fun acc e => acc.pushAll (renames.targetOf e.1) e.2) acc).getAll key
        = acc.getAll key ++ entries.flatMap fun e => if renames.targetOf e.1 = key then e.2 else [] from
    hfold p.entries .empty
  intro entries
  induction entries with
  | nil => exact fun acc => (List.append_nil _).symm
  | cons entry rest ih =>
    intro acc
    rw [List.foldl_cons, ih, getAll_pushAll, List.flatMap_cons, List.append_assoc]

/-- A key that stands for itself, and that no other key stands for, keeps its values. -/
theorem getAll_applyRenames_self {p : Params} {renames : Renames} {key : String} (hkeys : p.keys.Nodup)
    (hself : ∀ k ∈ p.keys, renames.targetOf k = key ↔ k = key) :
    (p.applyRenames renames).getAll key = p.getAll key := by
  rw [getAll_applyRenames, ← flatMap_entries hkeys]
  rw [List.flatMap_def, List.flatMap_def]
  refine congrArg List.flatten (List.map_congr_left fun e he => ?_)
  simp only [hself e.1 (List.mem_map_of_mem he)]

/-- What a key carries is carried by the path it stands for. -/
theorem getAll_applyRenames_ne_nil {p : Params} {key : String} (renames : Renames)
    (hkey : p.getAll key ≠ []) : (p.applyRenames renames).getAll (renames.targetOf key) ≠ [] := by
  rw [getAll_applyRenames]
  obtain ⟨entries⟩ := p
  induction entries with
  | nil => exact absurd rfl hkey
  | cons entry rest ih =>
    rw [List.flatMap_cons]
    intro hnil
    obtain ⟨hfirst, hrest⟩ := List.append_eq_nil_iff.mp hnil
    by_cases hk : entry.1 = key
    · rw [hk, if_pos rfl] at hfirst
      refine hkey ?_
      simp only [getAll, Table.find?, hk, if_true, hfirst, Option.getD_some]
    · refine ih ?_ hrest
      simpa only [getAll, Table.find?, hk, if_false] using hkey

theorem getAll_expandOrder {key : String} (h : key ≠ orderParam) (p : Params) (renames : Renames) :
    (p.expandOrder renames).getAll key = p.getAll key := by
  unfold expandOrder
  split
  · rfl
  · exact getAll_setAll_of_ne h p _

theorem getAll_expandOrder_ne_nil {p : Params} {key : String} (renames : Renames)
    (hkey : p.getAll key ≠ []) : (p.expandOrder renames).getAll key ≠ [] := by
  unfold expandOrder
  split
  · exact hkey
  · rename_i hvalues
    by_cases horder : key = orderParam
    · subst horder
      rw [getAll_setAll_self]
      exact fun hnil => hvalues (List.map_eq_nil_iff.mp hnil)
    · rwa [getAll_setAll_of_ne horder]

end Params

/-! ## The whole transformation -/

section Process

variable {t : Transformer} {p q : Params} {key : String}

/-- The stages of a transformation. -/
theorem process_eq_ok (h : t.process p = .ok q) :
    ∃ coerced, p.coerceBooleans t.booleans = .ok coerced
      ∧ q = (coerced.applyRenames t.renames).expandOrder t.renames := by
  obtain ⟨coerced, hcoerced, h⟩ := bind_eq_ok h
  cases h
  exact ⟨coerced, hcoerced, rfl⟩

/-- Up to coercion, a key that only stands for itself keeps its values. -/
theorem getAll_process (h : t.process p = .ok q) (hkeys : p.keys.Nodup) (horder : key ≠ orderParam)
    (hself : ∀ k ∈ p.keys, t.renames.targetOf k = key ↔ k = key) :
    ∃ coerced, p.coerceBooleans t.booleans = .ok coerced ∧ q.getAll key = coerced.getAll key := by
  obtain ⟨coerced, hcoerced, rfl⟩ := process_eq_ok h
  have hsame := (Params.coerced_coerceBooleans hcoerced).keys
  refine ⟨coerced, hcoerced, ?_⟩
  rw [Params.getAll_expandOrder horder, Params.getAll_applyRenames_self (hsame ▸ hkeys)]
  exact hsame ▸ hself

/-- The truth of the last value of such a key stays. -/
theorem lastIsTrue_process (h : t.process p = .ok q) (hkeys : p.keys.Nodup)
    (horder : key ≠ orderParam)
    (hself : ∀ k ∈ p.keys, t.renames.targetOf k = key ↔ k = key) :
    q.lastIsTrue key = p.lastIsTrue key := by
  obtain ⟨coerced, hcoerced, hvalues⟩ := getAll_process h hkeys horder hself
  rw [← (Params.coerced_coerceBooleans hcoerced).lastIsTrue_eq key]
  simp only [Params.lastIsTrue, Params.getText?, Params.get?, hvalues]

/-- What a key carries goes to the path it stands for. -/
theorem getAll_process_ne_nil (h : t.process p = .ok q) (hkey : p.getAll key ≠ []) :
    q.getAll (t.renames.targetOf key) ≠ [] := by
  obtain ⟨coerced, hcoerced, rfl⟩ := process_eq_ok h
  refine Params.getAll_expandOrder_ne_nil t.renames ?_
  exact Params.getAll_applyRenames_ne_nil t.renames
    ((Params.coerced_coerceBooleans hcoerced).getAll_ne_nil hkey)

end Process

/-- Inactive records are asked for where the last value of the parameter was a token for true. -/
theorem asksForInactive_coerced {c : SearchConfig} {p q : Params}
    (h : p.coerceBooleans [c.includeInactiveParam] = .ok q) :
    Prepared.asksForInactive c q = p.lastIsTrue c.includeInactiveParam := by
  obtain ⟨next, hnext, h⟩ := bind_eq_ok h
  cases h
  change p.coerceKey p c.includeInactiveParam = .ok q at hnext
  unfold Params.coerceKey at hnext
  unfold Prepared.asksForInactive Params.lastIsTrue Params.getText? Params.get?
  split at hnext
  · rename_i hnone
    cases hnext
    rw [hnone]
    rfl
  · rename_i hvalues
    obtain ⟨coerced, hcoerced, hnext⟩ := bind_eq_ok hnext
    cases hnext
    rw [Params.getAll_setAll_self]
    rcases getLast?_of_mapM hcoerced with ⟨hnone, _⟩ | ⟨value, last, hp, hq, hvalue⟩
    · exact absurd hnone hvalues
    · obtain ⟨b, hb, rfl⟩ := Params.classify_of_coerceBoolean hvalue
      rw [hp, hq]
      show (some _ == some "1") = (value.scalarText.bind classifyBoolean == some true)
      rw [hb]
      cases b <;> decide

end SchemaSearch
