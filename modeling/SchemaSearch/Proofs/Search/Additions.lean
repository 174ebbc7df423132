import Mathlib.Data.List.Induction
import SchemaSearch.Proofs.Search.Pairs

/-!
# Parameters from pairs

Parameters are made by adding pairs one after another, those of a query string and those whose aliases are
replaced.  Keys stand in the order in which they first come, each with its values in order.
-/

namespace SchemaSearch

open Query Schema

namespace Params

/-! ## Adding pairs -/

/-- Replacing aliases adds the pairs again, one after another. -/
theorem applyRenames_eq_ofPairs (p : Params) (renames : Renames) :
    p.applyRenames renames = ofPairs (p.pairs.map fun pair => (renames.targetOf pair.1, pair.2)) := by
  simp only [applyRenames, ofPairs, pairs, List.map_flatMap, List.foldl_flatMap, List.foldl_map]

theorem ofPairs_concat (pairs : List (String × Json)) (pair : String × Json) :
    ofPairs (pairs ++ [pair]) = (ofPairs pairs).push pair.1 pair.2 := by
  rw [ofPairs, List.foldl_append]
  rfl

/-- A name counts when it comes for the first time. -/
theorem eraseDups_concat (names : List String) (name : String) :
    (names ++ [name]).eraseDups
      = if name ∈ names.eraseDups then names.eraseDups else names.eraseDups ++ [name] := by
  rw [List.eraseDups_append]
  by_cases hmem : name ∈ names
  · rw [if_pos (List.mem_eraseDups.mpr hmem)]
    simp [List.removeAll, hmem]
  · rw [if_neg fun h => hmem (List.mem_eraseDups.mp h)]
    simp [List.removeAll, hmem, List.eraseDups_cons]

/-- Names that come once each all count. -/
theorem eraseDups_of_nodup {names : List String} (h : names.Nodup) : names.eraseDups = names := by
  induction names using List.reverseRecOn with
  | nil => rfl
  | append_singleton names name ih =>
    obtain ⟨hnames, _, hfresh⟩ := List.nodup_append.mp h
    have hnew : name ∉ names := fun hmem => hfresh name hmem name List.mem_cons_self rfl
    rw [eraseDups_concat, ih hnames, if_neg hnew]

/-- The keys of some pairs stand in the order in which they first come. -/
theorem keys_ofPairs (pairs : List (String × Json)) :
    (ofPairs pairs).keys = (pairs.map (·.1)).eraseDups := by
  induction pairs using List.reverseRecOn with
  | nil => rfl
  | append_singleton pairs pair ih =>
    rw [ofPairs_concat, keys_push, ih, List.map_append, List.map_singleton, eraseDups_concat]

theorem mem_keys_ofPairs {pairs : List (String × Json)} {key : String} :
    key ∈ (ofPairs pairs).keys ↔ key ∈ pairs.map (·.1) := by
  rw [keys_ofPairs, List.mem_eraseDups]

/-- Every path that has come up stands for some key that carries a value. -/
theorem mem_keys_applyRenames {p : Params} {renames : Renames} {key : String}
    (h : key ∈ (p.applyRenames renames).keys) :
    ∃ pair ∈ p.pairs, renames.targetOf pair.1 = key := by
  rw [applyRenames_eq_ofPairs, mem_keys_ofPairs, List.map_map] at h
  exact List.mem_map.mp h

/-- Among the keys that pass a test, only the pairs of such keys count. -/
theorem keys_ofPairs_filter (test : String → Bool) (pairs : List (String × Json)) :
    (ofPairs pairs).keys.filter test = (ofPairs (pairs.filter fun pair => test pair.1)).keys := by
  induction pairs using List.reverseRecOn with
  | nil => rfl
  | append_singleton pairs pair ih =>
    rw [ofPairs_concat, keys_push, List.filter_append]
    cases htest : test pair.1 with
    | true =>
      simp only [List.filter_cons, htest, List.filter_nil, if_true]
      rw [ofPairs_concat, keys_push, ← ih]
      by_cases hmem : pair.1 ∈ (ofPairs pairs).keys
      · rw [if_pos hmem, if_pos (List.mem_filter.mpr ⟨hmem, htest⟩)]
      · rw [if_neg hmem, if_neg fun h => hmem (List.mem_filter.mp h).1, List.filter_append]
        simp only [List.filter_cons, htest, List.filter_nil, if_true]
    | false =>
      simp only [List.filter_cons, htest, List.filter_nil, Bool.false_eq_true, if_false, List.append_nil]
      rw [← ih]
      split
      · rfl
      · simp [htest]

/-- The values of a key stand in the order in which they come. -/
theorem getAll_ofPairs (pairs : List (String × Json)) (key : String) :
    (ofPairs pairs).getAll key = (pairs.filter (·.1 == key)).map (·.2) := by
  induction pairs using List.reverseRecOn with
  | nil => rfl
  | append_singleton pairs pair ih =>
    rw [ofPairs_concat, List.filter_append, List.map_append, ← ih]
    by_cases hkey : pair.1 = key
    · subst hkey
      simp
    · rw [getAll_push_of_ne (Ne.symm hkey)]
      simp [hkey]

/-! ## Keys with values -/

theorem coerceKey_of_ne_nil {source p : Params} {key : String} (h : source.getAll key ≠ []) :
    source.coerceKey p key
      = (source.getAll key).mapM (coerceBoolean key) >>= fun coerced => .ok (p.setAll key coerced) := by
  rw [coerceKey]
  cases hvalues : source.getAll key with
  | nil => exact absurd hvalues h
  | cons value values => rfl

theorem expandOrder_of_ne_nil {p : Params} {renames : Renames} (h : p.getAll orderParam ≠ []) :
    p.expandOrder renames = p.setAll orderParam ((p.getAll orderParam).map renames.expandOrder) := by
  rw [expandOrder]
  cases hvalues : p.getAll orderParam with
  | nil => exact absurd hvalues h
  | cons value values => rfl

end Params

/-- Every key of transformed parameters is the path of some key that was sent with a value. -/
theorem Transformer.mem_keys_process {t : Transformer} {p q : Params} (hkeys : p.keys.Nodup)
    (h : t.process p = .ok q) {key : String} (hkey : key ∈ q.keys) :
    ∃ pair ∈ p.pairs, t.renames.targetOf pair.1 = key := by
  obtain ⟨coerced, hcoerced, rfl⟩ := process_eq_ok h
  rw [Params.keys_expandOrder] at hkey
  obtain ⟨pair, hpair, htarget⟩ := Params.mem_keys_applyRenames hkey
  rw [Params.pairs_coerceBooleans hkeys hcoerced] at hpair
  obtain ⟨sent, hsent, rfl⟩ := List.mem_map.mp hpair
  exact ⟨sent, hsent, htarget⟩

end SchemaSearch
