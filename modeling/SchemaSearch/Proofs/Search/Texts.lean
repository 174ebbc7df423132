import SchemaSearch.Proofs.Search.Additions

/-!
# Values as texts

A JSON body keeps numbers and booleans as they are typed, a query string has texts only.  Every stage in
front of the operator reads a scalar by its text, so writing all scalars as texts commutes with the stage.

Main statement: a search is narrowed alike by the parameters and by their texts
(`Narrowed.ofParams_asTexts`).
-/

namespace SchemaSearch

open Query Schema

namespace Json

/-- A scalar as its text; a value without a text form stays as it is. -/
def asText (value : Json) : Json :=
  match value.scalarText with
  | some s => .text s
  | none => value

@[simp] theorem asText_text (s : String) : asText (.text s) = .text s := rfl

theorem asText_of_scalarText {value : Json} {s : String} (h : value.scalarText = some s) :
    value.asText = .text s := by
  rw [asText, h]

theorem asText_eq_self {value : Json} (h : value.scalarText = none) : value.asText = value := by
  rw [asText, h]

@[simp] theorem scalarText_asText (value : Json) : value.asText.scalarText = value.scalarText := by
  cases h : value.scalarText with
  | some s => rw [asText_of_scalarText h, scalarText]
  | none => rw [asText_eq_self h, h]

@[simp] theorem shownText_asText (value : Json) : value.asText.shownText = value.shownText := by
  cases h : value.scalarText with
  | some s => rw [shownText, shownText, scalarText_asText, h, Option.getD_some, Option.getD_some]
  | none => rw [asText_eq_self h]

end Json

/-! ## Parameters -/

namespace Params

/-- The parameters with all scalars as texts. -/
def asTexts (p : Params) : Params := ⟨Table.mapValues (·.map Json.asText) p.entries⟩

@[simp] theorem keys_asTexts (p : Params) : p.asTexts.keys = p.keys := Table.keys_mapValues _ p.entries

@[simp] theorem getAll_asTexts (p : Params) (key : String) :
    p.asTexts.getAll key = (p.getAll key).map Json.asText := by
  rw [getAll, getAll, asTexts, Table.find?_mapValues]
  cases Table.find? key p.entries <;> rfl

theorem get?_asTexts (p : Params) (key : String) : p.asTexts.get? key = (p.get? key).map Json.asText := by
  rw [get?, get?, getAll_asTexts, List.getLast?_map]

@[simp] theorem getText?_asTexts (p : Params) (key : String) : p.asTexts.getText? key = p.getText? key := by
  rw [getText?, getText?, get?_asTexts]
  cases p.get? key with
  | none => rfl
  | some value => exact value.scalarText_asText

theorem asTexts_push (p : Params) (key : String) (value : Json) :
    (p.push key value).asTexts = p.asTexts.push key value.asText := by
  have hchange : ∀ values : List Json,
      (values ++ [value]).map Json.asText = values.map Json.asText ++ [value.asText] :=
    fun values => List.map_append
  exact congrArg Params.mk (Table.mapValues_upsert _ hchange key [value] p.entries)

theorem asTexts_setAll (p : Params) (key : String) (values : List Json) :
    (p.setAll key values).asTexts = p.asTexts.setAll key (values.map Json.asText) := by
  have hchange : ∀ old : List Json,
      ((fun _ => values) old).map Json.asText = (fun _ => values.map Json.asText) old := fun _ => rfl
  exact congrArg Params.mk (Table.mapValues_upsert _ hchange key values p.entries)

theorem asTexts_without (p : Params) (excluded : List String) :
    (p.without excluded).asTexts = p.asTexts.without excluded := by
  simp only [asTexts, without, Table.mapValues, List.filter_map]
  rfl

theorem pairs_asTexts (p : Params) :
    p.asTexts.pairs = p.pairs.map fun pair => (pair.1, pair.2.asText) := by
  simp only [pairs, asTexts, Table.mapValues, List.flatMap_map, List.map_flatMap, List.map_map,
    Function.comp_def]

/-- Pairs may be written as texts before they are added. -/
theorem ofPairs_asTexts (pairs : List (String × Json)) :
    ofPairs (pairs.map fun pair => (pair.1, pair.2.asText)) = (ofPairs pairs).asTexts := by
  induction pairs using List.reverseRecOn with
  | nil => rfl
  | append_singleton pairs pair ih =>
    rw [List.map_append, List.map_singleton, ofPairs_concat, ofPairs_concat, ih, asTexts_push]

/-! ## Booleans -/

theorem coerceBoolean_asText (field : String) (value : Json) :
    coerceBoolean field value.asText = coerceBoolean field value := by
  rw [coerceBoolean, coerceBoolean, Json.scalarText_asText, Json.shownText_asText]

/-- Coerced values are texts already. -/
theorem map_asText_of_coerced {name : String} {values coerced : List Json}
    (h : values.mapM (coerceBoolean name) = .ok coerced) : coerced.map Json.asText = coerced := by
  have hsame : ∀ value ∈ coerced, value.asText = id value := by
    intro value hvalue
    obtain ⟨sent, _, hsent⟩ := exists_mem_of_mapM h hvalue
    obtain ⟨b, _, rfl⟩ := classify_of_coerceBoolean hsent
    exact Json.asText_text _
  rw [List.map_congr_left hsame, List.map_id]

theorem coerceKey_asTexts (source p : Params) (key : String) :
    source.asTexts.coerceKey p.asTexts key = asTexts <$> source.coerceKey p key := by
  by_cases hvalues : source.getAll key = []
  · rw [coerceKey, coerceKey, getAll_asTexts, hvalues]
    rfl
  · have hvalues' : source.asTexts.getAll key ≠ [] := by
      rwa [getAll_asTexts, ne_eq, List.map_eq_nil_iff]
    rw [coerceKey_of_ne_nil hvalues', coerceKey_of_ne_nil hvalues, getAll_asTexts, List.mapM_map,
      show coerceBoolean key ∘ Json.asText = coerceBoolean key from funext (coerceBoolean_asText key)]
    cases hcoerced : (source.getAll key).mapM (coerceBoolean key) with
    | error error => rfl
    | ok coerced =>
      apply congrArg Except.ok
      rw [asTexts_setAll, map_asText_of_coerced hcoerced]

theorem coerceBooleans_asTexts (p : Params) (names : List String) :
    p.asTexts.coerceBooleans names = asTexts <$> p.coerceBooleans names := by
  unfold coerceBooleans
  -- the values stay those of the first parameters while the keys change one by one
  suffices hfold : ∀ q : Params, names.foldlM (p.asTexts.coerceKey ·) q.asTexts
      = asTexts <$> names.foldlM (p.coerceKey ·) q from hfold p
  induction names with
  | nil => exact fun q => rfl
  | cons name names ih =>
    intro q
    rw [List.foldlM_cons, List.foldlM_cons, coerceKey_asTexts, map_bind, bind_map_left]
    exact bind_congr ih

/-! ## Aliases -/

theorem applyRenames_asTexts (p : Params) (renames : Renames) :
    p.asTexts.applyRenames renames = (p.applyRenames renames).asTexts := by
  rw [applyRenames_eq_ofPairs, applyRenames_eq_ofPairs, pairs_asTexts, ← ofPairs_asTexts, List.map_map,
    List.map_map]
  rfl

theorem expandOrder_asText (renames : Renames) (value : Json) :
    renames.expandOrder value.asText = (renames.expandOrder value).asText := by
  rw [Renames.expandOrder, Renames.expandOrder, Json.scalarText_asText]
  cases value.scalarText.bind renames.expandText <;> rfl

theorem expandOrder_asTexts (p : Params) (renames : Renames) :
    p.asTexts.expandOrder renames = (p.expandOrder renames).asTexts := by
  unfold expandOrder
  rw [getAll_asTexts]
  cases p.getAll orderParam with
  | nil => rfl
  | cons value values =>
    simp only [List.map_cons, asTexts_setAll, List.map_map, Function.comp_def, expandOrder_asText]

end Params

theorem Transformer.process_asTexts (t : Transformer) (p : Params) :
    t.process p.asTexts = Params.asTexts <$> t.process p := by
  rw [process, process, Params.coerceBooleans_asTexts, bind_map_left, map_bind]
  apply bind_congr
  intro coerced
  rw [Params.applyRenames_asTexts, Params.expandOrder_asTexts]
  rfl

/-! ## Dates -/

theorem DateBounds.ofParams_asTexts (p : Params) : ofParams p.asTexts = ofParams p := by
  have hrecord : ∀ (b : DateBounds) (key : String), b.record p.asTexts key = b.record p key := by
    intro b key
    rw [record, record, Params.getText?_asTexts]
  rw [ofParams, ofParams, Params.keys_asTexts]
  congr 1
  funext b key
  exact hrecord b key

theorem Scope.searchDates_asTexts (s : Scope) (p : Params) (renames : Renames) :
    s.searchDates p.asTexts renames
      = (fun found => (found.1, found.2.asTexts)) <$> s.searchDates p renames := by
  unfold searchDates
  rw [DateBounds.ofParams_asTexts, Params.keys_asTexts, ← Params.asTexts_without, map_bind]
  apply bind_congr
  intro bounds
  cases bounds.field with
  | none => rfl
  | some field =>
    simp only [map_bind]
    apply bind_congr
    intro path
    apply bind_congr
    intro lookup
    cases lookup with
    | none => rfl
    | some lookup =>
      simp only [map_bind]
      rfl

/-! ## Narrowing -/

namespace Narrowed

/-- A narrowed search with the scalars that are left as texts. -/
def asTexts (n : Narrowed) : Narrowed := { n with params := n.params.asTexts }

/-- Texts narrow a search as the values do whose texts they are. -/
theorem ofParams_asTexts (r : Registry) (c : SearchConfig) (root : String) (p : Params) :
    ofParams r c root p.asTexts = asTexts <$> ofParams r c root p := by
  unfold ofParams
  rw [map_bind]
  apply bind_congr
  intro transformer
  rw [Transformer.process_asTexts, bind_map_left, map_bind]
  apply bind_congr
  intro transformed
  rw [Params.coerceBooleans_asTexts, bind_map_left, map_bind]
  apply bind_congr
  intro coerced
  rw [map_bind]
  apply bind_congr
  intro scope
  rw [Scope.searchDates_asTexts, bind_map_left, map_bind]
  apply bind_congr
  rintro ⟨narrowed, remaining⟩
  have hinactive : Prepared.asksForInactive c coerced.asTexts = Prepared.asksForInactive c coerced := by
    rw [Prepared.asksForInactive, Prepared.asksForInactive, Params.getText?_asTexts]
  simp only [hinactive]
  rfl

end Narrowed

end SchemaSearch
