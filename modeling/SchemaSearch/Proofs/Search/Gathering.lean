import SchemaSearch.Proofs.Search.Marks

/-!
# Gathered values

A transformation takes every value along to the path that its key stands for.  Nothing is lost and nothing
is made up: where several keys stand for one path, their values are put one after another, and no value
changes but that of a boolean field, which becomes the token of its truth.

Main statement: what every key carries once parameters are transformed, which keys there are and in which
order, when a transformation fails, and which value its error names (`process_gathers`).
-/

namespace SchemaSearch

open Schema

/-! ## Values that are no tokens -/

/-- An error names a value that was sent under one of some keys and is no token. -/
def Params.NamesNoToken (p : Params) (names : List String) (error : SearchError) : Prop :=
  ∃ name ∈ names, ∃ value ∈ p.getAll name, value.scalarText.bind classifyBoolean = none
    ∧ error = .invalidBoolean name value.shownText

/-- Coercion fails by naming such a value, if it does. -/
theorem Params.coerceBooleans_namesNoToken (p : Params) (names : List String) :
    FailsOnly (p.NamesNoToken names) (p.coerceBooleans names) := by
  refine FailsOnly.foldlM (fun name hname start => ?_) p
  unfold coerceKey
  split
  · exact .ok _
  · refine (FailsOnly.mapM fun value hvalue => ?_).bind fun _ _ => .ok _
    unfold coerceBoolean
    split
    · exact .ok _
    · exact .ok _
    · rename_i htoken
      exact .error ⟨name, hname, value, hvalue, htoken, rfl⟩

/-! ## The keys of gathered values -/

namespace Params

/-- Adding values to a key brings it in, unless it is there or there are none. -/
theorem keys_pushAll (key : String) (values : List Json) :
    ∀ p : Params, (p.pushAll key values).keys
      = if values.isEmpty ∨ key ∈ p.keys then p.keys else p.keys ++ [key] := by
  induction values with
  | nil => exact fun p => (if_pos (.inl rfl)).symm
  | cons value values ih =>
    intro p
    have hthere : key ∈ (p.push key value).keys := mem_keys_push.mpr (.inr rfl)
    refine (ih (p.push key value)).trans ?_
    rw [if_pos (.inr hthere), keys_push]
    simp only [List.isEmpty_cons, Bool.false_eq_true, false_or]

/-- Once aliases are replaced, the keys are the paths of keys with values, each where it first comes. -/
theorem keys_applyRenames (p : Params) (renames : Renames) :
    (p.applyRenames renames).keys
      = ((p.entries.filter fun entry => !entry.2.isEmpty).map fun entry =>
          renames.targetOf entry.1).eraseDups := by
  rw [applyRenames_eq_foldl]
  induction p.entries using List.reverseRecOn with
  | nil => rfl
  | append_singleton entries entry ih =>
    rw [List.foldl_append, List.foldl_cons, List.foldl_nil, keys_pushAll, ih, List.filter_append,
      List.map_append]
    cases hvalues : entry.2.isEmpty with
    | true => simp [hvalues]
    | false =>
      simp only [List.filter_cons, hvalues, Bool.not_false, if_true, List.filter_nil, List.map_cons,
        List.map_nil, eraseDups_concat, Bool.false_eq_true, false_or]

end Params

/-! ## What is gathered -/

/-- One set of parameters is gathered from another along some aliases. -/
structure Params.GatheredFrom (booleans : List String) (renames : Renames) (p q : Params) : Prop where
  /-- Under each path there stand the values of every key that stands for it, key by key. -/
  values : ∀ path, path ≠ orderParam →
    q.getAll path = p.keys.flatMap fun key =>
      if renames.targetOf key = path then p.coercedValues booleans key else []
  /-- The keys are the paths of keys with values, each where it first comes. -/
  keys : q.keys = ((p.keys.filter fun key => !(p.getAll key).isEmpty).map renames.targetOf).eraseDups
  distinct : q.keys.Nodup
  /-- A value of a boolean field is taken along as the token of the truth that it has. -/
  tokens : ∀ key ∈ booleans, ∀ value ∈ p.getAll key, ∃ b,
    value.scalarText.bind classifyBoolean = some b ∧ value.asToken = .text (if b then "1" else "0")

section Gathers

variable {t : Transformer} {p q : Params}

/-- A transformation goes well if every boolean field is sent tokens only. -/
theorem Transformer.exists_process_iff :
    (∃ q, t.process p = .ok q) ↔ ∀ key ∈ t.booleans, p.CarriesTokens key := by
  rw [← Params.exists_coerceBooleans_iff]
  constructor
  · rintro ⟨q, hq⟩
    obtain ⟨coerced, hcoerced, _⟩ := process_eq_ok hq
    exact ⟨coerced, hcoerced⟩
  · rintro ⟨coerced, hcoerced⟩
    rw [process, hcoerced]
    exact ⟨_, rfl⟩

/-- Then it gathers. -/
theorem Transformer.gatheredFrom (hkeys : p.keys.Nodup) (h : t.process p = .ok q) :
    Params.GatheredFrom t.booleans t.renames p q := by
  obtain ⟨coerced, hcoerced, rfl⟩ := process_eq_ok h
  have hentries := Params.entries_coerceBooleans hkeys hcoerced
  have hnames : ((coerced.applyRenames t.renames).expandOrder t.renames).keys
      = ((p.keys.filter fun key => !(p.getAll key).isEmpty).map t.renames.targetOf).eraseDups := by
    rw [Params.keys_expandOrder, Params.keys_applyRenames, hentries, List.filter_map, List.map_map]
    simp only [Function.comp_def, Params.coercedValues, List.isEmpty_map]
  constructor
  case keys => exact hnames
  case values =>
    intro path hpath
    rw [Params.getAll_expandOrder hpath, Params.getAll_applyRenames, hentries, List.flatMap_map]
  case distinct =>
    rw [Params.keys_expandOrder, Params.applyRenames_eq_ofPairs]
    exact Params.nodup_keys_ofPairs _
  case tokens =>
    intro key hkey value hvalue
    have htokens := Params.exists_coerceBooleans_iff.mp ⟨coerced, hcoerced⟩ key hkey
    obtain ⟨b, hb⟩ := Option.isSome_iff_exists.mp (htokens value hvalue)
    exact ⟨b, hb, Json.asToken_of_token hb⟩

end Gathers

/-- Along the aliases of a root a transformation gathers what was sent: under every path but `order_by` stand
the values of all keys that stand for it, in the order of those keys, unchanged but for the values of boolean
fields of the root and of what it reaches, which become tokens.  It fails if and only if such a field is sent
a value that is no token, and its error names such a field and such a value. -/
theorem process_gathers {r : Registry} {root : String} {e : Entity} {t : Transformer}
    (hroot : r.get? root = some e) (ht : Transformer.ofRoot r root = .ok t) (p : Params)
    (hkeys : p.keys.Nodup) :
    (∀ q, t.process p = .ok q → Params.GatheredFrom (r.booleanPaths e) (r.mergedRenames e) p q)
      ∧ ((∃ error, t.process p = .error error) ↔ ∃ key ∈ r.booleanPaths e, ¬ p.CarriesTokens key)
      ∧ ∀ error, t.process p = .error error → p.NamesNoToken (r.booleanPaths e) error := by
  obtain ⟨e', he', hrenames, hbooleans⟩ := Transformer.ofRoot_eq_ok ht
  obtain ⟨root', hroot', hmerged, _⟩ := Registry.renames_eq_ok hrenames
  cases hroot.symm.trans he'
  cases hroot.symm.trans hroot'
  rw [← hbooleans, ← hmerged]
  have hnames : FailsOnly (p.NamesNoToken t.booleans) (t.process p) :=
    (p.coerceBooleans_namesNoToken t.booleans).bind fun _ _ => .ok _
  refine ⟨fun q => Transformer.gatheredFrom hkeys, ⟨?_, ?_⟩, hnames⟩
  · rintro ⟨error, herror⟩
    obtain ⟨key, hkey, value, hvalue, htoken, _⟩ := hnames error herror
    refine ⟨key, hkey, fun htokens => ?_⟩
    have hsome := htokens value hvalue
    rw [htoken] at hsome
    cases hsome
  · rintro ⟨key, hkey, htokens⟩
    exact exists_error fun q hq => htokens (Transformer.exists_process_iff.mp ⟨q, hq⟩ key hkey)

/-- Two keys that stand for one path, with values of any type, a boolean field with two values, and a key
without any. -/
def billingSetup : Params :=
  ⟨[("topics__title", [.text "billing"]), ("is_active", [.text "Yes", .bool false]), ("title", []),
    ("topic", [.text "setup", .list [.null]])]⟩

theorem process_gathers_sample :
    ∃ t, Transformer.ofRoot Service.registry "questions" = .ok t
      ∧ (∃ q, t.process billingSetup = .ok q
          ∧ q.keys = ["topics__title", "is_active"]
          ∧ q.getAll "topics__title" = [.text "billing", .text "setup", .list [.null]]
          ∧ q.getAll "is_active" = [.text "1", .text "0"])
      ∧ ∃ error, t.process ⟨[("topic", [.text "setup"]), ("is_active", [.text "1", .text "maybe"])]⟩
          = .error error := by
  have hroot : Service.registry.get? "questions" = some _ := rfl
  have ht : Transformer.ofRoot Service.registry "questions" = .ok ⟨_, _⟩ := rfl
  refine ⟨_, ht, ⟨_, rfl, ?_⟩, ?_⟩
  · have hgathered := (process_gathers hroot ht billingSetup (by decide)).1 _ rfl
    exact ⟨hgathered.keys, hgathered.values "topics__title" (by decide),
      hgathered.values "is_active" (by decide)⟩
  · refine (process_gathers hroot ht _ (by decide)).2.1.mpr ⟨"is_active", by decide, ?_⟩
    unfold Params.CarriesTokens
    decide

end SchemaSearch
