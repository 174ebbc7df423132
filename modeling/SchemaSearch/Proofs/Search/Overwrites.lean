import SchemaSearch.Proofs.Search.Gathering
import SchemaSearch.Proofs.Search.Substituted

/-!
# Overwriting the values of a key

Overwriting the values of one key may be done before or after anything that is done to another key.  So where
no stage in front of the search looks at a key, and no other key stands for its path, it is all the same
whether its values are overwritten before these stages or behind them.

Main statement: a search is narrowed to the same scope whatever the values of such a key are, and they come
through under its path (`Narrowed.ofParams_setAll`).
-/

namespace SchemaSearch

open Schema

/-! ## Tables -/

namespace Table

variable {β : Type} {key other : String} {change change' : β → β} {fresh fresh' : β}

/-- Two updates of a key are one. -/
theorem upsert_upsert (entries : List (String × β)) :
    upsert key change' fresh' (upsert key change fresh entries)
      = upsert key (change' ∘ change) (change' fresh) entries := by
  induction entries with
  | nil => exact if_pos rfl
  | cons entry rest ih =>
    obtain ⟨k, v⟩ := entry
    by_cases hk : k = key
    · simp only [upsert, hk, if_true, Function.comp]
    · simp only [upsert, hk, if_false, ih]

/-- Updates of two keys commute if one of them is there. -/
theorem upsert_comm {entries : List (String × β)} (hne : other ≠ key) (hkey : key ∈ keys entries) :
    upsert other change' fresh' (upsert key change fresh entries)
      = upsert key change fresh (upsert other change' fresh' entries) := by
  induction entries with
  | nil => cases hkey
  | cons entry rest ih =>
    obtain ⟨k, v⟩ := entry
    by_cases hk : k = key
    · subst hk
      simp only [upsert, if_true, hne.symm, if_false]
    · have hrest : key ∈ keys rest := (List.mem_cons.mp hkey).resolve_left (Ne.symm hk)
      by_cases ho : k = other
      · simp only [upsert, ho, hne, if_true, if_false]
      · simp only [upsert, hk, ho, if_false, ih hrest]

end Table

/-! ## Parameters -/

namespace Params

variable {key other : String} {p : Params} {values values' : List Json}

theorem setAll_setAll (p : Params) (key : String) (values values' : List Json) :
    (p.setAll key values).setAll key values' = p.setAll key values' :=
  congrArg Params.mk (Table.upsert_upsert p.entries)

theorem setAll_comm (hne : other ≠ key) (hkey : key ∈ p.keys) (values values' : List Json) :
    (p.setAll key values).setAll other values' = (p.setAll other values').setAll key values :=
  congrArg Params.mk (Table.upsert_comm hne hkey)

theorem setAll_push (hne : other ≠ key) (hkey : key ∈ p.keys) (values : List Json) (value : Json) :
    (p.setAll key values).push other value = (p.push other value).setAll key values :=
  congrArg Params.mk (Table.upsert_comm hne hkey)

theorem setAll_push_self (p : Params) (key : String) (values : List Json) (value : Json) :
    (p.setAll key values).push key value = p.setAll key (values ++ [value]) :=
  congrArg Params.mk (Table.upsert_upsert p.entries)

/-- The first value of a key that is not there. -/
theorem push_of_not_mem (h : key ∉ p.keys) (value : Json) : p.push key value = p.setAll key [value] := by
  unfold push setAll Table.insert
  rw [Table.upsert_of_not_mem _ _ h, Table.upsert_of_not_mem _ _ h]

theorem pushAll_setAll (hne : other ≠ key) (values values' : List Json) :
    ∀ {p : Params}, key ∈ p.keys →
      (p.setAll key values).pushAll other values' = (p.pushAll other values').setAll key values := by
  induction values' with
  | nil => exact fun _ => rfl
  | cons value values' ih =>
    intro p hkey
    have hmem : key ∈ (p.push other value).keys := mem_keys_push.mpr (.inl hkey)
    refine Eq.trans ?_ (ih hmem)
    exact congrArg (fun q : Params => q.pushAll other values') (setAll_push hne hkey values value)

/-- Values are added behind those that are there. -/
theorem pushAll_setAll_self (key : String) (values' : List Json) : ∀ (p : Params) (values : List Json),
    (p.setAll key values).pushAll key values' = p.setAll key (values ++ values') := by
  induction values' with
  | nil => exact fun p values => by rw [List.append_nil]; rfl
  | cons value values' ih =>
    intro p values
    refine Eq.trans (congrArg (fun q : Params => q.pushAll key values') (setAll_push_self p key values value)) ?_
    rw [ih, List.append_assoc]
    rfl

theorem pushAll_of_not_mem (h : key ∉ p.keys) (hvalues : values ≠ []) :
    p.pushAll key values = p.setAll key values := by
  obtain ⟨value, rest, rfl⟩ := List.exists_cons_of_ne_nil hvalues
  refine Eq.trans (congrArg (fun q : Params => q.pushAll key rest) (push_of_not_mem h value)) ?_
  rw [pushAll_setAll_self]
  rfl

/-! ## The stages in front of the search -/

theorem coerceKey_setAll (hne : other ≠ key) (hkey : key ∈ p.keys) (source : Params) (values : List Json) :
    (source.setAll key values).coerceKey (p.setAll key values) other
      = (·.setAll key values) <$> source.coerceKey p other := by
  unfold coerceKey
  rw [getAll_setAll_of_ne hne]
  cases source.getAll other with
  | nil => rfl
  | cons first rest =>
    cases hcoerced : (first :: rest).mapM (coerceBoolean other) with
    | error error => simp only [hcoerced, bind, Except.bind, Functor.map, Except.map]
    | ok coerced =>
      simp only [hcoerced, bind, Except.bind, Functor.map, Except.map, setAll_comm hne hkey]

theorem mem_keys_coerceKey {source q : Params} (h : source.coerceKey p other = .ok q) (hkey : key ∈ p.keys) :
    key ∈ q.keys := by
  unfold coerceKey at h
  split at h
  · cases h
    exact hkey
  · obtain ⟨coerced, _, h⟩ := bind_eq_ok h
    cases h
    exact mem_keys_setAll.mpr (.inl hkey)

theorem coerceBooleans_setAll {names : List String} (hnames : key ∉ names) (hkey : key ∈ p.keys)
    (values : List Json) :
    (p.setAll key values).coerceBooleans names = (·.setAll key values) <$> p.coerceBooleans names := by
  unfold coerceBooleans
  suffices hfold : ∀ q : Params, key ∈ q.keys →
      names.foldlM ((p.setAll key values).coerceKey ·) (q.setAll key values)
        = (·.setAll key values) <$> names.foldlM (p.coerceKey ·) q from hfold p hkey
  induction names with
  | nil => exact fun q _ => rfl
  | cons name names ih =>
    intro q hq
    have hname : name ≠ key := fun heq => hnames (heq ▸ List.mem_cons_self)
    rw [List.foldlM_cons, List.foldlM_cons, coerceKey_setAll hname hq p values, map_bind, bind_map_left]
    cases hnext : p.coerceKey q name with
    | error error => rfl
    | ok next =>
      rw [ok_bind, ok_bind]
      exact ih (fun hmem => hnames (List.mem_cons_of_mem _ hmem)) next (mem_keys_coerceKey hnext hq)

theorem not_mem_keys_pushAll (hne : other ≠ key) (h : key ∉ p.keys) (values : List Json) :
    key ∉ (p.pushAll other values).keys := by
  rw [keys_pushAll]
  split
  · exact h
  · exact fun hmem => (List.mem_append.mp hmem).elim h fun hlast => hne (List.mem_singleton.mp hlast).symm

theorem mem_keys_pushAll (h : key ∈ p.keys) (other : String) (values : List Json) :
    key ∈ (p.pushAll other values).keys := by
  rw [keys_pushAll]
  split
  · exact h
  · exact List.mem_append_left _ h

/-- Replacing aliases from some entries on. -/
theorem foldl_pushAll_setAll {renames : Renames} {path : String} (values : List Json) :
    ∀ {entries : List (String × List Json)} {acc : Params},
      (∀ e ∈ entries, renames.targetOf e.1 ≠ path) → path ∈ acc.keys →
      entries.foldl (fun acc e => acc.pushAll (renames.targetOf e.1) e.2) (acc.setAll path values)
        = (entries.foldl (fun acc e => acc.pushAll (renames.targetOf e.1) e.2) acc).setAll path values
  | [], _, _, _ => rfl
  | e :: entries, acc, hother, hpath => by
    rw [List.foldl_cons, List.foldl_cons, pushAll_setAll (hother e List.mem_cons_self) _ _ hpath]
    exact foldl_pushAll_setAll values (fun e' he' => hother e' (List.mem_cons_of_mem _ he'))
      (mem_keys_pushAll hpath _ _)

/-- The values of a key come through under its path, if no other key stands for that. -/
theorem applyRenames_setAll {renames : Renames} (hnodup : p.keys.Nodup) (hsome : p.getAll key ≠ [])
    (halone : ∀ other ∈ p.keys, renames.targetOf other = renames.targetOf key → other = key)
    (hvalues : values ≠ []) :
    (p.setAll key values).applyRenames renames
      = (p.applyRenames renames).setAll (renames.targetOf key) values := by
  rw [applyRenames_eq_foldl, applyRenames_eq_foldl]
  obtain ⟨entries⟩ := p
  -- along the entries: the path is not there until its key comes, and stays from then on
  suffices hfold : ∀ acc : Params, renames.targetOf key ∉ acc.keys →
      (Table.insert key values entries).foldl (fun acc e => acc.pushAll (renames.targetOf e.1) e.2) acc
        = (entries.foldl (fun acc e => acc.pushAll (renames.targetOf e.1) e.2) acc).setAll
            (renames.targetOf key) values from hfold .empty List.not_mem_nil
  induction entries with
  | nil => exact absurd rfl hsome
  | cons entry rest ih =>
    obtain ⟨k, own⟩ := entry
    obtain ⟨hfresh, hrest⟩ := List.nodup_cons.mp hnodup
    intro acc hpath
    by_cases hk : k = key
    · subst hk
      have hown : own ≠ [] := by simpa only [getAll, Table.find?, if_true, Option.getD_some] using hsome
      have hother : ∀ e ∈ rest, renames.targetOf e.1 ≠ renames.targetOf k := by
        intro e he hsame
        have hmem : e.1 ∈ Table.keys rest := List.mem_map_of_mem he
        exact hfresh (halone e.1 (List.mem_cons_of_mem _ hmem) hsame ▸ hmem)
      rw [Table.insert, Table.upsert, if_pos rfl, List.foldl_cons, List.foldl_cons,
        pushAll_of_not_mem hpath hvalues, pushAll_of_not_mem hpath hown,
        ← foldl_pushAll_setAll values hother (mem_keys_setAll.mpr (.inr rfl)), setAll_setAll]
    · have hne : renames.targetOf k ≠ renames.targetOf key :=
        fun hsame => hk (halone k List.mem_cons_self hsame)
      have hsome' : getAll ⟨rest⟩ key ≠ [] := by
        simpa only [getAll, Table.find?, hk, if_false] using hsome
      rw [Table.insert, Table.upsert, if_neg hk, List.foldl_cons, List.foldl_cons]
      exact ih hrest hsome' (fun other hmem => halone other (List.mem_cons_of_mem _ hmem)) _
        (not_mem_keys_pushAll hne hpath _)

theorem expandOrder_setAll (hne : key ≠ orderParam) (hkey : key ∈ p.keys) (renames : Renames)
    (values : List Json) :
    (p.setAll key values).expandOrder renames = (p.expandOrder renames).setAll key values := by
  unfold expandOrder
  rw [getAll_setAll_of_ne hne.symm]
  cases p.getAll orderParam with
  | nil => rfl
  | cons first rest => exact setAll_comm hne.symm hkey _ _

end Params

/-- A key passes alone if it steers nothing and no other key stands for its path. -/
structure Transformer.PassesAlone (t : Transformer) (c : SearchConfig) (p : Params) (key : String) : Prop where
  steersNothing : t.SteersNothing c key
  notBound : DateBounds.isBoundKey (t.renames.targetOf key) = false
  alone : ∀ other ∈ p.keys, t.renames.targetOf other = t.renames.targetOf key → other = key

section Stages

variable {t : Transformer} {c : SearchConfig} {p : Params} {key : String} {values : List Json}

theorem Transformer.PassesAlone.setAll (h : t.PassesAlone c p key) (values : List Json) :
    t.PassesAlone c (p.setAll key values) key :=
  ⟨h.steersNothing, h.notBound, fun other hother hpath =>
    (Params.mem_keys_setAll.mp hother).elim (fun hkept => h.alone other hkept hpath) id⟩

theorem Transformer.process_setAll (hkey : t.PassesAlone c p key) (hnodup : p.keys.Nodup)
    (hsome : p.getAll key ≠ []) (hvalues : values ≠ []) :
    t.process (p.setAll key values) = (·.setAll (t.renames.targetOf key) values) <$> t.process p := by
  have horder : t.renames.targetOf key ≠ orderParam := by
    intro heq
    exact hkey.steersNothing.notSteering (heq ▸ List.mem_cons_self)
  have hboolean := hkey.steersNothing.notBoolean
  rw [process, process, Params.coerceBooleans_setAll hboolean (Params.mem_keys_of_getAll hsome), map_bind,
    bind_map_left]
  cases hcoerced : p.coerceBooleans t.booleans with
  | error error => rfl
  | ok coerced =>
    have hkeys := (Params.coerced_coerceBooleans hcoerced).keys
    have hsome' : coerced.getAll key ≠ [] := by rwa [Params.getAll_coerceBooleans hboolean hcoerced]
    have hpath := Params.mem_keys_of_getAll (Params.getAll_applyRenames_ne_nil t.renames hsome')
    refine congrArg Except.ok ?_
    rw [Params.applyRenames_setAll (hkeys ▸ hnodup) hsome' (hkeys ▸ hkey.alone) hvalues,
      Params.expandOrder_setAll horder hpath]

theorem Scope.searchDates_setAll (hbound : DateBounds.isBoundKey key = false) (hkey : key ∈ p.keys)
    (values : List Json) (s : Scope) (renames : Renames) :
    s.searchDates (p.setAll key values) renames
      = (fun found => (found.1, found.2.setAll key values)) <$> s.searchDates p renames := by
  have hfree : ∀ other ∈ [key], DateBounds.isBoundKey other = false := by simpa using hbound
  have hbounds : DateBounds.ofParams (p.setAll key values) = DateBounds.ofParams p := by
    rw [← DateBounds.ofParams_without hfree, Params.without_setAll_of_mem List.mem_cons_self,
      DateBounds.ofParams_without hfree]
  have hremaining : key ∉ p.keys.filter DateBounds.isBoundKey := by
    rw [List.mem_filter, hbound]
    exact fun hmem => Bool.false_ne_true hmem.2
  unfold searchDates
  rw [hbounds, Params.keys_setAll_of_mem hkey, Params.without_setAll hremaining, map_bind]
  refine bind_congr fun bounds => ?_
  cases bounds.field with
  | none => rfl
  | some field =>
    simp only [map_bind]
    refine bind_congr fun path => bind_congr fun lookup => ?_
    cases lookup with
    | none => rfl
    | some lookup => simp only [map_bind]; rfl

/-- Whatever the values of a key that passes alone are, they come through under its path, and everything else
comes out the same. -/
theorem Narrowed.ofParams_setAll {r : Registry} {root : String} (ht : Transformer.ofRoot r root = .ok t)
    (hkey : t.PassesAlone c p key) (hnodup : p.keys.Nodup) (hsome : p.getAll key ≠ []) (hvalues : values ≠ []) :
    Narrowed.ofParams r c root (p.setAll key values)
      = (fun n => { n with params := n.params.setAll (t.renames.targetOf key) values })
        <$> Narrowed.ofParams r c root p := by
  have hsteers := hkey.steersNothing.notSteering
  simp only [List.mem_cons, List.not_mem_nil, or_false, not_or] at hsteers
  obtain ⟨_, _, _, _, hparam⟩ := hsteers
  unfold Narrowed.ofParams
  rw [ht, ok_bind, ok_bind, Transformer.process_setAll hkey hnodup hsome hvalues, bind_map_left, map_bind]
  cases htransformed : t.process p with
  | error error => rfl
  | ok transformed =>
    have hpath := getAll_process_ne_nil htransformed hsome
    rw [ok_bind, ok_bind, Params.coerceBooleans_setAll (fun hmem => hparam (List.mem_singleton.mp hmem))
      (Params.mem_keys_of_getAll hpath), bind_map_left, map_bind]
    cases hcoerced : transformed.coerceBooleans [c.includeInactiveParam] with
    | error error => rfl
    | ok coerced =>
      have hpath' := (Params.coerced_coerceBooleans hcoerced).getAll_ne_nil hpath
      have hasks : Prepared.asksForInactive c (coerced.setAll (t.renames.targetOf key) values)
          = Prepared.asksForInactive c coerced := by
        rw [Prepared.asksForInactive, Prepared.asksForInactive, Params.getText?, Params.getText?, Params.get?,
          Params.get?, Params.getAll_setAll_of_ne (Ne.symm hparam)]
      rw [ok_bind, ok_bind, map_bind]
      refine bind_congr fun scope => ?_
      rw [Scope.searchDates_setAll hkey.notBound (Params.mem_keys_of_getAll hpath'), bind_map_left, map_bind,
        hasks]
      rfl

end Stages

end SchemaSearch
