import SchemaSearch.Proofs.Agreement
import SchemaSearch.Proofs.Search.Additions
import SchemaSearch.Proofs.Search.Bounds

/-!
# What the order of keys steers

Of several values for one thing the last counts: for the page, the order, the operator, the activity of
records, and for each of the two date bounds.  Keys that stand for one such thing decide by their order;
all other keys may come in any order.

Main statement: parameters whose keys come in another order, but not those that stand for one thing, narrow
a search to the same scope (`Narrowed.agree_ofParams`).
-/

namespace SchemaSearch

open Query Schema

/-- What a key decides by the last value that is sent for it, if anything: a date bound, or what the
parameter of that name asks for. -/
def steers? (key : String) : Option String :=
  if DateBounds.isBoundKey key then
    some (if Text.contains key DateBounds.startMark then DateBounds.startMark else DateBounds.finishMark)
  else if [Page.param, Page.sizeParam, orderParam, Operator.param,
      SearchConfig.standard.includeInactiveParam].contains key then some key
  else none

namespace DateBounds

theorem steers?_bound {key : String} (hbound : isBoundKey key = true) :
    steers? key = some (if Text.contains key startMark then startMark else finishMark) := by
  rw [steers?, if_pos hbound]

/-- A parameter of the search has no name that marks a bound. -/
theorem steers?_ne_mark {key mark : String} (hbound : isBoundKey key = false)
    (hmark : mark = startMark ∨ mark = finishMark) : steers? key ≠ some mark := by
  rw [steers?, hbound, if_neg Bool.false_ne_true]
  intro h
  split at h
  · cases h
    rcases hmark with rfl | rfl
    · exact absurd hbound (by decide)
    · exact absurd hbound (by decide)
  · cases h

theorem isBoundKey_of_steers? {keys : List String} {key mark : String}
    (hmark : mark = startMark ∨ mark = finishMark) (h : key ∈ keys.filter (steers? · == some mark)) :
    isBoundKey key = true := by
  cases hbound : isBoundKey key with
  | true => rfl
  | false =>
    have hsome := (List.mem_filter.mp h).2
    exact absurd (beq_iff_eq.mp hsome) (steers?_ne_mark hbound hmark)

end DateBounds

namespace Params

/-! ## Parameters in another order -/

/-- The same parameters in another order. -/
structure Shuffles (p q : Params) : Prop where
  nodup : p.keys.Nodup
  nodup' : q.keys.Nodup
  keys : p.keys.Perm q.keys
  /-- Where several keys have become one, its values may come in another order. -/
  values : ∀ key, (p.getAll key).Perm (q.getAll key)

/-- The same parameters in another order, in which every key that steers has kept its last value. -/
structure Reorders (p q : Params) : Prop extends Shuffles p q where
  last : ∀ key, (steers? key).isSome = true → p.get? key = q.get? key

/-- The last value for a date bound: that of the last key that sets it. -/
def lastBound (p : Params) (mark : String) : Option Json :=
  (p.keys.filter (steers? · == some mark)).getLast?.bind p.get?

/-- Whether two sets of parameters decide alike: the last value of every key that steers is the same, and
so is the last value for each of the two date bounds. -/
structure SteersLike (p q : Params) : Prop where
  last : ∀ key, (steers? key).isSome = true → p.get? key = q.get? key
  lastBound : ∀ mark, mark = DateBounds.startMark ∨ mark = DateBounds.finishMark →
    p.lastBound mark = q.lastBound mark

/-- Only keys of date bounds count for them. -/
theorem lastBound_congr {p p' : Params} {mark : String}
    (hmark : mark = DateBounds.startMark ∨ mark = DateBounds.finishMark) (hkeys : p'.keys = p.keys)
    (hvalues : ∀ key, DateBounds.isBoundKey key = true → p'.get? key = p.get? key) :
    p'.lastBound mark = p.lastBound mark := by
  rw [lastBound, lastBound, hkeys]
  cases hlast : (p.keys.filter (steers? · == some mark)).getLast? with
  | none => rfl
  | some key => exact hvalues key (DateBounds.isBoundKey_of_steers? hmark (List.mem_of_getLast? hlast))

/-- Pairs may be added in another order. -/
theorem shuffles_ofPairs {pairs pairs' : List (String × Json)} (hperm : pairs.Perm pairs') :
    (ofPairs pairs).Shuffles (ofPairs pairs') := by
  refine ⟨nodup_keys_ofPairs pairs, nodup_keys_ofPairs pairs', ?_, ?_⟩
  · rw [List.perm_ext_iff_of_nodup (nodup_keys_ofPairs pairs) (nodup_keys_ofPairs pairs')]
    intro key
    rw [mem_keys_ofPairs, mem_keys_ofPairs, (hperm.map _).mem_iff]
  · intro key
    rw [getAll_ofPairs, getAll_ofPairs]
    exact (hperm.filter _).map _

/-- Pairs that are added decide alike, if those that decide one thing come in the same order. -/
theorem steersLike_ofPairs {pairs pairs' : List (String × Json)}
    (hsteering : ∀ thing, pairs.filter (fun pair => steers? pair.1 == some thing)
      = pairs'.filter fun pair => steers? pair.1 == some thing) :
    (ofPairs pairs).SteersLike (ofPairs pairs') := by
  have hlast : ∀ key, (steers? key).isSome = true → (ofPairs pairs).get? key = (ofPairs pairs').get? key := by
    intro key hkey
    obtain ⟨thing, hthing⟩ := Option.isSome_iff_exists.mp hkey
    -- the pairs of a key are among those that stand for what it decides
    have hamong : ∀ pairs : List (String × Json), pairs.filter (·.1 == key)
        = (pairs.filter fun pair => steers? pair.1 == some thing).filter (·.1 == key) := by
      intro pairs
      rw [List.filter_filter]
      apply List.filter_congr
      intro pair _
      by_cases hsame : pair.1 = key
      · simp [hsame, hthing]
      · simp [hsame]
    rw [get?, get?, getAll_ofPairs, getAll_ofPairs, hamong pairs, hamong pairs', hsteering thing]
  refine ⟨hlast, fun mark hmark => ?_⟩
  have hsame : (ofPairs pairs).keys.filter (steers? · == some mark)
      = (ofPairs pairs').keys.filter (steers? · == some mark) := by
    rw [keys_ofPairs_filter, keys_ofPairs_filter, hsteering mark]
  rw [lastBound, lastBound, ← hsame]
  cases hkey : ((ofPairs pairs).keys.filter (steers? · == some mark)).getLast? with
  | none => rfl
  | some key =>
    apply hlast
    rw [beq_iff_eq.mp (List.mem_filter.mp (List.mem_of_getLast? hkey)).2]
    rfl

theorem SteersLike.expandOrder {p q : Params} (h : p.SteersLike q) (renames : Renames) :
    (p.expandOrder renames).SteersLike (q.expandOrder renames) := by
  have hvalues : ∀ p : Params, (p.expandOrder renames).get? orderParam
      = (p.get? orderParam).map renames.expandOrder := by
    intro p
    by_cases hnone : p.getAll orderParam = []
    · simp only [get?, Params.expandOrder, hnone, List.getLast?_nil, Option.map_none]
    · rw [expandOrder_of_ne_nil hnone, get?, getAll_setAll_self, List.getLast?_map]
      rfl
  constructor
  · intro key hkey
    by_cases horder : key = orderParam
    · rw [horder, hvalues, hvalues, h.last orderParam (by decide)]
    · rw [get?, get?, getAll_expandOrder horder, getAll_expandOrder horder]
      exact h.last key hkey
  · intro mark hmark
    have hexpanded : ∀ p : Params, (p.expandOrder renames).lastBound mark = p.lastBound mark := by
      intro p
      apply lastBound_congr hmark (keys_expandOrder p renames)
      intro key hbound
      rw [get?, get?, getAll_expandOrder]
      rintro rfl
      exact absurd hbound (by decide)
    rw [hexpanded, hexpanded, h.lastBound mark hmark]

/-- The pairs whose keys pass a test are those of the keys that pass it. -/
theorem pairs_filter (p : Params) (hkeys : p.keys.Nodup) (test : String → Bool) :
    p.pairs.filter (fun pair => test pair.1)
      = (p.keys.filter test).flatMap fun key => (p.getAll key).map (key, ·) := by
  rw [pairs_eq_flatMap_keys hkeys]
  induction p.keys with
  | nil => rfl
  | cons key keys ih =>
    rw [List.flatMap_cons, List.filter_append, ih, List.filter_cons, List.filter_map]
    cases htest : test key with
    | true =>
      have hall : (p.getAll key).filter (fun _ => true) = p.getAll key :=
        List.filter_eq_self.mpr fun _ _ => rfl
      simp only [Function.comp_def, htest, hall, if_true]
      rfl
    | false => simp [Function.comp_def, htest]

/-- It does not matter in which order keys are named that are left out. -/
theorem without_eq_of_perm {p : Params} {excluded excluded' : List String} (h : excluded.Perm excluded') :
    p.without excluded = p.without excluded' := by
  rw [without_eq, without_eq]
  congr 1
  apply List.filter_congr
  intro entry _
  rw [h.contains_eq]

namespace Shuffles

variable {p q : Params}

theorem symm (h : p.Shuffles q) : q.Shuffles p :=
  ⟨h.nodup', h.nodup, h.keys.symm, fun key => (h.values key).symm⟩

/-- A key that is there may have its values set, in any order. -/
theorem setAll (h : p.Shuffles q) {key : String} (hkey : key ∈ p.keys) {values values' : List Json}
    (hvalues : values.Perm values') : (p.setAll key values).Shuffles (q.setAll key values') := by
  refine ⟨nodup_keys_setAll h.nodup _ _, nodup_keys_setAll h.nodup' _ _, ?_, ?_⟩
  · rw [keys_setAll_of_mem hkey, keys_setAll_of_mem (h.keys.mem_iff.mp hkey)]
    exact h.keys
  · intro other
    by_cases hsame : other = key
    · rw [hsame, getAll_setAll_self, getAll_setAll_self]
      exact hvalues
    · rw [getAll_setAll_of_ne hsame, getAll_setAll_of_ne hsame]
      exact h.values other

/-- Keys may be left out. -/
theorem without (h : p.Shuffles q) (excluded : List String) :
    (p.without excluded).Shuffles (q.without excluded) := by
  refine ⟨?_, ?_, ?_, ?_⟩
  · rw [keys_without]
    exact h.nodup.filter _
  · rw [keys_without]
    exact h.nodup'.filter _
  · rw [keys_without, keys_without]
    exact h.keys.filter _
  · intro key
    by_cases hmem : key ∈ excluded
    · rw [getAll_without_of_mem hmem, getAll_without_of_mem hmem]
    · rw [getAll_without hmem, getAll_without hmem]
      exact h.values key

/-- Each value stands with its key, in another order. -/
theorem pairs_perm (h : p.Shuffles q) : p.pairs.Perm q.pairs := by
  rw [pairs, pairs, entries_eq_map_keys h.nodup, entries_eq_map_keys h.nodup', List.flatMap_map,
    List.flatMap_map]
  apply (h.keys.flatMap_right _).trans
  induction q.keys with
  | nil => exact .nil
  | cons key keys ih =>
    rw [List.flatMap_cons, List.flatMap_cons]
    exact ((h.values key).map _).append ih

theorem expandOrder (h : p.Shuffles q) (renames : Renames) :
    (p.expandOrder renames).Shuffles (q.expandOrder renames) := by
  have hvalues := h.values orderParam
  by_cases hnone : p.getAll orderParam = []
  · have hnone' : q.getAll orderParam = [] := by
      rw [hnone] at hvalues
      exact hvalues.nil_eq.symm
    rw [Params.expandOrder, Params.expandOrder, hnone, hnone']
    exact h
  · have hsome : q.getAll orderParam ≠ [] := fun hnil => hnone (hnil ▸ hvalues).eq_nil
    rw [expandOrder_of_ne_nil hnone, expandOrder_of_ne_nil hsome]
    exact h.setAll (mem_keys_of_getAll hnone) (hvalues.map _)

end Shuffles

namespace Reorders

variable {p q : Params}

theorem symm (h : p.Reorders q) : q.Reorders p := ⟨h.toShuffles.symm, fun key hkey => (h.last key hkey).symm⟩

theorem getText?_eq (h : p.Reorders q) {key : String} (hkey : (steers? key).isSome = true) :
    p.getText? key = q.getText? key := by
  rw [getText?, getText?, h.last key hkey]

theorem without (h : p.Reorders q) (excluded : List String) :
    (p.without excluded).Reorders (q.without excluded) := by
  refine ⟨h.toShuffles.without excluded, ?_⟩
  intro key hkey
  by_cases hmem : key ∈ excluded
  · rw [get?, get?, getAll_without_of_mem hmem, getAll_without_of_mem hmem]
  · rw [get?, get?, getAll_without hmem, getAll_without hmem]
    exact h.last key hkey

/-- The values of a key are coerced in another order, and the last is the same. -/
theorem agree_coerceKey (h : p.Reorders q) {key : String} (hkey : (steers? key).isSome = true) :
    Agree Reorders (p.coerceKey p key) (q.coerceKey q key) := by
  have hvalues := h.values key
  have hlast := h.last key hkey
  rw [get?, get?] at hlast
  by_cases hnone : p.getAll key = []
  · have hnone' : q.getAll key = [] := by
      rw [hnone] at hvalues
      exact hvalues.nil_eq.symm
    rw [coerceKey, coerceKey, hnone, hnone']
    exact .ok h
  · have hsome : q.getAll key ≠ [] := fun hnil => hnone (hnil ▸ hvalues).eq_nil
    rw [coerceKey_of_ne_nil hnone, coerceKey_of_ne_nil hsome]
    rcases (mapM_perm (coerceBoolean key) hvalues).cases_ok_error with
      ⟨coerced, coerced', hcoerced, hcoerced', hperm⟩ | ⟨error, error', herror, herror'⟩
    · rw [hcoerced, hcoerced']
      refine .ok ⟨h.toShuffles.setAll (mem_keys_of_getAll hnone) hperm, ?_⟩
      intro other hother
      by_cases hsame : other = key
      · rw [hsame, get?, get?, getAll_setAll_self, getAll_setAll_self, map_asToken_of_mapM hcoerced,
          map_asToken_of_mapM hcoerced', List.getLast?_map, List.getLast?_map, hlast]
      · rw [get?, get?, getAll_setAll_of_ne hsame, getAll_setAll_of_ne hsame]
        exact h.last other hother
    · rw [herror, herror']
      exact .error _ _

end Reorders

end Params

/-! ## Transformed parameters -/

namespace Transformer

variable {t : Transformer} {p q : Params}

/-- Transformed parameters are the pairs as they are searched, but for the aliases in `order_by`. -/
theorem process_eq_ofPairs {transformed : Params} (hkeys : p.keys.Nodup)
    (h : t.process p = .ok transformed) :
    transformed = (Params.ofPairs (p.pairs.map t.searched)).expandOrder t.renames := by
  obtain ⟨coerced, hcoerced, rfl⟩ := process_eq_ok h
  rw [Params.applyRenames_eq_ofPairs, Params.pairs_coerceBooleans hkeys hcoerced, List.map_map]
  rfl

/-- A transformation fails or not, whatever the order of keys, and shuffles what is shuffled. -/
theorem agree_process (t : Transformer) (hkeys : p.keys.Nodup) (hperm : p.entries.Perm q.entries) :
    Agree Params.Shuffles (t.process p) (t.process q) := by
  have hvalues : ∀ key, p.getAll key = q.getAll key := by
    intro key
    rw [Params.getAll, Params.getAll, Table.find?_perm hperm hkeys]
  have hcoerced : Agree (fun _ _ => True) (p.coerceBooleans t.booleans) (q.coerceBooleans t.booleans) := by
    apply Agree.foldlM (R := fun _ _ => True)
    · intro name _ start start' _
      unfold Params.coerceKey
      rw [hvalues name]
      cases q.getAll name with
      | nil => exact .ok trivial
      | cons value values =>
        apply (Agree.self _).bind
        rintro coerced _ rfl
        exact .ok trivial
    · trivial
  have hprocess : Agree (fun _ _ => True) (t.process p) (t.process q) := by
    apply hcoerced.bind
    intro coerced coerced' _
    exact .ok trivial
  rcases hprocess.cases_ok_error with ⟨a, b, ha, hb, _⟩ | ⟨error, error', herror, herror'⟩
  · rw [ha, hb]
    apply Agree.ok
    rw [process_eq_ofPairs hkeys ha, process_eq_ofPairs ((Table.keys_perm hperm).nodup_iff.mp hkeys) hb]
    apply Params.Shuffles.expandOrder
    apply Params.shuffles_ofPairs
    exact (hperm.flatMap_right _).map _
  · rw [herror, herror']
    exact .error _ _

/-- Whether keys that stand for one thing come in the same order in two sets of parameters. -/
def KeepsOrder (t : Transformer) (p q : Params) : Prop :=
  ∀ key ∈ p.keys, (steers? (t.renames.targetOf key)).isSome = true →
    p.keys.filter (fun other => steers? (t.renames.targetOf other) == steers? (t.renames.targetOf key))
      = q.keys.filter fun other => steers? (t.renames.targetOf other) == steers? (t.renames.targetOf key)

instance (t : Transformer) (p q : Params) : Decidable (t.KeepsOrder p q) :=
  inferInstanceAs (Decidable (∀ key ∈ p.keys, _ → _))

/-- Where keys that stand for one thing come in the same order, transformed parameters decide alike. -/
theorem steersLike_of_keepsOrder {p' q' : Params} (hkeys : p.keys.Nodup)
    (hperm : p.entries.Perm q.entries) (h : t.KeepsOrder p q) (hp : t.process p = .ok p')
    (hq : t.process q = .ok q') : p'.SteersLike q' := by
  have hkeysPerm : p.keys.Perm q.keys := Table.keys_perm hperm
  have hkeys' : q.keys.Nodup := hkeysPerm.nodup_iff.mp hkeys
  have hvalues : ∀ key, p.getAll key = q.getAll key := by
    intro key
    rw [Params.getAll, Params.getAll, Table.find?_perm hperm hkeys]
  have hsteering : ∀ thing, p.keys.filter (fun key => steers? (t.renames.targetOf key) == some thing)
      = q.keys.filter fun key => steers? (t.renames.targetOf key) == some thing := by
    intro thing
    by_cases hsome : ∃ key ∈ p.keys, steers? (t.renames.targetOf key) = some thing
    · obtain ⟨key, hkey, hthing⟩ := hsome
      have hsame := h key hkey (by rw [hthing]; rfl)
      rwa [hthing] at hsame
    -- a thing that no key of `p` stands for has no key of `q` either
    · have hnone : p.keys.filter (fun key => steers? (t.renames.targetOf key) == some thing) = [] := by
        apply List.filter_eq_nil_iff.mpr
        intro key hkey hthing
        exact hsome ⟨key, hkey, beq_iff_eq.mp hthing⟩
      rw [hnone]
      have hnone' := hkeysPerm.filter fun key => steers? (t.renames.targetOf key) == some thing
      rw [hnone] at hnone'
      exact hnone'.nil_eq
  rw [process_eq_ofPairs hkeys hp, process_eq_ofPairs hkeys' hq]
  apply Params.SteersLike.expandOrder
  apply Params.steersLike_ofPairs
  intro thing
  rw [List.filter_map, List.filter_map]
  have hpairs := p.pairs_filter hkeys fun key => steers? (t.renames.targetOf key) == some thing
  have hpairs' := q.pairs_filter hkeys' fun key => steers? (t.renames.targetOf key) == some thing
  simp only [hvalues] at hpairs
  rw [hsteering thing] at hpairs
  exact congrArg _ (hpairs.trans hpairs'.symm)

end Transformer

/-! ## Bounds of reordered parameters -/

namespace DateBounds

/-- The keys of lower bounds are those that steer one. -/
theorem startKeys_eq (keys : List String) :
    (keys.filter isBoundKey).filter (Text.contains · startMark)
      = keys.filter (steers? · == some startMark) := by
  rw [List.filter_filter]
  apply List.filter_congr
  intro key _
  cases hbound : isBoundKey key with
  | true =>
    rw [steers?_bound hbound]
    cases Text.contains key startMark <;> decide
  | false =>
    have hne := steers?_ne_mark hbound (.inl rfl)
    simp [hne]

theorem finishKeys_eq (keys : List String) :
    (keys.filter isBoundKey).filter (!Text.contains · startMark)
      = keys.filter (steers? · == some finishMark) := by
  rw [List.filter_filter]
  apply List.filter_congr
  intro key _
  cases hbound : isBoundKey key with
  | true =>
    rw [steers?_bound hbound]
    cases Text.contains key startMark <;> decide
  | false =>
    have hne := steers?_ne_mark hbound (.inr rfl)
    simp [hne]

variable {p q : Params}

theorem moment?_eq (h : p.Reorders q) {key : String} (hbound : isBoundKey key = true) :
    moment? p key = moment? q key := by
  rw [moment?, moment?, h.getText?_eq]
  rw [steers?_bound hbound]
  rfl

/-- The moment of a bound is read from the last value for it. -/
theorem moment_eq_lastBound (p : Params) (mark : String) :
    (p.keys.filter (steers? · == some mark)).foldl (fun _ key => moment? p key) .none
      = (p.lastBound mark).bind fun value => value.scalarText.bind Moment.read := by
  rw [foldl_last, Params.lastBound]
  cases (p.keys.filter (steers? · == some mark)).getLast? with
  | none => rfl
  | some key =>
    simp only [Option.map_some, Option.getD_some, Option.bind_some, moment?, Params.getText?]
    cases p.get? key <;> rfl

/-- Bounds that are taken are taken in the other order too, and are the same. -/
theorem ofParams_reorders (h : p.Reorders q)
    (hlast : ∀ mark, mark = startMark ∨ mark = finishMark → p.lastBound mark = q.lastBound mark)
    {b : DateBounds} (hb : ofParams p = .ok b) : ofParams q = .ok b := by
  obtain ⟨⟨field, hother, hkeys⟩, rfl⟩ := foldlM_record_eq_ok_iff.mp hb
  have hbounds : (p.keys.filter isBoundKey).Perm (q.keys.filter isBoundKey) := h.keys.filter _
  have hkeys' : ∀ key ∈ q.keys.filter isBoundKey, fieldOf key = field ∧ (moment? q key).isSome = true := by
    intro key hkey
    rw [← moment?_eq h (List.mem_filter.mp hkey).2]
    exact hkeys key (hbounds.mem_iff.mpr hkey)
  -- the field is that of any key, each end that of the last key which sets it
  have hfield : ((q.keys.filter isBoundKey).foldl (fun b key => b.set q key) none).field
      = ((p.keys.filter isBoundKey).foldl (fun b key => b.set p key) none).field := by
    rw [field_foldl_set fun key hkey => (hkeys' key hkey).1, field_foldl_set fun key hkey => (hkeys key hkey).1,
      hbounds.isEmpty_eq]
  have hstart : ((q.keys.filter isBoundKey).foldl (fun b key => b.set q key) none).start
      = ((p.keys.filter isBoundKey).foldl (fun b key => b.set p key) none).start := by
    rw [start_foldl_set, start_foldl_set, startKeys_eq, startKeys_eq, show none.start = .none from rfl,
      moment_eq_lastBound, moment_eq_lastBound, hlast startMark (.inl rfl)]
  have hfinish : ((q.keys.filter isBoundKey).foldl (fun b key => b.set q key) none).finish
      = ((p.keys.filter isBoundKey).foldl (fun b key => b.set p key) none).finish := by
    rw [finish_foldl_set, finish_foldl_set, finishKeys_eq, finishKeys_eq, show none.finish = .none from rfl,
      moment_eq_lastBound, moment_eq_lastBound, hlast finishMark (.inr rfl)]
  apply foldlM_record_eq_ok_iff.mpr
  exact ⟨⟨field, hother, hkeys'⟩, eq_of_parts hfield hstart hfinish⟩

/-- The bounds of reordered parameters are the same, or neither can be taken. -/
theorem agree_ofParams (h : p.Reorders q)
    (hlast : ∀ mark, mark = startMark ∨ mark = finishMark → p.lastBound mark = q.lastBound mark) :
    Agree Eq (ofParams p) (ofParams q) := by
  cases hp : ofParams p with
  | ok b =>
    rw [ofParams_reorders h hlast hp]
    exact .ok rfl
  | error error =>
    cases hq : ofParams q with
    | error error' => exact .error _ _
    | ok b =>
      rw [ofParams_reorders h.symm (fun mark hmark => (hlast mark hmark).symm) hq] at hp
      cases hp

end DateBounds

/-- Dates narrow a scope to the same one. -/
theorem Scope.agree_searchDates (s : Scope) {p q : Params} (h : p.Reorders q)
    (hlast : ∀ mark, mark = DateBounds.startMark ∨ mark = DateBounds.finishMark →
      p.lastBound mark = q.lastBound mark) (renames : Renames) :
    Agree (fun found found' => found.1 = found'.1 ∧ found.2.Reorders found'.2)
      (s.searchDates p renames) (s.searchDates q renames) := by
  unfold Scope.searchDates
  apply (DateBounds.agree_ofParams h hlast).bind
  rintro bounds _ rfl
  cases bounds.field with
  | none => exact .ok ⟨rfl, h⟩
  | some field =>
    -- each side leaves out its own keys of bounds, which are the same up to their order
    have hremaining : (p.without (p.keys.filter DateBounds.isBoundKey)).Reorders
        (q.without (q.keys.filter DateBounds.isBoundKey)) := by
      have hbounds := h.keys.filter DateBounds.isBoundKey
      rw [Params.without_eq_of_perm hbounds]
      exact h.without _
    apply (Agree.self _).bind
    rintro path _ rfl
    apply (Agree.self _).bind
    rintro lookup? _ rfl
    cases lookup? with
    | none => exact .ok ⟨rfl, hremaining⟩
    | some lookup =>
      apply (Agree.self _).bind
      rintro narrowed _ rfl
      exact .ok ⟨rfl, hremaining⟩

/-! ## Searches in front of the operator -/

/-- A search is narrowed to the same scope by parameters in another order, if they decide alike once they
are transformed. -/
theorem Narrowed.agree_ofParams {r : Registry} {root : String} {p q : Params} (hkeys : p.keys.Nodup)
    (hperm : p.entries.Perm q.entries)
    (hsteers : ∀ t p' q', Transformer.ofRoot r root = .ok t → t.process p = .ok p' →
      t.process q = .ok q' → p'.SteersLike q') :
    Agree (fun n n' => n.scope = n'.scope ∧ n.inactive = n'.inactive ∧ n.params.Reorders n'.params)
      (Narrowed.ofParams r .standard root p) (Narrowed.ofParams r .standard root q) := by
  unfold Narrowed.ofParams
  cases ht : Transformer.ofRoot r root with
  | error error => exact .error _ _
  | ok t =>
    rw [ok_bind, ok_bind]
    rcases (t.agree_process hkeys hperm).cases_ok_error with
      ⟨p', q', hp', hq', hshuffles⟩ | ⟨error, error', herror, herror'⟩
    · obtain ⟨hlast, hlastBound⟩ := hsteers t p' q' ht hp' hq'
      rw [hp', hq', ok_bind, ok_bind]
      have hreorders : p'.Reorders q' := ⟨hshuffles, hlast⟩
      have hcoerced : Agree Params.Reorders
          (p'.coerceBooleans [SearchConfig.standard.includeInactiveParam])
          (q'.coerceBooleans [SearchConfig.standard.includeInactiveParam]) := by
        apply (hreorders.agree_coerceKey (by decide)).bind
        intro coerced coerced' h
        exact .ok h
      rcases hcoerced.cases_ok_error with ⟨coerced, coerced', hc, hc', h⟩ | ⟨error, error', herror, herror'⟩
      · have hinactive : Prepared.asksForInactive .standard coerced
            = Prepared.asksForInactive .standard coerced' := by
          rw [Prepared.asksForInactive, Prepared.asksForInactive, h.getText?_eq (by decide)]
        rw [hc, hc', ok_bind, ok_bind]
        apply (Agree.self _).bind
        rintro scope _ rfl
        refine (scope.agree_searchDates h ?_ t.renames).bind ?_
        · intro mark hmark
          -- the flag of inactive records is coerced first, but it sets no bound
          have hkept : ∀ {a b : Params},
              a.coerceBooleans [SearchConfig.standard.includeInactiveParam] = .ok b →
                b.lastBound mark = a.lastBound mark := by
            intro a b hab
            apply Params.lastBound_congr hmark (Params.coerced_coerceBooleans hab).keys
            intro key hbound
            rw [Params.get?, Params.get?, Params.getAll_coerceBooleans _ hab]
            intro hkey
            rw [List.mem_singleton.mp hkey] at hbound
            exact absurd hbound (by decide)
          rw [hkept hc, hkept hc', hlastBound mark hmark]
        · rintro ⟨narrowed, remaining⟩ ⟨narrowed', remaining'⟩ ⟨hscope, hremaining⟩
          exact .ok ⟨hscope, hinactive, hremaining⟩
      · rw [herror, herror']
        exact .error _ _
    · rw [herror, herror']
      exact .error _ _

end SchemaSearch
