import SchemaSearch.Proofs.Search.Gathering
import SchemaSearch.Proofs.Text.Pieces
import SchemaSearch.Service.Resource

/-!
# Transforming twice

What has been transformed once has nothing left to transform: booleans are tokens, aliases are paths.  Only
aliases inside `order_by` are not looked for as wholes.  A path contains its alias, so the alias is found
again in what it was replaced by, and the order grows each time.

Main statement: for every root of the service, transformed parameters are transformed into themselves, but
for the orders in which an alias occurs (`process_again`); with such an order they never are
(`not_process_idempotent`).
-/

namespace SchemaSearch

open Schema

namespace Params

variable {p q : Params} {renames : Renames}

/-! ## Nothing left to do -/

/-- Keys with values that stand for themselves are not changed by aliases. -/
theorem applyRenames_eq_self (hkeys : p.keys.Nodup) (hvalues : ∀ key ∈ p.keys, p.getAll key ≠ [])
    (hself : ∀ key ∈ p.keys, renames.targetOf key = key) : p.applyRenames renames = p := by
  refine eq_of_getAll hkeys ?_ fun key => getAll_applyRenames_self hkeys fun k hk => by rw [hself k hk]
  have hfull : (p.keys.filter fun key => !(p.getAll key).isEmpty) = p.keys := by
    refine List.filter_eq_self.mpr fun key hkey => ?_
    rw [Bool.not_eq_true', ← Bool.not_eq_true, List.isEmpty_iff]
    exact hvalues key hkey
  have htargets : p.keys.map renames.targetOf = p.keys.map id := List.map_congr_left hself
  rw [keys_applyRenames, entries_eq_map_keys hkeys, List.filter_map, List.map_map]
  show ((p.keys.filter fun key => !(p.getAll key).isEmpty).map renames.targetOf).eraseDups = p.keys
  rw [hfull, htargets, List.map_id, eraseDups_of_nodup hkeys]

/-- Orders stay as they are if each of them does. -/
theorem expandOrder_eq_self_iff :
    p.expandOrder renames = p ↔ ∀ value ∈ p.getAll orderParam, renames.expandOrder value = value := by
  have hlist : (p.getAll orderParam).map renames.expandOrder = p.getAll orderParam
      ↔ ∀ value ∈ p.getAll orderParam, renames.expandOrder value = value := by
    conv_lhs => rhs; rw [← List.map_id (p.getAll orderParam)]
    exact List.map_inj_left
  rw [← hlist]
  constructor
  · intro h
    have hvalues := getAll_expandOrder_self p renames
    rw [h] at hvalues
    exact hvalues.symm
  · intro h
    by_cases hnone : p.getAll orderParam = []
    · rw [expandOrder, hnone]
    · rw [expandOrder_of_ne_nil hnone, h, setAll_self hnone]

end Params

/-! ## Orders that grow -/

namespace Schema.Renames

/-- Whether an alias occurs in the text of a value. -/
def occursIn (renames : Renames) (value : Json) : Bool :=
  value.scalarText.any fun text => renames.entries.any fun entry => Text.contains text entry.1

/-- Every path is longer than its alias, which has characters, and contains it. -/
def Grows (renames : Renames) : Prop :=
  ∀ entry ∈ renames.entries, entry.1.toList ≠ [] ∧ Text.contains entry.2 entry.1 = true
    ∧ entry.1.toList.length < entry.2.toList.length

instance (renames : Renames) : Decidable renames.Grows :=
  inferInstanceAs (Decidable (∀ entry ∈ renames.entries, _ ∧ _ ∧ _))

variable {renames : Renames} {value : Json}

/-- A value in which no alias occurs is not replaced. -/
theorem expandOrder_of_not_occursIn (h : renames.occursIn value = false) :
    renames.expandOrder value = value := by
  unfold occursIn at h
  unfold expandOrder
  cases htext : value.scalarText with
  | none => rfl
  | some text =>
    rw [htext, Option.any_some, List.any_eq_false] at h
    rw [Option.bind_some, expandText, List.find?_eq_none.mpr h]
    rfl

/-- A value in which an alias occurs is replaced by a longer text, in which that alias occurs again. -/
theorem exists_expandOrder (hgrows : renames.Grows) (h : renames.occursIn value = true) :
    ∃ text expanded, value.scalarText = some text ∧ renames.expandOrder value = .text expanded
      ∧ renames.occursIn (.text expanded) = true ∧ text.toList.length < expanded.toList.length := by
  unfold occursIn at h
  cases htext : value.scalarText with
  | none =>
    rw [htext] at h
    cases h
  | some text =>
    rw [htext, Option.any_some, List.any_eq_true] at h
    cases hfirst : renames.entries.find? fun entry => Text.contains text entry.1 with
    | none =>
      obtain ⟨entry, hentry, hoccurs⟩ := h
      exact absurd hoccurs (List.find?_eq_none.mp hfirst entry hentry)
    | some entry =>
      have hentry := List.mem_of_find?_eq_some hfirst
      have hoccurs : Text.contains text entry.1 = true := by simpa using List.find?_some hfirst
      obtain ⟨hpattern, hpath, hlonger⟩ := hgrows entry hentry
      have hexpanded : renames.expandText text = some (Text.replace text entry.1 entry.2) := by
        rw [expandText, hfirst]
        rfl
      refine ⟨text, Text.replace text entry.1 entry.2, rfl, ?_, ?_, ?_⟩
      · rw [expandOrder, htext, Option.bind_some, hexpanded]
      · exact List.any_eq_true.mpr ⟨entry, hentry, Text.contains_replace hpattern hoccurs hpath⟩
      · exact Text.length_lt_replace hpattern hlonger hoccurs

/-- Where paths contain their aliases, an order is settled once it is replaced only if there was nothing to
replace. -/
theorem expandOrder_twice_iff (hgrows : renames.Grows) :
    renames.expandOrder (renames.expandOrder value) = renames.expandOrder value
      ↔ renames.occursIn value = false := by
  cases hoccurs : renames.occursIn value with
  | false =>
    have hsame := expandOrder_of_not_occursIn hoccurs
    rw [hsame, hsame]
    exact iff_of_true rfl rfl
  | true =>
    refine iff_of_false (fun hsettled => ?_) (by decide)
    obtain ⟨_, expanded, _, hfirst, hagain, _⟩ := exists_expandOrder hgrows hoccurs
    obtain ⟨text, grown, htext, hsecond, _, hlonger⟩ := exists_expandOrder hgrows hagain
    rw [hfirst, hsecond] at hsettled
    cases hsettled
    cases htext
    exact absurd hlonger (Nat.lt_irrefl _)

end Schema.Renames

/-! ## Roots with settled paths -/

namespace Transformer

/-- No path is an alias, a boolean field or `order_by`, which is neither of them either; and paths contain
their aliases. -/
structure Settled (t : Transformer) : Prop where
  paths : ∀ entry ∈ t.renames.entries,
    t.renames.get? entry.2 = none ∧ entry.2 ∉ t.booleans ∧ entry.2 ≠ orderParam
  order : t.renames.get? orderParam = none ∧ orderParam ∉ t.booleans
  grows : t.renames.Grows

namespace Settled

variable {t : Transformer} {p q : Params}

/-- What a key stands for stands for itself. -/
theorem targetOf_targetOf (ht : t.Settled) (key : String) :
    t.renames.targetOf (t.renames.targetOf key) = t.renames.targetOf key := by
  cases halias : t.renames.get? key with
  | none =>
    have hself : t.renames.targetOf key = key := by rw [Renames.targetOf, halias, Option.getD_none]
    rw [hself, hself]
  | some path =>
    have hpath : t.renames.targetOf key = path := by rw [Renames.targetOf, halias, Option.getD_some]
    rw [hpath, Renames.targetOf, (ht.paths _ (Table.mem_of_find? halias)).1, Option.getD_none]

/-- No other key stands for a boolean field. -/
theorem eq_of_targetOf_mem (ht : t.Settled) {key : String} (h : t.renames.targetOf key ∈ t.booleans) :
    t.renames.targetOf key = key := by
  cases halias : t.renames.get? key with
  | none => rw [Renames.targetOf, halias, Option.getD_none]
  | some path =>
    rw [Renames.targetOf, halias, Option.getD_some] at h
    exact absurd h (ht.paths _ (Table.mem_of_find? halias)).2.1

/-- Only `order_by` stands for itself. -/
theorem targetOf_eq_order_iff (ht : t.Settled) (key : String) :
    t.renames.targetOf key = orderParam ↔ key = orderParam := by
  have hpaths : ∀ k ∈ [key], t.renames.get? k ≠ some orderParam :=
    fun k _ halias => (ht.paths _ (Table.mem_of_find? halias)).2.2 rfl
  exact Renames.targetOf_eq_iff ht.order.1 hpaths key List.mem_cons_self

/-- The orders of transformed parameters are those that were sent, each replaced by itself. -/
theorem getAll_order (ht : t.Settled) (hkeys : p.keys.Nodup) (h : t.process p = .ok q) :
    q.getAll orderParam = (p.getAll orderParam).map t.renames.expandOrder := by
  obtain ⟨coerced, hcoerced, rfl⟩ := process_eq_ok h
  have hcoercedKeys := (Params.coerced_coerceBooleans hcoerced).keys
  rw [Params.getAll_expandOrder_self,
    Params.getAll_applyRenames_self (hcoercedKeys ▸ hkeys) fun k _ => ht.targetOf_eq_order_iff k,
    Params.getAll_coerceBooleans ht.order.2 hcoerced]

/-- Transformed parameters have only orders left to transform. -/
theorem process_process (ht : t.Settled) (hkeys : p.keys.Nodup) (h : t.process p = .ok q) :
    t.process q = .ok (q.expandOrder t.renames) := by
  have hgathered := gatheredFrom hkeys h
  have hsent : ∀ key ∈ q.keys, ∃ k, p.getAll k ≠ [] ∧ t.renames.targetOf k = key := by
    intro key hkey
    rw [hgathered.keys, List.mem_eraseDups, List.mem_map] at hkey
    obtain ⟨k, hk, htarget⟩ := hkey
    refine ⟨k, fun hnone => ?_, htarget⟩
    have hfull := (List.mem_filter.mp hk).2
    rw [hnone] at hfull
    cases hfull
  have htokens : q.coerceBooleans t.booleans = .ok q := by
    refine Params.coerceBooleans_of_tokens fun name hname value hvalue => ?_
    have horder : name ≠ orderParam := by
      rintro rfl
      exact ht.order.2 hname
    -- what a boolean field carries was sent under its own name
    rw [hgathered.values name horder, List.mem_flatMap] at hvalue
    obtain ⟨k, _, hvalue⟩ := hvalue
    split at hvalue
    · rename_i htarget
      have hk : k = name := (ht.eq_of_targetOf_mem (htarget ▸ hname)).symm.trans htarget
      rw [hk] at hvalue
      obtain ⟨sent, hsent, rfl⟩ := List.mem_map.mp hvalue
      obtain ⟨b, _, htoken⟩ := hgathered.tokens name hname sent hsent
      rw [if_pos hname, htoken]
      cases b <;> rfl
    · cases hvalue
  have hpaths : q.applyRenames t.renames = q := by
    refine Params.applyRenames_eq_self hgathered.distinct ?_ ?_
    · intro key hkey
      obtain ⟨k, hk, rfl⟩ := hsent key hkey
      exact getAll_process_ne_nil h hk
    · intro key hkey
      obtain ⟨k, _, rfl⟩ := hsent key hkey
      exact ht.targetOf_targetOf k
  rw [process, htokens, ok_bind, hpaths]

/-- They stay as they are if no alias occurs in any order that was sent. -/
theorem expandOrder_eq_self_iff (ht : t.Settled) (hkeys : p.keys.Nodup) (h : t.process p = .ok q) :
    q.expandOrder t.renames = q ↔ ∀ value ∈ p.getAll orderParam, t.renames.occursIn value = false := by
  rw [Params.expandOrder_eq_self_iff, ht.getAll_order hkeys h, List.forall_mem_map]
  simp only [Renames.expandOrder_twice_iff ht.grows]

end Settled

end Transformer

/-! ## The roots of the service -/

/-- The paths of every root of the service are settled. -/
theorem Service.settled {root : String} {t : Transformer}
    (ht : Transformer.ofRoot Service.registry root = .ok t) : t.Settled := by
  have hpaths : ∀ e ∈ Service.registry.entities, ∀ entry ∈ (Service.registry.mergedRenames e).entries,
      (Service.registry.mergedRenames e).get? entry.2 = none
        ∧ entry.2 ∉ Service.registry.booleanPaths e ∧ entry.2 ≠ orderParam := by decide
  have horder : ∀ e ∈ Service.registry.entities, (Service.registry.mergedRenames e).get? orderParam = none
      ∧ orderParam ∉ Service.registry.booleanPaths e := by decide
  have hgrows : ∀ e ∈ Service.registry.entities, (Service.registry.mergedRenames e).Grows := by decide
  obtain ⟨e, he, hrenames, hbooleans⟩ := Transformer.ofRoot_eq_ok ht
  obtain ⟨e', he', hmerged, _⟩ := Registry.renames_eq_ok hrenames
  cases he.symm.trans he'
  have hmem := Registry.mem_of_get? he
  constructor
  · rw [hmerged, hbooleans]
    exact hpaths e hmem
  · rw [hmerged, hbooleans]
    exact horder e hmem
  · rw [hmerged]
    exact hgrows e hmem

/-- For every root of the service, transformed parameters can be transformed again, with the same keys and the
same values under each of them but `order_by`.  They are what they were, orders included, if and only if no
alias of the root occurs in an order that was sent. -/
theorem process_again {root : String} {t : Transformer}
    (ht : Transformer.ofRoot Service.registry root = .ok t) {p q : Params} (hkeys : p.keys.Nodup)
    (h : t.process p = .ok q) :
    ∃ again, t.process q = .ok again ∧ again.keys = q.keys
      ∧ (∀ key, key ≠ orderParam → again.getAll key = q.getAll key)
      ∧ (again = q ↔ ∀ value ∈ p.getAll orderParam, t.renames.occursIn value = false) := by
  have hsettled := Service.settled ht
  exact ⟨_, hsettled.process_process hkeys h, Params.keys_expandOrder q t.renames,
    fun key hkey => Params.getAll_expandOrder hkey q t.renames, hsettled.expandOrder_eq_self_iff hkeys h⟩

/-- Active questions on a topic in the order of their titles. -/
theorem process_again_sample :
    ∃ t q, Transformer.ofRoot Service.registry "questions" = .ok t
      ∧ t.process (.ofPairs [("topic", .text "$setup"), ("is_active", .text "yes"),
          ("order_by", .text "-title")]) = .ok q
      ∧ t.process q = .ok q := by
  have ht : Transformer.ofRoot Service.registry "questions" = .ok ⟨_, _⟩ := rfl
  refine ⟨_, _, ht, rfl, ?_⟩
  obtain ⟨again, hagain, _, _, hsame⟩ := process_again ht (p := .ofPairs [("topic", .text "$setup"),
    ("is_active", .text "yes"), ("order_by", .text "-title")]) (by decide) rfl
  rw [hagain, hsame.mpr (by decide)]

/-- What is asked of parameters that were transformed for a root of the service: that they are transformed
into themselves. -/
def ProcessIdempotent : Prop :=
  ∀ (root : String) (t : Transformer) (p q : Params), Transformer.ofRoot Service.registry root = .ok t →
    p.keys.Nodup → t.process p = .ok q → t.process q = .ok q

/-- An order by an alias is replaced by its path, and that by a path that leads nowhere. -/
theorem not_process_idempotent : ¬ ProcessIdempotent := by
  intro h
  have hsame := h "questions" _ (.ofPairs [("order_by", .text "topic")])
    (.ofPairs [("order_by", .text "topics__title")]) rfl (by decide) rfl
  have hagain : (Transformer.process ⟨Service.registry.mergedRenames Service.questions.entity,
        Service.registry.booleanPaths Service.questions.entity⟩
      (.ofPairs [("order_by", .text "topics__title")]))
        = .ok (.ofPairs [("order_by", .text "topics__titles__title")]) := rfl
  have hvalues := congrArg (fun p : Params => p.getText? "order_by") (Except.ok.inj (hsame.symm.trans hagain))
  exact absurd hvalues (by decide)

end SchemaSearch
