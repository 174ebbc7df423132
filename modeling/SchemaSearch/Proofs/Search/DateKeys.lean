import SchemaSearch.Proofs.Search.Bounds
import SchemaSearch.Proofs.Search.Pairs
import SchemaSearch.Proofs.Text.Pieces
import SchemaSearch.Service.Resource

/-!
# Date keys

A date field is bounded by two keys, its name with an ending for each bound.  Keys with a mark anywhere in
them are read in this way: the field is what comes before the last two words, whatever these are, and a bound
is a lower one if the mark of lower bounds occurs in its key, be it in the name of the field.

Main statement: the keys of a date field narrow a search by its bounds, and all keys with a mark are taken
out (`date_keys_bound`).  Keys that end otherwise are not always left alone, nor are upper bounds always
taken for such (`not_bounds_by_ending`).
-/

namespace SchemaSearch

open Query Schema

/-! ## The keys of a field -/

namespace DateBounds

/-- The key of the lower bound of a field. -/
def startKey (field : String) : String := field ++ "_date_start"

/-- The key of its upper bound. -/
def finishKey (field : String) : String := field ++ "_date_end"

/-- A key that ends in two words names what comes before them. -/
theorem fieldOf_append (field first second : String) {ending : String}
    (hending : ending.toList = '_' :: (first.toList ++ '_' :: second.toList))
    (hfirst : '_' ∉ first.toList) (hsecond : '_' ∉ second.toList) :
    fieldOf (field ++ ending) = field := by
  have hsplit : Text.splitOn '_' (field ++ ending).toList
      = Text.splitOn '_' field.toList ++ [first.toList, second.toList] := by
    simp only [Text.splitOn_eq]
    rw [String.toList_append, hending, List.splitOn_append_cons_self, List.splitOn_append_cons_self,
      List.splitOn_eq_singleton hfirst, List.splitOn_eq_singleton hsecond]
    rfl
  have hjoined : "_".intercalate ((Text.splitOn '_' field.toList).map String.ofList) = field := by
    rw [← String.toList_inj, String.toList_intercalate, List.map_map, Text.splitOn_eq]
    simp only [Function.comp_def, String.toList_ofList, List.map_id']
    exact List.intercalate_splitOn '_'
  have hsome := List.length_pos_iff.mpr (Text.splitOn_ne_nil '_' field.toList)
  simp only [fieldOf, hsplit, List.map_append, List.length_append, List.length_map, List.length_cons,
    List.length_nil]
  rw [if_neg (by omega), Nat.add_sub_cancel, List.take_left' (List.length_map _), hjoined]

theorem fieldOf_startKey (field : String) : fieldOf (startKey field) = field :=
  fieldOf_append field "date" "start" (by decide) (by decide) (by decide)

theorem fieldOf_finishKey (field : String) : fieldOf (finishKey field) = field :=
  fieldOf_append field "date" "end" (by decide) (by decide) (by decide)

theorem contains_startKey (field : String) : Text.contains (startKey field) startMark = true :=
  Text.contains_append (by decide) field

theorem isBoundKey_startKey (field : String) : isBoundKey (startKey field) = true := by
  rw [isBoundKey, contains_startKey, Bool.true_or]

theorem isBoundKey_finishKey (field : String) : isBoundKey (finishKey field) = true := by
  have hmark : Text.contains (finishKey field) finishMark = true := Text.contains_append (by decide) field
  rw [isBoundKey, hmark, Bool.or_true]

/-- The key of an upper bound is taken for one of a lower bound only by the name of its field. -/
theorem contains_finishKey {field : String} (h : Text.contains field startMark = false) :
    Text.contains (finishKey field) startMark = false := by
  rw [← Bool.not_eq_true, Text.contains_iff_isInfix] at h ⊢
  rw [finishKey, String.toList_append, List.infix_append_iff]
  rintro (hfield | hending | ⟨lead, rest, hmark, hlead, hrest⟩)
  · exact h hfield
  · exact absurd hending (by decide)
  · -- no part of the mark that ends it begins the ending, so the mark would end the field
    have htails : ∀ tail ∈ startMark.toList.tails, tail <+: "_date_end".toList → tail = [] := by decide
    obtain rfl := htails rest ((List.mem_tails _ _).mpr ⟨lead, hmark.symm⟩) hrest
    rw [List.append_nil] at hmark
    exact h (hmark ▸ hlead.isInfix)

/-! ## The bounds of a field -/

variable {p : Params} {field : String}

theorem moment?_eq_none {key : String} (h : key ∉ p.keys) : moment? p key = .none := by
  have hnone : p.getAll key = [] := by
    rw [Params.getAll, Table.find?_eq_none h]
    rfl
  rw [moment?, Params.getText?, Params.get?, hnone]
  rfl

theorem mem_keys_of_moment? {key : String} {m : Moment} (h : moment? p key = some m) : key ∈ p.keys := by
  by_cases hmem : key ∈ p.keys
  · exact hmem
  · cases (moment?_eq_none hmem).symm.trans h

/-- Of keys that are all the same, the moment of that key is taken. -/
theorem foldl_moment? {keys : List String} {key : String} (hsame : ∀ k ∈ keys, k = key)
    (hnone : keys = [] → moment? p key = .none) :
    keys.foldl (fun _ k => moment? p k) .none = moment? p key := by
  rw [foldl_last]
  cases hlast : keys.getLast? with
  | none => exact (hnone (List.getLast?_eq_none_iff.mp hlast)).symm
  | some last =>
    rw [hsame last (List.mem_of_getLast? hlast)]
    rfl

/-- Parameters bound a field by a lookup: the moments of its keys are those of the lookup, and no other
moment is sent for it. -/
inductive BoundedBy (p : Params) (field : String) : Lookup → Prop
  | atLeast {start : Moment} (hstart : moment? p (startKey field) = some start)
      (hfinish : finishKey field ∉ p.keys) : BoundedBy p field (.atLeast start)
  | atMost {finish : Moment} (hstart : startKey field ∉ p.keys)
      (hfinish : moment? p (finishKey field) = some finish) : BoundedBy p field (.atMost finish)
  | range {start finish : Moment} (hstart : moment? p (startKey field) = some start)
      (hfinish : moment? p (finishKey field) = some finish) (hbefore : start.before finish = true) :
      BoundedBy p field (.range start finish)

/-- The keys with a mark are those of one field. -/
def OnlyBounds (p : Params) (field : String) : Prop :=
  ∀ key ∈ p.keys, isBoundKey key = true → key = startKey field ∨ key = finishKey field

/-- A key that is there and carries no moment does not bound. -/
theorem BoundedBy.isSome {lookup : Lookup} (h : BoundedBy p field lookup) {key : String}
    (hkey : key ∈ p.keys) (hfield : key = startKey field ∨ key = finishKey field) :
    (moment? p key).isSome = true := by
  rcases hfield with rfl | rfl
  · cases h with
    | atLeast hstart _ | range hstart _ _ => exact Option.isSome_iff_exists.mpr ⟨_, hstart⟩
    | atMost hstart _ => exact absurd hkey hstart
  · cases h with
    | atMost _ hfinish | range _ hfinish _ => exact Option.isSome_iff_exists.mpr ⟨_, hfinish⟩
    | atLeast _ hfinish => exact absurd hkey hfinish

theorem BoundedBy.exists_key {lookup : Lookup} (h : BoundedBy p field lookup) :
    ∃ key ∈ p.keys, isBoundKey key = true := by
  cases h with
  | atLeast hstart _ | range hstart _ _ =>
    exact ⟨_, mem_keys_of_moment? hstart, isBoundKey_startKey field⟩
  | atMost _ hfinish => exact ⟨_, mem_keys_of_moment? hfinish, isBoundKey_finishKey field⟩

/-- The bounds that the keys of one field set. -/
theorem ofParams_of_boundedBy {lookup : Lookup} (h : BoundedBy p field lookup)
    (honly : OnlyBounds p field)
    (hname : finishKey field ∈ p.keys → Text.contains field startMark = false) :
    ofParams p = .ok ⟨some field, moment? p (startKey field), moment? p (finishKey field)⟩ := by
  have hkeys : ∀ key ∈ p.keys.filter isBoundKey,
      key ∈ p.keys ∧ (key = startKey field ∨ key = finishKey field) := by
    intro key hkey
    obtain ⟨hmem, hbound⟩ := List.mem_filter.mp hkey
    exact ⟨hmem, honly key hmem hbound⟩
  have hfields : ∀ key ∈ p.keys.filter isBoundKey, fieldOf key = field := by
    intro key hkey
    rcases (hkeys key hkey).2 with rfl | rfl
    · exact fieldOf_startKey field
    · exact fieldOf_finishKey field
  apply foldlM_record_eq_ok_iff.mpr
  constructor
  · refine ⟨field, fun other (hother : other ∈ Option.none) => (Option.not_mem_none other hother).elim, ?_⟩
    intro key hkey
    exact ⟨hfields key hkey, h.isSome (hkeys key hkey).1 (hkeys key hkey).2⟩
  · apply eq_of_parts
    · obtain ⟨key, hkey, hbound⟩ := h.exists_key
      have hsome := List.ne_nil_of_mem (List.mem_filter.mpr ⟨hkey, hbound⟩)
      rw [field_foldl_set hfields, if_neg (mt List.isEmpty_iff.mp hsome)]
    · rw [start_foldl_set]
      apply foldl_moment?
      · intro key hkey
        obtain ⟨hkey, hmark⟩ := List.mem_filter.mp hkey
        refine (hkeys key hkey).2.resolve_right fun heq => ?_
        subst heq
        rw [contains_finishKey (hname (hkeys _ hkey).1)] at hmark
        cases hmark
      · intro hnone
        apply moment?_eq_none
        intro hmem
        have hbound := List.mem_filter.mpr ⟨hmem, isBoundKey_startKey field⟩
        exact List.filter_eq_nil_iff.mp hnone _ hbound (contains_startKey field)
    · rw [finish_foldl_set]
      apply foldl_moment?
      · intro key hkey
        obtain ⟨hkey, hmark⟩ := List.mem_filter.mp hkey
        refine (hkeys key hkey).2.resolve_left fun heq => ?_
        subst heq
        rw [contains_startKey] at hmark
        cases hmark
      · intro hnone
        apply moment?_eq_none
        intro hmem
        have hbound := List.mem_filter.mpr ⟨hmem, isBoundKey_finishKey field⟩
        refine List.filter_eq_nil_iff.mp hnone _ hbound ?_
        rw [contains_finishKey (hname hmem)]
        rfl

/-- They are the lookup. -/
theorem lookup?_of_boundedBy {lookup : Lookup} (h : BoundedBy p field lookup) :
    lookup? ⟨some field, moment? p (startKey field), moment? p (finishKey field)⟩ = .ok (some lookup) := by
  cases h with
  | atLeast hstart hfinish => simp only [lookup?, hstart, moment?_eq_none hfinish]
  | atMost hstart hfinish => simp only [lookup?, hfinish, moment?_eq_none hstart]
  | range hstart hfinish hbefore => simp only [lookup?, hstart, hfinish, hbefore, if_true]

end DateBounds

/-! ## Narrowing by dates -/

namespace Scope

variable {s : Scope} {p : Params} {renames : Renames} {field : String} {target : Target} {lookup : Lookup}

/-- A date field can be demanded to keep bounds. -/
theorem exists_filter_of_boundedBy (htarget : s.registry.resolve s.root.name field = .ok target)
    (htemporal : target.kind.isTemporal = true) (h : DateBounds.BoundedBy p field lookup) :
    ∃ narrowed, s.filter (.field field lookup) = .ok narrowed := by
  have htest : ∃ test, leafTest field target.kind ⟨target.table, target.column⟩ lookup = .ok test := by
    cases hkind : target.kind with
    | dateTime | date => cases h <;> exact ⟨_, rfl⟩
    | boolean | text | uuid | integer | float | other =>
      rw [hkind] at htemporal
      cases htemporal
  obtain ⟨test, htest⟩ := htest
  have hleaf : ∃ c, leafCondition field target lookup = .ok c := by
    rw [leafCondition, htest, ok_bind]
    split <;> exact ⟨_, rfl⟩
  obtain ⟨c, hc⟩ := hleaf
  rw [filter, Predicate.compile, htarget, ok_bind, fieldCondition, hc]
  exact ⟨_, rfl⟩

/-- Where only the keys of one field are such, it is these that are. -/
theorem without_boundKeys (honly : DateBounds.OnlyBounds p field) :
    p.without (p.keys.filter DateBounds.isBoundKey)
      = p.without [DateBounds.startKey field, DateBounds.finishKey field] := by
  rw [Params.without_eq, Params.without_eq]
  refine congrArg Params.mk (List.filter_congr fun entry hentry => ?_)
  have hkey : entry.1 ∈ p.keys := List.mem_map_of_mem hentry
  congr 1
  rw [Bool.eq_iff_iff, List.contains_iff_mem, List.contains_iff_mem, List.mem_filter, List.mem_cons,
    List.mem_singleton]
  constructor
  · rintro ⟨_, hbound⟩
    exact honly entry.1 hkey hbound
  · rintro (heq | heq)
    · rw [heq] at hkey ⊢
      exact ⟨hkey, DateBounds.isBoundKey_startKey field⟩
    · rw [heq] at hkey ⊢
      exact ⟨hkey, DateBounds.isBoundKey_finishKey field⟩

/-- The keys of a date field narrow by its bounds. -/
theorem searchDates_of_boundedBy (htarget : s.registry.resolve s.root.name field = .ok target)
    (htemporal : target.kind.isTemporal = true) (halias : renames.get? field = none)
    (h : DateBounds.BoundedBy p field lookup) (honly : DateBounds.OnlyBounds p field)
    (hname : DateBounds.finishKey field ∈ p.keys → Text.contains field DateBounds.startMark = false) :
    ∃ narrowed, s.filter (.field field lookup) = .ok narrowed
      ∧ s.searchDates p renames
        = .ok (narrowed, p.without [DateBounds.startKey field, DateBounds.finishKey field]) := by
  obtain ⟨narrowed, hnarrowed⟩ := exists_filter_of_boundedBy htarget htemporal h
  have hpath : DateBounds.pathOf s renames field = .ok field := by
    rw [DateBounds.pathOf, halias, htarget]
    exact if_pos htemporal
  refine ⟨narrowed, hnarrowed, ?_⟩
  simp only [searchDates, DateBounds.ofParams_of_boundedBy h honly hname, ok_bind, hpath,
    DateBounds.lookup?_of_boundedBy h, without_boundKeys honly, hnarrowed]

end Scope

/-- A field that resolves to a date column and is no alias is bounded by its two keys: by the first alone from
below, by the second alone from above, and by both to a range that is not empty.  All other keys stay, with
their values and in their order.  This holds where no other key has a mark in it, and for upper bounds where
the name of the field has no mark of lower bounds.  Wherever dates are searched, exactly the keys with a mark
are taken out. -/
theorem date_keys_bound {s : Scope} {p : Params} {renames : Renames} :
    (∀ (field : String) (target : Target) (lookup : Lookup),
      s.registry.resolve s.root.name field = .ok target → target.kind.isTemporal = true →
      renames.get? field = none → DateBounds.BoundedBy p field lookup → DateBounds.OnlyBounds p field →
      (DateBounds.finishKey field ∈ p.keys → Text.contains field DateBounds.startMark = false) →
      ∃ narrowed, s.filter (.field field lookup) = .ok narrowed
        ∧ narrowed.predicates = s.predicates ++ [.field field lookup]
        ∧ s.searchDates p renames
          = .ok (narrowed, p.without [DateBounds.startKey field, DateBounds.finishKey field]))
    ∧ ∀ narrowed remaining, s.searchDates p renames = .ok (narrowed, remaining) →
      remaining = p.without (p.keys.filter DateBounds.isBoundKey) := by
  refine ⟨?_, fun narrowed remaining => Scope.remaining_searchDates⟩
  intro field target lookup htarget htemporal halias hlookup honly hname
  obtain ⟨narrowed, hnarrowed, hsearch⟩ :=
    Scope.searchDates_of_boundedBy htarget htemporal halias hlookup honly hname
  refine ⟨narrowed, hnarrowed, ?_, hsearch⟩
  obtain ⟨_, _, rfl⟩ := Scope.filter_eq_ok hnarrowed
  rfl

/-- The first moment of a year. -/
def newYear (year : Int) : Moment := ⟨year, 1, 1, 0, 0, 0, 0⟩

/-- The two bounds of the creation of answers, in front of and behind others; one of these is the path of the
field itself. -/
def answeredSince : Params :=
  ⟨[("answers__created_at", [.text "2022"]), ("answers__created_at_date_end", [.text "2025-01-01"]),
    ("page", [.text "2", .text "3"]), ("answers__created_at_date_start", [.text "2020-01-01"])]⟩

theorem date_keys_bound_sample :
    ∃ narrowed, (Scope.ofEntity Service.registry Service.questions.entity).searchDates answeredSince
        (Service.registry.mergedRenames Service.questions.entity)
        = .ok (narrowed, ⟨[("answers__created_at", [.text "2022"]), ("page", [.text "2", .text "3"])]⟩)
      ∧ narrowed.predicates = [.field "answers__created_at" (.range (newYear 2020) (newYear 2025))] := by
  have hlookup : DateBounds.BoundedBy answeredSince "answers__created_at"
      (.range (newYear 2020) (newYear 2025)) := .range (by decide) (by decide) (by decide)
  obtain ⟨narrowed, _, hpredicates, hsearch⟩ :=
    (@date_keys_bound (.ofEntity Service.registry Service.questions.entity) answeredSince
      (Service.registry.mergedRenames Service.questions.entity)).1 "answers__created_at" _ _ rfl rfl rfl
      hlookup (by unfold DateBounds.OnlyBounds; decide) (by decide)
  exact ⟨narrowed, hsearch, hpredicates⟩

/-! ## Marks in other places -/

/-- What is asked of the two keys of a date field beside keys with other endings, where a condition is
fulfilled. -/
def BoundsByEnding (side : Params → String → Prop) : Prop :=
  ∀ (s : Scope) (p : Params) (renames : Renames) (field : String) (target : Target) (lookup : Lookup),
    s.registry.resolve s.root.name field = .ok target → target.kind.isTemporal = true →
    renames.get? field = none → DateBounds.BoundedBy p field lookup →
    (∀ key ∈ p.keys, key ≠ DateBounds.startKey field → key ≠ DateBounds.finishKey field →
      ¬ "_date_start".toList <:+ key.toList ∧ ¬ "_date_end".toList <:+ key.toList) →
    side p field → ∃ narrowed, narrowed.predicates = s.predicates ++ [.field field lookup]
      ∧ s.searchDates p renames
        = .ok (narrowed, p.without [DateBounds.startKey field, DateBounds.finishKey field])

/-- Candidates, and how each of them starts. -/
def candidates : Entity :=
  ⟨"candidates", [⟨"candidate_start", .text⟩, ⟨"created_at", .dateTime⟩], [], .empty⟩

/-- Events, and the moment of their first date. -/
def events : Entity := ⟨"events", [⟨"date_start_at", .dateTime⟩], [], .empty⟩

/-- The first exception is meant to be: a key with a mark anywhere in it sets a bound, even if it is the name of
a field.  The second is a slip: the two bounds are told apart by whether the mark of lower bounds occurs anywhere
in the key, so an upper bound is taken for a lower one where the name of its field has that mark. -/
theorem not_bounds_by_ending :
    ¬ BoundsByEnding (fun _ field => Text.contains field DateBounds.startMark = false)
    ∧ ¬ BoundsByEnding DateBounds.OnlyBounds := by
  constructor
  · intro h
    obtain ⟨narrowed, _, hsearch⟩ := h (.ofEntity (.ofEntities [candidates]) candidates)
      ⟨[("candidate_start", [.text "well"]), ("created_at_date_start", [.text "2024-01-01"])]⟩ .empty
      "created_at" _ (.atLeast (newYear 2024)) rfl rfl rfl (.atLeast (by decide) (by decide)) (by decide)
      (by decide)
    have hrefused : (Scope.ofEntity (.ofEntities [candidates]) candidates).searchDates
        ⟨[("candidate_start", [.text "well"]), ("created_at_date_start", [.text "2024-01-01"])]⟩ .empty
          = .error (.date .badFormat) := rfl
    cases hrefused.symm.trans hsearch
  · intro h
    obtain ⟨narrowed, hpredicates, hsearch⟩ := h (.ofEntity (.ofEntities [events]) events)
      ⟨[("date_start_at_date_end", [.text "2024-01-01"])]⟩ .empty "date_start_at" _
      (.atMost (newYear 2024)) rfl rfl rfl (.atMost (by decide) (by decide)) (by decide)
      (by unfold DateBounds.OnlyBounds; decide)
    have hlower : (fun found : Scope × Params => found.1.predicates)
        <$> (Scope.ofEntity (.ofEntities [events]) events).searchDates
          ⟨[("date_start_at_date_end", [.text "2024-01-01"])]⟩ .empty
        = .ok [.field "date_start_at" (.atLeast (newYear 2024))] := rfl
    rw [hsearch] at hlower
    cases hpredicates.symm.trans (Except.ok.inj hlower)

end SchemaSearch
