import SchemaSearch.Proofs.Search.Nesting

/-!
# Boolean columns

The boolean fields of a root, and those of the entities that its walk has found, are read before anything
else: each value has to be a token.  Every other path to a boolean column is read like any other field, by
its marks and NULL first, and by the token behind them in the end.  So what may be asked of a boolean column
depends on whether the walk has found its path; what a token asks does not.

Main statement: one value asks the same of two boolean columns, or is refused for both, unless only one of
the paths was found and the value asks for more than a token does (`booleans_asked_alike`).
-/

namespace SchemaSearch

open Query Schema

/-! ## What a value asks -/

/-- What a lookup asks of a boolean column: to equal a truth, or to be NULL. -/
def Lookup.askedOfBoolean : Lookup → Option (Option Bool)
  | .startsWith value | .contains value => (classifyBoolean value).map some
  | .isNull true => some none
  | _ => none

/-- What a value asks as a token. -/
def Json.askedByToken (value : Json) : Option (Option Bool) :=
  (value.scalarText.bind classifyBoolean).map some

/-- What a value asks as the value of any field. -/
def Json.askedOfBoolean : Json → Option (Option Bool)
  | .null => some none
  | value => value.scalarText.bind fun s =>
    if maxValueBytes < s.utf8ByteSize then none else (Lookup.ofText s).askedOfBoolean

/-- Whether a value asks for more than a token does: for NULL, or for a token behind a mark. -/
def Json.asksBeyondTokens (value : Json) : Bool := value.askedOfBoolean.isSome && value.askedByToken.isNone

/-- What a value asks of the boolean column at the end of a path. -/
def Transformer.askedOfBoolean (t : Transformer) (path : String) (value : Json) : Option (Option Bool) :=
  if path ∈ t.booleans then value.askedByToken else value.askedOfBoolean

/-- A token asks the same wherever it is read. -/
theorem Json.asked_of_token {value : Json} {asked : Option Bool} (h : value.askedByToken = some asked) :
    value.askedOfBoolean = some asked := by
  obtain ⟨b, hb, rfl⟩ := Option.map_eq_some_iff.mp h
  obtain ⟨s, htext, htoken⟩ := Option.bind_eq_some_iff.mp hb
  have hshort : ¬ maxValueBytes < s.utf8ByteSize := Nat.not_lt.mpr (utf8ByteSize_token htoken)
  have hasked : (Lookup.ofText s).askedOfBoolean = some (some b) := by
    rw [ofText_token htoken, Lookup.askedOfBoolean, htoken]
    rfl
  cases value with
  | null => cases htext
  | _ => simp only [Json.askedOfBoolean, htext, Option.bind_some, hshort, if_false, hasked]

/-- A value that asks for no more than a token is read alike everywhere. -/
theorem Json.asked_eq_askedByToken {value : Json} (h : value.asksBeyondTokens = false) :
    value.askedOfBoolean = value.askedByToken := by
  cases htoken : value.askedByToken with
  | some asked => exact asked_of_token htoken
  | none =>
    rw [asksBeyondTokens, htoken, Option.isNone_none, Bool.and_true] at h
    exact Option.not_isSome_iff_eq_none.mp (Bool.not_eq_true _ ▸ h)

/-- A token and what it is coerced to ask the same. -/
theorem Json.asked_asToken {value : Json} {asked : Option Bool} (h : value.askedByToken = some asked) :
    value.asToken.askedOfBoolean = some asked := by
  obtain ⟨b, hb, rfl⟩ := Option.map_eq_some_iff.mp h
  rw [Json.asToken, hb]
  cases b <;> rfl

/-! ## The condition of what is asked -/

/-- The condition that asks for the boolean column of a target. -/
def Schema.Target.asks (target : Target) (asked : Option Bool) : Condition :=
  let c : Column := ⟨target.table, target.column⟩
  let leaf := match asked with
    | some b => Condition.all [.test (.equals c (.boolean b)), .test (.isNotNull c)]
    | none => Condition.all [.test (.isNull c)]
  target.hops.foldr (fun hop rows => hop.condition asked.isNone rows) leaf

theorem Lookup.ofText_cases (s : String) :
    (∃ value, ofText s = .startsWith value) ∨ (∃ value, ofText s = .contains value)
      ∨ ofText s = .isNull true := by
  unfold ofText
  split
  · exact .inl ⟨_, rfl⟩
  · exact .inr (.inl ⟨_, rfl⟩)
  · split
    · exact .inr (.inr rfl)
    · exact .inl ⟨_, rfl⟩

section Conditions

variable {r : Registry} {root path : String} {target : Target} {value : Json}

/-- A text with a mark, or without, is compared with the truth of the token behind it. -/
theorem fieldCondition_truth (hkind : target.kind = .boolean) (path token : String) {lookup : Lookup}
    (hlookup : lookup = .startsWith token ∨ lookup = .contains token) :
    (fieldCondition path target lookup).toOption
      = (classifyBoolean token).map fun b => target.asks (some b) := by
  have hparse : fieldCondition path target lookup
      = parseBoolean path token >>= fun b => .ok (target.asks (some b)) := by
    rcases hlookup with rfl | rfl
    all_goals
      simp only [fieldCondition, leafCondition, hkind]
      show (((parseBoolean path token >>= fun b => Except.ok (Test.equals _ (.boolean b))) >>= _) >>= _) = _
      cases parseBoolean path token <;> rfl
  rw [hparse, parseBoolean]
  cases classifyBoolean token <;> rfl

/-- On a boolean column the lookup of a text becomes what it asks, or nothing. -/
theorem fieldCondition_ofText (hkind : target.kind = .boolean) (path s : String) :
    (fieldCondition path target (.ofText s)).toOption = (Lookup.ofText s).askedOfBoolean.map target.asks := by
  rcases Lookup.ofText_cases s with ⟨token, htoken⟩ | ⟨token, htoken⟩ | hnull
  · rw [htoken, fieldCondition_truth hkind path token (.inl rfl), Lookup.askedOfBoolean, Option.map_map]
    rfl
  · rw [htoken, fieldCondition_truth hkind path token (.inr rfl), Lookup.askedOfBoolean, Option.map_map]
    rfl
  · rw [hnull]
    rfl

/-- So does a term. -/
theorem compile_ofTerm (htarget : r.resolve root path = .ok target) (hkind : target.kind = .boolean)
    (value : Json) :
    (Predicate.ofTerm path value >>= Predicate.compile r root).toOption
      = value.askedOfBoolean.map target.asks := by
  have hterm : Predicate.ofTerm path value >>= Predicate.compile r root
      = Lookup.ofValue path value >>= fieldCondition path target := by
    rw [Predicate.ofTerm]
    cases Lookup.ofValue path value with
    | error error => rfl
    | ok lookup => exact Predicate.compile_field htarget lookup
  have htext : ∀ s : String,
      ((if maxValueBytes < s.utf8ByteSize then Except.error (.invalidParameter path .tooLong)
        else .ok (Lookup.ofText s)) >>= fieldCondition path target).toOption
        = (if maxValueBytes < s.utf8ByteSize then none
            else (Lookup.ofText s).askedOfBoolean).map target.asks := by
    intro s
    split
    · rfl
    · exact fieldCondition_ofText hkind path s
  rw [hterm]
  cases value with
  | null | list _ | object _ => rfl
  | bool _ | number _ | text _ => exact htext _

end Conditions

/-! ## Searches with one value -/

/-- A key is searched under its own name: it steers nothing, and it is no alias of another. -/
structure Transformer.Searches (t : Transformer) (c : SearchConfig) (path : String) : Prop where
  itself : t.renames.targetOf path = path
  namesField : c.namesField path = true
  notInactive : path ≠ c.includeInactiveParam
  notSteering : path ∉ [orderParam, Operator.param, Page.param, Page.sizeParam]

instance (t : Transformer) (c : SearchConfig) (path : String) : Decidable (t.Searches c path) :=
  decidable_of_iff (t.renames.targetOf path = path ∧ c.namesField path = true
      ∧ path ≠ c.includeInactiveParam ∧ path ∉ [orderParam, Operator.param, Page.param, Page.sizeParam])
    ⟨fun ⟨hitself, hfield, hactive, hsteering⟩ => ⟨hitself, hfield, hactive, hsteering⟩,
      fun ⟨hitself, hfield, hactive, hsteering⟩ => ⟨hitself, hfield, hactive, hsteering⟩⟩

section Searches

variable {r : Registry} {c : SearchConfig} {root path : String} {e : Entity} {t : Transformer}
  {target : Target} {value : Json}

/-- A token passes every coercion. -/
theorem coerceBooleans_of_token {key : String} {asked : Option Bool} (h : value.askedByToken = some asked)
    (names : List String) : Params.coerceBooleans ⟨[(key, [value])]⟩ names
      = .ok ⟨[(key, [if key ∈ names then value.asToken else value])]⟩ := by
  obtain ⟨b, hb, _⟩ := Option.map_eq_some_iff.mp h
  have hstep : ∀ name ∈ names, ∀ start, ∃ next,
      Params.coerceKey ⟨[(key, [value])]⟩ start name = .ok next := by
    intro name _ start
    unfold Params.coerceKey
    by_cases hsame : key = name
    · subst hsame
      simp only [Params.getAll_single, List.mapM_cons, coerceBoolean, hb]
      cases b <;> exact ⟨_, rfl⟩
    · rw [Params.getAll_single_of_ne hsame]
      exact ⟨start, rfl⟩
  obtain ⟨coerced, hcoerced⟩ := exists_foldlM hstep ⟨[(key, [value])]⟩
  have hok : Params.coerceBooleans ⟨[(key, [value])]⟩ names = .ok coerced := hcoerced
  rw [hok, coerceBooleans_single hok]

/-- A value of a key that is no boolean field is left as it is. -/
theorem coerceBooleans_of_not_mem {key : String} {names : List String} (h : key ∉ names) (value : Json) :
    Params.coerceBooleans ⟨[(key, [value])]⟩ names = .ok ⟨[(key, [value])]⟩ := by
  refine Params.coerceBooleans_eq_self fun name hname => Params.getAll_single_of_ne ?_ _
  rintro rfl
  exact h hname

/-- A value that asks something of a boolean column passes the coercion. -/
theorem Transformer.coerceBooleans_of_asked {asked : Option Bool}
    (h : t.askedOfBoolean path value = some asked) :
    Params.coerceBooleans ⟨[(path, [value])]⟩ t.booleans
      = .ok ⟨[(path, [if path ∈ t.booleans then value.asToken else value])]⟩ := by
  rw [Transformer.askedOfBoolean] at h
  split at h
  · exact coerceBooleans_of_token h t.booleans
  · rename_i hother
    rw [if_neg hother]
    exact coerceBooleans_of_not_mem hother value

/-- One value of one key is searched as one predicate, in the order and on the page that hold by default. -/
theorem Narrowed.finish_single (hroot : r.get? root = some e) (hfilter : path ∉ c.searchFilters)
    (hsteering : path ∉ [orderParam, Operator.param, Page.param, Page.sizeParam]) (value : Json)
    (inactive : Bool) :
    Narrowed.finish ⟨Scope.ofEntity r e, ⟨[(path, [value])]⟩, inactive⟩ r c root = (do
      let predicate ← Predicate.ofTerm path value
      let condition ← predicate.compile r root
      let order ← SortOrder.read c.defaultOrder r root
      .ok ⟨⟨r, e, [predicate], Condition.always.and condition, !inactive⟩, order,
        ⟨1, max c.defaultPageSize 1⟩⟩) := by
  have hname := Registry.name_of_get? hroot
  have hnone : ∀ name ∈ [orderParam, Operator.param, Page.param, Page.sizeParam],
      Params.get? ⟨[(path, [value])]⟩ name = none := by
    intro name hmem
    have hne : path ≠ name := by
      rintro rfl
      exact hsteering hmem
    rw [Params.get?, Params.getAll_single_of_ne hne]
    rfl
  have hremaining : Params.without ⟨[(path, [value])]⟩ c.searchFilters = ⟨[(path, [value])]⟩ := by
    have hkeep : (!c.searchFilters.contains path) = true := by simpa using hfilter
    rw [Params.without_eq, List.filter_cons, hkeep, if_pos rfl, List.filter_nil]
  have hsearch : Prepared.searchFields c (Scope.ofEntity r e) ⟨[(path, [value])]⟩
      = Predicate.ofTerm path value >>= (Scope.ofEntity r e).filter := by
    rw [Prepared.searchFields, Operator.ofParams?, hnone Operator.param (by decide), Option.map_none]
    simp only [Scope.searchTerms, Params.termPredicates, Params.terms, hremaining]
    show (List.mapM (fun pair : String × Json => Predicate.ofTerm pair.1 pair.2) [(path, value)] >>= _) = _
    rw [List.mapM_cons, List.mapM_nil]
    cases Predicate.ofTerm path value <;> rfl
  have horder : Prepared.orderText c ⟨[(path, [value])]⟩ = c.defaultOrder := by
    rw [Prepared.orderText, Params.getText?, hnone orderParam (by decide)]
    rfl
  have hpage : Page.ofParams ⟨[(path, [value])]⟩ c.defaultPageSize = .ok ⟨1, max c.defaultPageSize 1⟩ := by
    simp only [Page.ofParams, Page.readKey, Params.getText?, hnone Page.param (by decide),
      hnone Page.sizeParam (by decide)]
    rfl
  have hdemand : ∀ predicate : Predicate, (Scope.ofEntity r e).filter predicate
      = predicate.compile r root >>= fun condition =>
        .ok ⟨r, e, [predicate], Condition.always.and condition, false⟩ := by
    intro predicate
    show (predicate.compile r e.name >>= _) = _
    rw [hname]
    rfl
  rw [finish, hsearch, horder, hpage]
  simp only [bind_assoc, hdemand, Scope.marked_eq]
  rfl

/-- Before it is searched, the key of a boolean column may have its value coerced. -/
theorem Prepared.ofParams_single (hroot : r.get? root = some e) (ht : Transformer.ofRoot r root = .ok t)
    (hpath : t.Searches c path) {coerced : Json}
    (hcoerced : Params.coerceBooleans ⟨[(path, [value])]⟩ t.booleans = .ok ⟨[(path, [coerced])]⟩) :
    Prepared.ofParams r c root ⟨[(path, [value])]⟩
      = Narrowed.finish ⟨Scope.ofEntity r e, ⟨[(path, [coerced])]⟩, false⟩ r c root := by
  have horder : t.renames.targetOf path ≠ orderParam := by
    rw [hpath.itself]
    rintro rfl
    exact hpath.notSteering (by decide)
  have hprocess := process_single hcoerced horder
  rw [hpath.itself] at hprocess
  have hplain : Narrowed.ofParams r c root ⟨[(path, [value])]⟩
      = .ok ⟨Scope.ofEntity r e, ⟨[(path, [coerced])]⟩, false⟩ := by
    refine Narrowed.ofParams_plain hroot ht hprocess (Params.getAll_single_of_ne hpath.notInactive _) ?_
    intro name hname
    rw [List.mem_singleton.mp hname]
    exact (SearchConfig.namesField_eq_true.mp hpath.namesField).2
  rw [Prepared.ofParams_eq, hplain, ok_bind]

/-- A value that asks something of a boolean column is searched as what it asks. -/
theorem Prepared.ofParams_of_asked {asked : Option Bool} (hroot : r.get? root = some e)
    (ht : Transformer.ofRoot r root = .ok t) (hpath : t.Searches c path)
    (htarget : r.resolve root path = .ok target) (hkind : target.kind = .boolean)
    (hasked : t.askedOfBoolean path value = some asked) :
    ∃ predicate, Prepared.ofParams r c root ⟨[(path, [value])]⟩
      = SortOrder.read c.defaultOrder r root >>= fun order =>
        .ok ⟨⟨r, e, [predicate], Condition.always.and (target.asks asked), true⟩, order,
          ⟨1, max c.defaultPageSize 1⟩⟩ := by
  have hread : (if path ∈ t.booleans then value.asToken else value).askedOfBoolean = some asked := by
    rw [Transformer.askedOfBoolean] at hasked
    split at hasked
    · rename_i hboolean
      rw [if_pos hboolean]
      exact Json.asked_asToken hasked
    · rename_i hother
      rwa [if_neg hother]
  have hcompile := compile_ofTerm htarget hkind (if path ∈ t.booleans then value.asToken else value)
  rw [hread, Option.map_some] at hcompile
  rw [ofParams_single hroot ht hpath (Transformer.coerceBooleans_of_asked hasked),
    Narrowed.finish_single hroot (SearchConfig.namesField_eq_true.mp hpath.namesField).1 hpath.notSteering]
  revert hcompile
  cases Predicate.ofTerm path (if path ∈ t.booleans then value.asToken else value) with
  | error error => exact fun h => by cases h
  | ok predicate =>
    rw [ok_bind, ok_bind]
    cases predicate.compile r root with
    | error error => exact fun h => by cases h
    | ok condition =>
      intro hcompile
      cases hcompile
      exact ⟨predicate, rfl⟩

/-- A value that asks nothing is refused. -/
theorem Prepared.ofParams_ne_ok_of_asked (hroot : r.get? root = some e)
    (ht : Transformer.ofRoot r root = .ok t) (hpath : t.Searches c path)
    (htarget : r.resolve root path = .ok target) (hkind : target.kind = .boolean)
    (hasked : t.askedOfBoolean path value = none) (s : Prepared) :
    Prepared.ofParams r c root ⟨[(path, [value])]⟩ ≠ .ok s := by
  intro h
  rw [Transformer.askedOfBoolean] at hasked
  split at hasked
  · -- what is no token does not pass the coercion
    rename_i hboolean
    have hnone := Option.map_eq_none_iff.mp hasked
    rw [Prepared.ofParams_eq] at h
    obtain ⟨n, hn, _⟩ := bind_eq_ok h
    obtain ⟨t', transformed, _, _, ht', htransformed, _⟩ := Narrowed.ofParams_eq_ok hn
    cases ht'.symm.trans ht
    obtain ⟨coerced, hcoerced, _⟩ := process_eq_ok htransformed
    exact Params.coerceBooleans_ne_ok hboolean (Params.getAll_single path [value]) hnone coerced hcoerced
  · rename_i hother
    rw [ofParams_single hroot ht hpath (coerceBooleans_of_not_mem hother value), Narrowed.finish_single hroot
      (SearchConfig.namesField_eq_true.mp hpath.namesField).1 hpath.notSteering] at h
    obtain ⟨predicate, hpredicate, h⟩ := bind_eq_ok h
    obtain ⟨condition, hcondition, _⟩ := bind_eq_ok h
    have hcompile := compile_ofTerm htarget hkind value
    rw [hasked, hpredicate, ok_bind, hcondition] at hcompile
    cases hcompile

end Searches

/-- Two searches ask the same of two columns, or both are refused. -/
def Prepared.AskAlike (target target' : Target) (found found' : Except SearchError Prepared) : Prop :=
  (∃ s s' asked, found = .ok s ∧ found' = .ok s' ∧ s.scope.base = Condition.always.and (target.asks asked)
      ∧ s'.scope.base = Condition.always.and (target'.asks asked))
    ∨ ∃ error error', found = .error error ∧ found' = .error error'

/-- One value asks the same of two boolean columns, or is refused for both, if the walk has found both paths
or neither, or if the value asks for no more than a token does.  Else it is refused where the path was
found, and taken where it was not. -/
theorem booleans_asked_alike {r : Registry} {c : SearchConfig} {root path path' : String} {t : Transformer}
    {target target' : Target} {value : Json} (ht : Transformer.ofRoot r root = .ok t)
    (hpath : t.Searches c path) (hpath' : t.Searches c path')
    (htarget : r.resolve root path = .ok target) (htarget' : r.resolve root path' = .ok target')
    (hkind : target.kind = .boolean) (hkind' : target'.kind = .boolean) :
    ((path ∈ t.booleans ↔ path' ∈ t.booleans) ∨ value.asksBeyondTokens = false →
        Prepared.AskAlike target target' (Prepared.ofParams r c root ⟨[(path, [value])]⟩)
          (Prepared.ofParams r c root ⟨[(path', [value])]⟩))
      ∧ (path ∈ t.booleans → path' ∉ t.booleans → value.asksBeyondTokens = true →
          (∀ s, Prepared.ofParams r c root ⟨[(path, [value])]⟩ ≠ .ok s)
            ∧ ∀ order, SortOrder.read c.defaultOrder r root = .ok order →
              ∃ s, Prepared.ofParams r c root ⟨[(path', [value])]⟩ = .ok s) := by
  obtain ⟨e, hroot, _, _⟩ := Transformer.ofRoot_eq_ok ht
  constructor
  · intro halike
    have hsame : t.askedOfBoolean path value = t.askedOfBoolean path' value := by
      rw [Transformer.askedOfBoolean, Transformer.askedOfBoolean]
      rcases halike with hfound | htoken
      · by_cases hboolean : path ∈ t.booleans
        · rw [if_pos hboolean, if_pos (hfound.mp hboolean)]
        · rw [if_neg hboolean, if_neg fun hmem => hboolean (hfound.mpr hmem)]
      · rw [Json.asked_eq_askedByToken htoken, ite_self, ite_self]
    cases hasked : t.askedOfBoolean path value with
    | none =>
      right
      obtain ⟨error, herror⟩ := exists_error
        (Prepared.ofParams_ne_ok_of_asked hroot ht hpath htarget hkind hasked)
      obtain ⟨error', herror'⟩ := exists_error
        (Prepared.ofParams_ne_ok_of_asked hroot ht hpath' htarget' hkind' (hsame ▸ hasked))
      exact ⟨error, error', herror, herror'⟩
    | some asked =>
      obtain ⟨predicate, hfound⟩ := Prepared.ofParams_of_asked hroot ht hpath htarget hkind hasked
      obtain ⟨predicate', hfound'⟩ :=
        Prepared.ofParams_of_asked hroot ht hpath' htarget' hkind' (hsame ▸ hasked)
      rw [hfound, hfound']
      cases SortOrder.read c.defaultOrder r root with
      | error error => exact .inr ⟨error, error, rfl, rfl⟩
      | ok order => exact .inl ⟨_, _, asked, rfl, rfl, rfl, rfl⟩
  · intro hboolean hother hbeyond
    rw [Json.asksBeyondTokens, Bool.and_eq_true] at hbeyond
    obtain ⟨hsome, hnone⟩ := hbeyond
    constructor
    · refine Prepared.ofParams_ne_ok_of_asked hroot ht hpath htarget hkind ?_
      rw [Transformer.askedOfBoolean, if_pos hboolean]
      exact Option.isNone_iff_eq_none.mp hnone
    · intro order horder
      obtain ⟨asked, hasked⟩ := Option.isSome_iff_exists.mp hsome
      have hread : t.askedOfBoolean path' value = some asked := by
        rw [Transformer.askedOfBoolean, if_neg hother, hasked]
      obtain ⟨predicate, hfound⟩ := Prepared.ofParams_of_asked hroot ht hpath' htarget' hkind' hread
      rw [hfound, horder]
      exact ⟨_, rfl⟩

/-- `Yes` asks the same of questions as of their topics, although the walk does not go through the junction
table; NULL may be asked of the topics only. -/
theorem booleans_asked_alike_sample :
    (∃ target target', Service.registry.resolve "questions" "is_active" = .ok target
        ∧ Service.registry.resolve "questions" "topics__is_active" = .ok target'
        ∧ Prepared.AskAlike target target'
          (Prepared.ofParams Service.registry .standard "questions" ⟨[("is_active", [.text "Yes"])]⟩)
          (Prepared.ofParams Service.registry .standard "questions"
            ⟨[("topics__is_active", [.text "Yes"])]⟩))
      ∧ ∃ s, Prepared.ofParams Service.registry .standard "questions"
        ⟨[("topics__is_active", [.null])]⟩ = .ok s := by
  have ht : Transformer.ofRoot Service.registry "questions" = .ok ⟨_, _⟩ := rfl
  constructor
  · exact ⟨_, _, rfl, rfl,
      (booleans_asked_alike ht (by decide) (by decide) rfl rfl rfl rfl).1 (.inr (by decide))⟩
  · have hnull := (@booleans_asked_alike Service.registry .standard "questions" "is_active"
      "topics__is_active" _ _ _ .null ht (by decide) (by decide) rfl rfl rfl rfl).2
    exact (hnull (by decide) (by decide) (by decide)).2 _ rfl

/-! ## Where paths differ -/

/-- What is asked of two boolean columns where a condition is fulfilled: that every scalar asks the same of
both. -/
def AskedAlike (side : Transformer → String → String → Json → Prop) : Prop :=
  ∀ (r : Registry) (root path path' : String) (t : Transformer) (target target' : Target) (value : Json),
    Transformer.ofRoot r root = .ok t → r.resolve root path = .ok target →
    r.resolve root path' = .ok target' → target.kind = .boolean → target'.kind = .boolean →
    value.isScalar = true → side t path path' value →
    Prepared.AskAlike target target' (Prepared.ofParams r .standard root ⟨[(path, [value])]⟩)
      (Prepared.ofParams r .standard root ⟨[(path', [value])]⟩)

/-- NULL may be asked of topics but not of questions; a mark may stand in front of the token at the end of a
path that goes in a circle, but not of a shorter one; an alias may have the name of a boolean field; and so
may a search filter. -/
theorem not_askedAlike :
    ¬ AskedAlike (fun t path path' _ => t.Searches .standard path ∧ t.Searches .standard path')
    ∧ ¬ AskedAlike (fun t path path' value => t.Searches .standard path ∧ t.Searches .standard path'
        ∧ value.askedOfBoolean ≠ some none)
    ∧ ¬ AskedAlike (fun t path path' _ => (path ∈ t.booleans ↔ path' ∈ t.booleans)
        ∧ SearchConfig.standard.namesField path = true ∧ SearchConfig.standard.namesField path' = true)
    ∧ ¬ AskedAlike (fun t path path' _ => (path ∈ t.booleans ↔ path' ∈ t.booleans)
        ∧ t.renames.targetOf path = path ∧ t.renames.targetOf path' = path') := by
  refine ⟨fun h => ?_, fun h => ?_, fun h => ?_, fun h => ?_⟩
  · rcases h Service.registry "questions" "topics__is_active" "is_active" _ _ _ (.text "NULL") rfl rfl rfl rfl
        rfl rfl (by decide) with
      ⟨_, _, _, _, hfound', _⟩ | ⟨_, _, herror, _⟩
    · cases hfound'
    · cases herror
  · rcases h Service.registry "questions" "answers__question__answers__is_active" "answers__is_active" _ _ _
        (.text "^true") rfl rfl rfl rfl rfl rfl (by decide) with
      ⟨_, _, _, _, hfound', _⟩ | ⟨_, _, herror, _⟩
    · cases hfound'
    · cases herror
  · rcases h (.ofEntities [⟨"notes", [⟨"title", .text⟩, ⟨"flag", .boolean⟩, ⟨"open", .boolean⟩,
        ⟨"created_at", .dateTime⟩], [], .ofPairs [("flag", "title")]⟩]) "notes" "flag" "open" _ _ _
        (.text "yes") rfl rfl rfl rfl rfl rfl (by decide) with
      ⟨_, _, asked, hfound, _, hasks, _⟩ | ⟨_, _, herror, _⟩
    · cases hfound
      rcases asked with _ | b
      · cases hasks
      · cases hasks
    · cases herror
  · rcases h (.ofEntities [⟨"notes", [⟨"format", .boolean⟩, ⟨"open", .boolean⟩, ⟨"created_at", .dateTime⟩], [],
        .empty⟩]) "notes" "format" "open" _ _ _ (.text "yes") rfl rfl rfl rfl rfl rfl (by decide) with
      ⟨_, _, asked, hfound, _, hasks, _⟩ | ⟨_, _, herror, _⟩
    · cases hfound
      rcases asked with _ | b
      · cases hasks
      · cases hasks
    · cases herror

end SchemaSearch
