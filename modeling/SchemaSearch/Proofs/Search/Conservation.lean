import SchemaSearch.Proofs.Search.Additions
import SchemaSearch.Proofs.Search.Fields
import SchemaSearch.Service.Sample

/-!
# No filter is lost

Whatever a client asks for is in the predicates of the prepared search, once for each time it is asked:
no stage drops a value, doubles it or puts it on another field.  What is asked is told by each value alone:
the path of its key, the token of a boolean field, one field for each scalar, and the terms of a tree under
a key that stands for an operation.

Main statement: the fields of a search are, up to order, the readings of what is asked, and at most one
date (`leaves_perm_asked`).
-/

namespace SchemaSearch

open Query Schema

/-! ## What is asked -/

/-- The field terms of a value under a key: one for each scalar.  Where trees are read, a key that stands
for an operation has the terms of its tree. -/
def termsOf (trees : Bool) (pair : String × Json) : List (String × Json) :=
  if trees then Json.fieldTermsOfMember pair else pair.2.scalars.map (pair.1, ·)

/-- Whether a lookup bounds a date. -/
def Lookup.isBound : Lookup → Bool
  | .range _ _ | .atLeast _ | .atMost _ => true
  | _ => false

namespace Transformer

/-- The operator that some parameters ask for, once aliases are replaced. -/
def operator? (t : Transformer) (p : Params) : Option Operator :=
  match t.process p with
  | .ok q => (Operator.ofParams? q).bind Except.toOption
  | .error _ => none

/-- The field terms that some parameters ask for: those of the pairs that are searched. -/
def asked (t : Transformer) (c : SearchConfig) (p : Params) : List (String × Json) :=
  (t.searchedPairs c p).flatMap (termsOf (t.operator? p).isSome)

end Transformer

/-! ## Plain searches -/

/-- A value with a lookup is a scalar. -/
theorem scalars_of_ofValue {field : String} {value : Json} {lookup : Lookup}
    (h : Lookup.ofValue field value = .ok lookup) : value.scalars = [value] := by
  cases value with
  | list items => cases h
  | null => rfl
  | bool b => rfl
  | number n => rfl
  | text s => rfl
  | object members => rfl

/-- The predicates of a plain search have the readings of its terms as their fields. -/
theorem leaves_termPredicates : ∀ {terms : List (String × Json)} {ps : List Predicate},
    terms.mapM (fun term => Predicate.ofTerm term.1 term.2) = .ok ps →
      (Predicate.leavesOf ps).map asReading = (terms.flatMap (termsOf false)).map reading
  | [], ps, h => by
    rw [List.mapM_nil] at h
    cases h
    rfl
  | (field, value) :: terms, ps, h => by
    obtain ⟨p, rest, hp, hrest, rfl⟩ := mapM_cons_eq_ok h
    have hscalar : termsOf false (field, value) = [(field, value)] := by
      obtain ⟨lookup, hlookup, _⟩ := Predicate.ofTerm_eq_ok hp
      show value.scalars.map (field, ·) = _
      rw [scalars_of_ofValue hlookup]
      rfl
    rw [Predicate.leavesOf, List.map_append, Predicate.leaves_ofTerm hp, leaves_termPredicates hrest,
      List.flatMap_cons, hscalar]
    rfl

/-! ## Operator searches -/

/-- The terms of parameters that are read as one node. -/
theorem fieldTerms_nodeOf (p : Params) :
    (Operator.nodeOf p).fieldTerms = p.pairs.flatMap (termsOf true) := by
  obtain ⟨entries⟩ := p
  show Json.fieldTermsOfMembers (entries.map fun entry => (entry.1, Json.list entry.2)) = _
  rw [Json.fieldTermsOfMembers_eq_flatMap, List.flatMap_map, Params.pairs, List.flatMap_assoc]
  congr 1
  funext entry
  rw [Json.fieldTermsOfMember_list, List.flatMap_map]
  rfl

/-- An outer operation makes a predicate of the terms of all parameters. -/
theorem leaves_outerExpression {operation : Operation} {p : Params} {predicate : Predicate}
    (h : (Operator.outerExpression operation p >>= fun e => e.toPredicate) = .ok predicate) :
    predicate.leaves.map asReading = (p.pairs.flatMap (termsOf true)).map reading := by
  obtain ⟨e, he, h⟩ := bind_eq_ok h
  obtain ⟨children, hchildren, he⟩ := bind_eq_ok he
  cases he
  rw [Expression.leaves_toPredicate _ h, Expression.fields, Expression.fieldsOf_children _ hchildren,
    fieldTerms_nodeOf]

/-- Whether an operator combines all parameters by one operation. -/
def Operator.combinesAll : Operator → Bool
  | .and | .or | .not => true
  | .oneOf | .advanced => false

theorem Operator.leaves_predicate {operator : Operator} (hall : operator.combinesAll = true) {p : Params}
    {predicate? : Option Predicate} (h : operator.predicate p = .ok predicate?) :
    ∃ predicate, predicate? = some predicate
      ∧ predicate.leaves.map asReading = (p.pairs.flatMap (termsOf true)).map reading := by
  have houter : ∀ operation : Operation,
      (do (← outerExpression operation p).toPredicate.map some) = Except.ok predicate? →
        ∃ predicate, predicate? = some predicate
          ∧ predicate.leaves.map asReading = (p.pairs.flatMap (termsOf true)).map reading := by
    intro operation h
    obtain ⟨predicate, hpredicate, rfl⟩ := predicate_eq_ok h
    exact ⟨predicate, rfl, leaves_outerExpression hpredicate⟩
  cases operator with
  | and => exact houter .and h
  | or => exact houter .or h
  | not => exact houter .not h
  | oneOf => cases hall
  | advanced => cases hall

/-! ## Scopes -/

namespace Scope

theorem leaves_filter {s s' : Scope} {p : Predicate} (h : s.filter p = .ok s') :
    Predicate.leavesOf s'.predicates = Predicate.leavesOf s.predicates ++ p.leaves := by
  obtain ⟨c, _, rfl⟩ := filter_eq_ok h
  show Predicate.leavesOf (s.predicates ++ [p]) = _
  rw [Predicate.leavesOf_append, Predicate.leavesOf, Predicate.leavesOf, List.append_nil]

theorem leaves_searchTerms {s s' : Scope} {p : Params} {excluded : List String}
    (h : s.searchTerms p excluded = .ok s') :
    (Predicate.leavesOf s'.predicates).map asReading
      = (Predicate.leavesOf s.predicates).map asReading
        ++ ((p.without excluded).pairs.flatMap (termsOf false)).map reading := by
  obtain ⟨ps, hps, h⟩ := searchTerms_eq_ok h
  have hleaves : (Predicate.leavesOf ps).map asReading
      = ((p.without excluded).pairs.flatMap (termsOf false)).map reading := leaves_termPredicates hps
  rw [← hleaves]
  cases hall : Predicate.all? ps with
  | none =>
    -- without a term there is no predicate, and the scope is left as it is
    rw [hall] at h
    cases h
    cases ps with
    | nil => exact (List.append_nil _).symm
    | cons q qs => cases hall
  | some predicate =>
    rw [hall] at h
    rw [leaves_filter h, List.map_append, Predicate.leaves_joinAll? .all hall]

theorem leaves_searchOperator {s s' : Scope} {operator : Operator} (hall : operator.combinesAll = true)
    {p : Params} {filters : List String} (h : s.searchOperator operator p filters = .ok s') :
    (Predicate.leavesOf s'.predicates).map asReading
      = (Predicate.leavesOf s.predicates).map asReading
        ++ ((p.without filters).pairs.flatMap (termsOf true)).map reading := by
  obtain ⟨hempty, rfl⟩ | ⟨_, narrowed, hdemanded, hfilter, rfl⟩ := searchOperator_eq_ok h
  · have hnone : (p.without filters).pairs = [] := by
      rw [Params.pairs, hempty]
      rfl
    rw [hnone]
    exact (List.append_nil _).symm
  · obtain ⟨predicate, rfl, hleaves⟩ := Operator.leaves_predicate hall hdemanded
    show (Predicate.leavesOf narrowed.predicates).map asReading = _
    rw [leaves_filter hfilter, List.map_append, hleaves]

/-- A search adds the readings of its terms, whether by an operator or not. -/
theorem leaves_searchFields {c : SearchConfig} {s s' : Scope} {p : Params} {operator? : Option Operator}
    (hasked : (Operator.ofParams? p).bind Except.toOption = operator?)
    (hall : operator?.all Operator.combinesAll = true) (h : Prepared.searchFields c s p = .ok s') :
    (Predicate.leavesOf s'.predicates).map asReading
      = (Predicate.leavesOf s.predicates).map asReading
        ++ ((p.without c.searchFilters).pairs.flatMap (termsOf operator?.isSome)).map reading := by
  unfold Prepared.searchFields at h
  subst hasked
  cases hrequested : Operator.ofParams? p with
  | none =>
    rw [hrequested] at h
    exact leaves_searchTerms h
  | some requested =>
    rw [hrequested] at h hall
    obtain ⟨operator, hoperator, h⟩ := bind_eq_ok h
    subst hoperator
    exact leaves_searchOperator hall h

/-- Dates add at most one field, a bound, and none without a key that sets one. -/
theorem leaves_searchDates {s s' : Scope} {p p' : Params} {renames : Renames}
    (h : s.searchDates p renames = .ok (s', p')) :
    ∃ date : List (String × Lookup), date.length ≤ 1 ∧ (∀ leaf ∈ date, leaf.2.isBound = true)
      ∧ ((∀ key ∈ p.keys, DateBounds.isBoundKey key = false) → date = [])
      ∧ Predicate.leavesOf s'.predicates = Predicate.leavesOf s.predicates ++ date := by
  obtain ⟨bounds, hbounds, ⟨_, rfl, _⟩ | ⟨field, path, lookup?, hfield, _, _, hlookup, hnarrowed⟩⟩ :=
    searchDates_eq_ok h
  · exact ⟨[], Nat.zero_le 1, List.forall_mem_nil _, fun _ => rfl, (List.append_nil _).symm⟩
  · rcases hnarrowed with ⟨_, rfl⟩ | ⟨lookup, rfl, hfilter⟩
    · exact ⟨[], Nat.zero_le 1, List.forall_mem_nil _, fun _ => rfl, (List.append_nil _).symm⟩
    · refine ⟨[(path, lookup)], Nat.le_refl 1, ?_, ?_, leaves_filter hfilter⟩
      · intro leaf hleaf
        rw [List.mem_singleton.mp hleaf]
        unfold DateBounds.lookup? at hlookup
        split at hlookup
        · split at hlookup <;> cases hlookup
          rfl
        · cases hlookup
          rfl
        · cases hlookup
          rfl
        · cases hlookup
      · intro hkeys
        -- without a key that sets a bound no field is named
        rw [DateBounds.ofParams_eq_none hkeys] at hbounds
        cases hbounds
        cases hfield

end Scope

/-! ## Whole searches -/

section Searches

variable {r : Registry} {c : SearchConfig} {root : String} {p : Params} {t : Transformer}

/-- The operator is read off the parameters as they are once aliases are replaced. -/
theorem Narrowed.operator?_params {n : Narrowed} (ht : Transformer.ofRoot r root = .ok t)
    (hinactive : c.includeInactiveParam ≠ Operator.param) (h : Narrowed.ofParams r c root p = .ok n) :
    (Operator.ofParams? n.params).bind Except.toOption = t.operator? p := by
  obtain ⟨t', transformed, _, _, ht', htransformed, _⟩ := ofParams_eq_ok h
  cases ht'.symm.trans ht
  have hvalues := getAll_transformed ht htransformed (Ne.symm hinactive) (by decide) h
  simp only [Transformer.operator?, htransformed, Operator.ofParams?, Params.get?, hvalues]

/-- The fields of a narrowed scope are those of its date. -/
theorem Narrowed.leaves_scope {n : Narrowed} (ht : Transformer.ofRoot r root = .ok t)
    (hkeys : p.keys.Nodup) (h : Narrowed.ofParams r c root p = .ok n) :
    ∃ date : List (String × Lookup), date.length ≤ 1 ∧ (∀ leaf ∈ date, leaf.2.isBound = true)
      ∧ ((∀ pair ∈ p.pairs, DateBounds.isBoundKey (t.renames.targetOf pair.1) = false) → date = [])
      ∧ Predicate.leavesOf n.scope.predicates = date := by
  obtain ⟨t', transformed, coerced, scope, ht', htransformed, hcoerced, hscope, hdates, _⟩ :=
    ofParams_eq_ok h
  have hsame : t' = t := Except.ok.inj (ht'.symm.trans ht)
  subst hsame
  obtain ⟨date, hlength, hbound, hnone, hleaves⟩ := Scope.leaves_searchDates hdates
  obtain ⟨e, _, rfl⟩ := Scope.ofRoot_eq_ok hscope
  refine ⟨date, hlength, hbound, fun hpairs => hnone fun key hkey => ?_, hleaves⟩
  rw [(Params.coerced_coerceBooleans hcoerced).keys] at hkey
  obtain ⟨pair, hpair, rfl⟩ := Transformer.mem_keys_process hkeys htransformed hkey
  exact hpairs pair hpair

end Searches

/-- No filter is lost, doubled or put on another field: the fields of a search, by an operation over all
parameters or by none, are the readings of the terms that are asked, and at most one date. -/
theorem leaves_perm_asked {r : Registry} {root : String} {p : Params} {t : Transformer} {s : Prepared}
    (ht : Transformer.ofRoot r root = .ok t) (hkeys : p.keys.Nodup)
    (hall : (t.operator? p).all Operator.combinesAll = true)
    (h : Prepared.ofParams r .standard root p = .ok s) :
    ∃ date : List (String × Lookup), date.length ≤ 1 ∧ (∀ leaf ∈ date, leaf.2.isBound = true)
      ∧ ((∀ pair ∈ p.pairs, DateBounds.isBoundKey (t.renames.targetOf pair.1) = false) → date = [])
      ∧ ((Predicate.leavesOf s.scope.predicates).map asReading).Perm
          (date.map asReading ++ (t.asked .standard p).map reading) := by
  obtain ⟨n, searched, hn, hsearched, hscope⟩ := Prepared.ofParams_eq_ok h
  obtain ⟨date, hlength, hbound, hnone, hdate⟩ := Narrowed.leaves_scope ht hkeys hn
  have hoperator := Narrowed.operator?_params ht (by decide) hn
  have hleaves := Scope.leaves_searchFields hoperator hall hsearched
  have hremaining := Narrowed.pairs_remaining ht hkeys (by decide) (by decide) hn
  have hmarked : s.scope.predicates = searched.predicates := by
    rw [hscope, Scope.marked_eq]
  refine ⟨date, hlength, hbound, hnone, ?_⟩
  rw [hmarked, hleaves, hdate]
  exact List.Perm.append_left _ ((hremaining.flatMap_right _).map _)

/-- A search by a topic, by a tree, by activity and by a date: six terms, and the date. -/
theorem leaves_perm_asked_sample :
    ∃ s, Prepared.ofParams Service.registry .standard "questions"
        ⟨[("operator", [.text "AND"]), ("topic", [.text "$setup", .text "bill"]),
          ("_OR", [.object [("title", .text "^How"), ("_AND", .object [("context", .list [.text "a",
            .text "NULL"])])]]), ("is_active", [.text "yes"]),
          ("created_at_date_start", [.text "2024-01-01"])]⟩ = .ok s
      ∧ ∃ date : List (String × Lookup), date.length ≤ 1 ∧ (∀ leaf ∈ date, leaf.2.isBound = true)
        ∧ ((Predicate.leavesOf s.scope.predicates).map asReading).Perm (date.map asReading
            ++ [("topics__title", some (.contains "setup")), ("topics__title", some (.startsWith "bill")),
              ("title", some (.startsWith "How")), ("context", some (.startsWith "a")),
              ("context", some (.isNull true)), ("is_active", some (.startsWith "1"))]) := by
  obtain ⟨s, hs⟩ : ∃ s, Prepared.ofParams Service.registry .standard "questions"
      ⟨[("operator", [.text "AND"]), ("topic", [.text "$setup", .text "bill"]),
        ("_OR", [.object [("title", .text "^How"), ("_AND", .object [("context", .list [.text "a",
          .text "NULL"])])]]), ("is_active", [.text "yes"]),
        ("created_at_date_start", [.text "2024-01-01"])]⟩ = .ok s := ⟨_, rfl⟩
  obtain ⟨date, hlength, hbound, _, hperm⟩ := leaves_perm_asked rfl (by decide) rfl hs
  exact ⟨s, hs, date, hlength, hbound, hperm⟩

/-! ## Trees are searched as they are written -/

/-- What is asked of searches whose pairs stand for some terms, where no alias is named like a key that
steers. -/
def KeepsTerms (terms : Transformer → String × Json → List (String × Json)) : Prop :=
  ∀ (r : Registry) (root : String) (p : Params) (t : Transformer) (s : Prepared),
    (∀ key ∈ SearchConfig.standard.searchFilters, t.renames.get? key = none) →
    Transformer.ofRoot r root = .ok t → p.keys.Nodup →
    (t.operator? p).all Operator.combinesAll = true →
    Prepared.ofParams r .standard root p = .ok s →
    ∃ date : List (String × Lookup), date.length ≤ 1 ∧ (∀ leaf ∈ date, leaf.2.isBound = true)
      ∧ ((Predicate.leavesOf s.scope.predicates).map asReading).Perm
          (date.map asReading ++ ((t.searchedPairs .standard p).flatMap (terms t)).map reading)

/-- The terms of a pair, if those of a tree are transformed as keys and their values are. -/
def transformedTermsOf (t : Transformer) (pair : String × Json) : List (String × Json) :=
  match Operation.ofKey? pair.1 with
  | some _ => pair.2.fieldTerms.map t.searched
  | none => pair.2.scalars.map (pair.1, ·)

/-- Neither is a tree transformed, nor is it read without an operator, where a field may be named like an
operation. -/
theorem not_keepsTerms :
    ¬ KeepsTerms transformedTermsOf ∧ ¬ KeepsTerms fun _ pair => Json.fieldTermsOfMember pair := by
  constructor
  · intro h
    obtain ⟨date, _, _, hperm⟩ := h Service.registry "questions"
      ⟨[("operator", [.text "AND"]), ("_AND", [.object [("is_active", .text "yes")]])]⟩ _ _ (by decide)
      rfl (by decide) rfl rfl
    have hkept : [(("is_active", some (.startsWith "yes")) : String × Option Lookup)].Perm
        (date.map asReading ++ [("is_active", some (.startsWith "1"))]) := hperm
    -- the term takes the place of the field, and they differ
    have hdate : date = [] := by simpa using hkept.length_eq
    subst hdate
    revert hkept
    decide
  · intro h
    obtain ⟨date, _, hbound, hperm⟩ := h (.ofEntities [⟨"notes", [⟨"_AND", .text⟩,
        ⟨"created_at", .dateTime⟩], [], .empty⟩]) "notes" ⟨[("_AND", [.text "x"])]⟩ _ _ (by decide) rfl
      (by decide) rfl rfl
    have hmem : (("_AND", some (.startsWith "x")) : String × Option Lookup)
        ∈ date.map asReading ++ [] := hperm.mem_iff.mp List.mem_cons_self
    rw [List.append_nil] at hmem
    -- read as a tree the text has no term, and the field that is searched bounds no date
    obtain ⟨⟨field, lookup⟩, hleaf, heq⟩ := List.mem_map.mp hmem
    cases heq
    exact Bool.false_ne_true (hbound _ hleaf)

end SchemaSearch
