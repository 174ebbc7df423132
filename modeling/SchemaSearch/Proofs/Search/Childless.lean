import SchemaSearch.Proofs.Search.Fields
import SchemaSearch.Proofs.Search.Pairs
import SchemaSearch.Service.Resource

/-!
# Operations without children

An operation combines its children, so it needs one.  Reading a tree keeps every operation that has none,
no fold makes a predicate of it, and the search is refused: it never becomes a search with less to fulfil.
What reaches the operator are keys with values, though; a key that is sent without any is gone before.

Main statement: a search with an operation that has no child, or an advanced search that does not have
exactly one outer operation, is refused (`childless_operation_refused`).
-/

namespace SchemaSearch

open Query Schema

/-! ## Trees with an operation that has no child -/

namespace Json

mutual

/-- Whether a node stands for no expression. -/
def childless : Json → Bool
  | .list items => childlessItems items
  | .object members => childlessMembers members
  | _ => false
termination_by structural node => node

/-- Whether no item stands for an expression. -/
def childlessItems : List Json → Bool
  | [] => true
  | item :: items => childless item && childlessItems items
termination_by structural items => items

/-- Whether no member stands for an expression: each is a field without a scalar. -/
def childlessMembers : List (String × Json) → Bool
  | [] => true
  | (key, value) :: members =>
    ((Operation.ofKey? key).isNone && value.scalars.isEmpty) && childlessMembers members
termination_by structural members => members

end

mutual

/-- Whether some operation below a node has no child. -/
def starves : Json → Bool
  | .list items => starvesSome items
  | .object members => starvesMembers members
  | _ => false
termination_by structural node => node

/-- Whether some operation below some nodes has no child. -/
def starvesSome : List Json → Bool
  | [] => false
  | item :: items => starves item || starvesSome items
termination_by structural items => items

/-- Whether some operation among the members of an object, or below, has no child. -/
def starvesMembers : List (String × Json) → Bool
  | [] => false
  | member :: members => starvesMember member || starvesMembers members
termination_by structural members => members

/-- Whether a member is an operation that has no child, or has such an operation below. -/
def starvesMember : String × Json → Bool
  | (key, value) =>
    match Operation.ofKey? key with
    | some _ => childless value || starves value
    | none => false
termination_by structural member => member

end

theorem starvesMembers_of_mem {member : String × Json} (hstarves : starvesMember member = true) :
    ∀ {members : List (String × Json)}, member ∈ members → starvesMembers members = true
  | other :: members, hmem => by
    rw [starvesMembers]
    rcases List.mem_cons.mp hmem with rfl | hmem
    · rw [hstarves, Bool.true_or]
    · rw [starvesMembers_of_mem hstarves hmem, Bool.or_true]

end Json

namespace Expression

mutual

/-- Whether some operation of an expression has no child. -/
def starved : Expression → Bool
  | .term _ _ => false
  | .node _ children => children.isEmpty || starvedSome children
termination_by structural e => e

/-- Whether some operation of some expressions has no child. -/
def starvedSome : List Expression → Bool
  | [] => false
  | e :: es => starved e || starvedSome es
termination_by structural es => es

end

theorem isEmpty_append (es fs : List Expression) :
    (es ++ fs).isEmpty = (es.isEmpty && fs.isEmpty) := by
  cases es <;> rfl

theorem starvedSome_append (es fs : List Expression) :
    starvedSome (es ++ fs) = (starvedSome es || starvedSome fs) := by
  induction es with
  | nil => rfl
  | cons e es ih => simp only [List.cons_append, starvedSome, ih, Bool.or_assoc]

theorem starvedSome_terms (field : String) (value : Json) :
    starvedSome (terms field value) = false := by
  rw [terms_eq_map]
  induction value.scalars with
  | nil => rfl
  | cons scalar scalars ih => exact ih

mutual

/-- An expression with a predicate has a child in every operation. -/
theorem starved_of_toPredicate : ∀ (e : Expression) {p : Predicate}, e.toPredicate = .ok p →
    e.starved = false
  | .term _ _, _, _ => rfl
  | .node operation es, p, h => by
    obtain ⟨hne, ps, hps, _⟩ := toPredicate_node_eq_ok h
    rw [starved, starved_of_toPredicates es hps, Bool.or_false]
    cases es with
    | nil => exact absurd rfl hne
    | cons e es => rfl

theorem starved_of_toPredicates : ∀ (es : List Expression) {ps : List Predicate},
    toPredicates es = .ok ps → starvedSome es = false
  | [], _, _ => rfl
  | e :: es, ps, h => by
    rw [toPredicates] at h
    obtain ⟨p, hp, h⟩ := bind_eq_ok h
    obtain ⟨qs, hqs, h⟩ := bind_eq_ok h
    rw [starvedSome, starved_of_toPredicate e hp, starved_of_toPredicates es hqs, Bool.or_false]

end

mutual

/-- A node that is read has children or not. -/
theorem isEmpty_children : ∀ (node : Json) {es : List Expression}, children node = .ok es →
    es.isEmpty = node.childless
  | .list items, es, h => isEmpty_childrenOfItems items h
  | .object members, es, h => isEmpty_childrenOfMembers members h
  | .null, _, h | .bool _, _, h | .number _, _, h | .text _, _, h => by cases h

theorem isEmpty_childrenOfItems : ∀ (items : List Json) {es : List Expression},
    childrenOfItems items = .ok es → es.isEmpty = Json.childlessItems items
  | [], es, h => by
    cases h
    rfl
  | item :: items, es, h => by
    rw [childrenOfItems] at h
    obtain ⟨first, hfirst, h⟩ := bind_eq_ok h
    obtain ⟨rest, hrest, h⟩ := bind_eq_ok h
    cases h
    rw [isEmpty_append, Json.childlessItems, isEmpty_children item hfirst,
      isEmpty_childrenOfItems items hrest]

theorem isEmpty_childrenOfMembers : ∀ (members : List (String × Json)) {es : List Expression},
    childrenOfMembers members = .ok es → es.isEmpty = Json.childlessMembers members
  | [], es, h => by
    cases h
    rfl
  | (key, value) :: members, es, h => by
    rw [childrenOfMembers, childrenOfMember] at h
    obtain ⟨first, hfirst, h⟩ := bind_eq_ok h
    obtain ⟨rest, hrest, h⟩ := bind_eq_ok h
    cases h
    rw [isEmpty_append, Json.childlessMembers, isEmpty_childrenOfMembers members hrest]
    congr 1
    cases hkey : Operation.ofKey? key with
    | some operation =>
      rw [hkey] at hfirst
      obtain ⟨inner, _, hfirst⟩ := bind_eq_ok hfirst
      cases hfirst
      rfl
    | none =>
      rw [hkey] at hfirst
      cases hfirst
      rw [terms_eq_map, List.isEmpty_map]
      rfl

end

mutual

/-- Reading a node keeps its operations without children. -/
theorem starvedSome_children : ∀ (node : Json) {es : List Expression}, children node = .ok es →
    starvedSome es = node.starves
  | .list items, es, h => starvedSome_childrenOfItems items h
  | .object members, es, h => starvedSome_childrenOfMembers members h
  | .null, _, h | .bool _, _, h | .number _, _, h | .text _, _, h => by cases h

theorem starvedSome_childrenOfItems : ∀ (items : List Json) {es : List Expression},
    childrenOfItems items = .ok es → starvedSome es = Json.starvesSome items
  | [], es, h => by
    cases h
    rfl
  | item :: items, es, h => by
    rw [childrenOfItems] at h
    obtain ⟨first, hfirst, h⟩ := bind_eq_ok h
    obtain ⟨rest, hrest, h⟩ := bind_eq_ok h
    cases h
    rw [starvedSome_append, Json.starvesSome, starvedSome_children item hfirst,
      starvedSome_childrenOfItems items hrest]

theorem starvedSome_childrenOfMembers : ∀ (members : List (String × Json)) {es : List Expression},
    childrenOfMembers members = .ok es → starvedSome es = Json.starvesMembers members
  | [], es, h => by
    cases h
    rfl
  | member :: members, es, h => by
    rw [childrenOfMembers] at h
    obtain ⟨first, hfirst, h⟩ := bind_eq_ok h
    obtain ⟨rest, hrest, h⟩ := bind_eq_ok h
    cases h
    rw [starvedSome_append, Json.starvesMembers, starvedSome_childrenOfMember member hfirst,
      starvedSome_childrenOfMembers members hrest]

theorem starvedSome_childrenOfMember : ∀ (member : String × Json) {es : List Expression},
    childrenOfMember member = .ok es → starvedSome es = Json.starvesMember member
  | (key, value), es, h => by
    rw [childrenOfMember] at h
    rw [Json.starvesMember]
    cases hkey : Operation.ofKey? key with
    | some operation =>
      rw [hkey] at h
      obtain ⟨inner, hinner, h⟩ := bind_eq_ok h
      cases h
      rw [starvedSome, starved, starvedSome, Bool.or_false, isEmpty_children value hinner,
        starvedSome_children value hinner]
    | none =>
      rw [hkey] at h
      cases h
      exact starvedSome_terms key value

end

end Expression

/-! ## Operators -/

namespace Operator

/-- The nodes that an operator reads in the values of a key that stands for an operation: an advanced
search decodes them first. -/
def elements (operator : Operator) (values : List Json) : Except SearchError (List Json) :=
  match operator with
  | .advanced => values.mapM decodeElement
  | _ => .ok values

/-- Whether a key stands for an operation. -/
def isOuter (key : String) : Bool := (Operation.ofKey? key).isSome

theorem isOuter_eq_false {key : String} (h : ∀ operation : Operation, key ≠ operation.key) :
    isOuter key = false := by
  cases hkey : Operation.ofKey? key with
  | none =>
    rw [isOuter, hkey]
    rfl
  | some operation => exact absurd (Operation.key_of_ofKey? hkey) (h operation)

theorem outerExpression_starved {outer operation : Operation} {p : Params} {values : List Json}
    (hentry : (operation.key, values) ∈ p.entries)
    (hstarves : Json.starvesMember (operation.key, .list values) = true) (predicate : Predicate) :
    (outerExpression outer p >>= fun e => e.toPredicate) ≠ .ok predicate := by
  intro h
  obtain ⟨e, he, h⟩ := bind_eq_ok h
  obtain ⟨es, hes, he⟩ := bind_eq_ok he
  cases he
  have hfed := Expression.starved_of_toPredicate _ h
  rw [Expression.starved, Expression.starvedSome_children _ hes, Bool.or_eq_false_iff] at hfed
  have hmem : (operation.key, Json.list values)
      ∈ p.entries.map fun entry => (entry.1, Json.list entry.2) :=
    List.mem_map_of_mem (f := fun entry => (entry.1, Json.list entry.2)) hentry
  have hsome : (nodeOf p).starves = true := Json.starvesMembers_of_mem hstarves hmem
  exact Bool.false_ne_true (hfed.2.symm.trans hsome)

/-- An advanced search with a predicate has exactly one outer operation, and its tree is read. -/
theorem advanced_eq_ok {p : Params} {predicate : Predicate}
    (h : (advancedExpression p >>= fun e => e.toPredicate) = .ok predicate) :
    ∃ operation elements es, p.keys.filter isOuter = [operation.key]
      ∧ (p.getAll operation.key).mapM decodeElement = .ok elements
      ∧ Expression.children (.list elements) = .ok es
      ∧ (Expression.node operation es).toPredicate = .ok predicate := by
  obtain ⟨e, he, h⟩ := bind_eq_ok h
  unfold advancedExpression at he
  split at he
  · cases he
  · rename_i key hkeys
    obtain ⟨elements, helements, he⟩ := bind_eq_ok he
    obtain ⟨es, hes, he⟩ := bind_eq_ok he
    split at he
    · rename_i operation hoperation
      cases he
      have hkey : key = operation.key := Operation.key_of_ofKey? hoperation
      subst hkey
      exact ⟨operation, elements, es, hkeys, helements, hes, h⟩
    · cases he
  · cases he

/-- An operator makes no predicate of parameters in which some operation has no child. -/
theorem predicate_starved {operator : Operator} (hin : operator ≠ .oneOf) {p : Params}
    {operation : Operation} {nodes : List Json} (hsome : p.getAll operation.key ≠ [])
    (hnodes : operator.elements (p.getAll operation.key) = .ok nodes)
    (hstarves : Json.starvesMember (operation.key, .list nodes) = true) :
    ∃ error, operator.predicate p = .error error := by
  have hentry := Params.mem_entries_of_getAll hsome
  refine exists_error fun predicate? h => ?_
  have houter : ∀ outer : Operation, operator.elements (p.getAll operation.key) = .ok (p.getAll operation.key) →
      (do (← outerExpression outer p).toPredicate.map some) ≠ Except.ok predicate? := by
    intro outer hsame h
    have hvalues : p.getAll operation.key = nodes := Except.ok.inj (hsame.symm.trans hnodes)
    rw [hvalues] at hentry
    obtain ⟨predicate, hpredicate, _⟩ := predicate_eq_ok h
    exact outerExpression_starved hentry hstarves predicate hpredicate
  cases operator with
  | oneOf => exact hin rfl
  | and => exact houter .and rfl h
  | or => exact houter .or rfl h
  | not => exact houter .not rfl h
  | advanced =>
    obtain ⟨predicate, hpredicate, _⟩ := predicate_eq_ok h
    obtain ⟨outer, elements, es, hkeys, helements, hes, hp⟩ := advanced_eq_ok hpredicate
    -- the only operation that is searched is the one without a child
    have hmem : operation.key ∈ p.keys.filter isOuter := by
      refine List.mem_filter.mpr ⟨Params.mem_keys_of_getAll hsome, ?_⟩
      rw [isOuter, Operation.ofKey?_key]
      rfl
    rw [hkeys] at hmem
    have hsame := List.mem_singleton.mp hmem
    rw [← hsame] at helements
    cases helements.symm.trans hnodes
    have hfed := Expression.starved_of_toPredicate _ hp
    rw [Expression.starved, Expression.isEmpty_children _ hes, Expression.starvedSome_children _ hes] at hfed
    rw [Json.starvesMember, Operation.ofKey?_key] at hstarves
    exact Bool.false_ne_true (hfed.symm.trans hstarves)

/-- An advanced search makes no predicate without exactly one outer operation. -/
theorem predicate_advanced {p : Params} (h : (p.keys.filter isOuter).length ≠ 1) :
    ∃ error, Operator.advanced.predicate p = .error error := by
  refine exists_error fun predicate? hpredicate => h ?_
  obtain ⟨predicate, hpredicate, _⟩ := predicate_eq_ok hpredicate
  obtain ⟨operation, _, _, hkeys, _⟩ := advanced_eq_ok hpredicate
  rw [hkeys]
  rfl

end Operator

/-! ## Searches -/

/-- Whether an error is one of an operator search. -/
def SearchError.isOperator : SearchError → Bool
  | .operator _ | .wrapped _ _ => true
  | _ => false

theorem SearchError.isOperator_asOperatorError (error : SearchError) :
    error.asOperatorError.isOperator = true := by
  cases error <;> rfl

section Searches

variable {r : Registry} {c : SearchConfig} {root : String} {p q : Params} {t : Transformer} {n : Narrowed}
  {operator : Operator}

/-- A search is refused: by the operator, or before the operator is read. -/
def Prepared.Refused (r : Registry) (c : SearchConfig) (root : String) (p : Params) : Prop :=
  ∃ error, Prepared.ofParams r c root p = .error error
    ∧ (error.isOperator = true ∨ Narrowed.ofParams r c root p = .error error)

/-- What is left to search when the operator is read. -/
def Narrowed.remaining (n : Narrowed) (c : SearchConfig) : Params := n.params.without c.searchFilters

/-- A search is refused if the operator makes no predicate of what is left to search. -/
theorem Prepared.refused_of_predicate (operator : Operator)
    (hfails : ∀ n, Narrowed.ofParams r c root p = .ok n →
      Operator.ofParams? n.params = some (.ok operator) ∧ (n.remaining c).keys ≠ []
        ∧ ∃ error, operator.predicate (n.remaining c) = .error error) :
    Prepared.Refused r c root p := by
  unfold Prepared.Refused
  rw [Prepared.ofParams_eq]
  cases hn : Narrowed.ofParams r c root p with
  | error error => exact ⟨error, rfl, .inr rfl⟩
  | ok n =>
    obtain ⟨hoperator, hkeys, error, herror⟩ := hfails n hn
    refine ⟨error.asOperatorError, ?_, .inl error.isOperator_asOperatorError⟩
    have hsome : (n.params.without c.searchFilters).entries.isEmpty = false := by
      cases hentries : (n.params.without c.searchFilters).entries with
      | nil =>
        rw [Narrowed.remaining, Params.keys, hentries] at hkeys
        exact absurd rfl hkeys
      | cons entry rest => rfl
    rw [ok_bind, Narrowed.finish, Prepared.searchFields, hoperator]
    simp only [ok_bind, Scope.searchOperator, hsome, Bool.false_eq_true, if_false]
    rw [Narrowed.remaining] at herror
    rw [herror]
    rfl

/-- What is left of the keys is what is left once those that steer are taken out. -/
theorem Narrowed.keys_remaining (test : String → Bool) (ht : Transformer.ofRoot r root = .ok t)
    (hq : t.process p = .ok q) (hfilter : ∀ key ∈ c.searchFilters, test key = false)
    (hbound : ∀ key, DateBounds.isBoundKey key = true → test key = false)
    (h : Narrowed.ofParams r c root p = .ok n) :
    (n.remaining c).keys.filter test = q.keys.filter test := by
  obtain ⟨t', transformed, coerced, scope, ht', htransformed, hcoerced, _, hdates, _⟩ :=
    ofParams_eq_ok h
  cases ht'.symm.trans ht
  cases htransformed.symm.trans hq
  have hdated : n.params.keys.filter test = coerced.keys.filter test := by
    rw [Scope.remaining_searchDates hdates, Params.keys_without_filter]
    exact fun key hkey => hbound key (List.mem_filter.mp hkey).2
  rw [Narrowed.remaining, Params.keys_without_filter hfilter, hdated,
    (Params.coerced_coerceBooleans hcoerced).keys]

end Searches

/-- An operation without a child is refused, wherever it stands, and so is an advanced search that does
not have exactly one outer operation: by the operator, if not before it is read. -/
theorem childless_operation_refused {r : Registry} {c : SearchConfig} {root : String} {p q : Params}
    {t : Transformer} {operator : Operator} (ht : Transformer.ofRoot r root = .ok t)
    (hq : t.process p = .ok q) (hoperator : Operator.ofParams? q = some (.ok operator))
    (hin : operator ≠ .oneOf) (hparam : c.includeInactiveParam ≠ Operator.param)
    (houter : ∀ operation : Operation, operation.key ≠ c.includeInactiveParam
      ∧ operation.key ∉ c.searchFilters)
    (hchildless :
      (∃ (operation : Operation) (nodes : List Json), q.getAll operation.key ≠ []
        ∧ operator.elements (q.getAll operation.key) = .ok nodes
        ∧ Json.starvesMember (operation.key, .list nodes) = true)
      ∨ operator = .advanced ∧ (∃ key ∈ q.keys, c.namesField key = true)
        ∧ (q.keys.filter Operator.isOuter).length ≠ 1) :
    Prepared.Refused r c root p := by
  have hbound : ∀ operation : Operation, DateBounds.isBoundKey operation.key = false := by
    intro operation
    cases operation <;> decide
  refine Prepared.refused_of_predicate operator fun n hn => ⟨?_, ?_⟩
  · -- the stages in front of the operator leave its parameter as it is
    rw [← hoperator, Operator.ofParams?, Operator.ofParams?, Params.get?, Params.get?,
      Narrowed.getAll_transformed ht hq hparam.symm (by decide) hn]
  rcases hchildless with ⟨operation, nodes, hsome, hnodes, hstarves⟩ | ⟨rfl, ⟨key, hkey, hfield⟩, hcount⟩
  · -- nor do they touch the values of an operation
    have hvalues : (n.remaining c).getAll operation.key = q.getAll operation.key := by
      rw [Narrowed.remaining, Params.getAll_without (houter operation).2,
        Narrowed.getAll_transformed ht hq (houter operation).1 (hbound operation) hn]
    rw [← hvalues] at hsome hnodes
    refine ⟨List.ne_nil_of_mem (Params.mem_keys_of_getAll hsome), ?_⟩
    exact Operator.predicate_starved hin hsome hnodes hstarves
  · have hfields : (n.remaining c).keys.filter c.namesField = q.keys.filter c.namesField := by
      refine Narrowed.keys_remaining c.namesField ht hq (fun key hkey => ?_) (fun key hkey => ?_) hn
      · rw [SearchConfig.namesField, SearchConfig.isSearchFilter, List.contains_iff_mem.mpr hkey]
        rfl
      · rw [SearchConfig.namesField, hkey, Bool.not_true, Bool.and_false]
    have houters : (n.remaining c).keys.filter Operator.isOuter = q.keys.filter Operator.isOuter := by
      refine Narrowed.keys_remaining Operator.isOuter ht hq (fun key hkey => ?_) (fun key hkey => ?_) hn
      · exact Operator.isOuter_eq_false fun operation hsame => (houter operation).2 (hsame ▸ hkey)
      · refine Operator.isOuter_eq_false fun operation hsame => ?_
        rw [hsame, hbound operation] at hkey
        exact Bool.false_ne_true hkey
    rw [← houters] at hcount
    -- the count alone is not enough: with nothing left to search the operator is not read
    refine ⟨fun hnone => ?_, Operator.predicate_advanced hcount⟩
    have hmem : key ∈ q.keys.filter c.namesField := List.mem_filter.mpr ⟨hkey, hfield⟩
    rw [← hfields, hnone] at hmem
    cases hmem

/-- A search by title and by an operation over nothing; and an advanced one with a title only. -/
theorem childless_operation_refused_sample :
    Prepared.Refused Service.registry .standard "questions"
        ⟨[("operator", [.text "AND"]), ("title", [.text "^How"]),
          ("_OR", [.object [("_NOT", .list [.object [], .list []])]])]⟩
      ∧ Prepared.Refused Service.registry .standard "questions"
        ⟨[("operator", [.text "ADVANCED"]), ("title", [.text "^How"])]⟩ := by
  have houter : ∀ operation : Operation, operation.key ≠ SearchConfig.standard.includeInactiveParam
      ∧ operation.key ∉ SearchConfig.standard.searchFilters := by
    intro operation
    cases operation <;> decide
  constructor
  · exact childless_operation_refused rfl rfl rfl (by decide) (by decide) houter
      (.inl ⟨.or, _, by decide, rfl, by decide⟩)
  · exact childless_operation_refused rfl rfl rfl (by decide) (by decide) houter
      (.inr ⟨rfl, ⟨"title", by decide, by decide⟩, by decide⟩)

/-- What is asked of searches with an operator that fulfil a condition: that the operator refuses them. -/
def RefusedByOperator (side : Operator → Params → Prop) : Prop :=
  ∀ (r : Registry) (root : String) (p : Params) (t : Transformer) (operator : Operator),
    Transformer.ofRoot r root = .ok t → p.keys.Nodup → Operator.ofParams? p = some (.ok operator) →
    operator ≠ .oneOf → side operator p →
    ∃ error, Prepared.ofParams r .standard root p = .error error ∧ error.isOperator = true

/-- Two exceptions are meant to be.  With nothing left to search an operator leaves the scope as it is, so an
advanced search need not have an operation; and a stage in front of the operator may refuse a search first, with
an error of its own.  The third is a slip: values are added one by one when parameters are transformed, so an
operation that is sent without any is gone before the operator could refuse it, and the rest is searched. -/
theorem not_refusedByOperator :
    ¬ RefusedByOperator (fun operator p => operator = .advanced
        ∧ (p.keys.filter Operator.isOuter).length ≠ 1
        ∧ ∀ key ∈ p.keys, SearchConfig.standard.namesField key = false)
    ∧ ¬ RefusedByOperator (fun operator p => operator = .advanced
        ∧ (p.keys.filter Operator.isOuter).length ≠ 1
        ∧ ∃ key ∈ p.keys, SearchConfig.standard.namesField key = true)
    ∧ ¬ RefusedByOperator fun _ p => ∃ operation : Operation, operation.key ∈ p.keys
        ∧ p.getAll operation.key = [] := by
  refine ⟨fun h => ?_, fun h => ?_, fun h => ?_⟩
  · obtain ⟨error, herror, _⟩ := h Service.registry "questions" ⟨[("operator", [.text "ADVANCED"])]⟩ _ _ rfl
      (by decide) rfl (by decide) ⟨rfl, by decide, by decide⟩
    obtain ⟨s, hs⟩ : ∃ s, Prepared.ofParams Service.registry .standard "questions"
        ⟨[("operator", [.text "ADVANCED"])]⟩ = .ok s := ⟨_, rfl⟩
    cases herror.symm.trans hs
  · obtain ⟨error, herror, hkind⟩ := h Service.registry "questions"
      ⟨[("operator", [.text "ADVANCED"]), ("is_active", [.text "maybe"])]⟩ _ _ rfl (by decide) rfl
      (by decide) ⟨rfl, by decide, "is_active", by decide, by decide⟩
    have hboolean : Prepared.ofParams Service.registry .standard "questions"
        ⟨[("operator", [.text "ADVANCED"]), ("is_active", [.text "maybe"])]⟩
          = .error (.invalidBoolean "is_active" "maybe") := rfl
    cases herror.symm.trans hboolean
    cases hkind
  · obtain ⟨error, herror, _⟩ := h Service.registry "questions"
      ⟨[("operator", [.text "AND"]), ("_OR", []), ("title", [.text "^How"])]⟩ _ _ rfl (by decide) rfl
      (by decide) ⟨.or, by decide, rfl⟩
    obtain ⟨s, hs⟩ : ∃ s, Prepared.ofParams Service.registry .standard "questions"
        ⟨[("operator", [.text "AND"]), ("_OR", []), ("title", [.text "^How"])]⟩ = .ok s := ⟨_, rfl⟩
    cases herror.symm.trans hs

end SchemaSearch
