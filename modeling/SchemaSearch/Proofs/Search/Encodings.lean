import SchemaSearch.Proofs.Search.Bodies
import SchemaSearch.Proofs.Search.Meanings
import SchemaSearch.Service.Sample

/-!
# Query strings and JSON bodies

A search may be sent as a query string, which has texts only, or as a JSON body, which keeps numbers and
booleans as they are typed and gives the values of one key together.  Both are the same search: values are
read by their texts, a scalar is no tree however it is written, and keys and values keep their order.

Main statement: a query string and a body of the same pairs are prepared as the same search, or refused for
errors of the same variant (`prepared_encodings`).
-/

namespace SchemaSearch

open Query Schema

/-! ## Variants of errors -/

namespace SearchError

/-- What kind of thing is wrong.  All errors inside an operator search are of one kind. -/
inductive Variant where
  | boolean | date | operator | field | rename | parameter | ordering | page | entity
  deriving DecidableEq, Repr

/-- The kind of an error. -/
def variant : SearchError → Variant
  | .invalidBoolean _ _ => .boolean
  | .date _ => .date
  | .operator _ | .wrapped _ _ => .operator
  | .unknownField _ _ => .field
  | .unresolvedRename _ _ _ => .rename
  | .invalidParameter _ _ => .parameter
  | .invalidOrdering _ => .ordering
  | .pageNotInteger => .page
  | .unknownEntity _ => .entity

theorem variant_asOperatorError (error : SearchError) : error.asOperatorError.variant = .operator := by
  cases error <;> rfl

end SearchError

/-- Two computations have one result, or errors of one variant. -/
inductive SameOutcome {α : Type} : Except SearchError α → Except SearchError α → Prop
  | ok (a : α) : SameOutcome (.ok a) (.ok a)
  | error {error error' : SearchError} (h : error.variant = error'.variant) :
      SameOutcome (.error error) (.error error')

namespace SameOutcome

variable {α β : Type}

theorem refl (x : Except SearchError α) : SameOutcome x x := by
  cases x with
  | error error => exact .error rfl
  | ok a => exact .ok a

theorem bind {x y : Except SearchError α} (h : SameOutcome x y) (f : α → Except SearchError β) :
    SameOutcome (x >>= f) (y >>= f) := by
  cases h with
  | ok a => exact refl (f a)
  | error h => exact .error h

end SameOutcome

/-! ## Terms and trees -/

theorem Predicate.ofTerm_asText (field : String) (value : Json) :
    ofTerm field value.asText = ofTerm field value := by
  cases value <;> rfl

namespace Expression

/-- A scalar is no node. -/
theorem children_of_isScalar {node : Json} (h : node.isScalar = true) :
    ∃ error, children node = .error error := by
  cases node with
  | list items => cases h
  | object members => cases h
  | _ => exact ⟨_, rfl⟩

/-- Expressions that have the same predicates, or the same errors in place of them. -/
def SamePredicates (es es' : List Expression) : Prop := es.map toPredicate = es'.map toPredicate

theorem SamePredicates.refl (es : List Expression) : SamePredicates es es := rfl

theorem SamePredicates.append {es es' fs fs' : List Expression} (h : SamePredicates es es')
    (h' : SamePredicates fs fs') : SamePredicates (es ++ fs) (es' ++ fs') := by
  unfold SamePredicates at *
  rw [List.map_append, List.map_append, h, h']

/-- The predicate of an operation is made of those of its children. -/
theorem toPredicate_node_congr (operation : Operation) {es es' : List Expression}
    (h : SamePredicates es es') : (node operation es).toPredicate = (node operation es').toPredicate := by
  have hmapM : ∀ es : List Expression, toPredicates es = (es.map toPredicate).mapM id := by
    intro es
    rw [toPredicates_eq_mapM, List.mapM_map]
    rfl
  cases es with
  | nil => rw [List.map_eq_nil_iff.mp h.symm]
  | cons e es =>
    -- without children an operation is refused before any predicate is made
    have hne : es' ≠ [] := by
      rintro rfl
      cases h
    rw [toPredicate.eq_3 _ _ (List.cons_ne_nil e es), toPredicate.eq_3 _ _ hne, hmapM, hmapM, h]

theorem agree_children_asText (node : Json) :
    Agree SamePredicates (children node.asText) (children node) := by
  cases htext : node.scalarText with
  | none =>
    rw [Json.asText_eq_self htext]
    exact .refl SamePredicates.refl _
  | some s =>
    obtain ⟨error, herror⟩ := children_of_isScalar (Json.isScalar_of_scalarText htext)
    rw [Json.asText_of_scalarText htext, herror]
    exact .error _ _

/-- The terms of a key have the same predicates as the terms of its texts. -/
theorem samePredicates_terms (key : String) (values : List Json) :
    SamePredicates (terms key (.list (values.map Json.asText))) (terms key (.list values)) := by
  have hvalue : ∀ value : Json,
      value.asText.scalars.map (Predicate.ofTerm key) = value.scalars.map (Predicate.ofTerm key) := by
    intro value
    cases value <;> rfl
  have hmap : ∀ value : Json, (terms key value).map toPredicate = value.scalars.map (Predicate.ofTerm key) := by
    intro value
    rw [terms_eq_map, List.map_map]
    rfl
  unfold SamePredicates
  rw [hmap, hmap, Json.scalars, Json.scalars, Json.scalarsOfItems_eq_flatMap,
    Json.scalarsOfItems_eq_flatMap, List.map_flatMap, List.map_flatMap, List.flatMap_map]
  simp only [hvalue]

theorem agree_childrenOfMember_asText (key : String) (values : List Json) :
    Agree SamePredicates (childrenOfMember (key, .list (values.map Json.asText)))
      (childrenOfMember (key, .list values)) := by
  simp only [childrenOfMember]
  cases Operation.ofKey? key with
  | some operation =>
    have hinner : Agree SamePredicates (gather (fun value => children value.asText) values)
        (gather children values) :=
      gather_congr (SamePredicates.refl []) SamePredicates.append fun value _ =>
        agree_children_asText value
    simp only [children, childrenOfItems_eq_gather, gather_map]
    apply hinner.bind
    intro inner inner' hsame
    apply Agree.ok
    unfold SamePredicates
    rw [List.map_singleton, List.map_singleton, toPredicate_node_congr operation hsame]
  | none => exact .ok (samePredicates_terms key values)

end Expression

namespace Operator

theorem ofParams?_asTexts (p : Params) : ofParams? p.asTexts = ofParams? p := by
  rw [ofParams?, ofParams?, Params.get?_asTexts, Option.map_map]
  congr 1
  funext value
  cases htext : value.scalarText with
  | some s => simp only [Function.comp_apply, Json.scalarText_asText, htext]
  | none => rw [Function.comp_apply, Json.asText_eq_self htext, htext]

/-! ## Operators -/

theorem agree_children_nodeOf_asTexts (p : Params) :
    Agree Expression.SamePredicates (Expression.children (nodeOf p.asTexts))
      (Expression.children (nodeOf p)) := by
  simp only [nodeOf, Expression.children, Expression.childrenOfMembers_eq_gather, Params.asTexts,
    Table.mapValues, gather_map]
  apply gather_congr (Expression.SamePredicates.refl []) Expression.SamePredicates.append
  intro entry _
  exact Expression.agree_childrenOfMember_asText entry.1 entry.2

/-- An element of an advanced search is read as the same tree from its text: a number or a boolean is none,
and what its text is read as is none either. -/
theorem agree_decodeElement_asText (element : Json) :
    Agree Eq (decodeElement element.asText >>= Expression.children)
      (decodeElement element >>= Expression.children) := by
  cases htext : element.scalarText with
  | none =>
    rw [Json.asText_eq_self htext]
    exact .self _
  | some s =>
    by_cases hliteral : ∃ t, element = .text t
    · obtain ⟨t, rfl⟩ := hliteral
      exact .self _
    · have hdecoded : decodeElement element = .ok element := by
        cases element with
        | text t => exact absurd ⟨t, rfl⟩ hliteral
        | _ => rfl
      -- typed, the element is a scalar and no tree; its text is decoded first, but to a scalar again
      obtain ⟨error, herror⟩ :=
        Expression.children_of_isScalar (Json.isScalar_of_scalarText htext)
      rw [Json.asText_of_scalarText htext, hdecoded, ok_bind, herror, decodeElement]
      cases hparsed : Json.parse s.toList with
      | error fault => exact .error _ _
      | ok value =>
        have hscalar := Json.isScalar_of_parse_scalarText htext (fun t ht => hliteral ⟨t, ht⟩) hparsed
        obtain ⟨error', herror'⟩ := Expression.children_of_isScalar hscalar
        rw [ok_bind, herror']
        exact .error _ _

theorem agree_elements_asTexts (elements : List Json) :
    Agree Eq ((elements.map Json.asText).mapM decodeElement >>= gather Expression.children)
      (elements.mapM decodeElement >>= gather Expression.children) := by
  rw [List.mapM_map]
  have hread := gather_congr rfl (fun h h' => by rw [h, h']) fun element (_ : element ∈ elements) =>
    agree_decodeElement_asText element
  apply (agree_mapM_gather (decodeElement ∘ Json.asText) Expression.children elements).eq_trans
  apply Agree.eq_trans hread
  exact (agree_mapM_gather decodeElement Expression.children elements).symm fun _ _ => Eq.symm

theorem agree_advancedExpression_asTexts (p : Params) :
    Agree Eq (advancedExpression p.asTexts) (advancedExpression p) := by
  unfold advancedExpression
  rw [Params.keys_asTexts]
  split
  · exact .error _ _
  · rename_i key _
    simp only [Params.getAll_asTexts, Expression.children, Expression.childrenOfItems_eq_gather]
    rw [← bind_assoc, ← bind_assoc]
    apply (agree_elements_asTexts (p.getAll key)).bind
    rintro es _ rfl
    exact .self _
  · exact .error _ _

theorem agree_tree_asTexts {operator : Operator} {tree : Params → Except SearchError Expression}
    (htree : operator.tree? = some tree) (p : Params) :
    Agree (fun e e' => e.toPredicate = e'.toPredicate) (tree p.asTexts) (tree p) := by
  have houter : ∀ operation : Operation, Agree (fun e e' => e.toPredicate = e'.toPredicate)
      (outerExpression operation p.asTexts) (outerExpression operation p) := by
    intro operation
    apply (agree_children_nodeOf_asTexts p).bind
    intro es es' hsame
    exact .ok (Expression.toPredicate_node_congr operation hsame)
  cases operator with
  | and =>
    cases htree
    exact houter .and
  | or =>
    cases htree
    exact houter .or
  | not =>
    cases htree
    exact houter .not
  | advanced =>
    cases htree
    apply (agree_advancedExpression_asTexts p).mono
    rintro e _ rfl
    rfl
  | oneOf => cases htree

theorem membershipPredicate_asTexts (p : Params) :
    membershipPredicate p.asTexts = membershipPredicate p := by
  obtain ⟨entries⟩ := p
  cases entries with
  | nil => rfl
  | cons entry rest =>
    have hmember : memberText entry.1 ∘ Json.asText = memberText entry.1 := by
      funext value
      rw [Function.comp_apply, memberText, memberText, Json.scalarText_asText]
    simp only [membershipPredicate, Params.asTexts, Table.mapValues, List.map_cons, List.mapM_map, hmember]

/-- An operator makes the same predicate of the parameters and of their texts. -/
theorem agree_predicate_asTexts (operator : Operator) (p : Params) :
    Agree Eq (operator.predicate p.asTexts) (operator.predicate p) := by
  cases htree : operator.tree? with
  | none =>
    have hmembership : operator = .oneOf := by
      cases operator with
      | oneOf => rfl
      | _ => cases htree
    subst hmembership
    rw [predicate, predicate, membershipPredicate_asTexts]
    exact .self _
  | some tree =>
    rw [predicate_eq_tree htree, predicate_eq_tree htree]
    apply (agree_tree_asTexts htree p).bind
    intro e e' hsame
    rw [hsame]
    exact .self _

end Operator

/-! ## Searches -/

namespace Scope

theorem sameOutcome_searchOperator_asTexts (s : Scope) (operator : Operator) (p : Params)
    (filters : List String) :
    SameOutcome (s.searchOperator operator p.asTexts filters) (s.searchOperator operator p filters) := by
  have hempty : (p.without filters).asTexts.entries.isEmpty = (p.without filters).entries.isEmpty :=
    List.isEmpty_map
  have hnarrowed : Agree Eq (operator.predicate (p.without filters).asTexts >>= s.filter?)
      (operator.predicate (p.without filters) >>= s.filter?) := by
    apply (operator.agree_predicate_asTexts (p.without filters)).bind
    rintro predicate? _ rfl
    exact .self _
  simp only [searchOperator, ← Params.asTexts_without, hempty]
  split
  · exact .ok s
  · rcases hnarrowed.cases_ok_error with ⟨narrowed, _, hn, hn', rfl⟩ | ⟨error, error', herror, herror'⟩
    · rw [hn, hn']
      exact .ok _
    · rw [herror, herror']
      apply SameOutcome.error
      rw [SearchError.variant_asOperatorError, SearchError.variant_asOperatorError]

theorem searchTerms_asTexts (s : Scope) (p : Params) (excluded : List String) :
    s.searchTerms p.asTexts excluded = s.searchTerms p excluded := by
  have hpredicates : p.asTexts.termPredicates excluded = p.termPredicates excluded := by
    show (p.asTexts.without excluded).pairs.mapM (fun pair => Predicate.ofTerm pair.1 pair.2)
      = (p.without excluded).pairs.mapM fun pair => Predicate.ofTerm pair.1 pair.2
    rw [← Params.asTexts_without, Params.pairs_asTexts, List.mapM_map]
    congr 1
    funext pair
    exact Predicate.ofTerm_asText pair.1 pair.2
  rw [searchTerms, searchTerms, hpredicates]

end Scope

theorem Narrowed.sameOutcome_finish_asTexts (n : Narrowed) (r : Registry) (c : SearchConfig)
    (root : String) : SameOutcome (n.asTexts.finish r c root) (n.finish r c root) := by
  have hfields : SameOutcome (Prepared.searchFields c n.scope n.params.asTexts)
      (Prepared.searchFields c n.scope n.params) := by
    unfold Prepared.searchFields
    rw [Operator.ofParams?_asTexts]
    cases Operator.ofParams? n.params with
    | none =>
      rw [Scope.searchTerms_asTexts]
      exact .refl _
    | some requested =>
      cases requested with
      | error error => exact .error rfl
      | ok operator => exact n.scope.sameOutcome_searchOperator_asTexts operator n.params _
  have horder : Prepared.orderText c n.params.asTexts = Prepared.orderText c n.params :=
    Prepared.orderText_congr c (n.params.getText?_asTexts orderParam)
  have hpage : Page.ofParams n.params.asTexts c.defaultPageSize
      = Page.ofParams n.params c.defaultPageSize :=
    Page.ofParams_congr _ (n.params.getText?_asTexts Page.param) (n.params.getText?_asTexts Page.sizeParam)
  unfold finish
  simp only [asTexts, horder, hpage]
  exact hfields.bind _

/-- The texts of some parameters are prepared as the same search, or refused for the same variant of
error. -/
theorem Prepared.sameOutcome_asTexts (r : Registry) (c : SearchConfig) (root : String) (p : Params) :
    SameOutcome (Prepared.ofParams r c root p.asTexts) (Prepared.ofParams r c root p) := by
  rw [ofParams_eq, ofParams_eq, Narrowed.ofParams_asTexts]
  cases Narrowed.ofParams r c root p with
  | error error => exact .error rfl
  | ok n => exact n.sameOutcome_finish_asTexts r c root

/-! ## Both encodings -/

/-- Query strings and JSON bodies are interchangeable.  A query string of the text forms of some pairs and a
body of the pairs are prepared as one search, or are both refused, for errors of one variant. -/
theorem prepared_encodings {r : Registry} {c : SearchConfig} {root : String}
    {pairs : List (String × Scalar)} {query : String} {members : List (String × Json)}
    (hquery : Text.FormData.read query = pairs.map fun pair => (pair.1, pair.2.text))
    (hbody : IsBodyOf members (pairs.map fun pair => (pair.1, pair.2.val))) :
    ∃ body, Params.ofJson (.object members) = .ok body
      ∧ ((∃ s, Prepared.ofParams r c root (.ofQuery query) = .ok s ∧ Prepared.ofParams r c root body = .ok s)
        ∨ ∃ error error', Prepared.ofParams r c root (.ofQuery query) = .error error
          ∧ Prepared.ofParams r c root body = .error error' ∧ error.variant = error'.variant) := by
  have hscalar : ∀ pair ∈ pairs.map fun pair => (pair.1, pair.2.val), pair.2.isScalar = true := by
    intro pair hpair
    obtain ⟨typed, _, rfl⟩ := List.mem_map.mp hpair
    exact Json.isScalar_of_scalarText typed.2.scalarText_val
  refine ⟨_, Params.ofJson_body hscalar hbody, ?_⟩
  have houtcome := Prepared.sameOutcome_asTexts r c root
    (.ofPairs (pairs.map fun pair => (pair.1, pair.2.val)))
  rw [← Params.ofQuery_eq_asTexts hquery] at houtcome
  generalize Prepared.ofParams r c root (.ofQuery query) = sent at houtcome
  generalize Prepared.ofParams r c root (.ofPairs _) = typed at houtcome
  cases houtcome with
  | ok s => exact .inl ⟨s, rfl, rfl⟩
  | error h => exact .inr ⟨_, _, rfl, rfl, h⟩

/-- The second page of active questions with one of two titles, one of them a number. -/
theorem prepared_encodings_sample :
    ∃ body s, Params.ofJson (.object [("operator", .text "or"), ("title", .list [.text "^Why", .ofNat 100]),
        ("is_active", .bool true), ("page", .ofNat 2)]) = .ok body
      ∧ Prepared.ofParams Service.registry .standard "questions"
        (.ofQuery "operator=or&title=%5EWhy&is_active=true&page=2&title=100") = .ok s
      ∧ Prepared.ofParams Service.registry .standard "questions" body = .ok s
      ∧ s.page.number = 2 := by
  have hquery : Text.FormData.read "operator=or&title=%5EWhy&is_active=true&page=2&title=100"
      = [("operator", "or"), ("title", "^Why"), ("is_active", "true"), ("page", "2"), ("title", "100")] := by
    decide
  have hprepared := @prepared_encodings Service.registry .standard "questions"
    [("operator", ⟨.text "or", rfl⟩), ("title", ⟨.text "^Why", rfl⟩), ("is_active", ⟨.bool true, rfl⟩),
      ("page", ⟨.ofNat 2, rfl⟩), ("title", ⟨.ofNat 100, rfl⟩)] _
    [("operator", .text "or"), ("title", .list [.text "^Why", .ofNat 100]), ("is_active", .bool true),
      ("page", .ofNat 2)] hquery ⟨rfl, ?_⟩
  · obtain ⟨body, hbody, ⟨s, hsent, htyped⟩ | ⟨error, error', _, herror, _⟩⟩ := hprepared
    · refine ⟨body, s, hbody, hsent, htyped, ?_⟩
      cases hbody
      cases htyped
      rfl
    · cases hbody
      cases herror
  · rw [List.forall_mem_cons, List.forall_mem_cons, List.forall_mem_cons, List.forall_mem_singleton]
    exact ⟨.inr rfl, .inl rfl, .inr rfl, .inr rfl⟩

end SchemaSearch
