import SchemaSearch.Proofs.Predicate.Junctions
import SchemaSearch.Proofs.Predicate.Meaning
import SchemaSearch.Search.Operator

/-!
# The fields of trees

A client writes field terms, alone or inside of a tree of operations; a predicate holds fields with their
lookups.  Between the two stand the reading of the tree and the folds of the predicates, and neither drops,
doubles or renames a field: the fields of a predicate are the readings of the terms it was made from, in
their order.

Main statements: reading a node keeps its terms (`fieldsOf_children`), and so does folding an expression
(`leaves_toPredicate`).
-/

namespace SchemaSearch

open Query

/-! ## Terms and their readings -/

/-- What a term is searched as: its field, and the lookup of its value if there is one. -/
def reading (term : String × Json) : String × Option Lookup :=
  (term.1, (Lookup.ofValue term.1 term.2).toOption)

/-- A field of a predicate, as the reading of a term. -/
def asReading (leaf : String × Lookup) : String × Option Lookup := (leaf.1, some leaf.2)

theorem Predicate.ofTerm_eq_ok {field : String} {value : Json} {p : Predicate}
    (h : ofTerm field value = .ok p) :
    ∃ lookup, Lookup.ofValue field value = .ok lookup ∧ p = .field field lookup := by
  obtain ⟨lookup, hlookup, h⟩ := bind_eq_ok h
  cases h
  exact ⟨lookup, hlookup, rfl⟩

/-- A predicate made of one term has its reading as its only field. -/
theorem Predicate.leaves_ofTerm {field : String} {value : Json} {p : Predicate}
    (h : ofTerm field value = .ok p) : p.leaves.map asReading = [reading (field, value)] := by
  obtain ⟨lookup, hlookup, rfl⟩ := ofTerm_eq_ok h
  simp [leaves, asReading, reading, hlookup, Except.toOption]

/-! ## Folds of predicates -/

namespace Predicate

theorem leavesOf_append (ps qs : List Predicate) :
    leavesOf (ps ++ qs) = leavesOf ps ++ leavesOf qs := by
  induction ps with
  | nil => rfl
  | cons p ps ih => simp only [List.cons_append, leavesOf, ih, List.append_assoc]

theorem leaves_junction (joint : Joint) (items : List Predicate) :
    (junction joint items).leaves = leavesOf items := by
  cases joint <;> rw [junction, leaves]

theorem leavesOf_parts (joint : Joint) (p : Predicate) : leavesOf (p.parts joint) = p.leaves := by
  rcases parts_cases joint p with ⟨items, rfl⟩ | ⟨hself, _⟩
  · rw [parts_junction, leaves_junction]
  · rw [hself, leavesOf, leavesOf, List.append_nil]

theorem leavesOf_flatMap_parts (joint : Joint) (ps : List Predicate) :
    leavesOf (ps.flatMap (parts joint)) = leavesOf ps := by
  induction ps with
  | nil => rfl
  | cons p ps ih => rw [List.flatMap_cons, leavesOf_append, leavesOf_parts, ih, leavesOf]

@[simp] theorem leaves_negate (p : Predicate) : p.negate.leaves = p.leaves := by
  cases p <;> simp [negate, leaves]

/-- A list that is joined keeps the fields of its predicates. -/
theorem leaves_joinAll? (joint : Joint) {ps : List Predicate} {p : Predicate}
    (h : joinAll? joint ps = some p) : p.leaves = leavesOf ps := by
  rw [← leavesOf_parts joint p, parts_joinAll? joint h, leavesOf_flatMap_parts]

end Predicate

/-! ## Expressions -/

namespace Expression

mutual

/-- The terms of an expression, in order. -/
def fields : Expression → List (String × Json)
  | .term field value => [(field, value)]
  | .node _ children => fieldsOf children
termination_by structural e => e

/-- The terms of some expressions. -/
def fieldsOf : List Expression → List (String × Json)
  | [] => []
  | e :: es => fields e ++ fieldsOf es
termination_by structural es => es

end

theorem fieldsOf_append (es fs : List Expression) :
    fieldsOf (es ++ fs) = fieldsOf es ++ fieldsOf fs := by
  induction es with
  | nil => rfl
  | cons e es ih => simp only [List.cons_append, fieldsOf, ih, List.append_assoc]

/-- Every operation keeps the fields of what it combines. -/
theorem leaves_combine {operation : Operation} {ps : List Predicate} {p : Predicate}
    (h : combine operation ps = some p) : p.leaves = Predicate.leavesOf ps := by
  cases operation with
  | and => exact Predicate.leaves_joinAll? .all h
  | or => exact Predicate.leaves_joinAll? .any h
  | not =>
    -- the children are joined by an OR first, and all of it is negated
    obtain ⟨q, hq, rfl⟩ := Option.map_eq_some_iff.mp h
    rw [Predicate.leaves_negate, Predicate.leaves_joinAll? .any hq]

/-- An operation that makes a predicate has children, and combines theirs. -/
theorem toPredicate_node_eq_ok {operation : Operation} {es : List Expression} {p : Predicate}
    (h : (node operation es).toPredicate = .ok p) :
    es ≠ [] ∧ ∃ ps, toPredicates es = .ok ps ∧ combine operation ps = some p := by
  cases es with
  | nil => cases h
  | cons e es =>
    simp only [toPredicate] at h
    obtain ⟨ps, hps, h⟩ := bind_eq_ok h
    cases hcombine : combine operation ps with
    | none =>
      rw [hcombine] at h
      cases h
    | some q =>
      rw [hcombine] at h
      cases h
      exact ⟨List.cons_ne_nil e es, ps, hps, hcombine⟩

mutual

/-- The fields of the predicate of an expression are the readings of its terms. -/
theorem leaves_toPredicate : ∀ (e : Expression) {p : Predicate}, e.toPredicate = .ok p →
    p.leaves.map asReading = e.fields.map reading
  | .term field value, p, h => by
    rw [toPredicate] at h
    rw [Predicate.leaves_ofTerm h, fields]
    rfl
  | .node operation es, p, h => by
    obtain ⟨_, ps, hps, hcombine⟩ := toPredicate_node_eq_ok h
    rw [leaves_combine hcombine, fields, leaves_toPredicates es hps]

/-- So are those of the predicates of a list of expressions. -/
theorem leaves_toPredicates : ∀ (es : List Expression) {ps : List Predicate},
    toPredicates es = .ok ps → (Predicate.leavesOf ps).map asReading = (fieldsOf es).map reading
  | [], ps, h => by
    cases h
    rfl
  | e :: es, ps, h => by
    rw [toPredicates] at h
    obtain ⟨p, hp, h⟩ := bind_eq_ok h
    obtain ⟨qs, hqs, h⟩ := bind_eq_ok h
    cases h
    rw [Predicate.leavesOf, fieldsOf, List.map_append, List.map_append, leaves_toPredicate e hp,
      leaves_toPredicates es hqs]

end

end Expression

/-! ## Nodes -/

theorem Operation.key_of_ofKey? {key : String} {operation : Operation} (h : ofKey? key = some operation) :
    key = operation.key := by
  unfold ofKey? at h
  split at h
  · cases h
    assumption
  · split at h
    · cases h
      assumption
    · split at h
      · cases h
        assumption
      · cases h

namespace Json

mutual

/-- The scalars of a value, at any depth of lists. -/
def scalars : Json → List Json
  | .list items => scalarsOfItems items
  | value => [value]
termination_by structural value => value

/-- The scalars of a list of values. -/
def scalarsOfItems : List Json → List Json
  | [] => []
  | item :: items => scalars item ++ scalarsOfItems items
termination_by structural items => items

end

mutual

/-- The field terms below a node, at any depth of lists and operations. -/
def fieldTerms : Json → List (String × Json)
  | .list items => fieldTermsOfItems items
  | .object members => fieldTermsOfMembers members
  | _ => []
termination_by structural node => node

/-- The field terms below some nodes. -/
def fieldTermsOfItems : List Json → List (String × Json)
  | [] => []
  | item :: items => fieldTerms item ++ fieldTermsOfItems items
termination_by structural items => items

/-- The field terms of the members of an object. -/
def fieldTermsOfMembers : List (String × Json) → List (String × Json)
  | [] => []
  | member :: members => fieldTermsOfMember member ++ fieldTermsOfMembers members
termination_by structural members => members

/-- The field terms of one member: those below an operation, or one for each scalar of a field. -/
def fieldTermsOfMember : String × Json → List (String × Json)
  | (key, value) =>
    match Operation.ofKey? key with
    | some _ => fieldTerms value
    | none => (scalars value).map (key, ·)
termination_by structural member => member

end

theorem scalarsOfItems_eq_flatMap (items : List Json) : scalarsOfItems items = items.flatMap scalars := by
  induction items with
  | nil => rfl
  | cons item items ih => rw [scalarsOfItems, ih, List.flatMap_cons]

theorem fieldTermsOfItems_eq_flatMap (items : List Json) :
    fieldTermsOfItems items = items.flatMap fieldTerms := by
  induction items with
  | nil => rfl
  | cons item items ih => rw [fieldTermsOfItems, ih, List.flatMap_cons]

theorem fieldTermsOfMembers_eq_flatMap (members : List (String × Json)) :
    fieldTermsOfMembers members = members.flatMap fieldTermsOfMember := by
  induction members with
  | nil => rfl
  | cons member members ih => rw [fieldTermsOfMembers, ih, List.flatMap_cons]

/-- A key with a list of values has the terms that it has with each of them. -/
theorem fieldTermsOfMember_list (key : String) (values : List Json) :
    fieldTermsOfMember (key, .list values)
      = values.flatMap fun value => fieldTermsOfMember (key, value) := by
  simp only [fieldTermsOfMember]
  cases Operation.ofKey? key with
  | some operation => exact fieldTermsOfItems_eq_flatMap values
  | none =>
    show (scalarsOfItems values).map (key, ·) = _
    rw [scalarsOfItems_eq_flatMap, List.map_flatMap]

end Json

namespace Expression

mutual

/-- The terms of a field are its scalars. -/
theorem terms_eq_map (field : String) : ∀ value : Json,
    terms field value = value.scalars.map (.term field)
  | .list items => termsOfItems_eq_map field items
  | .null | .bool _ | .number _ | .text _ | .object _ => rfl

theorem termsOfItems_eq_map (field : String) : ∀ items : List Json,
    termsOfItems field items = (Json.scalarsOfItems items).map (.term field)
  | [] => rfl
  | item :: items => by
    rw [termsOfItems, Json.scalarsOfItems, List.map_append, terms_eq_map field item,
      termsOfItems_eq_map field items]

end

theorem fieldsOf_terms (field : String) (value : Json) :
    fieldsOf (terms field value) = value.scalars.map (field, ·) := by
  rw [terms_eq_map]
  induction value.scalars with
  | nil => rfl
  | cons scalar scalars ih => exact congrArg ((field, scalar) :: ·) ih

mutual

/-- Reading a node keeps its terms. -/
theorem fieldsOf_children : ∀ (node : Json) {es : List Expression}, children node = .ok es →
    fieldsOf es = node.fieldTerms
  | .list items, es, h => fieldsOf_childrenOfItems items h
  | .object members, es, h => fieldsOf_childrenOfMembers members h
  | .null, _, h | .bool _, _, h | .number _, _, h | .text _, _, h => by cases h

theorem fieldsOf_childrenOfItems : ∀ (items : List Json) {es : List Expression},
    childrenOfItems items = .ok es → fieldsOf es = Json.fieldTermsOfItems items
  | [], es, h => by
    cases h
    rfl
  | item :: items, es, h => by
    rw [childrenOfItems] at h
    obtain ⟨first, hfirst, h⟩ := bind_eq_ok h
    obtain ⟨rest, hrest, h⟩ := bind_eq_ok h
    cases h
    rw [fieldsOf_append, Json.fieldTermsOfItems, fieldsOf_children item hfirst,
      fieldsOf_childrenOfItems items hrest]

theorem fieldsOf_childrenOfMembers : ∀ (members : List (String × Json)) {es : List Expression},
    childrenOfMembers members = .ok es → fieldsOf es = Json.fieldTermsOfMembers members
  | [], es, h => by
    cases h
    rfl
  | member :: members, es, h => by
    rw [childrenOfMembers] at h
    obtain ⟨first, hfirst, h⟩ := bind_eq_ok h
    obtain ⟨rest, hrest, h⟩ := bind_eq_ok h
    cases h
    rw [fieldsOf_append, Json.fieldTermsOfMembers, fieldsOf_childrenOfMember member hfirst,
      fieldsOf_childrenOfMembers members hrest]

theorem fieldsOf_childrenOfMember : ∀ (member : String × Json) {es : List Expression},
    childrenOfMember member = .ok es → fieldsOf es = Json.fieldTermsOfMember member
  | (key, value), es, h => by
    rw [childrenOfMember] at h
    rw [Json.fieldTermsOfMember]
    cases hkey : Operation.ofKey? key with
    | some operation =>
      rw [hkey] at h
      obtain ⟨inner, hinner, h⟩ := bind_eq_ok h
      cases h
      rw [fieldsOf, fields, fieldsOf, List.append_nil, fieldsOf_children value hinner]
    | none =>
      rw [hkey] at h
      cases h
      exact fieldsOf_terms key value

end

end Expression

end SchemaSearch
