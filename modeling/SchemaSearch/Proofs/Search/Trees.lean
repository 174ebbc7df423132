import Mathlib.Data.List.Forall2
import SchemaSearch.Proofs.Search.Childless
import SchemaSearch.Proofs.Search.Meanings

/-!
# What trees say

A tree of lists and objects can be read without making an expression of it: a list has the children of its
items, an object has one child for each operation and one for each scalar of a field, and an operation says
that all of its children hold, or some, or none.  Reading it by way of expressions and predicates, with folds
that join what is of one kind and take double negations away, comes to the same.

Main statement: a tree becomes a predicate if no scalar stands in the place of a node, no operation lacks a
child and no term a lookup; and then the predicate says what the tree says (`predicate_says_tree`).
-/

namespace SchemaSearch

/-! ## Trees -/

namespace Json

mutual

/-- Whether no scalar stands in the place of a node: as the tree itself, as an item, or under an operation. -/
def isTree : Json → Bool
  | .list items => areTrees items
  | .object members => areTreeMembers members
  | _ => false
termination_by structural node => node

/-- Whether no scalar stands in the place of a node in some items. -/
def areTrees : List Json → Bool
  | [] => true
  | item :: items => isTree item && areTrees items
termination_by structural items => items

/-- Whether no scalar stands in the place of a node in the members of an object. -/
def areTreeMembers : List (String × Json) → Bool
  | [] => true
  | member :: members => isTreeMember member && areTreeMembers members
termination_by structural members => members

/-- Whether no scalar stands in the place of a node in a member.  The values of a field are no nodes. -/
def isTreeMember : String × Json → Bool
  | (key, value) =>
    match Operation.ofKey? key with
    | some _ => isTree value
    | none => true
termination_by structural member => member

end

section Reading

variable (holds : String → Json → Bool)

mutual

/-- What the children of a node say, in order, given what each term says. -/
def truths : Json → List Bool
  | .list items => truthsOfItems items
  | .object members => truthsOfMembers members
  | _ => []
termination_by structural node => node

/-- What the children of some nodes say. -/
def truthsOfItems : List Json → List Bool
  | [] => []
  | item :: items => truths item ++ truthsOfItems items
termination_by structural items => items

/-- What the children say that the members of an object stand for. -/
def truthsOfMembers : List (String × Json) → List Bool
  | [] => []
  | member :: members => truthsOfMember member ++ truthsOfMembers members
termination_by structural members => members

/-- An operation is one child, which says what it makes of its own; a field is one for each scalar. -/
def truthsOfMember : String × Json → List Bool
  | (key, value) =>
    match Operation.ofKey? key with
    | some operation => [operation.truthOf (truths value)]
    | none => value.scalars.map (holds key)
termination_by structural member => member

end

end Reading

/-- Whether the value of a term has a lookup. -/
def hasLookup (term : String × Json) : Bool := (Lookup.ofValue term.1 term.2).isOk

/-- A tree that can be searched under an operation: no scalar stands in the place of a node, the outer
operation and every other one has a child, and every term has a lookup. -/
structure IsSearchable (node : Json) : Prop where
  tree : node.isTree = true
  outer : node.childless = false
  inner : node.starves = false
  terms : ∀ term ∈ node.fieldTerms, hasLookup term = true

/-- What an element of an advanced search gives: itself, or the value that it is the JSON text of. -/
inductive Gives : Json → Json → Prop
  | itself {node : Json} (h : ∀ s, node ≠ .text s) : Gives node node
  | text {s : String} {node : Json} (h : parse s.toList = .ok node) : Gives (.text s) node

end Json

/-! ## From trees to expressions -/

namespace Expression

mutual

/-- A node is read if no scalar stands in the place of one. -/
theorem isOk_children : ∀ node : Json, (children node).isOk = node.isTree
  | .list items => isOk_childrenOfItems items
  | .object members => isOk_childrenOfMembers members
  | .null | .bool _ | .number _ | .text _ => rfl

theorem isOk_childrenOfItems : ∀ items : List Json, (childrenOfItems items).isOk = Json.areTrees items
  | [] => rfl
  | item :: items => by
    rw [childrenOfItems, Json.areTrees, isOk_bind_bind, isOk_children item, isOk_childrenOfItems items]

theorem isOk_childrenOfMembers : ∀ members : List (String × Json),
    (childrenOfMembers members).isOk = Json.areTreeMembers members
  | [] => rfl
  | member :: members => by
    rw [childrenOfMembers, Json.areTreeMembers, isOk_bind_bind, isOk_childrenOfMember member,
      isOk_childrenOfMembers members]

theorem isOk_childrenOfMember : ∀ member : String × Json,
    (childrenOfMember member).isOk = Json.isTreeMember member
  | (key, value) => by
    rw [childrenOfMember, Json.isTreeMember]
    cases Operation.ofKey? key with
    | some operation =>
      rw [← isOk_children value]
      cases children value <;> rfl
    | none => rfl

end

/-! ## What expressions say -/

section Truth

variable (holds : String → Json → Bool)

mutual

/-- What an expression says, given what its terms say. -/
def truth : Expression → Bool
  | .term field value => holds field value
  | .node operation children => operation.truthOf (truths children)
termination_by structural e => e

/-- What some expressions say. -/
def truths : List Expression → List Bool
  | [] => []
  | e :: es => truth e :: truths es
termination_by structural es => es

end

theorem truths_eq_map (es : List Expression) : truths holds es = es.map (truth holds) := by
  induction es with
  | nil => rfl
  | cons e es ih => rw [truths, ih, List.map_cons]

theorem truths_append (es fs : List Expression) :
    truths holds (es ++ fs) = truths holds es ++ truths holds fs := by
  simp only [truths_eq_map, List.map_append]

theorem truths_terms (field : String) (value : Json) :
    truths holds (terms field value) = value.scalars.map (holds field) := by
  rw [truths_eq_map, terms_eq_map, List.map_map]
  rfl

mutual

/-- The children that a node is read as say what the node says. -/
theorem truths_children : ∀ (node : Json) {es : List Expression}, children node = .ok es →
    truths holds es = node.truths holds
  | .list items, es, h => truths_childrenOfItems items h
  | .object members, es, h => truths_childrenOfMembers members h
  | .null, _, h | .bool _, _, h | .number _, _, h | .text _, _, h => by cases h

theorem truths_childrenOfItems : ∀ (items : List Json) {es : List Expression},
    childrenOfItems items = .ok es → truths holds es = Json.truthsOfItems holds items
  | [], es, h => by
    cases h
    rfl
  | item :: items, es, h => by
    rw [childrenOfItems] at h
    obtain ⟨first, hfirst, h⟩ := bind_eq_ok h
    obtain ⟨rest, hrest, h⟩ := bind_eq_ok h
    cases h
    rw [truths_append, Json.truthsOfItems, truths_children item hfirst, truths_childrenOfItems items hrest]

theorem truths_childrenOfMembers : ∀ (members : List (String × Json)) {es : List Expression},
    childrenOfMembers members = .ok es → truths holds es = Json.truthsOfMembers holds members
  | [], es, h => by
    cases h
    rfl
  | member :: members, es, h => by
    rw [childrenOfMembers] at h
    obtain ⟨first, hfirst, h⟩ := bind_eq_ok h
    obtain ⟨rest, hrest, h⟩ := bind_eq_ok h
    cases h
    rw [truths_append, Json.truthsOfMembers, truths_childrenOfMember member hfirst,
      truths_childrenOfMembers members hrest]

theorem truths_childrenOfMember : ∀ (member : String × Json) {es : List Expression},
    childrenOfMember member = .ok es → truths holds es = Json.truthsOfMember holds member
  | (key, value), es, h => by
    rw [childrenOfMember] at h
    rw [Json.truthsOfMember]
    cases hkey : Operation.ofKey? key with
    | some operation =>
      rw [hkey] at h
      obtain ⟨inner, hinner, h⟩ := bind_eq_ok h
      cases h
      rw [truths, truth, truths, truths_children value hinner]
    | none =>
      rw [hkey] at h
      cases h
      exact truths_terms holds key value

end

end Truth

/-! ## From expressions to predicates -/

mutual

/-- An expression becomes a predicate if none of its operations lacks a child and none of its terms a
lookup. -/
theorem isOk_toPredicate : ∀ e : Expression,
    e.toPredicate.isOk = (!e.starved && e.fields.all Json.hasLookup)
  | .term field value => by
    rw [toPredicate, Predicate.ofTerm, starved, fields, List.all_cons, List.all_nil, Json.hasLookup]
    cases Lookup.ofValue field value <;> rfl
  | .node operation [] => rfl
  | .node operation (e :: es) => by
    rw [starved, fields, List.isEmpty_cons, Bool.false_or, ← isOk_toPredicates (e :: es),
      toPredicate.eq_3 _ _ (List.cons_ne_nil e es)]
    cases hps : toPredicates (e :: es) with
    | error error => rfl
    | ok ps =>
      -- where every child has a predicate there is one to fold
      obtain ⟨first, rest, rfl⟩ : ∃ first rest, ps = first :: rest := by
        rw [toPredicates] at hps
        obtain ⟨first, _, hps⟩ := bind_eq_ok hps
        obtain ⟨rest, _, hps⟩ := bind_eq_ok hps
        cases hps
        exact ⟨first, rest, rfl⟩
      obtain ⟨p, hp⟩ := exists_combine operation first rest
      rw [ok_bind, hp]
      rfl

theorem isOk_toPredicates : ∀ es : List Expression,
    (toPredicates es).isOk = (!starvedSome es && (fieldsOf es).all Json.hasLookup)
  | [] => rfl
  | e :: es => by
    rw [toPredicates, isOk_bind_bind, isOk_toPredicate e, isOk_toPredicates es, starvedSome, fieldsOf,
      List.all_append, Bool.not_or]
    ac_rfl

end

section Eval

variable (holds : String → Lookup → Bool)

/-- What a term says, given what fields say: what its field says with the lookup of its value. -/
def termHolds (field : String) (value : Json) : Bool :=
  match Lookup.ofValue field value with
  | .ok lookup => holds field lookup
  | .error _ => false

mutual

/-- The predicate of an expression says what the expression says. -/
theorem eval_toPredicate : ∀ (e : Expression) {p : Predicate}, e.toPredicate = .ok p →
    p.eval holds = e.truth (termHolds holds)
  | .term field value, p, h => by
    obtain ⟨lookup, hlookup, rfl⟩ := Predicate.ofTerm_eq_ok h
    rw [Predicate.eval, truth, termHolds, hlookup]
  | .node operation es, p, h => by
    obtain ⟨_, ps, hps, hcombine⟩ := toPredicate_node_eq_ok h
    rw [eval_combine hcombine, truth, eval_toPredicates es hps]

theorem eval_toPredicates : ∀ (es : List Expression) {ps : List Predicate}, toPredicates es = .ok ps →
    ps.map (Predicate.eval holds) = truths (termHolds holds) es
  | [], ps, h => by
    cases h
    rfl
  | e :: es, ps, h => by
    rw [toPredicates] at h
    obtain ⟨p, hp, h⟩ := bind_eq_ok h
    obtain ⟨qs, hqs, h⟩ := bind_eq_ok h
    cases h
    rw [List.map_cons, truths, eval_toPredicate e hp, eval_toPredicates es hqs]

end

end Eval

end Expression

/-! ## What trees say -/

/-- A result is right for a tree under an outer operation: there is a predicate if the tree can be searched,
and whatever the fields are taken to say, it says what the operation makes of the children of the tree. -/
structure Operation.SaysTree (operation : Operation) (tree : Json) (result : Except SearchError Predicate) :
    Prop where
  succeeds : (∃ p, result = .ok p) ↔ tree.IsSearchable
  evaluates : ∀ p, result = .ok p → ∀ holds : String → Lookup → Bool,
    p.eval holds = operation.truthOf (tree.truths (Expression.termHolds holds))

/-- A tree that is read and folded under an operation becomes what it says. -/
theorem Expression.saysTree (operation : Operation) (tree : Json) :
    operation.SaysTree tree (children tree >>= fun es => (node operation es).toPredicate) := by
  constructor
  · constructor
    · rintro ⟨p, h⟩
      obtain ⟨es, hes, hp⟩ := bind_eq_ok h
      have hmade := isOk_toPredicate (node operation es)
      rw [isOk_iff.mpr ⟨p, hp⟩, starved, fields, isEmpty_children tree hes, starvedSome_children tree hes,
        fieldsOf_children tree hes] at hmade
      obtain ⟨hfed, hterms⟩ := (Bool.and_eq_true _ _).mp hmade.symm
      rw [Bool.not_eq_true', Bool.or_eq_false_iff] at hfed
      have htree := isOk_children tree
      rw [isOk_iff.mpr ⟨es, hes⟩] at htree
      exact ⟨htree.symm, hfed.1, hfed.2, List.all_eq_true.mp hterms⟩
    · intro h
      obtain ⟨es, hes⟩ := isOk_iff.mp ((isOk_children tree).trans h.tree)
      rw [hes, ok_bind, ← isOk_iff, isOk_toPredicate, starved, fields, isEmpty_children tree hes,
        starvedSome_children tree hes, fieldsOf_children tree hes, h.outer, h.inner,
        List.all_eq_true.mpr h.terms]
      rfl
  · intro p h holds
    obtain ⟨es, hes, hp⟩ := bind_eq_ok h
    rw [eval_toPredicate holds _ hp, truth, truths_children _ tree hes]

namespace Operator

theorem decodeElement_of_gives {element node : Json} (h : element.Gives node) :
    decodeElement element = .ok node := by
  cases h with
  | itself h =>
    cases element with
    | text s => exact absurd rfl (h s)
    | null => rfl
    | bool b => rfl
    | number n => rfl
    | list items => rfl
    | object members => rfl
  | text h => rw [decodeElement, h]

theorem mapM_decodeElement {elements nodes : List Json} (h : List.Forall₂ Json.Gives elements nodes) :
    elements.mapM decodeElement = .ok nodes := by
  induction h with
  | nil => rfl
  | cons hfirst _ ih =>
    rw [List.mapM_cons, decodeElement_of_gives hfirst, ok_bind, ih]
    rfl

/-- With one outer operation, an advanced search reads the tree that its elements give. -/
theorem advancedExpression_eq {p : Params} {operation : Operation} {nodes : List Json}
    (hkeys : p.keys.filter isOuter = [operation.key])
    (hnodes : List.Forall₂ Json.Gives (p.getAll operation.key) nodes) :
    advancedExpression p = Expression.children (.list nodes) >>= fun es => .ok (.node operation es) := by
  have houter : p.keys.filter (fun key => (Operation.ofKey? key).isSome) = [operation.key] := hkeys
  simp only [advancedExpression, houter, mapM_decodeElement hnodes, ok_bind, Operation.ofKey?_key]

end Operator

/-- A tree becomes a predicate if no scalar stands in the place of a node, no operation, the outer one among
them, lacks a child, and no term a lookup; the predicate then says what the tree says.  So does that of an
advanced search for the list of its elements, each of which gives itself or what it is the JSON text of. -/
theorem predicate_says_tree :
    (∀ (operation : Operation) (tree : Json), operation.SaysTree tree
        (Expression.children tree >>= fun es => (Expression.node operation es).toPredicate))
      ∧ ∀ (operation : Operation) (p : Params) (nodes : List Json),
        p.keys.filter Operator.isOuter = [operation.key] →
        List.Forall₂ Json.Gives (p.getAll operation.key) nodes →
        operation.SaysTree (.list nodes)
          (Operator.advancedExpression p >>= fun e => e.toPredicate) := by
  refine ⟨Expression.saysTree, ?_⟩
  intro operation p nodes hkeys hnodes
  rw [Operator.advancedExpression_eq hkeys hnodes, bind_assoc]
  exact Expression.saysTree operation (.list nodes)

/-- An advanced search for all but questions on how to set something up and questions without a context; the
first of the two is sent as JSON text. -/
def allButSetup : Params :=
  ⟨[("_NOT",
      [.text "\x7b\"_AND\": [\x7b\"title\": [\"^How\", [\"$setup\"]]\x7d, []]\x7d",
        .object [("context", .null)]]),
    ("format", [.text "json"])]⟩

theorem predicate_says_tree_sample :
    ∃ p, (Operator.advancedExpression allButSetup >>= fun e => e.toPredicate) = .ok p
      ∧ ∀ holds : String → Lookup → Bool, p.eval holds
        = !((holds "title" (.startsWith "How") && holds "title" (.contains "setup"))
          || holds "context" (.isNull true)) := by
  have hgives : List.Forall₂ Json.Gives (allButSetup.getAll Operation.not.key)
      [.object [("_AND",
          .list [.object [("title", .list [.text "^How", .list [.text "$setup"]])], .list []])],
        .object [("context", .null)]] :=
    .cons (.text (by cbv)) (.cons (.itself fun s h => by cases h) .nil)
  obtain ⟨hsucceeds, hevaluates⟩ := predicate_says_tree.2 .not allButSetup _ (by decide) hgives
  obtain ⟨p, hp⟩ := hsucceeds.mpr ⟨rfl, rfl, rfl, by decide⟩
  refine ⟨p, hp, fun holds => ?_⟩
  rw [hevaluates p hp holds]
  show (!(((holds "title" (.startsWith "How") && (holds "title" (.contains "setup") && true))
    || (holds "context" (.isNull true) || false)))) = _
  rw [Bool.and_true, Bool.or_false]

end SchemaSearch
