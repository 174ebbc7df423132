import SchemaSearch.Proofs.Predicate.Replaced
import SchemaSearch.Proofs.Search.Reordering

/-!
# Values in their places

A client value of a field may stand among the values of a key, in lists inside of them, or deep in a tree of
operations.  If it asks for a pattern, another value that asks for a pattern of the same kind may take its
place: what is read from the place is again the term of the field, and all around it stays.

Main statements: nodes that differ in one such value are read as expressions that differ in it
(`Json.NodeSwap.children`), and these become predicates that differ in it (`Expression.Swap.toPredicate`).
-/

namespace SchemaSearch

open Query Schema

/-- What is gathered from lists that differ in one place differs in one place, if it does so there. -/
theorem OneApart.gather {κ α ε : Type} {R : κ → κ → Prop} {S : α → α → Prop} {f : κ → Except ε (List α)}
    {ks ks' : List κ} (h : OneApart R ks ks')
    (hf : ∀ k k', R k k' → ∀ as, f k = .ok as → ∃ as', f k' = .ok as' ∧ OneApart S as as') {as : List α}
    (has : SchemaSearch.gather f ks = .ok as) :
    ∃ as', SchemaSearch.gather f ks' = .ok as' ∧ OneApart S as as' := by
  induction h generalizing as with
  | @head k k' h rest =>
    obtain ⟨first, hfirst, has⟩ := bind_eq_ok has
    obtain ⟨others, hothers, has⟩ := bind_eq_ok has
    cases has
    obtain ⟨first', hfirst', happart⟩ := hf k k' h first hfirst
    refine ⟨first' ++ others, ?_, happart.append_right others⟩
    rw [SchemaSearch.gather, hfirst', ok_bind, hothers, ok_bind]
  | @tail k ks ks' _ ih =>
    obtain ⟨first, hfirst, has⟩ := bind_eq_ok has
    obtain ⟨others, hothers, has⟩ := bind_eq_ok has
    cases has
    obtain ⟨others', hothers', happart⟩ := ih hothers
    refine ⟨first ++ others', ?_, happart.append_left first⟩
    rw [SchemaSearch.gather, hfirst, ok_bind, hothers', ok_bind]

theorem OneApart.gather_place {κ α ε : Type} {S : α → α → Prop} {f : κ → Except ε (List α)}
    (before after : List κ) {k k' : κ}
    (hf : ∀ {as}, f k = .ok as → ∃ as', f k' = .ok as' ∧ OneApart S as as') {as : List α}
    (has : SchemaSearch.gather f (before ++ k :: after) = .ok as) :
    ∃ as', SchemaSearch.gather f (before ++ k' :: after) = .ok as' ∧ OneApart S as as' := by
  refine (place before after k k').gather ?_ has
  rintro _ _ ⟨rfl, rfl⟩ first hfirst
  exact hf hfirst

variable {field : String} {kind : PatternKind} {value value' : String}

/-! ## Values and nodes -/

/-- Two values of a field that ask for patterns of one kind. -/
def Json.Retyped (field : String) (kind : PatternKind) (value value' : String) (x x' : Json) : Prop :=
  Lookup.ofValue field x = .ok (kind.lookup value) ∧ Lookup.ofValue field x' = .ok (kind.lookup value')

/-- Values of a field that differ in one scalar, at any depth of lists. -/
inductive Json.ValueSwap (field : String) (kind : PatternKind) (value value' : String) : Json → Json → Prop
  | scalar {x x' : Json} (h : x.Retyped field kind value value' x') : ValueSwap field kind value value' x x'
  | list (before after : List Json) {x x' : Json} (h : ValueSwap field kind value value' x x') :
    ValueSwap field kind value value' (.list (before ++ x :: after)) (.list (before ++ x' :: after))

/-- Nodes that differ in one scalar of a field, at any depth of lists and operations. -/
inductive Json.NodeSwap (field : String) (kind : PatternKind) (value value' : String) : Json → Json → Prop
  | item (before after : List Json) {node node' : Json} (h : NodeSwap field kind value value' node node') :
    NodeSwap field kind value value' (.list (before ++ node :: after)) (.list (before ++ node' :: after))
  | field (before after : List (String × Json)) {x x' : Json} (hfield : Operation.ofKey? field = none)
    (h : x.ValueSwap field kind value value' x') :
    NodeSwap field kind value value' (.object (before ++ (field, x) :: after))
      (.object (before ++ (field, x') :: after))
  | operation (before after : List (String × Json)) {key : String} {node node' : Json}
    (hkey : (Operation.ofKey? key).isSome = true) (h : NodeSwap field kind value value' node node') :
    NodeSwap field kind value value' (.object (before ++ (key, node) :: after))
      (.object (before ++ (key, node') :: after))

/-- Expressions that differ in the value of one term. -/
inductive Expression.Swap (field : String) (kind : PatternKind) (value value' : String) :
    Expression → Expression → Prop
  | term {x x' : Json} (h : x.Retyped field kind value value' x') :
    Swap field kind value value' (.term field x) (.term field x')
  | node (operation : Operation) (before after : List Expression) {e e' : Expression}
    (h : Swap field kind value value' e e') :
    Swap field kind value value' (.node operation (before ++ e :: after))
      (.node operation (before ++ e' :: after))

theorem Expression.Swap.of_children {es es' : List Expression}
    (h : OneApart (Swap field kind value value') es es')
    (operation : Operation) : Swap field kind value value' (.node operation es) (.node operation es') := by
  obtain ⟨before, e, e', after, rfl, rfl, hswap⟩ := OneApart.iff_exists.mp h
  exact .node operation before after hswap

/-! ## Reading -/

/-- A value that asks for a pattern is a scalar. -/
theorem Json.scalars_of_ofValue {x : Json} {lookup : Lookup} (h : Lookup.ofValue field x = .ok lookup) :
    x.scalars = [x] := by
  cases x with
  | list items => cases h
  | null | bool _ | number _ | text _ | object _ => rfl

theorem Json.ValueSwap.scalars {x x' : Json} (h : x.ValueSwap field kind value value' x') :
    OneApart (Json.Retyped field kind value value') x.scalars x'.scalars := by
  induction h with
  | scalar h =>
    rw [Json.scalars_of_ofValue h.1, Json.scalars_of_ofValue h.2]
    exact .single h
  | list before after h ih =>
    rw [Json.scalars, Json.scalars, Json.scalarsOfItems_eq_flatMap, Json.scalarsOfItems_eq_flatMap,
      List.flatMap_append, List.flatMap_append, List.flatMap_cons, List.flatMap_cons]
    exact (ih.append_right _).append_left _

theorem Json.ValueSwap.terms {x x' : Json} (h : x.ValueSwap field kind value value' x') :
    OneApart (Expression.Swap field kind value value') (Expression.terms field x)
      (Expression.terms field x') := by
  rw [Expression.terms_eq_map, Expression.terms_eq_map]
  exact h.scalars.map fun _ _ => .term

/-- A member whose key is a field. -/
theorem Json.ValueSwap.childrenOfMember {x x' : Json} (h : x.ValueSwap field kind value value' x')
    (hfield : Operation.ofKey? field = none) {es : List Expression}
    (hes : Expression.childrenOfMember (field, x) = .ok es) :
    ∃ es', Expression.childrenOfMember (field, x') = .ok es'
      ∧ OneApart (Expression.Swap field kind value value') es es' := by
  rw [Expression.childrenOfMember, hfield] at hes ⊢
  cases hes
  exact ⟨_, rfl, h.terms⟩

/-- A member whose key is an operation. -/
theorem Expression.childrenOfMember_operation {key : String} {node node' : Json}
    (hkey : (Operation.ofKey? key).isSome = true)
    (hnode : ∀ {es}, children node = .ok es →
      ∃ es', children node' = .ok es' ∧ OneApart (Swap field kind value value') es es')
    {es : List Expression} (hes : childrenOfMember (key, node) = .ok es) :
    ∃ es', childrenOfMember (key, node') = .ok es' ∧ OneApart (Swap field kind value value') es es' := by
  obtain ⟨operation, hoperation⟩ := Option.isSome_iff_exists.mp hkey
  rw [childrenOfMember, hoperation] at hes ⊢
  obtain ⟨inner, hinner, hes⟩ := bind_eq_ok hes
  cases hes
  obtain ⟨inner', hinner', happart⟩ := hnode hinner
  exact ⟨_, by dsimp only; rw [hinner', ok_bind], .single (.of_children happart operation)⟩

/-- By induction on where the value stands: what is read from a node differs in the term of the value. -/
theorem Json.NodeSwap.children {node node' : Json} (h : node.NodeSwap field kind value value' node')
    {es : List Expression} (hes : Expression.children node = .ok es) :
    ∃ es', Expression.children node' = .ok es' ∧ OneApart (Expression.Swap field kind value value') es es' := by
  induction h generalizing es with
  | item before after h ih =>
    rw [Expression.children, Expression.childrenOfItems_eq_gather] at hes ⊢
    exact OneApart.gather_place before after ih hes
  | field before after hfield h =>
    rw [Expression.children, Expression.childrenOfMembers_eq_gather] at hes ⊢
    exact OneApart.gather_place before after (h.childrenOfMember hfield) hes
  | operation before after hkey h ih =>
    rw [Expression.children, Expression.childrenOfMembers_eq_gather] at hes ⊢
    exact OneApart.gather_place before after (Expression.childrenOfMember_operation hkey ih) hes

/-! ## Folding -/

/-- Values that ask for patterns of one kind make predicates that differ in the value. -/
theorem Json.Retyped.ofTerm {x x' : Json} (h : x.Retyped field kind value value' x') {p : Predicate}
    (hp : Predicate.ofTerm field x = .ok p) :
    ∃ p', Predicate.ofTerm field x' = .ok p' ∧ p.Swap field kind value value' p' := by
  rw [Predicate.ofTerm, h.1, ok_bind] at hp
  cases hp
  exact ⟨_, by rw [Predicate.ofTerm, h.2, ok_bind], .field⟩

/-- An operation combines predicates that differ in one value to ones that do. -/
theorem Expression.swap_combine {ps ps' : List Predicate}
    (h : OneApart (Predicate.Swap field kind value value') ps ps') (operation : Operation) :
    ∃ p p', combine operation ps = some p ∧ combine operation ps' = some p'
      ∧ p.Swap field kind value value' p' := by
  cases operation with
  | and => exact Predicate.Swap.joinAll? .all h
  | or => exact Predicate.Swap.joinAll? .any h
  | not =>
    obtain ⟨p, p', hp, hp', hswap⟩ := Predicate.Swap.joinAll? .any h
    exact ⟨_, _, congrArg (Option.map Predicate.negate) hp, congrArg (Option.map Predicate.negate) hp',
      hswap.negate⟩

/-- By induction on where the term stands: expressions that differ in a value become predicates that do. -/
theorem Expression.Swap.toPredicate {e e' : Expression} (h : Swap field kind value value' e e')
    {p : Predicate} (hp : e.toPredicate = .ok p) :
    ∃ p', e'.toPredicate = .ok p' ∧ p.Swap field kind value value' p' := by
  induction h generalizing p with
  | term h =>
    rw [Expression.toPredicate] at hp ⊢
    exact h.ofTerm hp
  | @node operation before after e e' h ih =>
    obtain ⟨_, ps, hps, hp⟩ := toPredicate_node_eq_ok hp
    rw [toPredicates_eq_mapM] at hps
    obtain ⟨ps', hps', hswap⟩ := OneApart.mapM_place before after ih hps
    obtain ⟨first, others, hchildren⟩ := List.exists_cons_of_ne_nil (OneApart.place before after e e').ne_nil.2
    obtain ⟨q, p', hq, hp', hsame⟩ := swap_combine hswap operation
    cases hq.symm.trans hp
    refine ⟨p', ?_, hsame⟩
    rw [hchildren] at hps' ⊢
    simp only [Expression.toPredicate, toPredicates_eq_mapM, hps', ok_bind, hp']

end SchemaSearch
