import SchemaSearch.Proofs.Search.Causes
import SchemaSearch.Proofs.Search.Trees

/-!
# Why an operator search is refused

An operator search fails in two ways.  It is wrong as a whole: a scalar stands in the place of a node, an
operation has no child, an advanced search does not have one outer operation or has an element that is no
JSON text.  Or one of its terms is wrong: its value has no lookup, or its field does not compile.  The first
is told as it is; the second is wrapped, once, around the error that the term raises by itself.  What is read
first is told first: trees before the lookups of terms, lookups before fields, and terms from left to right.

Main statement: every operator search has a result, a fault of its own, or the error of its first term that
has one (`searchOperator_outcome`).
-/

namespace SchemaSearch

open Query Schema

/-- Two lists that are read alike, item by item, have the same first error. -/
theorem FirstError.of_forall₂ {ε α β γ : Type} {R : α → β → Prop} {read : α → Except ε γ}
    {read' : β → Except ε γ} (hsame : ∀ a b, R a b → read a = read' b) {as : List α} {bs : List β} {e : ε}
    (h : List.Forall₂ R as bs) (hfirst : FirstError read as e) : FirstError read' bs e := by
  induction h with
  | nil => cases hfirst
  | cons hab _ ih =>
    cases hfirst with
    | here herror => exact .here (by rw [← hsame _ _ hab, herror])
    | later hok hrest => exact .later (by rw [← hsame _ _ hab, hok]) (ih hrest)

/-! ## Faults of trees -/

namespace Json

/-- What is wrong with a tree as a whole: a scalar in the place of a node, or an operation that no
expression stands below. -/
inductive HasFault : Json → OperatorFault → Prop
  | scalar {node : Json} (hlist : ∀ items, node ≠ .list items) (hobject : ∀ members, node ≠ .object members) :
    HasFault node (.scalarNode node)
  | childless {members : List (String × Json)} {operation : Operation} {value : Json}
      (hmem : (operation.key, value) ∈ members) (hvalue : value.childless = true) :
    HasFault (.object members) (.noTerms operation.key)
  | item {items : List Json} {item : Json} {fault : OperatorFault} (hmem : item ∈ items)
      (hfault : item.HasFault fault) : HasFault (.list items) fault
  | member {members : List (String × Json)} {operation : Operation} {value : Json} {fault : OperatorFault}
      (hmem : (operation.key, value) ∈ members) (hfault : value.HasFault fault) :
    HasFault (.object members) fault

/-- What is wrong with a member of an object: it is an operation without a child, or with a fault below. -/
def MemberHasFault (member : String × Json) (fault : OperatorFault) : Prop :=
  ∃ operation : Operation, member.1 = operation.key
    ∧ (member.2.childless = true ∧ fault = .noTerms operation.key ∨ member.2.HasFault fault)

theorem HasFault.of_member {members : List (String × Json)} {member : String × Json} {fault : OperatorFault}
    (hmem : member ∈ members) (h : MemberHasFault member fault) : (Json.object members).HasFault fault := by
  obtain ⟨key, value⟩ := member
  obtain ⟨operation, rfl, ⟨hvalue, rfl⟩ | hfault⟩ := h
  · exact .childless hmem hvalue
  · exact .member hmem hfault

end Json

namespace Expression

mutual

/-- A tree that is not read has a scalar in the place of a node. -/
theorem hasFault_of_children : ∀ (node : Json) {error : SearchError}, children node = .error error →
    ∃ fault, error = .operator fault ∧ node.HasFault fault
  | .list items, error, h => by
    obtain ⟨fault, rfl, item, hmem, hfault⟩ := hasFault_of_childrenOfItems items h
    exact ⟨fault, rfl, .item hmem hfault⟩
  | .object members, error, h => by
    obtain ⟨fault, rfl, member, hmem, hfault⟩ := hasFault_of_childrenOfMembers members h
    exact ⟨fault, rfl, .of_member hmem hfault⟩
  | .null, _, h | .bool _, _, h | .number _, _, h | .text _, _, h => by
    cases h
    exact ⟨_, rfl, .scalar (by simp) (by simp)⟩

theorem hasFault_of_childrenOfItems : ∀ (items : List Json) {error : SearchError},
    childrenOfItems items = .error error → ∃ fault, error = .operator fault ∧ ∃ item ∈ items, item.HasFault fault
  | [], _, h => by cases h
  | item :: items, error, h => by
    rw [childrenOfItems] at h
    rcases bind_eq_error h with h | ⟨first, _, h⟩
    · obtain ⟨fault, rfl, hfault⟩ := hasFault_of_children item h
      exact ⟨fault, rfl, item, List.mem_cons_self, hfault⟩
    · rcases bind_eq_error h with h | ⟨rest, _, h⟩
      · obtain ⟨fault, rfl, other, hmem, hfault⟩ := hasFault_of_childrenOfItems items h
        exact ⟨fault, rfl, other, List.mem_cons_of_mem item hmem, hfault⟩
      · cases h

theorem hasFault_of_childrenOfMembers : ∀ (members : List (String × Json)) {error : SearchError},
    childrenOfMembers members = .error error →
      ∃ fault, error = .operator fault ∧ ∃ member ∈ members, Json.MemberHasFault member fault
  | [], _, h => by cases h
  | member :: members, error, h => by
    rw [childrenOfMembers] at h
    rcases bind_eq_error h with h | ⟨first, _, h⟩
    · obtain ⟨fault, rfl, hfault⟩ := hasFault_of_childrenOfMember member h
      exact ⟨fault, rfl, member, List.mem_cons_self, hfault⟩
    · rcases bind_eq_error h with h | ⟨rest, _, h⟩
      · obtain ⟨fault, rfl, other, hmem, hfault⟩ := hasFault_of_childrenOfMembers members h
        exact ⟨fault, rfl, other, List.mem_cons_of_mem member hmem, hfault⟩
      · cases h

theorem hasFault_of_childrenOfMember : ∀ (member : String × Json) {error : SearchError},
    childrenOfMember member = .error error → ∃ fault, error = .operator fault ∧ Json.MemberHasFault member fault
  | (key, value), error, h => by
    rw [childrenOfMember] at h
    cases hkey : Operation.ofKey? key with
    | none =>
      rw [hkey] at h
      cases h
    | some operation =>
      rw [hkey] at h
      rcases bind_eq_error h with h | ⟨inner, _, h⟩
      · obtain ⟨fault, rfl, hfault⟩ := hasFault_of_children value h
        exact ⟨fault, rfl, operation, Operation.key_of_ofKey? hkey, .inr hfault⟩
      · cases h

end

/-- Whether an operation of an expression has no child. -/
inductive Lacks (operation : Operation) : Expression → Prop
  | here : Lacks operation (.node operation [])
  | inside {outer : Operation} {children : List Expression} {e : Expression} (hmem : e ∈ children)
      (h : e.Lacks operation) : Lacks operation (.node outer children)

section Lacking

variable {operation : Operation}

mutual

/-- An operation without a child is one of the tree that was read. -/
theorem hasFault_of_lacks : ∀ (node : Json) {es : List Expression} {e : Expression}, children node = .ok es →
    e ∈ es → e.Lacks operation → node.HasFault (.noTerms operation.key)
  | .list items, es, e, h, he, hlacks => by
    obtain ⟨item, hmem, hfault⟩ := hasFault_of_lacksOfItems items h he hlacks
    exact .item hmem hfault
  | .object members, es, e, h, he, hlacks => by
    obtain ⟨member, hmem, hfault⟩ := hasFault_of_lacksOfMembers members h he hlacks
    exact .of_member hmem hfault
  | .null, _, _, h, _, _ | .bool _, _, _, h, _, _ | .number _, _, _, h, _, _ | .text _, _, _, h, _, _ => by cases h

theorem hasFault_of_lacksOfItems : ∀ (items : List Json) {es : List Expression} {e : Expression},
    childrenOfItems items = .ok es → e ∈ es → e.Lacks operation →
      ∃ item ∈ items, item.HasFault (.noTerms operation.key)
  | [], _, _, h, he, _ => by
    cases h
    cases he
  | item :: items, es, e, h, he, hlacks => by
    rw [childrenOfItems] at h
    obtain ⟨first, hfirst, h⟩ := bind_eq_ok h
    obtain ⟨rest, hrest, h⟩ := bind_eq_ok h
    cases h
    rcases List.mem_append.mp he with he | he
    · exact ⟨item, List.mem_cons_self, hasFault_of_lacks item hfirst he hlacks⟩
    · obtain ⟨other, hmem, hfault⟩ := hasFault_of_lacksOfItems items hrest he hlacks
      exact ⟨other, List.mem_cons_of_mem item hmem, hfault⟩

theorem hasFault_of_lacksOfMembers : ∀ (members : List (String × Json)) {es : List Expression} {e : Expression},
    childrenOfMembers members = .ok es → e ∈ es → e.Lacks operation →
      ∃ member ∈ members, Json.MemberHasFault member (.noTerms operation.key)
  | [], _, _, h, he, _ => by
    cases h
    cases he
  | member :: members, es, e, h, he, hlacks => by
    rw [childrenOfMembers] at h
    obtain ⟨first, hfirst, h⟩ := bind_eq_ok h
    obtain ⟨rest, hrest, h⟩ := bind_eq_ok h
    cases h
    rcases List.mem_append.mp he with he | he
    · exact ⟨member, List.mem_cons_self, hasFault_of_lacksOfMember member hfirst he hlacks⟩
    · obtain ⟨other, hmem, hfault⟩ := hasFault_of_lacksOfMembers members hrest he hlacks
      exact ⟨other, List.mem_cons_of_mem member hmem, hfault⟩

theorem hasFault_of_lacksOfMember : ∀ (member : String × Json) {es : List Expression} {e : Expression},
    childrenOfMember member = .ok es → e ∈ es → e.Lacks operation →
      Json.MemberHasFault member (.noTerms operation.key)
  | (key, value), es, e, h, he, hlacks => by
    rw [childrenOfMember] at h
    cases hkey : Operation.ofKey? key with
    | none =>
      rw [hkey] at h
      cases h
      rw [terms_eq_map, List.mem_map] at he
      obtain ⟨scalar, _, rfl⟩ := he
      cases hlacks
    | some outer =>
      rw [hkey] at h
      obtain ⟨inner, hinner, h⟩ := bind_eq_ok h
      cases h
      cases List.mem_singleton.mp he
      cases hlacks with
      | here =>
        have hchildless : value.childless = true := (isEmpty_children value hinner).symm
        exact ⟨operation, Operation.key_of_ofKey? hkey, .inl ⟨hchildless, rfl⟩⟩
      | inside hmem hlacks =>
        exact ⟨outer, Operation.key_of_ofKey? hkey, .inr (hasFault_of_lacks value hinner hmem hlacks)⟩

end

end Lacking

end Expression

/-! ## Terms -/

/-- The lookup of a term. -/
def lookupOf (term : String × Json) : Except SearchError Lookup := Lookup.ofValue term.1 term.2

namespace Expression

/-- What has a predicate has a lookup for each of its terms. -/
theorem exists_lookup_of_toPredicate {e : Expression} {p : Predicate} (h : e.toPredicate = .ok p) :
    ∀ term ∈ e.fields, ∃ lookup, lookupOf term = .ok lookup := by
  have hmade := isOk_toPredicate e
  rw [isOk_iff.mpr ⟨p, h⟩] at hmade
  obtain ⟨_, hterms⟩ := (Bool.and_eq_true _ _).mp hmade.symm
  exact fun term hterm => isOk_iff.mp (List.all_eq_true.mp hterms term hterm)

mutual

/-- An expression has no predicate because of an operation without a child, or of its first term without a
lookup. -/
theorem fault_of_toPredicate : ∀ (e : Expression) {error : SearchError}, e.toPredicate = .error error →
    (∃ operation, e.Lacks operation ∧ error = .operator (.noTerms operation.key))
      ∨ FirstError lookupOf e.fields error
  | .term field value, error, h => by
    rcases bind_eq_error h with h | ⟨lookup, _, h⟩
    · exact .inr (.here h)
    · cases h
  | .node operation [], error, h => by
    cases h
    exact .inl ⟨operation, .here, rfl⟩
  | .node operation (e :: es), error, h => by
    rw [toPredicate.eq_3 _ _ (List.cons_ne_nil e es)] at h
    rcases bind_eq_error h with h | ⟨ps, hps, h⟩
    · rcases fault_of_toPredicates (e :: es) h with ⟨e', hmem, inner, hlacks, rfl⟩ | hfirst
      · exact .inl ⟨inner, .inside hmem hlacks, rfl⟩
      · exact .inr hfirst
    · -- where every child has a predicate there is one to fold
      obtain ⟨p, rest, rfl⟩ : ∃ p rest, ps = p :: rest := by
        rw [toPredicates] at hps
        obtain ⟨p, _, hps⟩ := bind_eq_ok hps
        obtain ⟨rest, _, hps⟩ := bind_eq_ok hps
        cases hps
        exact ⟨p, rest, rfl⟩
      obtain ⟨folded, hfolded⟩ := exists_combine operation p rest
      rw [hfolded] at h
      cases h

theorem fault_of_toPredicates : ∀ (es : List Expression) {error : SearchError}, toPredicates es = .error error →
    (∃ e ∈ es, ∃ operation, e.Lacks operation ∧ error = .operator (.noTerms operation.key))
      ∨ FirstError lookupOf (fieldsOf es) error
  | [], _, h => by cases h
  | e :: es, error, h => by
    rw [toPredicates] at h
    rcases bind_eq_error h with h | ⟨p, hp, h⟩
    · rcases fault_of_toPredicate e h with hlacks | hfirst
      · exact .inl ⟨e, List.mem_cons_self, hlacks⟩
      · exact .inr (hfirst.append_left _)
    · rcases bind_eq_error h with h | ⟨ps, _, h⟩
      · rcases fault_of_toPredicates es h with ⟨e', hmem, hlacks⟩ | hfirst
        · exact .inl ⟨e', List.mem_cons_of_mem e hmem, hlacks⟩
        · exact .inr (hfirst.append_right (exists_lookup_of_toPredicate hp))
      · cases h

end

end Expression

/-! ## Fields -/

namespace Predicate

variable {r : Registry} {root : String}

/-- What becomes a condition has one for each of its fields. -/
theorem exists_condition_of_compile {p : Predicate} {c : Condition} (h : p.compile r root = .ok c) :
    ∀ leaf ∈ p.leaves, ∃ c, (field leaf.1 leaf.2).compile r root = .ok c := by
  have hmade : p.compiles r root = p.leaves.all fun leaf => (field leaf.1 leaf.2).compiles r root :=
    compiles_eq_all p
  rw [compiles, isOk_iff.mpr ⟨c, h⟩] at hmade
  exact fun leaf hleaf => isOk_iff.mp (List.all_eq_true.mp hmade.symm leaf hleaf)

mutual

/-- A predicate does not become a condition because of its first field that does not. -/
theorem firstError_of_compile : ∀ (p : Predicate) {error : SearchError}, p.compile r root = .error error →
    FirstError (fun leaf => (field leaf.1 leaf.2).compile r root) p.leaves error
  | .field path lookup, error, h => .here h
  | .and ps, error, h | .or ps, error, h => by
    rw [compile] at h
    rcases bind_eq_error h with h | ⟨cs, _, h⟩
    · exact firstError_of_compileAll ps h
    · cases h
  | .not inner, error, h => by
    rw [compile] at h
    rcases bind_eq_error h with h | ⟨c, _, h⟩
    · exact firstError_of_compile inner h
    · cases h

theorem firstError_of_compileAll : ∀ (ps : List Predicate) {error : SearchError},
    compileAll r root ps = .error error →
      FirstError (fun leaf => (field leaf.1 leaf.2).compile r root) (leavesOf ps) error
  | [], _, h => by cases h
  | p :: ps, error, h => by
    rw [compileAll] at h
    rcases bind_eq_error h with h | ⟨c, hc, h⟩
    · exact (firstError_of_compile p h).append_left _
    · rcases bind_eq_error h with h | ⟨cs, _, h⟩
      · exact (firstError_of_compileAll ps h).append_right (exists_condition_of_compile hc)
      · cases h

end

end Predicate

/-- A scope is not narrowed by what does not compile. -/
theorem Scope.filter_eq_error {s : Scope} {p : Predicate} {error : SearchError} (h : s.filter p = .error error) :
    p.compile s.registry s.root.name = .error error := by
  rcases bind_eq_error h with h | ⟨c, _, h⟩
  · exact h
  · cases h

/-- The condition of a term on the rows of a scope. -/
def Scope.compileTerm (s : Scope) (term : String × Json) : Except SearchError Condition := do
  let lookup ← lookupOf term
  (Predicate.field term.1 lookup).compile s.registry s.root.name

/-- The predicate of an expression does not compile because of the first term that does not. -/
theorem Expression.firstError_of_compile {s : Scope} {e : Expression} {p : Predicate} {error : SearchError}
    (hp : e.toPredicate = .ok p) (h : p.compile s.registry s.root.name = .error error) :
    FirstError s.compileTerm e.fields error := by
  have hreadings : List.Forall₂ (fun leaf term => asReading leaf = reading term) p.leaves e.fields := by
    rw [← List.forall₂_map_left_iff (R := fun leaf term => leaf = reading term),
      ← List.forall₂_map_right_iff (R := Eq), leaves_toPredicate e hp]
    exact List.forall₂_refl _
  refine (Predicate.firstError_of_compile p h).of_forall₂ (fun leaf term hsame => ?_) hreadings
  obtain ⟨hfield, hlookup⟩ := Prod.mk.inj hsame
  have hterm : lookupOf term = .ok leaf.2 := by
    unfold lookupOf
    cases hvalue : Lookup.ofValue term.1 term.2 with
    | error error =>
      rw [hvalue] at hlookup
      cases hlookup
    | ok lookup =>
      rw [hvalue] at hlookup
      rw [Option.some.inj hlookup]
  rw [Scope.compileTerm, hterm, ok_bind, hfield]

/-! ## Operators -/

namespace Operator

/-- The tree that an operator reads, under its outer operation: all parameters as one node, or the elements of
an advanced search. -/
inductive Reads (p : Params) : Operator → Operation → Json → Prop
  | and : Reads p .and .and (nodeOf p)
  | or : Reads p .or .or (nodeOf p)
  | not : Reads p .not .not (nodeOf p)
  | advanced {operation : Operation} {nodes : List Json} (houter : p.keys.filter isOuter = [operation.key])
      (hnodes : List.Forall₂ Json.Gives (p.getAll operation.key) nodes) :
    Reads p .advanced operation (.list nodes)

/-- What is wrong with an operator search as a whole: its tree has a fault, nothing stands below the outer
operation, there is not exactly one outer operation, or an element is a text that is no JSON. -/
inductive HasFault (p : Params) : Operator → OperatorFault → Prop
  | tree {operator : Operator} {operation : Operation} {tree : Json} {fault : OperatorFault}
      (hreads : Reads p operator operation tree) (hfault : tree.HasFault fault) : HasFault p operator fault
  | childless {operator : Operator} {operation : Operation} {tree : Json}
      (hreads : Reads p operator operation tree) (htree : tree.childless = true) :
    HasFault p operator (.noTerms operation.key)
  | noOuter (houter : p.keys.filter isOuter = []) : HasFault p .advanced .noOuterOperation
  | manyOuter (houter : 1 < (p.keys.filter isOuter).length) :
    HasFault p .advanced (.manyOuterOperations (p.keys.filter isOuter))
  | undecodable {operation : Operation} {s : String} {reason : Json.Fault}
      (houter : p.keys.filter isOuter = [operation.key]) (hmem : .text s ∈ p.getAll operation.key)
      (hparse : Json.parse s.toList = .error reason) :
    HasFault p .advanced (.undecodable s (reason.message s.toList))

end Operator

/-- The error that a term of an operator search raises by itself: the lookup of its value, or the text of a
member, of the first term that has none; and if there is none, the condition of the first field that has
none. -/
inductive Scope.HasTermError (s : Scope) (p : Params) : Operator → SearchError → Prop
  | lookup {operator : Operator} {operation : Operation} {tree : Json} {error : SearchError}
      (hreads : operator.Reads p operation tree) (hfirst : FirstError lookupOf tree.fieldTerms error) :
    s.HasTermError p operator error
  | condition {operator : Operator} {operation : Operation} {tree : Json} {error : SearchError}
      (hreads : operator.Reads p operation tree)
      (hlookups : ∀ term ∈ tree.fieldTerms, ∃ lookup, lookupOf term = .ok lookup)
      (hfirst : FirstError s.compileTerm tree.fieldTerms error) : s.HasTermError p operator error
  | member {field : String} {values : List Json} {rest : List (String × List Json)} {error : SearchError}
      (hentry : p.entries = (field, values) :: rest)
      (hfirst : FirstError (Operator.memberText field) values error) : s.HasTermError p .oneOf error
  | members {field : String} {values : List Json} {rest : List (String × List Json)} {texts : List String}
      {error : SearchError} (hentry : p.entries = (field, values) :: rest)
      (htexts : values.mapM (Operator.memberText field) = .ok texts)
      (hcompile : (Predicate.field field (.oneOf (Operator.splitMembers texts))).compile s.registry s.root.name
        = .error error) : s.HasTermError p .oneOf error

namespace Operator

variable {s : Scope} {p : Params}

/-- Why a tree that is read under an operation has no predicate, or none that compiles. -/
theorem outcome_of_reads {operator : Operator} {operation : Operation} {tree : Json} {error : SearchError}
    (hreads : operator.Reads p operation tree)
    (h : (((Expression.children tree >>= fun es => .ok (Expression.node operation es))
      >>= fun e => e.toPredicate) >>= s.filter) = .error error) :
    (∃ fault, error = .operator fault ∧ HasFault p operator fault) ∨ s.HasTermError p operator error := by
  rcases bind_eq_error h with h | ⟨predicate, hpredicate, h⟩
  · rcases bind_eq_error h with h | ⟨e, he, h⟩
    · rcases bind_eq_error h with h | ⟨es, _, h⟩
      · obtain ⟨fault, rfl, hfault⟩ := Expression.hasFault_of_children tree h
        exact .inl ⟨fault, rfl, .tree hreads hfault⟩
      · cases h
    · obtain ⟨es, hes, he⟩ := bind_eq_ok he
      cases he
      rcases Expression.fault_of_toPredicate _ h with ⟨inner, hlacks, rfl⟩ | hfirst
      · refine .inl ⟨_, rfl, ?_⟩
        cases hlacks with
        | here => exact .childless hreads (Expression.isEmpty_children tree hes).symm
        | inside hmem hlacks => exact .tree hreads (Expression.hasFault_of_lacks tree hes hmem hlacks)
      · rw [Expression.fields, Expression.fieldsOf_children tree hes] at hfirst
        exact .inr (.lookup hreads hfirst)
  · obtain ⟨e, he, hp⟩ := bind_eq_ok hpredicate
    obtain ⟨es, hes, he⟩ := bind_eq_ok he
    cases he
    have hlookups := Expression.exists_lookup_of_toPredicate hp
    have hfirst := Expression.firstError_of_compile hp (Scope.filter_eq_error h)
    rw [Expression.fields, Expression.fieldsOf_children tree hes] at hlookups hfirst
    exact .inr (.condition hreads hlookups hfirst)

/-- A predicate that is made of an expression narrows a scope as the expression does. -/
theorem bind_filter? (s : Scope) (expression : Except SearchError Expression) :
    ((do (← expression).toPredicate.map some) >>= s.filter?)
      = ((expression >>= fun e => e.toPredicate) >>= s.filter) := by
  cases expression with
  | error error => rfl
  | ok e =>
    rw [ok_bind, ok_bind]
    cases e.toPredicate <;> rfl

/-! ### Elements of an advanced search -/

theorem decodeElement_eq_ok {element node : Json} (h : decodeElement element = .ok node) :
    element.Gives node := by
  unfold decodeElement at h
  split at h
  · split at h
    · rename_i hparse
      cases h
      exact .text hparse
    · cases h
  · rename_i hnot
    cases h
    exact .itself fun s hs => hnot s hs

theorem decodeElement_eq_error {element : Json} {error : SearchError} (h : decodeElement element = .error error) :
    ∃ s reason, element = .text s ∧ Json.parse s.toList = .error reason
      ∧ error = .operator (.undecodable s (reason.message s.toList)) := by
  unfold decodeElement at h
  split at h
  · split at h
    · cases h
    · rename_i s _ reason hparse
      cases h
      exact ⟨s, reason, rfl, hparse, rfl⟩
  · cases h

theorem gives_of_mapM_decodeElement : ∀ {elements nodes : List Json}, elements.mapM decodeElement = .ok nodes →
    List.Forall₂ Json.Gives elements nodes
  | [], nodes, h => by
    rw [List.mapM_nil] at h
    cases h
    exact .nil
  | element :: elements, nodes, h => by
    obtain ⟨node, rest, hnode, hrest, rfl⟩ := mapM_cons_eq_ok h
    exact .cons (decodeElement_eq_ok hnode) (gives_of_mapM_decodeElement hrest)

/-- An advanced search reads a tree, or has a fault of its own. -/
theorem advancedExpression_cases (p : Params) :
    (∃ fault, advancedExpression p = .error (.operator fault) ∧ HasFault p .advanced fault)
      ∨ ∃ operation tree, Reads p .advanced operation tree
        ∧ advancedExpression p = Expression.children tree >>= fun es => .ok (.node operation es) := by
  cases houter : p.keys.filter isOuter with
  | nil =>
    refine .inl ⟨.noOuterOperation, ?_, .noOuter houter⟩
    unfold isOuter at houter
    rw [advancedExpression, houter]
  | cons key others =>
    cases others with
    | cons second others =>
      refine .inl ⟨.manyOuterOperations (p.keys.filter isOuter), ?_, .manyOuter (by rw [houter]; simp)⟩
      unfold isOuter at houter ⊢
      rw [advancedExpression, houter]
    | nil =>
      obtain ⟨operation, hoperation⟩ : ∃ operation : Operation, key = operation.key := by
        have hkey : key ∈ p.keys.filter isOuter := houter ▸ List.mem_singleton_self key
        obtain ⟨operation, hoperation⟩ := Option.isSome_iff_exists.mp (List.mem_filter.mp hkey).2
        exact ⟨operation, Operation.key_of_ofKey? hoperation⟩
      subst hoperation
      cases hnodes : (p.getAll operation.key).mapM decodeElement with
      | ok nodes =>
        have hgives := gives_of_mapM_decodeElement hnodes
        exact .inr ⟨operation, .list nodes, .advanced houter hgives, advancedExpression_eq houter hgives⟩
      | error error =>
        obtain ⟨element, hmem, herror⟩ := (FirstError.of_mapM hnodes).exists_mem
        obtain ⟨s, reason, rfl, hparse, rfl⟩ := decodeElement_eq_error herror
        refine .inl ⟨_, ?_, .undecodable houter hmem hparse⟩
        unfold isOuter at houter
        simp only [advancedExpression, houter, hnodes]
        rfl

/-- Why an operator search has no predicate, or none that compiles. -/
theorem outcome_of_error {operator : Operator} {error : SearchError}
    (h : (operator.predicate p >>= s.filter?) = .error error) :
    (∃ fault, error = .operator fault ∧ HasFault p operator fault) ∨ s.HasTermError p operator error := by
  have houter : ∀ operation : Operation, operator.Reads p operation (nodeOf p) →
      ((do (← outerExpression operation p).toPredicate.map some) >>= s.filter?) = .error error →
      (∃ fault, error = .operator fault ∧ HasFault p operator fault) ∨ s.HasTermError p operator error := by
    intro operation hreads h
    rw [bind_filter?] at h
    exact outcome_of_reads hreads h
  cases operator with
  | and => exact houter .and .and h
  | or => exact houter .or .or h
  | not => exact houter .not .not h
  | advanced =>
    rw [predicate, bind_filter?] at h
    rcases advancedExpression_cases p with ⟨fault, hfails, hfault⟩ | ⟨operation, tree, hreads, htree⟩
    · rw [hfails] at h
      cases h
      exact .inl ⟨fault, rfl, hfault⟩
    · rw [htree] at h
      exact outcome_of_reads hreads h
  | oneOf =>
    rw [predicate] at h
    unfold membershipPredicate at h
    split at h
    · cases h
    · rename_i field values rest hentry
      rcases bind_eq_error h with h | ⟨predicate?, hpredicate, h⟩
      · rcases bind_eq_error h with h | ⟨texts, _, h⟩
        · exact .inr (.member hentry (.of_mapM h))
        · cases h
      · obtain ⟨texts, htexts, hpredicate⟩ := bind_eq_ok hpredicate
        cases hpredicate
        exact .inr (.members hentry htexts (Scope.filter_eq_error h))

end Operator

/-! ## Wrapping -/

theorem SearchError.isOperator_of_isOfValue {error : SearchError} (h : error.isOfValue = true) :
    error.isOperator = false := by
  cases error with
  | invalidBoolean _ _ | invalidParameter _ _ => rfl
  | _ => cases h

/-- What is no error of an operator search yet is wrapped in its own words. -/
theorem SearchError.asOperatorError_eq_wrapped {error : SearchError} (h : error.isOperator = false) :
    error.asOperatorError = .wrapped error.message error := by
  cases error with
  | operator _ | wrapped _ _ => cases h
  | _ => rfl

/-- A field fails by its path or by its value. -/
theorem Predicate.isOperator_of_compile {r : Registry} {root path : String} {lookup : Lookup} {error : SearchError}
    (h : (Predicate.field path lookup).compile r root = .error error) : error.isOperator = false := by
  rcases bind_eq_error h with h | ⟨target, _, h⟩
  · unfold Registry.resolve at h
    split at h
    · cases h
      rfl
    · split at h
      · cases h
      · cases h
        rfl
  · exact SearchError.isOperator_of_isOfValue (failsByValue_fieldCondition path target lookup error h)

/-- What a term raises by itself is no error of an operator search. -/
theorem Scope.HasTermError.isOperator {s : Scope} {p : Params} {operator : Operator} {error : SearchError}
    (h : s.HasTermError p operator error) : error.isOperator = false := by
  have hlookup : ∀ term : String × Json, lookupOf term = .error error → error.isOperator = false :=
    fun term hterm => SearchError.isOperator_of_isOfValue (failsByValue_ofValue term.1 term.2 error hterm)
  cases h with
  | lookup _ hfirst =>
    obtain ⟨term, _, hterm⟩ := hfirst.exists_mem
    exact hlookup term hterm
  | condition _ _ hfirst =>
    obtain ⟨term, _, hterm⟩ := hfirst.exists_mem
    rcases bind_eq_error hterm with hterm | ⟨lookup, _, hterm⟩
    · exact hlookup term hterm
    · exact Predicate.isOperator_of_compile hterm
  | member _ hfirst =>
    obtain ⟨value, _, hvalue⟩ := hfirst.exists_mem
    unfold Operator.memberText at hvalue
    split at hvalue
    · cases hvalue
    · cases hvalue
      rfl
  | members _ _ hcompile => exact Predicate.isOperator_of_compile hcompile

/-- An operator search has a result, or a fault of its own, or an error that it wraps.  What is wrapped is no
error of an operator search, is told in its own words, and is the one that a term of the search raises by
itself: of the first term without a lookup, and if they all have one, of the first that does not compile. -/
theorem Scope.searchOperator_outcome (s : Scope) (operator : Operator) (p : Params) (filters : List String) :
    (∃ narrowed, s.searchOperator operator p filters = .ok narrowed)
      ∨ (∃ fault, s.searchOperator operator p filters = .error (.operator fault)
        ∧ operator.HasFault (p.without filters) fault)
      ∨ ∃ message source, s.searchOperator operator p filters = .error (.wrapped message source)
        ∧ source.isOperator = false ∧ message = source.message
        ∧ s.HasTermError (p.without filters) operator source := by
  unfold searchOperator
  dsimp only
  split
  · exact .inl ⟨s, rfl⟩
  · cases houtcome : operator.predicate (p.without filters) >>= s.filter? with
    | ok narrowed => exact .inl ⟨narrowed.restrictToActive, rfl⟩
    | error error =>
      rcases Operator.outcome_of_error houtcome with ⟨fault, rfl, hfault⟩ | hterm
      · exact .inr (.inl ⟨fault, rfl, hfault⟩)
      · have hwrapped := SearchError.asOperatorError_eq_wrapped hterm.isOperator
        exact .inr (.inr ⟨error.message, error, congrArg Except.error hwrapped, hterm.isOperator, rfl, hterm⟩)

end SchemaSearch
