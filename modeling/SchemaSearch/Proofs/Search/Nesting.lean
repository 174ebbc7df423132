import SchemaSearch.Proofs.Json.Brackets
import SchemaSearch.Proofs.Search.Fields
import SchemaSearch.Proofs.Search.Pairs
import SchemaSearch.Service.Sample

/-!
# Terms at any depth

A term may be sent as a parameter of its own, or inside of a tree of lists and of operations with a single
child.  A tree is searched as it is written: its keys are no aliases, and its values are no tokens yet.  So a
term that is nested is written with the path that its key stands for; then it does not matter how deep it
stands, and whether the tree is the only thing that is searched.

Main statement: a nested term selects what the parameter selects (`nested_term_selects`).
-/

namespace SchemaSearch

open Query Schema Store

/-! ## Nested terms -/

/-- One layer around a node: a list, or an operation with a single child. -/
inductive Layer where
  | list | all | any
  deriving DecidableEq, Repr

/-- A node in a layer. -/
def Layer.around : Layer → Json → Json
  | .list, node => .list [node]
  | .all, node => .object [(Operation.and.key, node)]
  | .any, node => .object [(Operation.or.key, node)]

/-- A term inside of some layers, the outermost first. -/
def nested (layers : List Layer) (field : String) (value : Json) : Json :=
  layers.foldr Layer.around (.object [(field, value)])

theorem isScalar_asToken {value : Json} (h : value.isScalar = true) : value.asToken.isScalar = true := by
  unfold Json.asToken
  split
  · rfl
  · rfl
  · exact h

theorem terms_of_isScalar {value : Json} (h : value.isScalar = true) (field : String) :
    Expression.terms field value = [.term field value] := by
  cases value with
  | list items => cases h
  | object members => cases h
  | null => rfl
  | bool b => rfl
  | number n => rfl
  | text s => rfl

theorem toPredicate_single {operation : Operation} (hnot : operation ≠ .not) (e : Expression) :
    (Expression.node operation [e]).toPredicate = e.toPredicate := by
  simp only [Expression.toPredicate, Expression.toPredicates]
  cases e.toPredicate with
  | error error => rfl
  | ok predicate =>
    cases operation with
    | and => rfl
    | or => rfl
    | not => exact absurd rfl hnot

/-- A nested term is read as one expression, whose predicate is that of the term. -/
theorem children_nested {field : String} {value : Json} (hfield : Operation.ofKey? field = none)
    (hscalar : value.isScalar = true) (layers : List Layer) :
    ∃ e, Expression.children (nested layers field value) = .ok [e]
      ∧ e.toPredicate = Predicate.ofTerm field value := by
  induction layers with
  | nil =>
    refine ⟨.term field value, ?_, rfl⟩
    show Expression.childrenOfMembers [(field, value)] = _
    rw [Expression.childrenOfMembers, Expression.childrenOfMember, hfield]
    show Except.ok (Expression.terms field value ++ []) = _
    rw [terms_of_isScalar hscalar, List.append_nil]
  | cons layer layers ih =>
    obtain ⟨e, he, hpredicate⟩ := ih
    cases layer with
    | list =>
      refine ⟨e, ?_, hpredicate⟩
      show Expression.childrenOfItems [nested layers field value] = _
      rw [Expression.childrenOfItems, he]
      rfl
    | all =>
      refine ⟨.node .and [e], ?_, (toPredicate_single (by decide) e).trans hpredicate⟩
      show Expression.childrenOfMembers [(Operation.and.key, nested layers field value)] = _
      rw [Expression.childrenOfMembers, Expression.childrenOfMember, Operation.ofKey?_key, he]
      rfl
    | any =>
      refine ⟨.node .or [e], ?_, (toPredicate_single (by decide) e).trans hpredicate⟩
      show Expression.childrenOfMembers [(Operation.or.key, nested layers field value)] = _
      rw [Expression.childrenOfMembers, Expression.childrenOfMember, Operation.ofKey?_key, he]
      rfl

/-! ## The predicate of one parameter -/

namespace Operator

/-- A parameter that names a field is searched as its term. -/
theorem and_predicate_field {field : String} {value : Json} (hfield : Operation.ofKey? field = none)
    (hscalar : value.isScalar = true) :
    Operator.and.predicate ⟨[(field, [value])]⟩ = some <$> Predicate.ofTerm field value := by
  have hchildren : Expression.children (nodeOf ⟨[(field, [value])]⟩) = .ok [.term field value] := by
    show Expression.childrenOfMembers [(field, .list [value])] = _
    rw [Expression.childrenOfMembers, Expression.childrenOfMember, hfield]
    show Except.ok ((Expression.terms field value ++ []) ++ []) = _
    rw [terms_of_isScalar hscalar]
    rfl
  show (outerExpression .and _ >>= fun e => e.toPredicate.map some) = _
  rw [outerExpression, hchildren, ok_bind, ok_bind, toPredicate_single (by decide)]
  rfl

/-- A parameter that names an operation makes no predicate of a scalar. -/
theorem and_predicate_operation {operation : Operation} {value : Json} (hscalar : value.isScalar = true) :
    Operator.and.predicate ⟨[(operation.key, [value])]⟩
      = some <$> Except.error (.operator (.scalarNode value)) := by
  have hvalue : Expression.children value = .error (.operator (.scalarNode value)) := by
    cases value with
    | list items => cases hscalar
    | object members => cases hscalar
    | null => rfl
    | bool b => rfl
    | number n => rfl
    | text s => rfl
  have hchildren : Expression.children (nodeOf ⟨[(operation.key, [value])]⟩)
      = .error (.operator (.scalarNode value)) := by
    show Expression.childrenOfMembers [(operation.key, .list [value])] = _
    rw [Expression.childrenOfMembers, Expression.childrenOfMember, Operation.ofKey?_key]
    show ((Expression.childrenOfItems [value] >>= _) >>= _) = _
    rw [Expression.childrenOfItems, hvalue]
    rfl
  show (outerExpression .and _ >>= fun e => e.toPredicate.map some) = _
  rw [outerExpression, hchildren]
  rfl

/-- A tree is searched as the one expression it is read as, by an operator or by itself. -/
theorem predicate_tree {tree : Json} {e : Expression} (hchildren : Expression.children tree = .ok [e])
    {operator : Operator} (hoperator : operator = .and ∨ operator = .advanced) :
    operator.predicate ⟨[(Operation.and.key, [tree])]⟩ = some <$> e.toPredicate := by
  have hitems : Expression.children (.list [tree]) = .ok [e] := by
    show Expression.childrenOfItems [tree] = _
    rw [Expression.childrenOfItems, hchildren]
    rfl
  rcases hoperator with rfl | rfl
  · have hnode : Expression.children (nodeOf ⟨[(Operation.and.key, [tree])]⟩) = .ok [.node .and [e]] := by
      show Expression.childrenOfMembers [(Operation.and.key, .list [tree])] = _
      rw [Expression.childrenOfMembers, Expression.childrenOfMember, Operation.ofKey?_key, hitems]
      rfl
    show (outerExpression .and _ >>= fun e => e.toPredicate.map some) = _
    rw [outerExpression, hnode, ok_bind, ok_bind, toPredicate_single (by decide),
      toPredicate_single (by decide)]
    rfl
  · -- only a text is decoded, and a text is read as no expression
    have hdecode : decodeElement tree = .ok tree := by
      cases tree with
      | text s => cases hchildren
      | null => rfl
      | bool b => rfl
      | number n => rfl
      | list items => rfl
      | object members => rfl
    have hread : advancedExpression ⟨[(Operation.and.key, [tree])]⟩ = .ok (.node .and [e]) := by
      show (List.mapM decodeElement [tree] >>= fun elements => _) = _
      rw [List.mapM_cons, hdecode]
      show (Expression.children (.list [tree]) >>= _) = _
      rw [hitems]
      rfl
    show (advancedExpression _ >>= fun e => e.toPredicate.map some) = _
    rw [hread, ok_bind, toPredicate_single (by decide)]
    rfl

end Operator

/-! ## Boolean tokens -/

section Tokens

variable {token : String} {b : Bool}

theorem mem_tokens (h : classifyBoolean token = some b) :
    String.ofList (Text.asciiLower token.toList) ∈ trueTokens ++ falseTokens := by
  unfold classifyBoolean at h
  simp only at h
  split at h
  · rename_i htrue
    exact List.mem_append_left _ (List.contains_iff_mem.mp htrue)
  · split at h
    · rename_i hfalse
      exact List.mem_append_right _ (List.contains_iff_mem.mp hfalse)
    · cases h

theorem utf8ByteSize_le (s : String) : s.utf8ByteSize ≤ 4 * s.toList.length := by
  suffices hchars : ∀ cs : List Char, (String.ofList cs).utf8ByteSize ≤ 4 * cs.length by
    have hs := hchars s.toList
    rwa [String.ofList_toList] at hs
  intro cs
  induction cs with
  | nil => decide
  | cons c cs ih =>
    have hc := Char.utf8Size_le_four c
    rw [String.ofList_cons, String.utf8ByteSize_append, String.utf8ByteSize_singleton, List.length_cons]
    omega

/-- No token is too long for a value. -/
theorem utf8ByteSize_token (h : classifyBoolean token = some b) : token.utf8ByteSize ≤ maxValueBytes := by
  have hshort : ∀ t ∈ trueTokens ++ falseTokens, t.toList.length ≤ 5 := by decide
  have hlength := hshort _ (mem_tokens h)
  rw [String.toList_ofList, Text.asciiLower, List.length_map] at hlength
  have hbytes := utf8ByteSize_le token
  unfold maxValueBytes
  omega

/-- No token has a mark in front, and none stands for NULL. -/
theorem ofText_token (h : classifyBoolean token = some b) : Lookup.ofText token = .startsWith token := by
  have hfolded := mem_tokens h
  have hplain : ∀ t ∈ trueTokens ++ falseTokens, t.toList.head? ≠ some '^' ∧ t.toList.head? ≠ some '$'
      ∧ t.toList ≠ Text.asciiLower "null".toList ∧ t.toList ≠ Text.asciiLower "none".toList := by
    decide
  obtain ⟨hcaret, hdollar, hnull, hnone⟩ := hplain _ hfolded
  rw [String.toList_ofList] at hcaret hdollar hnull hnone
  -- lower case leaves the marks as they are, so the text has none in front either
  unfold Lookup.ofText
  split
  · rename_i rest hrest
    rw [hrest] at hcaret
    exact absurd rfl hcaret
  · rename_i rest hrest
    rw [hrest] at hdollar
    exact absurd rfl hdollar
  · rw [Text.sameIgnoringAsciiCase, Text.sameIgnoringAsciiCase, beq_false_of_ne hnull,
      beq_false_of_ne hnone]
    rfl

/-- A boolean token is looked up as the text that it is. -/
theorem ofValue_token {value : Json} (h : value.scalarText.bind classifyBoolean = some b) (field : String) :
    ∃ token, Lookup.ofValue field value = .ok (.startsWith token) ∧ classifyBoolean token = some b := by
  obtain ⟨token, htext, htoken⟩ := Option.bind_eq_some_iff.mp h
  refine ⟨token, ?_, htoken⟩
  have hshort : ¬ maxValueBytes < token.utf8ByteSize := Nat.not_lt.mpr (utf8ByteSize_token htoken)
  cases value with
  | null => cases htext
  | _ =>
    unfold Lookup.ofValue
    simp only [htext, hshort, if_false, ofText_token htoken]

/-- On a boolean column, all tokens of one truth make one condition. -/
theorem compile_token {r : Registry} {root path other : String} {target : Target}
    (htarget : r.resolve root path = .ok target) (hkind : target.kind = .boolean)
    (htoken : classifyBoolean token = some b) (hother : classifyBoolean other = some b) :
    (Predicate.field path (.startsWith token)).compile r root
      = (Predicate.field path (.startsWith other)).compile r root := by
  -- all that is left of the text on a boolean column is its truth
  have htest : ∀ text, classifyBoolean text = some b → ∀ c : Column,
      leafTest path target.kind c (.startsWith text) = .ok (.equals c (.boolean b)) := by
    intro text htext c
    rw [hkind]
    show (parseBoolean path text >>= fun b => Except.ok (Test.equals c (.boolean b))) = _
    rw [parseBoolean, htext]
    rfl
  have hleaf : ∀ text, classifyBoolean text = some b →
      fieldCondition path target (.startsWith text) = .ok (target.hops.foldr
        (fun hop rows => hop.condition false rows) (.all [.test (.equals ⟨target.table, target.column⟩
          (.boolean b)), .test (.isNotNull ⟨target.table, target.column⟩)])) := by
    intro text htext
    rw [fieldCondition, leafCondition, htest text htext]
    rfl
  simp only [Predicate.compile, htarget, ok_bind, hleaf _ htoken, hleaf _ hother]

end Tokens

/-! ## Searches with one parameter -/

section Searches

variable {r : Registry} {root : String} {e : Entity} {t : Transformer}

theorem coerceBooleans_single {key : String} {value : Json} {names : List String} {coerced : Params}
    (h : Params.coerceBooleans ⟨[(key, [value])]⟩ names = .ok coerced) :
    coerced = ⟨[(key, [if key ∈ names then value.asToken else value])]⟩ := by
  have hkeys := (Params.coerced_coerceBooleans h).keys
  have hvalues : coerced.getAll key = [if key ∈ names then value.asToken else value] := by
    by_cases hkey : key ∈ names
    · rw [Params.getAll_coerceBooleans_of_mem hkey h, Params.getAll_single, if_pos hkey]
      rfl
    · rw [Params.getAll_coerceBooleans hkey h, Params.getAll_single, if_neg hkey]
  have hnodup : coerced.keys.Nodup := by
    rw [hkeys]
    exact List.nodup_cons.mpr ⟨List.not_mem_nil, List.nodup_nil⟩
  have hentries : coerced.entries = [(key, coerced.getAll key)] := by
    rw [Params.entries_eq_map_keys hnodup, hkeys]
    rfl
  rw [hvalues] at hentries
  exact congrArg Params.mk hentries

theorem process_single {key : String} {value coerced : Json}
    (hcoerced : Params.coerceBooleans ⟨[(key, [value])]⟩ t.booleans = .ok ⟨[(key, [coerced])]⟩)
    (horder : t.renames.targetOf key ≠ orderParam) :
    t.process ⟨[(key, [value])]⟩ = .ok ⟨[(t.renames.targetOf key, [coerced])]⟩ := by
  have hexpand : Params.expandOrder ⟨[(t.renames.targetOf key, [coerced])]⟩ t.renames
      = ⟨[(t.renames.targetOf key, [coerced])]⟩ := by
    unfold Params.expandOrder
    rw [Params.getAll_single_of_ne horder]
  show (Params.coerceBooleans ⟨[(key, [value])]⟩ t.booleans >>= _) = _
  rw [hcoerced, ok_bind]
  exact congrArg Except.ok hexpand

/-- A parameter that names a field is all that is left to search. -/
theorem Narrowed.ofParams_single {key : String} {value coerced : Json} (hroot : r.get? root = some e)
    (ht : Transformer.ofRoot r root = .ok t)
    (hcoerced : Params.coerceBooleans ⟨[(key, [value])]⟩ t.booleans = .ok ⟨[(key, [coerced])]⟩)
    (hfield : SearchConfig.standard.namesField (t.renames.targetOf key) = true) :
    Narrowed.ofParams r .standard root ⟨[(key, [value])]⟩
      = .ok ⟨Scope.ofEntity r e, ⟨[(t.renames.targetOf key, [coerced])]⟩, false⟩ := by
  obtain ⟨hfilter, hbound⟩ := SearchConfig.namesField_eq_true.mp hfield
  have hother : ∀ name ∈ SearchConfig.standard.searchFilters, t.renames.targetOf key ≠ name := by
    rintro name hname rfl
    exact hfilter hname
  refine Narrowed.ofParams_plain hroot ht (process_single hcoerced (hother _ (by decide))) ?_ ?_
  · exact Params.getAll_single_of_ne (hother _ (by decide)) _
  · intro name hname
    rw [List.mem_singleton.mp hname]
    exact hbound

/-- The search for the active rows of an entity that fulfil one predicate, in the order and on the page
that hold by default. -/
def Prepared.single (r : Registry) (e : Entity) (predicate : Predicate) (condition : Condition)
    (order : SortOrder) : Prepared :=
  ⟨⟨r, e, [predicate], Condition.always.and condition, true⟩, order,
    ⟨1, max SearchConfig.standard.defaultPageSize 1⟩⟩

/-- One parameter is searched as the predicate that the operator makes of it. -/
theorem Narrowed.finishWith_single_iff {key : String} {value : Json} {operator : Operator} {s : Prepared}
    {made : Except SearchError Predicate} (hroot : r.get? root = some e)
    (hfield : SearchConfig.standard.namesField key = true)
    (hmade : operator.predicate ⟨[(key, [value])]⟩ = some <$> made) :
    Narrowed.finishWith ⟨Scope.ofEntity r e, ⟨[(key, [value])]⟩, false⟩ r .standard root operator = .ok s ↔
      ∃ predicate condition order, made = .ok predicate ∧ predicate.compile r root = .ok condition
        ∧ SortOrder.read SearchConfig.standard.defaultOrder r root = .ok order
        ∧ s = Prepared.single r e predicate condition order := by
  obtain ⟨hfilter, _⟩ := SearchConfig.namesField_eq_true.mp hfield
  have hname := Registry.name_of_get? hroot
  -- the one key is no search filter: it stays to be searched, and neither the order nor the page is sent
  have hremaining : Params.without ⟨[(key, [value])]⟩ SearchConfig.standard.searchFilters
      = ⟨[(key, [value])]⟩ := by
    have hkeep : (!SearchConfig.standard.searchFilters.contains key) = true := by simpa using hfilter
    rw [Params.without_eq, List.filter_cons, hkeep, if_pos rfl, List.filter_nil]
  have hnone : ∀ name ∈ SearchConfig.standard.searchFilters,
      Params.getText? ⟨[(key, [value])]⟩ name = none := by
    intro name hmem
    have hne : key ≠ name := by
      rintro rfl
      exact hfilter hmem
    rw [Params.getText?, Params.get?, Params.getAll_single_of_ne hne]
    rfl
  have horder : Prepared.orderText .standard ⟨[(key, [value])]⟩ = SearchConfig.standard.defaultOrder := by
    rw [Prepared.orderText, hnone orderParam (by decide)]
    rfl
  have hpage : Page.ofParams ⟨[(key, [value])]⟩ SearchConfig.standard.defaultPageSize
      = .ok ⟨1, max SearchConfig.standard.defaultPageSize 1⟩ := by
    rw [Page.ofParams, Page.readKey, Page.readKey, hnone Page.param (by decide),
      hnone Page.sizeParam (by decide)]
    rfl
  have hsearch : ∀ searched, (Scope.ofEntity r e).searchOperator operator ⟨[(key, [value])]⟩
      SearchConfig.standard.searchFilters = .ok searched ↔
        ∃ predicate narrowed, made = .ok predicate
          ∧ (Scope.ofEntity r e).filter predicate = .ok narrowed
          ∧ searched = narrowed.restrictToActive := by
    intro searched
    rw [← hremaining] at hmade
    exact Scope.searchOperator_eq_ok_iff (by rw [hremaining]; rfl) hmade
  unfold Narrowed.finishWith
  rw [horder, hpage]
  constructor
  · intro h
    obtain ⟨searched, hsearched, h⟩ := bind_eq_ok h
    obtain ⟨order, hread, h⟩ := bind_eq_ok h
    cases h
    obtain ⟨predicate, narrowed, hpredicate, hfilter, rfl⟩ := (hsearch searched).mp hsearched
    obtain ⟨condition, hcondition, rfl⟩ := Scope.filter_eq_ok hfilter
    have hcompiled : predicate.compile r root = .ok condition := by
      rw [← hname]
      exact hcondition
    exact ⟨predicate, condition, order, hpredicate, hcompiled, hread, rfl⟩
  · rintro ⟨predicate, condition, order, hpredicate, hcompiled, hread, rfl⟩
    have hcondition : predicate.compile r e.name = .ok condition := by rw [hname, hcompiled]
    have hfilter : (Scope.ofEntity r e).filter predicate
        = .ok ⟨r, e, [predicate], Condition.always.and condition, false⟩ := by
      show (predicate.compile r e.name >>= _) = _
      rw [hcondition]
      rfl
    rw [(hsearch _).mpr ⟨predicate, _, hpredicate, hfilter, rfl⟩, ok_bind, hread]
    rfl

end Searches

/-- A value and its token make one condition, if the path of a boolean key leads to a boolean column. -/
theorem compile_coerced {r : Registry} {root key path : String} {names : List String} {value : Json}
    {coerced : Params} {predicate : Predicate}
    (hcoerced : Params.coerceBooleans ⟨[(key, [value])]⟩ names = .ok coerced)
    (hboolean : key ∈ names → ∃ target, r.resolve root path = .ok target ∧ target.kind = .boolean)
    (hterm : Predicate.ofTerm path (if key ∈ names then value.asToken else value) = .ok predicate) :
    ∃ written, Predicate.ofTerm path value = .ok written
      ∧ written.compile r root = predicate.compile r root := by
  by_cases hkey : key ∈ names
  · rw [if_pos hkey] at hterm
    obtain ⟨target, htarget, hkind⟩ := hboolean hkey
    cases htruth : value.scalarText.bind classifyBoolean with
    | none =>
      -- a value without a truth is refused when it is coerced
      exact absurd hcoerced (Params.coerceBooleans_ne_ok hkey (Params.getAll_single key [value]) htruth
        coerced)
    | some b =>
      have htoken : value.asToken.scalarText.bind classifyBoolean = some b := by
        rw [Json.asToken, htruth]
        cases b <;> rfl
      obtain ⟨token, hvalue, hb⟩ := ofValue_token htruth path
      obtain ⟨other, hother, hb'⟩ := ofValue_token htoken path
      rw [Predicate.ofTerm, hother] at hterm
      cases hterm
      refine ⟨.field path (.startsWith token), ?_, compile_token htarget hkind hb hb'⟩
      rw [Predicate.ofTerm, hvalue]
      rfl
  · rw [if_neg hkey] at hterm
    exact ⟨predicate, hterm, rfl⟩

section Parameters

variable {r : Registry} {root key : String} {value : Json} {t : Transformer} {e : Entity} {s : Prepared}

theorem nodup_keys_single (key : String) (value : Json) : (Params.ofPairs [(key, value)]).keys.Nodup :=
  Params.nodup_keys_ofPairs [(key, value)]

theorem mem_keys_single {k : String} (h : k ∈ (Params.ofPairs [(key, value)]).keys) : k = key :=
  List.mem_singleton.mp h

/-- A parameter that is searched by `AND` demands its term, coerced if its key is a boolean field. -/
theorem Prepared.of_parameter {i : Nat} (hroot : r.get? root = some e)
    (ht : Transformer.ofRoot r root = .ok t) (hoperator : t.renames.get? Operator.param = none)
    (hfield : SearchConfig.standard.namesField (t.renames.targetOf key) = true)
    (hscalar : value.isScalar = true)
    (h : Prepared.ofParams r .standard root
      ((Params.ofPairs [(key, value)]).insertAt i Operator.param [.text "AND"]) = .ok s) :
    Operator.param ∉ t.booleans ∧ Operation.ofKey? (t.renames.targetOf key) = none
      ∧ (∃ coerced, Params.coerceBooleans ⟨[(key, [value])]⟩ t.booleans = .ok coerced)
      ∧ ∃ predicate condition order, Predicate.ofTerm (t.renames.targetOf key)
          (if key ∈ t.booleans then value.asToken else value) = .ok predicate
        ∧ predicate.compile r root = .ok condition
        ∧ SortOrder.read SearchConfig.standard.defaultOrder r root = .ok order
        ∧ s = Prepared.single r e predicate condition order := by
  obtain ⟨hfilter, _⟩ := SearchConfig.namesField_eq_true.mp hfield
  have htarget : t.renames.targetOf key ≠ Operator.param := by
    intro hsame
    rw [hsame] at hfilter
    exact hfilter (by decide)
  have hfresh : Operator.param ∉ (Params.ofPairs [(key, value)]).keys := by
    intro hmem
    rw [← mem_keys_single hmem, Renames.targetOf, hoperator] at htarget
    exact htarget rfl
  have hplain : Operator.param ∉ t.booleans := fun hmem =>
    Prepared.ofParams_insertAt_ne_ok ht hmem hfresh (by decide) i s h
  have hread : Operator.read "AND" = .ok .and := rfl
  rw [Prepared.ofParams_insertAt ht hplain (nodup_keys_single key value) hoperator
    (fun k hk => by rw [mem_keys_single hk]; exact htarget) hread i] at h
  obtain ⟨n, hn, hfinish⟩ := bind_eq_ok h
  -- what is left to search is the parameter, under its path and coerced
  obtain ⟨t', transformed, _, _, ht', htransformed, _⟩ := Narrowed.ofParams_eq_ok hn
  cases ht'.symm.trans ht
  obtain ⟨coerced, hcoerced, _⟩ := process_eq_ok htransformed
  have hvalue := coerceBooleans_single hcoerced
  rw [hvalue] at hcoerced
  cases (Narrowed.ofParams_single hroot ht hcoerced hfield).symm.trans hn
  have hcoercedScalar : (if key ∈ t.booleans then value.asToken else value).isScalar = true := by
    split
    · exact isScalar_asToken hscalar
    · exact hscalar
  cases hpath : Operation.ofKey? (t.renames.targetOf key) with
  | none =>
    exact ⟨hplain, rfl, ⟨_, hcoerced⟩, (Narrowed.finishWith_single_iff hroot hfield
      (Operator.and_predicate_field hpath hcoercedScalar)).mp hfinish⟩
  | some operation =>
    -- an operation over a scalar has no predicate
    rw [Operation.key_of_ofKey? hpath] at hfinish hfield
    obtain ⟨predicate, _, _, hmade, _⟩ := (Narrowed.finishWith_single_iff hroot hfield
      (Operator.and_predicate_operation hcoercedScalar)).mp hfinish
    cases hmade

/-- A tree that is read as one expression is searched as that. -/
theorem Prepared.ofParams_tree {predicate : Predicate} {condition : Condition} {order : SortOrder}
    {tree : Json} {expression : Expression} (hroot : r.get? root = some e)
    (ht : Transformer.ofRoot r root = .ok t) (hoperator : t.renames.get? Operator.param = none)
    (hplain : Operator.param ∉ t.booleans) (houter : t.renames.get? Operation.and.key = none)
    (htree : Operation.and.key ∉ t.booleans)
    (hchildren : Expression.children tree = .ok [expression])
    (hpredicate : expression.toPredicate = .ok predicate)
    (hcondition : predicate.compile r root = .ok condition)
    (horder : SortOrder.read SearchConfig.standard.defaultOrder r root = .ok order) {name : String}
    (hname : name ∈ ["AND", "ADVANCED"]) (j : Nat) :
    Prepared.ofParams r .standard root
        ((Params.ofPairs [(Operation.and.key, tree)]).insertAt j Operator.param [.text name])
      = .ok (Prepared.single r e predicate condition order) := by
  have hself : t.renames.targetOf Operation.and.key = Operation.and.key := by
    rw [Renames.targetOf, houter]
    rfl
  have hfield : SearchConfig.standard.namesField (t.renames.targetOf Operation.and.key) = true := by
    rw [hself]
    decide
  obtain ⟨operator, hread, hkind⟩ : ∃ operator, Operator.read name = .ok operator
      ∧ (operator = .and ∨ operator = .advanced) := by
    rcases List.mem_cons.mp hname with rfl | hname
    · exact ⟨.and, rfl, .inl rfl⟩
    · rw [List.mem_singleton.mp hname]
      exact ⟨.advanced, rfl, .inr rfl⟩
  have hcoerced : Params.coerceBooleans ⟨[(Operation.and.key, [tree])]⟩ t.booleans
      = .ok ⟨[(Operation.and.key, [tree])]⟩ := by
    refine Params.coerceBooleans_eq_self fun boolean hboolean => Params.getAll_single_of_ne ?_ _
    rintro rfl
    exact htree hboolean
  have hnarrowed := Narrowed.ofParams_single hroot ht hcoerced hfield
  rw [hself] at hnarrowed hfield
  rw [Prepared.ofParams_insertAt ht hplain (nodup_keys_single _ tree) hoperator
    (fun k hk => by rw [mem_keys_single hk, hself]; decide) hread j]
  show (Narrowed.ofParams r .standard root ⟨[(Operation.and.key, [tree])]⟩ >>= _) = _
  rw [hnarrowed, ok_bind]
  exact (Narrowed.finishWith_single_iff hroot hfield (Operator.predicate_tree hchildren hkind)).mpr
    ⟨predicate, condition, order, hpredicate, hcondition, horder, rfl⟩

end Parameters

/-- A nested term selects what its parameter selects, in the same order, at any depth and by `AND` as by
`ADVANCED`, if it is written with the path that its key stands for. -/
theorem nested_term_selects {r : Registry} {root key : String} {value : Json} {t : Transformer}
    {s : Prepared} {i : Nat} (ht : Transformer.ofRoot r root = .ok t)
    (hoperator : t.renames.get? Operator.param = none)
    (houter : t.renames.get? Operation.and.key = none) (htree : Operation.and.key ∉ t.booleans)
    (hfield : SearchConfig.standard.namesField (t.renames.targetOf key) = true)
    (hboolean : key ∈ t.booleans → ∃ target, r.resolve root (t.renames.targetOf key) = .ok target
      ∧ target.kind = .boolean)
    (hscalar : value.isScalar = true)
    (h : Prepared.ofParams r .standard root
      ((Params.ofPairs [(key, value)]).insertAt i Operator.param [.text "AND"]) = .ok s)
    (layers : List Layer) (j : Nat) :
    ∀ name ∈ ["AND", "ADVANCED"], ∃ s', Prepared.ofParams r .standard root
        ((Params.ofPairs [(Operation.and.key, nested layers (t.renames.targetOf key) value)]).insertAt j
          Operator.param [.text name]) = .ok s'
      ∧ s'.query = s.query
      ∧ ∀ db row, selects db root s'.scope.condition row = selects db root s.scope.condition row := by
  obtain ⟨e, hroot, _, _⟩ := Transformer.ofRoot_eq_ok ht
  obtain ⟨hplain, hpath, ⟨coerced, hcoerced⟩, predicate, condition, order, hterm, hcondition, horder, rfl⟩ :=
    Prepared.of_parameter hroot ht hoperator hfield hscalar h
  obtain ⟨written, hwritten, hsame⟩ := compile_coerced hcoerced hboolean hterm
  obtain ⟨expression, hchildren, hpredicate⟩ := children_nested hpath hscalar layers
  intro name hname
  refine ⟨Prepared.single r e written condition order, ?_, rfl, fun db row => rfl⟩
  exact Prepared.ofParams_tree hroot ht hoperator hplain houter htree hchildren (hpredicate.trans hwritten)
    (hsame.trans hcondition) horder hname j

/-- Questions with a retired answer, asked for in a list of one, under an `_OR` with a single child. -/
theorem nested_term_selects_sample :
    ∃ s s', Prepared.ofParams Service.registry .standard "questions"
        (.ofPairs [("answers__is_active", .text "F"), ("operator", .text "AND")]) = .ok s
      ∧ Prepared.ofParams Service.registry .standard "questions"
        (.ofPairs [("operator", .text "ADVANCED"),
          ("_AND", .list [.object [("_OR", .object [("answers__is_active", .text "F")])]])]) = .ok s'
      ∧ ∀ row ∈ Service.sampleQuestions, selects Service.sampleDatabase "questions" s'.scope.condition row
          = selects Service.sampleDatabase "questions" s.scope.condition row := by
  obtain ⟨s, hs⟩ : ∃ s, Prepared.ofParams Service.registry .standard "questions"
      (.ofPairs [("answers__is_active", .text "F"), ("operator", .text "AND")]) = .ok s := ⟨_, rfl⟩
  have ht : Transformer.ofRoot Service.registry "questions" = .ok ⟨_, _⟩ := rfl
  obtain ⟨s', hs', _, hselects⟩ := nested_term_selects (i := 1) ht rfl rfl (by decide) (by decide)
    (fun _ => ⟨_, rfl, rfl⟩) rfl hs [.list, .any] 0 "ADVANCED" (by decide)
  exact ⟨s, s', hs, hs', fun row _ => hselects Service.sampleDatabase row⟩

/-! ## Trees that are not searched like their parameters -/

/-- What is asked of a term that is written in a tree, for keys that fulfil a condition: that the tree is
searched, and selects what the parameter selects. -/
def NestsTerms (written : Transformer → String → String) (side : Transformer → String → Prop) : Prop :=
  ∀ (r : Registry) (root key : String) (value : Json) (t : Transformer) (s : Prepared),
    Transformer.ofRoot r root = .ok t → side t key → value.isScalar = true →
    Prepared.ofParams r .standard root (.ofPairs [(Operator.param, .text "AND"), (key, value)]) = .ok s →
    ∃ s', Prepared.ofParams r .standard root (.ofPairs [(Operator.param, .text "AND"),
        (Operation.and.key, nested [] (written t key) value)]) = .ok s'
      ∧ ∀ db : Database, ∀ row ∈ db.rows root,
        selects db root s'.scope.condition row = selects db root s.scope.condition row

/-- Whether no alias stands for the operator or for the tree. -/
def Transformer.leavesSteering (t : Transformer) : Prop :=
  t.renames.get? Operator.param = none ∧ t.renames.get? Operation.and.key = none

/-- A tree has no aliases.  A path that it is written with need not be searched as a parameter, where it
may steer the search or bound a date; an alias or a boolean field may take the place of the tree or of the
operator; and a value may be no token in a tree that is one as a parameter. -/
theorem not_nestsTerms :
    ¬ NestsTerms (fun _ key => key) (fun t key => t.leavesSteering ∧ Operation.and.key ∉ t.booleans
        ∧ key ∉ t.booleans ∧ SearchConfig.standard.namesField (t.renames.targetOf key) = true)
    ∧ ¬ NestsTerms (fun t key => t.renames.targetOf key) (fun t key => t.leavesSteering
        ∧ Operation.and.key ∉ t.booleans ∧ key ∉ t.booleans
        ∧ DateBounds.isBoundKey (t.renames.targetOf key) = false)
    ∧ ¬ NestsTerms (fun t key => t.renames.targetOf key) (fun t key => t.leavesSteering
        ∧ Operation.and.key ∉ t.booleans ∧ key ∉ t.booleans
        ∧ SearchConfig.standard.isSearchFilter (t.renames.targetOf key) = false)
    ∧ ¬ NestsTerms (fun t key => t.renames.targetOf key) (fun t key =>
        t.renames.get? Operator.param = none ∧ Operation.and.key ∉ t.booleans ∧ key ∉ t.booleans
        ∧ SearchConfig.standard.namesField (t.renames.targetOf key) = true)
    ∧ ¬ NestsTerms (fun t key => t.renames.targetOf key) (fun t key =>
        t.renames.get? Operation.and.key = none ∧ Operation.and.key ∉ t.booleans ∧ key ∉ t.booleans
        ∧ SearchConfig.standard.namesField (t.renames.targetOf key) = true)
    ∧ ¬ NestsTerms (fun t key => t.renames.targetOf key) (fun t key => t.leavesSteering
        ∧ key ∉ t.booleans ∧ SearchConfig.standard.namesField (t.renames.targetOf key) = true)
    ∧ ¬ NestsTerms (fun t key => t.renames.targetOf key) (fun t key => t.leavesSteering
        ∧ Operation.and.key ∉ t.booleans
        ∧ SearchConfig.standard.namesField (t.renames.targetOf key) = true) := by
  refine ⟨fun h => ?_, fun h => ?_, fun h => ?_, fun h => ?_, fun h => ?_, fun h => ?_, fun h => ?_⟩
  · -- an alias
    obtain ⟨s', hs', _⟩ := h Service.registry "questions" "topic" (.text "x") _ _ rfl
      ⟨⟨rfl, rfl⟩, by decide, by decide, by decide⟩ rfl rfl
    cases hs'
  · -- a field that is named like a search filter
    obtain ⟨s', hs', hselects⟩ := h (.ofEntities [⟨"notes", [⟨"format", .text⟩, ⟨"created_at", .dateTime⟩],
        [], .empty⟩]) "notes" "format" (.text "x") _ _ rfl ⟨⟨rfl, rfl⟩, by decide, by decide, by decide⟩
      rfl rfl
    cases hs'
    have hrow := hselects ⟨[("notes", [⟨[("format", .text "a")]⟩])]⟩ _ List.mem_cons_self
    revert hrow
    decide
  · -- a field that is named like a bound of another one
    obtain ⟨s', hs', hselects⟩ := h (.ofEntities [⟨"notes", [⟨"due", .dateTime⟩, ⟨"due_date_start", .text⟩,
        ⟨"created_at", .dateTime⟩], [], .empty⟩]) "notes" "due_date_start" (.text "2024-01-01") _ _ rfl
      ⟨⟨rfl, rfl⟩, by decide, by decide, by decide⟩ rfl rfl
    cases hs'
    have hrow := hselects ⟨[("notes", [⟨[("due_date_start", .text "2024-01-01")]⟩])]⟩ _ List.mem_cons_self
    revert hrow
    decide
  · -- an alias in the place of the tree
    obtain ⟨s', hs', _⟩ := h (.ofEntities [⟨"notes", [⟨"title", .text⟩, ⟨"created_at", .dateTime⟩], [],
        .ofPairs [("_AND", "title")]⟩]) "notes" "title" (.text "x") _ _ rfl
      ⟨rfl, by decide, by decide, by decide⟩ rfl rfl
    cases hs'
  · -- an alias in the place of the operator
    obtain ⟨s', hs', _⟩ := h (.ofEntities [⟨"notes", [⟨"title", .text⟩, ⟨"body", .text⟩,
        ⟨"created_at", .dateTime⟩], [], .ofPairs [("operator", "title")]⟩]) "notes" "body" (.text "x") _ _
      rfl ⟨rfl, by decide, by decide, by decide⟩ rfl rfl
    cases hs'
  · -- a boolean field in the place of the tree
    obtain ⟨s', hs', _⟩ := h (.ofEntities [⟨"notes", [⟨"title", .text⟩, ⟨"_AND", .boolean⟩,
        ⟨"created_at", .dateTime⟩], [], .empty⟩]) "notes" "title" (.text "x") _ _ rfl
      ⟨⟨rfl, rfl⟩, by decide, by decide⟩ rfl rfl
    cases hs'
  · -- an alias that is named like a boolean field
    obtain ⟨s', hs', hselects⟩ := h (.ofEntities [⟨"notes", [⟨"title", .text⟩, ⟨"flag", .boolean⟩,
        ⟨"created_at", .dateTime⟩], [], .ofPairs [("flag", "title")]⟩]) "notes" "flag" (.text "yes") _ _ rfl
      ⟨⟨rfl, rfl⟩, by decide, by decide⟩ rfl rfl
    cases hs'
    have hrow := hselects ⟨[("notes", [⟨[("title", .text "yes")]⟩])]⟩ _ List.mem_cons_self
    revert hrow
    decide

end SchemaSearch
