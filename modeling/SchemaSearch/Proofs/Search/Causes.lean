import SchemaSearch.Proofs.Schema.Merging
import SchemaSearch.Proofs.Search.Narrowing

/-!
# What makes a search fail

An entity that was never registered and an alias that leads nowhere are faults of the wiring: a client can
do nothing about them.  Both are looked for when a registry is built, for every root; afterwards each stage
of a search, whatever path it is given, fails only by what the client has sent.

Main statement: a search of a registered root of a registry that was built never fails by a fault of the
wiring (`Prepared.failsByClient`).
-/

namespace SchemaSearch

open Query Schema

variable {α : Type}

/-- Whether an error, or the one that it wraps, is a fault of the wiring. -/
def SearchError.isWiring : SearchError → Bool
  | .unknownEntity _ | .unresolvedRename _ _ _ => true
  | .wrapped _ source => source.isWiring
  | _ => false

theorem SearchError.isWiring_asOperatorError (error : SearchError) :
    error.asOperatorError.isWiring = error.isWiring := by
  cases error <;> rfl

/-- What is no fault of the wiring is answered as the client's. -/
theorem SearchError.isClientError_of_isWiring {error : SearchError} (h : error.isWiring = false) :
    error.isClientError = true := by
  cases error with
  | unknownEntity name => cases h
  | _ => rfl

/-- Whether an error says what is wrong with one value. -/
def SearchError.isOfValue : SearchError → Bool
  | .invalidBoolean _ _ | .invalidParameter _ _ => true
  | _ => false

/-- A computation fails by what is wrong with one value, if it does. -/
def FailsByValue (x : Except SearchError α) : Prop := FailsOnly (fun error => error.isOfValue = true) x

/-- A computation fails by what the client has sent, if it does. -/
def FailsByClient (x : Except SearchError α) : Prop := FailsOnly (fun error => error.isWiring = false) x

namespace FailsByValue

theorem ok (a : α) : FailsByValue (.ok a) := FailsOnly.ok a

theorem error {e : SearchError} (h : e.isOfValue = true) : FailsByValue (.error e : Except SearchError α) :=
  FailsOnly.error h

theorem byClient {x : Except SearchError α} (h : FailsByValue x) : FailsByClient x := by
  refine h.mono fun e he => ?_
  cases e with
  | invalidBoolean _ _ | invalidParameter _ _ => rfl
  | _ => cases he

end FailsByValue

namespace FailsByClient

theorem ok (a : α) : FailsByClient (.ok a) := FailsOnly.ok a

theorem error {e : SearchError} (h : e.isWiring = false) : FailsByClient (.error e : Except SearchError α) :=
  FailsOnly.error h

end FailsByClient

/-! ## Conditions -/

theorem failsByValue_patternTest (path : String) (operand : Operand) (lookup : Lookup) :
    FailsByValue (patternTest path operand lookup) := by
  cases lookup with
  | startsWith _ | contains _ | oneOf _ => exact .ok _
  | isNull _ | range _ _ | atLeast _ | atMost _ => exact .error rfl

theorem failsByValue_parseBoolean (path value : String) : FailsByValue (parseBoolean path value) := by
  unfold parseBoolean
  split
  · exact .ok _
  · exact .error rfl

theorem failsByValue_booleanTest (path : String) (c : Column) (lookup : Lookup) :
    FailsByValue (booleanTest path c lookup) := by
  cases lookup with
  | startsWith value | contains value =>
    exact (failsByValue_parseBoolean path value).bind fun b _ => .ok _
  | oneOf values =>
    exact (FailsOnly.mapM fun value _ => failsByValue_parseBoolean path value).bind fun bs _ => .ok _
  | isNull _ | range _ _ | atLeast _ | atMost _ => exact .error rfl

theorem failsByValue_temporalTest (path : String) (bound : Moment → Literal) (c : Column) (lookup : Lookup) :
    FailsByValue (temporalTest path bound c lookup) := by
  unfold temporalTest
  split
  · exact .ok _
  · exact .ok _
  · exact .ok _
  · exact failsByValue_patternTest path _ _

theorem failsByValue_parseUuid (path value : String) : FailsByValue (parseUuid path value) := by
  unfold parseUuid
  split
  · exact .ok _
  · exact .error rfl

theorem failsByValue_uuidTest (path : String) (c : Column) (lookup : Lookup) :
    FailsByValue (uuidTest path c lookup) := by
  unfold uuidTest
  split
  · split
    · exact .ok _
    · exact failsByValue_patternTest path _ _
  · exact (FailsOnly.mapM fun value _ => failsByValue_parseUuid path value).bind fun us _ => .ok _
  · exact failsByValue_patternTest path _ _

theorem failsByValue_parseInteger (path value : String) : FailsByValue (parseInteger path value) := by
  unfold parseInteger
  split
  · exact .ok _
  · exact .error rfl

theorem failsByValue_integerTest (path : String) (c : Column) (lookup : Lookup) :
    FailsByValue (integerTest path c lookup) := by
  unfold integerTest
  split
  · exact (FailsOnly.mapM fun value _ => failsByValue_parseInteger path value).bind fun ns _ => .ok _
  · exact failsByValue_patternTest path _ _

theorem failsByValue_leafTest (path : String) (kind : FieldKind) (c : Column) (lookup : Lookup) :
    FailsByValue (leafTest path kind c lookup) := by
  unfold leafTest
  split
  · exact .ok _
  · exact .ok _
  · cases kind with
    | boolean => exact failsByValue_booleanTest path c _
    | dateTime => exact failsByValue_temporalTest path .dateTime c _
    | date => exact failsByValue_temporalTest path .date c _
    | uuid => exact failsByValue_uuidTest path c _
    | integer => exact failsByValue_integerTest path c _
    | text | float | other => exact failsByValue_patternTest path _ _

theorem failsByValue_fieldCondition (path : String) (target : Target) (lookup : Lookup) :
    FailsByValue (fieldCondition path target lookup) := by
  refine FailsOnly.bind ?_ fun leaf _ => .ok _
  refine (failsByValue_leafTest path target.kind _ lookup).bind fun test _ => ?_
  split
  · exact .ok _
  · exact .ok _

/-! ## Predicates -/

theorem failsByValue_ofValue (field : String) (value : Json) : FailsByValue (Lookup.ofValue field value) := by
  unfold Lookup.ofValue
  split
  · exact .ok _
  · split
    · exact .error rfl
    · split
      · exact .error rfl
      · exact .ok _

theorem failsByValue_ofTerm (field : String) (value : Json) : FailsByValue (Predicate.ofTerm field value) :=
  (failsByValue_ofValue field value).bind fun _ _ => .ok _

section Registered

variable {r : Registry} {root : String} {e : Entity}

/-- From a registered root a path leads to a column, or nowhere. -/
theorem failsByClient_resolve (hroot : r.get? root = some e) (path : String) :
    FailsByClient (r.resolve root path) := by
  intro error herror
  rw [Registry.resolve_error hroot herror]
  rfl

mutual

theorem failsByClient_compile (hroot : r.get? root = some e) : ∀ p : Predicate,
    FailsByClient (p.compile r root)
  | .field path lookup => by
    rw [Predicate.compile]
    apply (failsByClient_resolve hroot path).bind
    exact fun target _ => (failsByValue_fieldCondition path target lookup).byClient
  | .and items => by
    rw [Predicate.compile]
    exact (failsByClient_compileAll hroot items).bind fun _ _ => .ok _
  | .or items => by
    rw [Predicate.compile]
    exact (failsByClient_compileAll hroot items).bind fun _ _ => .ok _
  | .not inner => by
    rw [Predicate.compile]
    exact (failsByClient_compile hroot inner).bind fun _ _ => .ok _

theorem failsByClient_compileAll (hroot : r.get? root = some e) : ∀ ps : List Predicate,
    FailsByClient (Predicate.compileAll r root ps)
  | [] => .ok []
  | p :: ps => by
    rw [Predicate.compileAll]
    refine (failsByClient_compile hroot p).bind fun _ _ => ?_
    exact (failsByClient_compileAll hroot ps).bind fun _ _ => .ok _

end

end Registered

/-! ## Expressions -/

namespace Expression

mutual

theorem failsByClient_children : ∀ node : Json, FailsByClient (children node)
  | .list items => failsByClient_childrenOfItems items
  | .object members => failsByClient_childrenOfMembers members
  | .null | .bool _ | .number _ | .text _ => .error rfl

theorem failsByClient_childrenOfItems : ∀ items : List Json, FailsByClient (childrenOfItems items)
  | [] => .ok []
  | item :: items => by
    rw [childrenOfItems]
    refine (failsByClient_children item).bind fun _ _ => ?_
    exact (failsByClient_childrenOfItems items).bind fun _ _ => .ok _

theorem failsByClient_childrenOfMembers : ∀ members : List (String × Json),
    FailsByClient (childrenOfMembers members)
  | [] => .ok []
  | member :: members => by
    rw [childrenOfMembers]
    refine (failsByClient_childrenOfMember member).bind fun _ _ => ?_
    exact (failsByClient_childrenOfMembers members).bind fun _ _ => .ok _

theorem failsByClient_childrenOfMember : ∀ member : String × Json, FailsByClient (childrenOfMember member)
  | (key, value) => by
    rw [childrenOfMember]
    cases Operation.ofKey? key with
    | some operation => exact (failsByClient_children value).bind fun _ _ => .ok _
    | none => exact .ok _

end

mutual

theorem failsByClient_toPredicate : ∀ e : Expression, FailsByClient e.toPredicate
  | .term field value => by
    rw [toPredicate]
    exact (failsByValue_ofTerm field value).byClient
  | .node operation [] => .error rfl
  | .node operation (e :: es) => by
    rw [toPredicate.eq_3 _ _ (List.cons_ne_nil e es)]
    refine (failsByClient_toPredicates (e :: es)).bind fun predicates _ => ?_
    cases combine operation predicates with
    | some predicate => exact .ok predicate
    | none => exact .error rfl

theorem failsByClient_toPredicates (es : List Expression) : FailsByClient (toPredicates es) := by
  cases es with
  | nil => exact .ok []
  | cons e es =>
    rw [toPredicates]
    refine (failsByClient_toPredicate e).bind fun _ _ => ?_
    exact (failsByClient_toPredicates es).bind fun _ _ => .ok _

end

end Expression

/-! ## Operators -/

namespace Operator

theorem failsByClient_read (s : String) : FailsByClient (read s) := by
  unfold read
  simp only
  split
  · exact .ok _
  · exact .error rfl

theorem failsByClient_ofParams? {p : Params} {requested : Except SearchError Operator}
    (h : ofParams? p = some requested) : FailsByClient requested := by
  obtain ⟨value, _, rfl⟩ := Option.map_eq_some_iff.mp h
  split
  · exact failsByClient_read _
  · exact .error rfl

theorem failsByClient_memberText (field : String) (value : Json) :
    FailsByClient (memberText field value) := by
  unfold memberText
  split
  · exact .ok _
  · exact .error rfl

theorem failsByClient_decodeElement (element : Json) : FailsByClient (decodeElement element) := by
  unfold decodeElement
  split
  · split
    · exact .ok _
    · exact .error rfl
  · exact .ok _

theorem failsByClient_outerExpression (operation : Operation) (p : Params) :
    FailsByClient (outerExpression operation p) :=
  (Expression.failsByClient_children (nodeOf p)).bind fun _ _ => .ok _

theorem failsByClient_advancedExpression (p : Params) : FailsByClient (advancedExpression p) := by
  unfold advancedExpression
  split
  · exact .error rfl
  · refine (FailsOnly.mapM fun element _ => failsByClient_decodeElement element).bind fun elements _ => ?_
    refine (Expression.failsByClient_children (.list elements)).bind fun children _ => ?_
    split
    · exact .ok _
    · exact .error rfl
  · exact .error rfl

theorem failsByClient_membershipPredicate (p : Params) : FailsByClient (membershipPredicate p) := by
  unfold membershipPredicate
  split
  · exact .ok _
  · exact (FailsOnly.mapM fun value _ => failsByClient_memberText _ value).bind fun _ _ => .ok _

theorem failsByClient_predicate (operator : Operator) (p : Params) :
    FailsByClient (operator.predicate p) := by
  have htree : ∀ tree : Except SearchError Expression, FailsByClient tree →
      FailsByClient (do (← tree).toPredicate.map some) :=
    fun tree hfails => FailsOnly.bind hfails fun e _ => (Expression.failsByClient_toPredicate e).map
  cases operator with
  | oneOf => exact failsByClient_membershipPredicate p
  | and => exact htree _ (failsByClient_outerExpression .and p)
  | or => exact htree _ (failsByClient_outerExpression .or p)
  | not => exact htree _ (failsByClient_outerExpression .not p)
  | advanced => exact htree _ (failsByClient_advancedExpression p)

end Operator

/-! ## Parameters -/

theorem failsByValue_coerceBooleans (p : Params) (names : List String) :
    FailsByValue (p.coerceBooleans names) := by
  refine FailsOnly.foldlM (fun name _ start => ?_) p
  unfold Params.coerceKey
  split
  · exact .ok _
  · refine (FailsOnly.mapM fun value _ => ?_).bind fun _ _ => .ok _
    unfold coerceBoolean
    split
    · exact .ok _
    · exact .ok _
    · exact .error rfl

theorem failsByValue_process (t : Transformer) (p : Params) : FailsByValue (t.process p) :=
  (failsByValue_coerceBooleans p t.booleans).bind fun _ _ => .ok _

/-- An order fails as a whole: what is wrong with its path is not told. -/
theorem failsOnly_order {P : SearchError → Prop} {value : String} (hinvalid : P (.invalidOrdering value))
    (r : Registry) (root : String) : FailsOnly P (SortOrder.read value r root) := by
  unfold SortOrder.read
  simp only
  split
  · exact .error hinvalid
  · split
    · exact .ok _
    · exact .error hinvalid

/-- A page fails by its numbers. -/
theorem failsOnly_page {P : SearchError → Prop} (hpage : P .pageNotInteger) (p : Params) (defaultSize : Nat) :
    FailsOnly P (Page.ofParams p defaultSize) := by
  have hkey : ∀ key, FailsOnly P (Page.readKey p key) := by
    intro key
    unfold Page.readKey
    split
    · exact .ok _
    · split
      · exact .ok _
      · exact .error hpage
  refine (hkey Page.param).bind fun number _ => (hkey Page.sizeParam).bind fun asked _ => ?_
  refine FailsOnly.bind ?_ fun size _ => .ok _
  unfold Page.sizeOf
  split
  · exact .ok _
  · split
    · exact .ok _
    · exact .error hpage

/-! ## Scopes -/

namespace Scope

/-- A scope is one of an entity that its registry knows. -/
def IsRegistered (s : Scope) : Prop := s.registry.get? s.root.name = some s.root

variable {s : Scope}

theorem failsByClient_filter (hs : s.IsRegistered) (p : Predicate) : FailsByClient (s.filter p) :=
  (failsByClient_compile hs p).bind fun _ _ => .ok _

theorem failsByClient_searchTerms (hs : s.IsRegistered) (p : Params) (excluded : List String) :
    FailsByClient (s.searchTerms p excluded) := by
  refine FailsOnly.bind ?_ fun predicates _ => ?_
  · exact FailsOnly.mapM fun term _ => (failsByValue_ofTerm term.1 term.2).byClient
  split
  · exact failsByClient_filter hs _
  · exact .ok _

/-- Wrapping an error keeps who is to blame for it. -/
theorem failsByClient_searchOperator (hs : s.IsRegistered) (operator : Operator) (p : Params)
    (filters : List String) : FailsByClient (s.searchOperator operator p filters) := by
  unfold searchOperator
  simp only
  split
  · exact .ok _
  · have hnarrowed : FailsByClient (operator.predicate (p.without filters) >>= s.filter?) := by
      refine (Operator.failsByClient_predicate operator _).bind fun predicate? _ => ?_
      cases predicate? with
      | none => exact .ok _
      | some predicate => exact failsByClient_filter hs predicate
    split
    · exact .ok _
    · rename_i error herror
      refine .error ?_
      rw [SearchError.isWiring_asOperatorError]
      exact hnarrowed error herror

theorem failsByClient_searchFields (hs : s.IsRegistered) (c : SearchConfig) (p : Params) :
    FailsByClient (Prepared.searchFields c s p) := by
  unfold Prepared.searchFields
  split
  · rename_i requested hrequested
    refine (Operator.failsByClient_ofParams? hrequested).bind fun operator _ => ?_
    exact failsByClient_searchOperator hs operator p c.searchFilters
  · exact failsByClient_searchTerms hs p c.searchFilters

/-- Dates fail by what is wrong with them, with the path that they bound, or with the bound on its column. -/
theorem failsOnly_searchDates {P : SearchError → Prop} {p : Params} {renames : Renames}
    (hdate : ∀ fault, P (.date fault)) (hpath : ∀ field, FailsOnly P (DateBounds.pathOf s renames field))
    (hfilter : ∀ field path lookup, DateBounds.pathOf s renames field = .ok path →
      FailsOnly P (s.filter (.field path lookup))) :
    FailsOnly P (s.searchDates p renames) := by
  have hbounds : FailsOnly P (DateBounds.ofParams p) := by
    refine FailsOnly.foldlM (fun key _ bounds => ?_) DateBounds.none
    unfold DateBounds.record
    simp only
    split
    · exact .error (hdate _)
    · split
      · exact .error (hdate _)
      · split
        · exact .ok _
        · exact .ok _
  have hlookup : ∀ bounds : DateBounds, FailsOnly P bounds.lookup? := by
    intro bounds
    unfold DateBounds.lookup?
    split
    · split
      · exact .ok _
      · exact .error (hdate _)
    · exact .ok _
    · exact .ok _
    · exact .ok _
  refine hbounds.bind fun bounds _ => ?_
  split
  · exact .ok _
  · refine (hpath _).bind fun path hled => ?_
    refine (hlookup bounds).bind fun lookup? _ => ?_
    split
    · exact .ok _
    · exact (hfilter _ path _ hled).bind fun _ _ => .ok _

theorem failsByClient_pathOf (hs : s.IsRegistered) (renames : Renames) (field : String) :
    FailsByClient (DateBounds.pathOf s renames field) := by
  unfold DateBounds.pathOf
  split
  · exact .ok _
  · split
    · split
      · exact .ok _
      · exact .error rfl
    · exact .error rfl
    · rename_i error _ herror
      exact .error (failsByClient_resolve hs field error herror)

/-- What narrows a scope keeps it registered. -/
theorem Extends.isRegistered {s' : Scope} (h : Extends s s') (hs : s.IsRegistered) : s'.IsRegistered := by
  unfold IsRegistered
  rw [h.registry, h.root]
  exact hs

end Scope

/-! ## Whole searches -/

/-- A search of a registered root of a registry that was built fails by what the client has sent, if it
does. -/
theorem Prepared.failsByClient {entities : List Entity} {r : Registry} {root : String} {e : Entity}
    (hbuild : Registry.build entities = .ok r) (hroot : r.get? root = some e) (c : SearchConfig) (p : Params) :
    FailsByClient (Prepared.ofParams r c root p) := by
  have hentity : r.entity root = .ok e := by
    rw [Registry.entity, hroot]
  have hscope : (Scope.ofEntity r e).IsRegistered := by
    show r.get? e.name = some e
    rw [Registry.name_of_get? hroot, hroot]
  have htransformer : Transformer.ofRoot r root = .ok ⟨r.mergedRenames e, r.booleanPaths e⟩ := by
    rw [Transformer.ofRoot, hentity, ok_bind, Registry.renames_of_build hbuild hroot]
    rfl
  unfold Prepared.ofParams
  rw [htransformer, ok_bind, Scope.ofRoot, hentity]
  refine (failsByValue_process _ p).byClient.bind fun transformed _ => ?_
  refine (failsByValue_coerceBooleans transformed _).byClient.bind fun coerced _ => ?_
  have hdates : FailsByClient ((Scope.ofEntity r e).searchDates coerced (r.mergedRenames e)) :=
    Scope.failsOnly_searchDates (fun _ => rfl) (Scope.failsByClient_pathOf hscope _)
      fun _ path lookup _ => Scope.failsByClient_filter hscope (.field path lookup)
  refine hdates.bind fun narrowed hnarrowed => ?_
  obtain ⟨scope, remaining⟩ := narrowed
  have hregistered := (Scope.Extends.searchDates hnarrowed).isRegistered hscope
  refine (Scope.failsByClient_searchFields hregistered c remaining).bind fun searched _ => ?_
  have horder : FailsByClient (SortOrder.read (orderText c remaining) r root) :=
    failsOnly_order (show (SearchError.invalidOrdering _).isWiring = false from rfl) r root
  have hpage : FailsByClient (Page.ofParams remaining c.defaultPageSize) :=
    failsOnly_page (show SearchError.pageNotInteger.isWiring = false from rfl) remaining _
  exact horder.bind fun order _ => hpage.bind fun page _ => .ok _

end SchemaSearch
