import SchemaSearch.Proofs.Search.Controls
import SchemaSearch.Proofs.Search.Slots

/-!
# One value of a key in place of another

Parameters that agree but for one value of a key go through the stages in front of the search side by side, if
no stage looks at the key: what comes out agrees but for the value, which then stands under the path that the
key stands for.  What the search reads from it differs in the value of one field, and so the condition of the
scope differs in one pattern.

Main statement: a search that asks for one pattern in place of another is prepared like it, but for the pattern
(`Prepared.exists_swapped`).
-/

namespace SchemaSearch

open Query Schema

/-! ## Parameters -/

namespace Params

/-- Parameters that agree but for one value of a key. -/
def Apart (key : String) (R : Json → Json → Prop) (p p' : Params) : Prop :=
  Table.Apart key (OneApart R) p.entries p'.entries

variable {key : String} {R : Json → Json → Prop} {p p' q q' : Params}

namespace Apart

theorem keys (h : p.Apart key R p') : p.keys = p'.keys := Table.Apart.keys h

theorem mono {R' : Json → Json → Prop} (h : p.Apart key R p') (hsub : ∀ x x', R x x' → R' x x') :
    p.Apart key R' p' :=
  OneApart.mono h fun _ _ hentry => ⟨hentry.1, hentry.2.1, hentry.2.2.mono hsub⟩

/-- The one value, by itself. -/
theorem exists_value (h : p.Apart key R p') :
    ∃ x x', R x x' ∧ p.Apart key (fun y y' => y = x ∧ y' = x') p' := by
  obtain ⟨entry, entry', hentry, hplace⟩ := OneApart.exists_place h
  obtain ⟨x, x', hx, hvalues⟩ := hentry.2.2.exists_place
  refine ⟨x, x', hx, OneApart.mono hplace ?_⟩
  rintro _ _ ⟨rfl, rfl⟩
  exact ⟨hentry.1, hentry.2.1, hvalues⟩

theorem getAll_self (h : p.Apart key R p') (hnodup : p.keys.Nodup) :
    OneApart R (p.getAll key) (p'.getAll key) := by
  obtain ⟨values, values', hvalues, hvalues', happart⟩ := Table.Apart.find?_self h hnodup
  rwa [getAll, getAll, hvalues, hvalues']

theorem getAll_of_ne {other : String} (h : p.Apart key R p') (hne : other ≠ key) :
    p.getAll other = p'.getAll other := congrArg (Option.getD · []) (Table.Apart.find?_of_ne h hne)

/-- Without the key they are the same. -/
theorem without_self (h : p.Apart key R p') : p.without [key] = p'.without [key] := by
  rw [without_eq, without_eq]
  refine congrArg Params.mk (OneApart.filter_eq h ?_)
  intro entry entry' hentry
  rw [hentry.1, hentry.2.1]
  simp

/-- Leaving other keys out keeps the difference. -/
theorem without (h : p.Apart key R p') {excluded : List String} (hkey : key ∉ excluded) :
    (p.without excluded).Apart key R (p'.without excluded) := by
  rw [without_eq, without_eq]
  refine OneApart.filter h ?_
  intro entry entry' hentry
  rw [hentry.1, hentry.2.1]
  simpa using hkey

theorem push (h : p.Apart key R p') (other : String) (value : Json) :
    (p.push other value).Apart key R (p'.push other value) :=
  Table.Apart.upsert h other (fun _ _ _ hvalues => hvalues.append_right [value]) [value]

theorem setAll (h : p.Apart key R p') {other : String} (hne : other ≠ key) (values : List Json) :
    (p.setAll other values).Apart key R (p'.setAll other values) :=
  Table.Apart.upsert h other (fun hother => absurd hother hne) values

/-- Two values that are added to the same parameters. -/
theorem of_push (p : Params) {x x' : Json} (h : R x x') : (p.push key x).Apart key R (p.push key x') :=
  Table.apart_upsert p.entries (fun values => .append_left values (.single h)) (.single h)

theorem foldl_push (h : p.Apart key R p') (pairs : List (String × Json)) :
    (pairs.foldl (fun p (pair : String × Json) => p.push pair.1 pair.2) p).Apart key R
      (pairs.foldl (fun p (pair : String × Json) => p.push pair.1 pair.2) p') := by
  induction pairs generalizing p p' with
  | nil => exact h
  | cons pair pairs ih => exact ih (h.push pair.1 pair.2)

end Apart

/-- Pairs that agree but for one value of a key. -/
def PairsApart (key : String) (R : Json → Json → Prop) : List (String × Json) → List (String × Json) → Prop :=
  OneApart fun pair pair' => pair.1 = key ∧ pair'.1 = key ∧ R pair.2 pair'.2

theorem Apart.pairs (h : p.Apart key R p') : PairsApart key R p.pairs p'.pairs := by
  refine OneApart.flatMap h ?_
  intro entry entry' hentry
  rw [hentry.1, hentry.2.1]
  exact hentry.2.2.map fun x x' hx => ⟨rfl, rfl, hx⟩

/-- Pairs that agree but for a value are added up to parameters that do. -/
theorem apart_ofPairs {pairs pairs' : List (String × Json)} (h : PairsApart key R pairs pairs') :
    (ofPairs pairs).Apart key R (ofPairs pairs') := by
  suffices hfold : ∀ p : Params,
      (pairs.foldl (fun p (pair : String × Json) => p.push pair.1 pair.2) p).Apart key R
        (pairs'.foldl (fun p (pair : String × Json) => p.push pair.1 pair.2) p) from hfold .empty
  unfold PairsApart at h
  induction h with
  | @head pair pair' hpair rest =>
    intro p
    obtain ⟨k, x⟩ := pair
    obtain ⟨k', x'⟩ := pair'
    obtain ⟨rfl, rfl, hx⟩ := hpair
    exact (Apart.of_push p hx).foldl_push rest
  | tail pair _ ih => exact fun p => ih (p.push pair.1 pair.2)

/-- Once aliases are replaced, the value stands under the path of its key. -/
theorem Apart.applyRenames (h : p.Apart key R p') (renames : Renames) :
    (p.applyRenames renames).Apart (renames.targetOf key) R (p'.applyRenames renames) := by
  rw [applyRenames_eq_ofPairs, applyRenames_eq_ofPairs]
  refine apart_ofPairs (OneApart.map h.pairs ?_)
  intro pair pair' hpair
  exact ⟨congrArg renames.targetOf hpair.1, congrArg renames.targetOf hpair.2.1, hpair.2.2⟩

theorem Apart.expandOrder (h : p.Apart key R p') (hkey : key ≠ orderParam) (renames : Renames) :
    (p.expandOrder renames).Apart key R (p'.expandOrder renames) := by
  unfold Params.expandOrder
  rw [← h.getAll_of_ne hkey.symm]
  split
  · exact h
  · exact h.setAll hkey.symm _

/-- Coercing other keys keeps the difference. -/
theorem Apart.coerceBooleans (h : p.Apart key R p') {names : List String} (hkey : key ∉ names)
    (hq : p.coerceBooleans names = .ok q) :
    ∃ q', p'.coerceBooleans names = .ok q' ∧ q.Apart key R q' := by
  suffices hfold : ∀ (names : List String) (acc acc' : Params), key ∉ names → acc.Apart key R acc' →
      names.foldlM (p.coerceKey ·) acc = .ok q →
      ∃ q', names.foldlM (p'.coerceKey ·) acc' = .ok q' ∧ q.Apart key R q' from hfold names p p' hkey h hq
  intro names
  induction names with
  | nil =>
    intro acc acc' _ hacc hq
    cases hq
    exact ⟨acc', rfl, hacc⟩
  | cons name names ih =>
    intro acc acc' hkey hacc hq
    rw [List.foldlM_cons] at hq ⊢
    obtain ⟨next, hnext, hq⟩ := bind_eq_ok hq
    have hname : name ≠ key := fun hname => hkey (hname ▸ List.mem_cons_self)
    obtain ⟨next', hnext', hapart⟩ : ∃ next', p'.coerceKey acc' name = .ok next' ∧ next.Apart key R next' := by
      unfold coerceKey at hnext ⊢
      rw [← h.getAll_of_ne hname]
      split at hnext
      · cases hnext
        exact ⟨acc', rfl, hacc⟩
      · obtain ⟨coerced, hcoerced, hnext⟩ := bind_eq_ok hnext
        cases hnext
        exact ⟨_, by rw [hcoerced, ok_bind], hacc.setAll hname coerced⟩
    rw [hnext', ok_bind]
    exact ih next next' (fun hmem => hkey (List.mem_cons_of_mem _ hmem)) hapart hq

end Params

/-! ## The stages in front of the search -/

/-- A key that steers nothing: it is no boolean field, and the path that it stands for is no parameter that a
search is steered by. -/
structure Transformer.SteersNothing (t : Transformer) (c : SearchConfig) (key : String) : Prop where
  notBoolean : key ∉ t.booleans
  notSteering : t.renames.targetOf key ∉
    [orderParam, Operator.param, Page.param, Page.sizeParam, c.includeInactiveParam]

section Stages

variable {r : Registry} {c : SearchConfig} {root key : String} {R : Json → Json → Prop} {p p' : Params}

/-- Dates take nothing away but keys that set bounds. -/
theorem Scope.searchDates_apart {s s' : Scope} {renames : Renames} {q : Params} (h : p.Apart key R p')
    (hbound : DateBounds.isBoundKey key = false) (hq : s.searchDates p renames = .ok (s', q)) :
    ∃ q', s.searchDates p' renames = .ok (s', q') ∧ q.Apart key R q' := by
  have hfree : ∀ other ∈ [key], DateBounds.isBoundKey other = false := by simpa using hbound
  have hbounds : DateBounds.ofParams p = DateBounds.ofParams p' := by
    rw [← DateBounds.ofParams_without hfree p, h.without_self, DateBounds.ofParams_without hfree]
  have hkey : key ∉ p.keys.filter DateBounds.isBoundKey := by
    rw [List.mem_filter, hbound]
    exact fun hmem => Bool.false_ne_true hmem.2
  have hremaining := h.without hkey
  unfold Scope.searchDates at hq ⊢
  rw [← hbounds, ← h.keys]
  obtain ⟨bounds, hfound, hq⟩ := bind_eq_ok hq
  rw [hfound, ok_bind]
  cases hfield : bounds.field with
  | none =>
    simp only [hfield] at hq
    cases hq
    exact ⟨p', rfl, h⟩
  | some field =>
    simp only [hfield] at hq
    obtain ⟨path, hpath, hq⟩ := bind_eq_ok hq
    obtain ⟨lookup?, hlookup, hq⟩ := bind_eq_ok hq
    dsimp only
    rw [hpath, ok_bind, hlookup, ok_bind]
    cases lookup? with
    | none =>
      cases hq
      exact ⟨_, rfl, hremaining⟩
    | some lookup =>
      obtain ⟨narrowed, hnarrowed, hq⟩ := bind_eq_ok hq
      cases hq
      exact ⟨_, by dsimp only; rw [hnarrowed, ok_bind], hremaining⟩

/-- No key comes twice among the parameters that are left to search. -/
theorem Narrowed.nodup_params {n : Narrowed} (h : Narrowed.ofParams r c root p = .ok n) :
    n.params.keys.Nodup := by
  obtain ⟨t, transformed, coerced, scope, _, htransformed, hcoerced, _, hdates, _⟩ := ofParams_eq_ok h
  obtain ⟨typed, _, rfl⟩ := process_eq_ok htransformed
  have hnodup : coerced.keys.Nodup := by
    rw [(Params.coerced_coerceBooleans hcoerced).keys, Params.keys_expandOrder, Params.applyRenames_eq_ofPairs]
    exact Params.nodup_keys_ofPairs _
  rw [Scope.remaining_searchDates hdates, Params.keys_without]
  exact hnodup.filter _

/-- A search is narrowed the same way, and what is left to search agrees but for the value. -/
theorem Narrowed.exists_apart {t : Transformer} {n : Narrowed} (ht : Transformer.ofRoot r root = .ok t)
    (hsteers : t.SteersNothing c key) (hbound : DateBounds.isBoundKey (t.renames.targetOf key) = false)
    (h : p.Apart key R p') (hn : Narrowed.ofParams r c root p = .ok n) :
    ∃ q', Narrowed.ofParams r c root p' = .ok { n with params := q' }
      ∧ n.params.Apart (t.renames.targetOf key) R q' := by
  obtain ⟨hboolean, hsteering⟩ := hsteers
  simp only [List.mem_cons, List.not_mem_nil, or_false, not_or] at hsteering
  obtain ⟨horder, _, _, _, hparam⟩ := hsteering
  obtain ⟨t', transformed, coerced, scope, ht', htransformed, hcoerced, hscope, hdates, hinactive⟩ :=
    ofParams_eq_ok hn
  cases ht'.symm.trans ht
  obtain ⟨typed, htyped, rfl⟩ := process_eq_ok htransformed
  obtain ⟨typed', htyped', htypedApart⟩ := h.coerceBooleans hboolean htyped
  have htransformedApart := (htypedApart.applyRenames t.renames).expandOrder horder t.renames
  obtain ⟨coerced', hcoerced', hcoercedApart⟩ := htransformedApart.coerceBooleans
    (fun hmem => hparam (List.mem_singleton.mp hmem)) hcoerced
  obtain ⟨q', hdates', hapart⟩ := Scope.searchDates_apart hcoercedApart hbound hdates
  have hasks : Prepared.asksForInactive c coerced' = n.inactive := by
    rw [hinactive, Prepared.asksForInactive, Prepared.asksForInactive, Params.getText?, Params.getText?,
      Params.get?, Params.get?, hcoercedApart.getAll_of_ne (Ne.symm hparam)]
  refine ⟨q', ?_, hapart⟩
  unfold Narrowed.ofParams Transformer.process
  rw [ht, ok_bind, htyped', ok_bind, ok_bind, hcoerced', ok_bind, hscope, ok_bind, hdates', ok_bind, hasks]

end Stages

/-! ## What the search reads -/

/-- The operation of an operator that searches all parameters as one tree. -/
def Operator.outer? : Operator → Option Operation
  | .and => some .and
  | .or => some .or
  | .not => some .not
  | .oneOf | .advanced => none

theorem Operator.tree?_of_outer? {operator : Operator} {operation : Operation}
    (h : operator.outer? = some operation) : operator.tree? = some (outerExpression operation) := by
  cases operator <;> cases h <;> rfl

/-- Two values of a key from which a search reads the same but for the value of one field: the values
themselves in a plain search, values or nodes of a tree under an outer operation, and nodes that may be
written as text in an advanced search. -/
inductive Json.Replaces (requested : Option (Except SearchError Operator)) (key field : String)
    (kind : PatternKind) (value value' : String) : Json → Json → Prop
  | plain {x x' : Json} (hsearch : requested = none) (hkey : key = field)
    (h : x.Retyped field kind value value' x') : Replaces requested key field kind value value' x x'
  | value {x x' : Json} {operator : Operator} (hsearch : requested = some (.ok operator))
    (houter : operator.outer?.isSome = true) (hkey : key = field) (hfield : Operation.ofKey? field = none)
    (h : x.ValueSwap field kind value value' x') : Replaces requested key field kind value value' x x'
  | node {x x' : Json} {operator : Operator} (hsearch : requested = some (.ok operator))
    (houter : operator.outer?.isSome = true) (hkey : (Operation.ofKey? key).isSome = true)
    (h : x.NodeSwap field kind value value' x') : Replaces requested key field kind value value' x x'
  | element {x x' node node' : Json} (hsearch : requested = some (.ok .advanced))
    (hkey : (Operation.ofKey? key).isSome = true) (hx : Operator.decodeElement x = .ok node)
    (hx' : Operator.decodeElement x' = .ok node') (h : node.NodeSwap field kind value value' node') :
    Replaces requested key field kind value value' x x'

section Search

variable {r : Registry} {c : SearchConfig} {root key field value value' : String} {kind : PatternKind}
  {p p' : Params}

/-- Parameters as a node, around the one value. -/
theorem Operator.exists_nodeOf {R : Json → Json → Prop} (h : p.Apart key R p') :
    ∃ before after front back x x', R x x'
      ∧ nodeOf p = .object (before ++ (key, .list (front ++ x :: back)) :: after)
      ∧ nodeOf p' = .object (before ++ (key, .list (front ++ x' :: back)) :: after) := by
  obtain ⟨before, ⟨k, values⟩, ⟨k', values'⟩, after, hp, hp', hk, hk', hvalues⟩ := OneApart.iff_exists.mp h
  obtain ⟨front, x, x', back, hfront, hfront', hx⟩ := OneApart.iff_exists.mp hvalues
  dsimp only at hk hk' hfront hfront'
  subst hk hk' hfront hfront'
  have hnode : ∀ q : Params, nodeOf q = .object (q.entries.map fun entry => (entry.1, .list entry.2)) :=
    fun _ => rfl
  refine ⟨before.map fun entry => (entry.1, .list entry.2), after.map fun entry => (entry.1, .list entry.2),
    front, back, x, x', hx, ?_, ?_⟩
  · rw [hnode, hp, List.map_append, List.map_cons]
  · rw [hnode, hp', List.map_append, List.map_cons]

theorem Operator.swap_nodeOf_value (hfield : Operation.ofKey? field = none)
    (h : p.Apart field (Json.ValueSwap field kind value value') p') :
    (nodeOf p).NodeSwap field kind value value' (nodeOf p') := by
  obtain ⟨before, after, front, back, x, x', hx, hp, hp'⟩ := exists_nodeOf h
  rw [hp, hp']
  exact .field before after hfield (.list front back hx)

theorem Operator.swap_nodeOf_node (hkey : (Operation.ofKey? key).isSome = true)
    (h : p.Apart key (Json.NodeSwap field kind value value') p') :
    (nodeOf p).NodeSwap field kind value value' (nodeOf p') := by
  obtain ⟨before, after, front, back, x, x', hx, hp, hp'⟩ := exists_nodeOf h
  rw [hp, hp']
  exact .operation before after hkey (.item front back hx)

/-- The tree of an outer operation. -/
theorem Operator.swap_outerExpression {operation : Operation} {e : Expression}
    (h : (nodeOf p).NodeSwap field kind value value' (nodeOf p')) (he : outerExpression operation p = .ok e) :
    ∃ e', outerExpression operation p' = .ok e' ∧ e.Swap field kind value value' e' := by
  obtain ⟨es, hes, he⟩ := bind_eq_ok he
  cases he
  obtain ⟨es', hes', happart⟩ := h.children hes
  exact ⟨_, by rw [outerExpression, hes', ok_bind], .of_children happart operation⟩

/-- The tree of an advanced search. -/
theorem Operator.swap_advancedExpression {R : Json → Json → Prop} {e : Expression}
    (hkey : (Operation.ofKey? key).isSome = true)
    (hread : ∀ x x', R x x' → ∀ node, decodeElement x = .ok node →
      ∃ node', decodeElement x' = .ok node' ∧ node.NodeSwap field kind value value' node')
    (hnodup : p.keys.Nodup) (h : p.Apart key R p') (he : advancedExpression p = .ok e) :
    ∃ e', advancedExpression p' = .ok e' ∧ e.Swap field kind value value' e' := by
  have hvalues := h.getAll_self hnodup
  have hmem : key ∈ p.keys.filter (Operation.ofKey? · |>.isSome) := by
    refine List.mem_filter.mpr ⟨Params.mem_keys_of_getAll hvalues.ne_nil.1, hkey⟩
  unfold advancedExpression at he ⊢
  rw [← h.keys]
  generalize p.keys.filter (Operation.ofKey? · |>.isSome) = keys at he hmem
  -- the one key that names an operation is the one that carries the value
  match keys, he, hmem with
  | [single], he, hmem =>
    obtain rfl := List.mem_singleton.mp hmem
    dsimp only at he ⊢
    obtain ⟨nodes, hnodes, he⟩ := bind_eq_ok he
    obtain ⟨es, hes, he⟩ := bind_eq_ok he
    obtain ⟨nodes', hnodes', hnodesApart⟩ := hvalues.mapM hread hnodes
    rw [Expression.children, Expression.childrenOfItems_eq_gather] at hes
    obtain ⟨es', hes', happart⟩ := hnodesApart.gather (fun _ _ hnode _ => hnode.children) hes
    obtain ⟨operation, hoperation⟩ := Option.isSome_iff_exists.mp hkey
    rw [hnodes', ok_bind, Expression.children, Expression.childrenOfItems_eq_gather, hes', ok_bind]
    rw [hoperation] at he ⊢
    cases he
    exact ⟨_, rfl, .of_children happart operation⟩

/-- Scopes of one entity whose conditions differ in a pattern. -/
structure Scope.Swapped (pattern pattern' : String) (s s' : Scope) : Prop where
  registry : s'.registry = s.registry
  root : s'.root = s.root
  activeOnly : s'.activeOnly = s.activeOnly
  base : s.base.Swap pattern pattern' s'.base

theorem Scope.swapped_filter {target : Target} {s searched : Scope} {q q' : Predicate}
    (htarget : s.registry.resolve s.root.name field = .ok target) (htext : target.kind = .text)
    (h : q.Swap field kind value value' q') (hs : s.filter q = .ok searched) :
    ∃ searched', s.filter q' = .ok searched'
      ∧ searched.Swapped (kind.pattern value) (kind.pattern value') searched' := by
  obtain ⟨c, hc, rfl⟩ := filter_eq_ok hs
  obtain ⟨c', hc', hswap⟩ := h.compile htarget htext hc
  refine ⟨{ s with predicates := s.predicates ++ [q'], base := s.base.and c' }, ?_, rfl, rfl, rfl,
    .and_right s.base hswap⟩
  rw [Scope.filter, hc', ok_bind]

/-- The mark of a scope adds the same to both conditions. -/
theorem Scope.Swapped.condition {pattern pattern' : String} {s s' : Scope} (h : s.Swapped pattern pattern' s') :
    s.condition.Swap pattern pattern' s'.condition := by
  unfold Scope.condition hasActiveFlag activeCondition
  rw [h.root, h.activeOnly]
  split
  · exact h.base.and_left _
  · exact h.base

theorem Scope.Swapped.marked {pattern pattern' : String} {s s' : Scope} (h : s.Swapped pattern pattern' s')
    (inactive : Bool) : (s.marked inactive).Swapped pattern pattern' (s'.marked inactive) := by
  rw [marked_eq, marked_eq]
  exact ⟨h.registry, h.root, rfl, h.base⟩

variable {s searched : Scope} {target : Target} {excluded : List String}

/-- A plain search demands a term for each value. -/
theorem Scope.exists_searchTerms (htarget : s.registry.resolve s.root.name field = .ok target)
    (htext : target.kind = .text) (hfield : field ∉ excluded)
    (h : p.Apart field (Json.Retyped field kind value value') p')
    (hs : s.searchTerms p excluded = .ok searched) :
    ∃ searched', s.searchTerms p' excluded = .ok searched'
      ∧ searched.Swapped (kind.pattern value) (kind.pattern value') searched' := by
  have hterms : Params.PairsApart field (Json.Retyped field kind value value') (p.terms excluded)
      (p'.terms excluded) := (h.without hfield).pairs
  have hread : ∀ pair pair' : String × Json, pair.1 = field ∧ pair'.1 = field
      ∧ pair.2.Retyped field kind value value' pair'.2 → ∀ q, Predicate.ofTerm pair.1 pair.2 = .ok q →
      ∃ q', Predicate.ofTerm pair'.1 pair'.2 = .ok q' ∧ q.Swap field kind value value' q' := by
    rintro pair pair' ⟨hk, hk', hx⟩ q hq
    rw [hk] at hq
    rw [hk']
    exact hx.ofTerm hq
  obtain ⟨ps, hps, hs⟩ := searchTerms_eq_ok hs
  obtain ⟨ps', hps', happart⟩ := OneApart.mapM hterms hread hps
  obtain ⟨q, q', (hq : Predicate.all? ps = some q), (hq' : Predicate.all? ps' = some q'), hswap⟩ :=
    Predicate.Swap.joinAll? .all happart
  rw [hq] at hs
  obtain ⟨searched', hsearched', hswapped⟩ := Scope.swapped_filter htarget htext hswap hs
  refine ⟨searched', ?_, hswapped⟩
  have hmade : p'.termPredicates excluded = .ok ps' := hps'
  rw [searchTerms_eq, hmade, ok_bind, hq']
  exact hsearched'

/-- A search by an operator demands what its tree says. -/
theorem Scope.exists_searchOperator {operator : Operator} {tree : Params → Except SearchError Expression}
    {R : Json → Json → Prop} (htarget : s.registry.resolve s.root.name field = .ok target)
    (htext : target.kind = .text) (htree : operator.tree? = some tree) (hkey : key ∉ excluded)
    (h : p.Apart key R p')
    (hread : ∀ {q q' : Params}, q.Apart key R q' → q.keys.Nodup → ∀ {e}, tree q = .ok e →
      ∃ e', tree q' = .ok e' ∧ e.Swap field kind value value' e') (hnodup : p.keys.Nodup)
    (hs : s.searchOperator operator p excluded = .ok searched) :
    ∃ searched', s.searchOperator operator p' excluded = .ok searched'
      ∧ searched.Swapped (kind.pattern value) (kind.pattern value') searched' := by
  have hleft := h.without hkey
  have hempty : (p.without excluded).entries.isEmpty = false := List.isEmpty_eq_false_iff.mpr hleft.ne_nil.1
  have hempty' : (p'.without excluded).entries.isEmpty = false := List.isEmpty_eq_false_iff.mpr hleft.ne_nil.2
  have hnodup : (p.without excluded).keys.Nodup := by
    rw [Params.keys_without]
    exact hnodup.filter _
  simp only [searchOperator, hempty, hempty', Bool.false_eq_true, if_false, Operator.predicate_eq_tree htree]
    at hs ⊢
  split at hs
  · rename_i narrowed hnarrowed
    cases hs
    obtain ⟨q?, hq, hnarrowed⟩ := bind_eq_ok hnarrowed
    obtain ⟨e, he, hq⟩ := bind_eq_ok hq
    obtain ⟨q, hmade, rfl⟩ : ∃ q, e.toPredicate = .ok q ∧ some q = q? := map_eq_ok hq
    obtain ⟨e', he', heSwap⟩ := hread hleft hnodup he
    obtain ⟨q', hmade', hqSwap⟩ := heSwap.toPredicate hmade
    obtain ⟨narrowed', hnarrowed', hswapped⟩ := Scope.swapped_filter htarget htext hqSwap hnarrowed
    refine ⟨narrowed'.restrictToActive, ?_, hswapped.registry, hswapped.root, rfl, hswapped.base⟩
    have hfiltered : ((do (← tree (p'.without excluded)).toPredicate.map some) >>= s.filter?)
        = .ok narrowed' := by
      rw [he', ok_bind, hmade']
      exact hnarrowed'
    rw [hfiltered]
  · cases hs

/-- Whatever the operator: a search that reads one pattern in place of another narrows to a condition that
differs in the pattern. -/
theorem Scope.exists_searchFields (htarget : s.registry.resolve s.root.name field = .ok target)
    (htext : target.kind = .text) (hkey : key ∉ c.searchFilters) (hoperator : key ≠ Operator.param)
    (hnodup : p.keys.Nodup)
    (h : p.Apart key (Json.Replaces (Operator.ofParams? p) key field kind value value') p')
    (hs : Prepared.searchFields c s p = .ok searched) :
    ∃ searched', Prepared.searchFields c s p' = .ok searched'
      ∧ searched.Swapped (kind.pattern value) (kind.pattern value') searched' := by
  have hsame : Operator.ofParams? p' = Operator.ofParams? p := by
    rw [Operator.ofParams?, Operator.ofParams?, Params.get?, Params.get?, h.getAll_of_ne hoperator.symm]
  unfold Prepared.searchFields at hs ⊢
  rw [hsame]
  obtain ⟨x, x', hplace, hone⟩ := h.exists_value
  have hat : ∀ {R : Json → Json → Prop}, R x x' → p.Apart key R p' := by
    intro R hx
    refine hone.mono ?_
    rintro _ _ ⟨rfl, rfl⟩
    exact hx
  cases hplace with
  | plain hsearch hfield h =>
    rw [hsearch] at hs ⊢
    subst hfield
    exact Scope.exists_searchTerms htarget htext hkey (hat h) hs
  | @value operator hsearch houter hfield hfree h =>
    rw [hsearch] at hs ⊢
    subst hfield
    obtain ⟨operation, houter⟩ := Option.isSome_iff_exists.mp houter
    exact Scope.exists_searchOperator htarget htext (Operator.tree?_of_outer? houter) hkey (hat h)
      (fun hq _ _ he => Operator.swap_outerExpression (Operator.swap_nodeOf_value hfree hq) he) hnodup hs
  | @node operator hsearch houter hoperation h =>
    rw [hsearch] at hs ⊢
    obtain ⟨operation, houter⟩ := Option.isSome_iff_exists.mp houter
    exact Scope.exists_searchOperator htarget htext (Operator.tree?_of_outer? houter) hkey (hat h)
      (fun hq _ _ he => Operator.swap_outerExpression (Operator.swap_nodeOf_node hoperation hq) he) hnodup hs
  | @element node node' hsearch hoperation hx hx' h =>
    rw [hsearch] at hs ⊢
    -- the relation of the two values is that of what they are decoded to
    have hread : ∀ y y' : Json, y = x ∧ y' = x' → ∀ found, Operator.decodeElement y = .ok found →
        ∃ found', Operator.decodeElement y' = .ok found' ∧ found.NodeSwap field kind value value' found' := by
      rintro _ _ ⟨rfl, rfl⟩ found hfound
      cases hx.symm.trans hfound
      exact ⟨node', hx', h⟩
    exact Scope.exists_searchOperator htarget htext rfl hkey hone
      (fun hq hkeys _ he => Operator.swap_advancedExpression hoperation hread hkeys hq he) hnodup hs

end Search

/-! ## Whole searches -/

/-- A search that asks for one pattern in place of another is prepared like it, but for the pattern. -/
theorem Prepared.exists_swapped {r : Registry} {c : SearchConfig} {root key field value value' : String}
    {kind : PatternKind} {p p' : Params} {s : Prepared} {t : Transformer} {n : Narrowed} {target : Target}
    (ht : Transformer.ofRoot r root = .ok t) (hn : Narrowed.ofParams r c root p = .ok n)
    (htarget : r.resolve root field = .ok target) (htext : target.kind = .text)
    (hnames : c.namesField (t.renames.targetOf key) = true) (hsteers : t.SteersNothing c key)
    (h : p.Apart key (Json.Replaces (Operator.ofParams? n.params) (t.renames.targetOf key) field kind value
      value') p') (hs : Prepared.ofParams r c root p = .ok s) :
    ∃ s', Prepared.ofParams r c root p' = .ok s' ∧ s'.order = s.order ∧ s'.page = s.page
      ∧ s.scope.Swapped (kind.pattern value) (kind.pattern value') s'.scope := by
  have hsteering := hsteers.notSteering
  simp only [List.mem_cons, List.not_mem_nil, or_false, not_or] at hsteering
  obtain ⟨horder, hoperator, hpage, hsize, _⟩ := hsteering
  obtain ⟨hsearched, hbound⟩ := SearchConfig.namesField_eq_true.mp hnames
  obtain ⟨q', hn', hapart⟩ := Narrowed.exists_apart ht hsteers hbound h hn
  obtain ⟨e, he, hregistry, hroot, _⟩ := Narrowed.scope_of_ofParams hn
  have hresolve : n.scope.registry.resolve n.scope.root.name field = .ok target := by
    rw [hregistry, hroot, Registry.name_of_get? he]
    exact htarget
  rw [Prepared.ofParams_eq, hn, ok_bind] at hs
  rw [Prepared.ofParams_eq, hn', ok_bind]
  obtain ⟨searched, hfields, hs⟩ := bind_eq_ok hs
  obtain ⟨order, hreadOrder, hs⟩ := bind_eq_ok hs
  obtain ⟨page, hreadPage, hs⟩ := bind_eq_ok hs
  cases hs
  obtain ⟨searched', hfields', hswapped⟩ :=
    Scope.exists_searchFields hresolve htext hsearched hoperator (Narrowed.nodup_params hn) hapart hfields
  -- the order and the page are read from other keys
  have hsameOrder : orderText c q' = orderText c n.params := by
    have hout : orderParam ∉ [t.renames.targetOf key] := fun hmem => horder (List.mem_singleton.mp hmem).symm
    rw [← orderText_without hout q', ← hapart.without_self, orderText_without hout]
  have hsamePage : Page.ofParams q' c.defaultPageSize = Page.ofParams n.params c.defaultPageSize := by
    have hout : Page.param ∉ [t.renames.targetOf key] := fun hmem => hpage (List.mem_singleton.mp hmem).symm
    have hout' : Page.sizeParam ∉ [t.renames.targetOf key] := fun hmem =>
      hsize (List.mem_singleton.mp hmem).symm
    rw [← Page.ofParams_without hout hout' q', ← hapart.without_self, Page.ofParams_without hout hout']
  refine ⟨⟨searched'.marked n.inactive, order, page⟩, ?_, rfl, rfl, hswapped.marked n.inactive⟩
  rw [Narrowed.finish, hfields', ok_bind, hsameOrder, hreadOrder, ok_bind, hsamePage, hreadPage, ok_bind]

end SchemaSearch
