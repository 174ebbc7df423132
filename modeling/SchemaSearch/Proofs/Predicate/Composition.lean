import SchemaSearch.Proofs.Search.Fields
import SchemaSearch.Proofs.Search.Narrowing

/-!
# How predicates compose

AND and OR take in the items of what is of their own kind, and NOT takes a NOT away.  So brackets do not
matter, a whole list becomes one node, and nothing that is made of fields by these operations holds a node
right below another of its kind.

Main statements: the laws of the operations, and the normal form of all that they build
(`Predicate.composition_normalises`); a search demands nothing else (`Prepared.isNormal_demanded`).
-/

namespace SchemaSearch

open Query Schema

namespace Predicate

/-! ## The normal form -/

/-- A tree in which every AND and OR has at least two children, and no node is a child of one of its kind. -/
inductive IsNormal : Predicate → Prop
  | field (path : String) (lookup : Lookup) : IsNormal (.field path lookup)
  | and {items : List Predicate} (several : 2 ≤ items.length) (normal : ∀ p ∈ items, IsNormal p)
    (apart : ∀ p ∈ items, ∀ nested, p ≠ .and nested) : IsNormal (.and items)
  | or {items : List Predicate} (several : 2 ≤ items.length) (normal : ∀ p ∈ items, IsNormal p)
    (apart : ∀ p ∈ items, ∀ nested, p ≠ .or nested) : IsNormal (.or items)
  | not {inner : Predicate} (normal : IsNormal inner) (apart : ∀ nested, inner ≠ .not nested) :
    IsNormal (.not inner)

theorem isNormal_junction_iff {joint : Joint} {items : List Predicate} :
    (junction joint items).IsNormal
      ↔ 2 ≤ items.length ∧ ∀ p ∈ items, p.IsNormal ∧ ∀ nested, p ≠ junction joint nested := by
  constructor
  · intro h
    cases joint <;> rcases h with _ | ⟨hseveral, hnormal, hapart⟩ | ⟨hseveral, hnormal, hapart⟩ | _ <;>
      exact ⟨hseveral, fun p hp => ⟨hnormal p hp, hapart p hp⟩⟩
  · rintro ⟨hseveral, hitems⟩
    cases joint
    · exact .and hseveral (fun p hp => (hitems p hp).1) fun p hp => (hitems p hp).2
    · exact .or hseveral (fun p hp => (hitems p hp).1) fun p hp => (hitems p hp).2

namespace IsNormal

variable {joint : Joint} {p q first second : Predicate} {ps rest : List Predicate}

/-- What a predicate in normal form brings is in normal form and no junction of the kind. -/
theorem of_mem_parts (h : p.IsNormal) (hq : q ∈ p.parts joint) :
    q.IsNormal ∧ ∀ nested, q ≠ junction joint nested := by
  rcases parts_cases joint p with ⟨items, rfl⟩ | ⟨hself, hother⟩
  · rw [parts_junction] at hq
    exact (isNormal_junction_iff.mp h).2 q hq
  · rw [hself, List.mem_singleton] at hq
    subst hq
    exact ⟨h, hother⟩

theorem parts_length_pos (joint : Joint) (h : p.IsNormal) : 0 < (p.parts joint).length := by
  rcases parts_cases joint p with ⟨items, rfl⟩ | ⟨hself, _⟩
  · have hseveral := (isNormal_junction_iff.mp h).1
    rw [parts_junction]
    omega
  · simp [hself]

/-- The parts of several predicates make a node in normal form. -/
theorem spliced (joint : Joint) (h : ∀ p ∈ first :: second :: rest, p.IsNormal) :
    (junction joint ((first :: second :: rest).flatMap (parts joint))).IsNormal := by
  refine isNormal_junction_iff.mpr ⟨?_, ?_⟩
  · have hfirst := (h first (by simp)).parts_length_pos joint
    have hsecond := (h second (by simp)).parts_length_pos joint
    simp only [List.flatMap_cons, List.length_append]
    omega
  · intro q hq
    obtain ⟨p, hp, hq⟩ := List.mem_flatMap.mp hq
    exact (h p hp).of_mem_parts hq

theorem join (joint : Joint) (hp : p.IsNormal) (hq : q.IsNormal) : (join joint p q).IsNormal := by
  have h : (junction joint ([p, q].flatMap (parts joint))).IsNormal :=
    spliced joint (List.forall_mem_cons.mpr ⟨hp, List.forall_mem_singleton.mpr hq⟩)
  simpa [Predicate.join] using h

theorem joinAll? (joint : Joint) (hps : ∀ q ∈ ps, q.IsNormal) (h : joinAll? joint ps = some p) :
    p.IsNormal := by
  rcases ps with _ | ⟨first, _ | ⟨second, rest⟩⟩
  · cases joint <;> cases h
  · rw [joinAll?_cons] at h
    cases h
    exact hps first (by simp)
  · rw [joinAll?_several joint (by simp)] at h
    cases h
    exact spliced joint hps

theorem negate (h : p.IsNormal) : p.negate.IsNormal := by
  cases h with
  | field path lookup => exact .not (.field path lookup) nofun
  | and several normal apart => exact .not (.and several normal apart) nofun
  | or several normal apart => exact .not (.or several normal apart) nofun
  | not normal _ => exact normal

/-- Where no NOT stands below a NOT, negating twice changes nothing. -/
theorem negate_negate (h : p.IsNormal) : p.negate.negate = p := by
  rcases negate_eq p with ⟨inner, rfl, hnegate⟩ | hnegate
  · rcases h with _ | _ | _ | ⟨_, hapart⟩
    rcases negate_eq inner with ⟨nested, rfl, _⟩ | hagain
    · exact absurd rfl (hapart nested)
    · rw [hnegate, hagain]
  · rw [hnegate]
    rfl

end IsNormal

/-! ## What the operations build -/

/-- The predicates that come about from fields by the operations, and from expressions. -/
inductive IsComposed : Predicate → Prop
  | field (path : String) (lookup : Lookup) : IsComposed (.field path lookup)
  | both {p q : Predicate} (hp : IsComposed p) (hq : IsComposed q) : IsComposed (p.both q)
  | either {p q : Predicate} (hp : IsComposed p) (hq : IsComposed q) : IsComposed (p.either q)
  | negate {p : Predicate} (hp : IsComposed p) : IsComposed p.negate
  | all {ps : List Predicate} {p : Predicate} (hps : ∀ q ∈ ps, IsComposed q) (h : all? ps = some p) :
    IsComposed p
  | any {ps : List Predicate} {p : Predicate} (hps : ∀ q ∈ ps, IsComposed q) (h : any? ps = some p) :
    IsComposed p
  | expression {e : Expression} {p : Predicate} (h : e.toPredicate = .ok p) : IsComposed p

end Predicate

namespace Expression

/-- An operation combines predicates in normal form to one. -/
theorem isNormal_combine {operation : Operation} {ps : List Predicate} {p : Predicate}
    (hps : ∀ q ∈ ps, q.IsNormal) (h : combine operation ps = some p) : p.IsNormal := by
  cases operation with
  | and => exact .joinAll? .all hps h
  | or => exact .joinAll? .any hps h
  | not =>
    obtain ⟨q, hq, rfl⟩ := Option.map_eq_some_iff.mp h
    exact .negate (.joinAll? .any hps hq)

mutual

/-- By induction on an expression: its predicate is in normal form. -/
theorem isNormal_toPredicate : ∀ (e : Expression) {p : Predicate}, e.toPredicate = .ok p → p.IsNormal
  | .term field value, p, h => by
    obtain ⟨lookup, _, rfl⟩ := Predicate.ofTerm_eq_ok h
    exact .field field lookup
  | .node operation es, p, h => by
    obtain ⟨_, ps, hps, hcombine⟩ := toPredicate_node_eq_ok h
    exact isNormal_combine (isNormal_toPredicates es hps) hcombine

theorem isNormal_toPredicates : ∀ (es : List Expression) {ps : List Predicate},
    toPredicates es = .ok ps → ∀ p ∈ ps, p.IsNormal
  | [], ps, h => by
    cases h
    simp
  | e :: es, ps, h => by
    rw [toPredicates] at h
    obtain ⟨p, hp, h⟩ := bind_eq_ok h
    obtain ⟨qs, hqs, h⟩ := bind_eq_ok h
    cases h
    exact List.forall_mem_cons.mpr ⟨isNormal_toPredicate e hp, isNormal_toPredicates es hqs⟩

end

end Expression

namespace Predicate

/-- By induction on how a predicate comes about. -/
theorem IsComposed.isNormal {p : Predicate} (h : p.IsComposed) : p.IsNormal := by
  induction h with
  | field path lookup => exact .field path lookup
  | both _ _ hp hq => exact hp.join .all hq
  | either _ _ hp hq => exact hp.join .any hq
  | negate _ hp => exact hp.negate
  | all _ h hps => exact .joinAll? .all hps h
  | any _ h hps => exact .joinAll? .any hps h
  | expression h => exact Expression.isNormal_toPredicate _ h

/-- AND and OR are associative as trees.  Of a list they make its only predicate, or the one node that lists
its predicates with the items of those of its kind in their place.  All that is built from fields is in
normal form, where negating twice changes nothing. -/
theorem composition_normalises (a b c first second : Predicate) (rest : List Predicate) {p : Predicate}
    (hp : p.IsComposed) :
    ((a.both b).both c = a.both (b.both c) ∧ (a.either b).either c = a.either (b.either c))
      ∧ (all? [first] = some first
        ∧ all? (first :: second :: rest) = some (.and ((first :: second :: rest).flatMap conjuncts)))
      ∧ (any? [first] = some first
        ∧ any? (first :: second :: rest) = some (.or ((first :: second :: rest).flatMap disjuncts)))
      ∧ p.IsNormal ∧ p.negate.negate = p := by
  have hnormal := hp.isNormal
  have hseveral : 2 ≤ (first :: second :: rest).length := by simp
  refine ⟨⟨?_, ?_⟩, ⟨rfl, ?_⟩, ⟨rfl, ?_⟩, hnormal, hnormal.negate_negate⟩
  · exact join_assoc .all a b c
  · exact join_assoc .any a b c
  · exact joinAll?_several .all hseveral
  · exact joinAll?_several .any hseveral

/-- Titles that start with a text. -/
def titled (start : String) : Predicate := .field "title" (.startsWith start)

/-- All titles but some, with an OR inside of the one that a NOT stands for. -/
def allButSome : Expression :=
  .node .not [.term "title" (.text "a"), .node .or [.term "title" (.text "b"), .term "title" (.text "c")]]

theorem composition_normalises_sample :
    allButSome.toPredicate = .ok (.not (.or [titled "a", titled "b", titled "c"]))
      ∧ (Predicate.or [titled "a", titled "b", titled "c", titled "d"]).IsNormal
      ∧ (titled "a").both ((titled "b").both (titled "c")) = .and [titled "a", titled "b", titled "c"] := by
  have hmade : allButSome.toPredicate = .ok (.not (.or [titled "a", titled "b", titled "c"])) := rfl
  have hcomposed : (Predicate.not (.or [titled "a", titled "b", titled "c"])).negate.either (titled "d")
      |>.IsComposed := .either (.negate (.expression hmade)) (.field "title" (.startsWith "d"))
  obtain ⟨⟨hassoc, _⟩, _, _, hnormal, _⟩ :=
    composition_normalises (titled "a") (titled "b") (titled "c") (titled "a") (titled "b") [] hcomposed
  exact ⟨hmade, hnormal, hassoc.symm⟩

end Predicate

/-! ## What a search demands -/

/-- What an operator makes of parameters is composed. -/
theorem Operator.isComposed_predicate {operator : Operator} {p : Params} {demanded : Option Predicate}
    (h : operator.predicate p = .ok demanded) : ∀ q ∈ demanded, q.IsComposed := by
  have htree : ∀ {tree : Except SearchError Expression},
      (tree >>= fun e => e.toPredicate.map some) = .ok demanded → ∀ q ∈ demanded, q.IsComposed := by
    intro tree h q hq
    obtain ⟨made, hmade, rfl⟩ := predicate_eq_ok h
    obtain ⟨e, _, hmade⟩ := bind_eq_ok hmade
    cases hq
    exact .expression hmade
  cases operator with
  | oneOf =>
    change membershipPredicate p = .ok demanded at h
    unfold membershipPredicate at h
    split at h
    · cases h
      nofun
    · obtain ⟨texts, _, h⟩ := bind_eq_ok h
      cases h
      rintro q ⟨⟩
      exact .field _ _
  | and | or | not | advanced => exact htree h

/-- The predicates of terms are fields. -/
theorem Params.isComposed_termPredicates {p : Params} {excluded : List String} {ps : List Predicate}
    (h : p.termPredicates excluded = .ok ps) : ∀ q ∈ ps, q.IsComposed := by
  intro q hq
  obtain ⟨_, _, hmade⟩ := exists_mem_of_mapM h hq
  obtain ⟨lookup, _, rfl⟩ := Predicate.ofTerm_eq_ok hmade
  exact .field _ lookup

/-- All that a scope demands is composed. -/
def Scope.Composed (s : Scope) : Prop := ∀ p ∈ s.predicates, p.IsComposed

namespace Scope.Composed

variable {s s' : Scope} {p p' : Params}

theorem filter? (hs : s.Composed) {demanded : Option Predicate} (hdemanded : ∀ q ∈ demanded, q.IsComposed)
    (h : s.filter? demanded = .ok s') : s'.Composed := by
  cases demanded with
  | none =>
    cases h
    exact hs
  | some q =>
    obtain ⟨c, _, rfl⟩ := filter_eq_ok h
    exact List.forall_mem_append.mpr ⟨hs, List.forall_mem_singleton.mpr (hdemanded q rfl)⟩

theorem searchDates (hs : s.Composed) {renames : Renames} (h : s.searchDates p renames = .ok (s', p')) :
    s'.Composed := by
  obtain ⟨demanded, hfilter, hfield⟩ := filter?_of_searchDates h
  refine hs.filter? ?_ hfilter
  intro q hq
  obtain ⟨path, lookup, rfl⟩ := hfield q hq
  exact .field path lookup

theorem searchFields (hs : s.Composed) {c : SearchConfig} (h : Prepared.searchFields c s p = .ok s') :
    s'.Composed := by
  unfold Prepared.searchFields at h
  split at h
  · obtain ⟨operator, _, h⟩ := bind_eq_ok h
    obtain ⟨_, rfl⟩ | ⟨_, narrowed, hdemanded, hfilter, rfl⟩ := searchOperator_eq_ok h
    · exact hs
    · have hnarrowed : narrowed.Composed := hs.filter? (Operator.isComposed_predicate hdemanded) hfilter
      exact hnarrowed
  · obtain ⟨ps, hps, hfilter⟩ := searchTerms_eq_ok h
    exact hs.filter? (fun q hq => .all (Params.isComposed_termPredicates hps) hq) hfilter

end Scope.Composed

/-- Whatever is asked, each predicate that the search demands is in normal form. -/
theorem Prepared.isNormal_demanded {r : Registry} {c : SearchConfig} {root : String} {p : Params} {s : Prepared}
    (h : Prepared.ofParams r c root p = .ok s) : ∀ q ∈ s.scope.predicates, q.IsNormal := by
  obtain ⟨n, searched, hn, hsearched, hscope⟩ := Prepared.ofParams_eq_ok h
  obtain ⟨_, _, _, scope, _, _, _, hofRoot, hdates, _⟩ := Narrowed.ofParams_eq_ok hn
  obtain ⟨e, _, rfl⟩ := Scope.ofRoot_eq_ok hofRoot
  have hroot : (Scope.ofEntity r e).Composed := List.forall_mem_nil _
  have hcomposed : searched.Composed := (hroot.searchDates hdates).searchFields hsearched
  rw [hscope, Scope.marked_eq]
  exact fun q hq => (hcomposed q hq).isNormal

end SchemaSearch
