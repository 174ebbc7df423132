import SchemaSearch.Predicate.Compile
import SchemaSearch.Proofs.Predicate.Junctions
import SchemaSearch.Proofs.Query.Differences

/-!
# Patterns that are replaced

A value that a text has to start with, or to contain, becomes the pattern of one test.  Another value of the
same kind in its place leaves the condition as it is but for that pattern, however deep the field stands in a
predicate, and however many hops its path has: a pattern never counts a missing row, and never says of which
form a condition is.

Main statement: predicates that differ in the value of one field compile to conditions that differ in its
pattern (`Predicate.Swap.compile`).
-/

namespace SchemaSearch

open Query Schema

/-! ## Conditions -/

namespace Query.Condition

variable {pattern pattern' : String} {c c' extra extra' : Condition} {cs cs' : List Condition}

theorem Swap.of_items (h : OneApart (Swap pattern pattern') cs cs') (joint : Joint) (negated : Bool) :
    Swap pattern pattern' (.group joint negated cs) (.group joint negated cs') := by
  obtain ⟨before, x, y, after, rfl, rfl, hswap⟩ := OneApart.iff_exists.mp h
  exact .group joint negated before after hswap

theorem Swap.asItem (h : Swap pattern pattern' c c') : Swap pattern pattern' c.asItem c'.asItem := by
  cases h with
  | test operand => exact .test operand
  | within column negated key h => exact .within column negated key h
  | group joint negated before after h =>
    -- a group of one item that is not negated stands for the item, and so does the other one
    cases negated with
    | true => exact .group joint true before after h
    | false =>
      cases before with
      | nil =>
        cases after with
        | nil => exact h
        | cons next after => exact .group joint false [] (next :: after) h
      | cons first before =>
        cases before with
        | nil => exact .group joint false [first] after h
        | cons second before => exact .group joint false (first :: second :: before) after h

theorem Swap.all (h : OneApart (Swap pattern pattern') cs cs') :
    Swap pattern pattern' (Condition.all cs) (Condition.all cs') :=
  .of_items (h.map fun _ _ => Swap.asItem) .all false

theorem Swap.any (h : OneApart (Swap pattern pattern') cs cs') :
    Swap pattern pattern' (Condition.any cs) (Condition.any cs') :=
  .of_items (h.map fun _ _ => Swap.asItem) .any false

theorem Swap.not (h : Swap pattern pattern' c c') : Swap pattern pattern' c.not c'.not :=
  .group .all true [] [] h.asItem

theorem Swap.conjuncts (h : Swap pattern pattern' c c') :
    OneApart (Swap pattern pattern') c.conjuncts c'.conjuncts := by
  cases h with
  | test operand => exact .single (.test operand)
  | within column negated key h => exact .single (.within column negated key h)
  | group joint negated before after h =>
    have hwhole := Swap.group joint negated before after h
    cases joint with
    | any => exact .single hwhole.asItem
    | all =>
      cases negated with
      | true => exact .single hwhole.asItem
      | false => exact .append_left before (.head h after)

theorem Swap.and_left (h : Swap pattern pattern' c c') (extra : Condition) :
    Swap pattern pattern' (c.and extra) (c'.and extra) :=
  .of_items (h.conjuncts.append_right _) .all false

theorem Swap.and_right (c : Condition) (h : Swap pattern pattern' extra extra') :
    Swap pattern pattern' (c.and extra) (c.and extra') :=
  .of_items (.append_left _ (.single h.asItem)) .all false

theorem Swap.merge (c : Condition) (h : Swap pattern pattern' extra extra') :
    Swap pattern pattern' (c.merge extra) (c.merge extra') :=
  .of_items (h.conjuncts.append_left _) .all false

end Query.Condition

/-! ## Hops -/

section Hops

variable {pattern pattern' : String} {rows rows' : Condition}

theorem Schema.Edge.swap_membership (edge : Edge) (column : Column) (negated : Bool)
    (h : rows.Swap pattern pattern' rows') :
    (edge.membership column negated (some rows)).Swap pattern pattern'
      (edge.membership column negated (some rows')) := by
  have htargets := h.merge (Condition.all [.test (.isNotNull ⟨edge.target, edge.remoteColumn⟩)])
  unfold Edge.membership
  cases edge.junction with
  | none => exact .within column negated _ htargets
  | some junction => exact .within column negated _ (.all (.head (.within _ false _ htargets) _))

/-- A hop hands a pattern through. -/
theorem Schema.Hop.swap_condition (hop : Hop) (h : rows.Swap pattern pattern' rows') :
    (hop.condition false rows).Swap pattern pattern' (hop.condition false rows') :=
  .all (.tail _ (.single (hop.edge.swap_membership _ false h)))

end Hops

/-! ## Values -/

/-- The two ways in which a text is compared with a pattern. -/
inductive PatternKind where
  | start | anywhere
  deriving DecidableEq, Repr

namespace PatternKind

/-- The lookup of a value. -/
def lookup : PatternKind → String → Lookup
  | .start => .startsWith
  | .anywhere => .contains

/-- The pattern of a value. -/
def pattern : PatternKind → String → String
  | .start => startPattern
  | .anywhere => containsPattern

/-- On a column of texts, a value becomes the pattern of a test. -/
theorem leafTest (kind : PatternKind) (path : String) (c : Column) (value : String) :
    SchemaSearch.leafTest path .text c (kind.lookup value)
      = .ok (.matchesPattern (.column c) (kind.pattern value)) := by
  cases kind <;> rfl

theorem countsMissing (kind : PatternKind) (value : String) : (kind.lookup value).countsMissing = false := by
  cases kind <;> rfl

theorem isAboutNull (kind : PatternKind) (value : String) : (kind.lookup value).isAboutNull = false := by
  cases kind <;> rfl

/-- The filter of a field on texts, whatever the value. -/
theorem fieldCondition_eq (kind : PatternKind) {path : String} {target : Target} (htext : target.kind = .text)
    (value : String) :
    fieldCondition path target (kind.lookup value)
      = .ok (target.hops.foldr (fun hop rows => hop.condition false rows)
          (.all [.test (.matchesPattern (.column target.last) (kind.pattern value)),
            .test (.isNotNull target.last)])) := by
  unfold fieldCondition leafCondition
  dsimp only
  rw [htext, kind.leafTest, ok_bind, kind.isAboutNull, kind.countsMissing]
  rfl

/-- Values of one kind make filters that differ in their pattern. -/
theorem swap_fieldCondition (kind : PatternKind) {path : String} {target : Target}
    (htext : target.kind = .text) (value value' : String) :
    ∃ c c', fieldCondition path target (kind.lookup value) = .ok c
      ∧ fieldCondition path target (kind.lookup value') = .ok c'
      ∧ c.Swap (kind.pattern value) (kind.pattern value') c' := by
  refine ⟨_, _, kind.fieldCondition_eq htext value, kind.fieldCondition_eq htext value', ?_⟩
  induction target.hops with
  | nil => exact .all (.head (.test _) _)
  | cons hop hops ih => exact hop.swap_condition ih

end PatternKind

/-! ## Predicates -/

namespace Predicate

/-- Two predicates that differ in the value of one field. -/
inductive Swap (path : String) (kind : PatternKind) (value value' : String) : Predicate → Predicate → Prop
  | field : Swap path kind value value' (.field path (kind.lookup value)) (.field path (kind.lookup value'))
  | and (before after : List Predicate) {p p' : Predicate} (h : Swap path kind value value' p p') :
    Swap path kind value value' (.and (before ++ p :: after)) (.and (before ++ p' :: after))
  | or (before after : List Predicate) {p p' : Predicate} (h : Swap path kind value value' p p') :
    Swap path kind value value' (.or (before ++ p :: after)) (.or (before ++ p' :: after))
  | not {p p' : Predicate} (h : Swap path kind value value' p p') :
    Swap path kind value value' (.not p) (.not p')

theorem compileAll_eq_mapM (r : Registry) (root : String) (ps : List Predicate) :
    compileAll r root ps = ps.mapM (compile r root) := by
  induction ps with
  | nil => rfl
  | cons p ps ih =>
    rw [compileAll, List.mapM_cons, ih]
    rfl

variable {r : Registry} {root path : String} {kind : PatternKind} {value value' : String}

section Algebra

variable {p p' : Predicate} {ps ps' : List Predicate}

theorem Swap.of_parts (joint : Joint) (h : OneApart (Swap path kind value value') ps ps') :
    Swap path kind value value' (junction joint ps) (junction joint ps') := by
  obtain ⟨before, x, y, after, rfl, rfl, hswap⟩ := OneApart.iff_exists.mp h
  cases joint with
  | all => exact .and before after hswap
  | any => exact .or before after hswap

theorem Swap.parts (joint : Joint) (h : Swap path kind value value' p p') :
    OneApart (Swap path kind value value') (p.parts joint) (p'.parts joint) := by
  cases joint with
  | all =>
    cases h with
    | field => exact .single .field
    | and before after h => exact .append_left before (.head h after)
    | or before after h => exact .single (.or before after h)
    | not h => exact .single (.not h)
  | any =>
    cases h with
    | field => exact .single .field
    | and before after h => exact .single (.and before after h)
    | or before after h => exact .append_left before (.head h after)
    | not h => exact .single (.not h)

theorem Swap.negate (h : Swap path kind value value' p p') :
    Swap path kind value value' p.negate p'.negate := by
  cases h with
  | field => exact .not .field
  | and before after h => exact .not (.and before after h)
  | or before after h => exact .not (.or before after h)
  | not h => exact h

/-- Lists that differ in one predicate are joined to predicates that differ likewise. -/
theorem Swap.joinAll? (joint : Joint) (h : OneApart (Swap path kind value value') ps ps') :
    ∃ p p', joinAll? joint ps = some p ∧ Predicate.joinAll? joint ps' = some p'
      ∧ Swap path kind value value' p p' := by
  rcases ps with _ | ⟨first, _ | ⟨second, rest⟩⟩
  · exact absurd rfl h.ne_nil.1
  · rcases h with h | ⟨_, h⟩
    · exact ⟨_, _, joinAll?_cons joint _ [], joinAll?_cons joint _ [], h⟩
    · exact absurd rfl h.ne_nil.1
  · have hseveral : 2 ≤ ps'.length := by simp [← h.length_eq]
    exact ⟨_, _, joinAll?_several joint (by simp), joinAll?_several joint hseveral,
      .of_parts joint (h.flatMap fun _ _ => Swap.parts joint)⟩

end Algebra

/-- By induction on where the field stands: predicates that differ in the value of a field on texts compile to
conditions that differ in its pattern. -/
theorem Swap.compile {target : Target} (htarget : r.resolve root path = .ok target)
    (htext : target.kind = .text) {p p' : Predicate} (h : Swap path kind value value' p p') {c : Condition}
    (hc : p.compile r root = .ok c) :
    ∃ c', p'.compile r root = .ok c' ∧ c.Swap (kind.pattern value) (kind.pattern value') c' := by
  have hlist : ∀ (before after : List Predicate) {p p' : Predicate} {cs : List Condition},
      (∀ {c}, p.compile r root = .ok c →
        ∃ c', p'.compile r root = .ok c' ∧ c.Swap (kind.pattern value) (kind.pattern value') c') →
      compileAll r root (before ++ p :: after) = .ok cs →
      ∃ cs', compileAll r root (before ++ p' :: after) = .ok cs'
        ∧ OneApart (Condition.Swap (kind.pattern value) (kind.pattern value')) cs cs' := by
    intro before after p p' cs ih hcs
    rw [compileAll_eq_mapM] at hcs ⊢
    exact OneApart.mapM_place before after ih hcs
  induction h generalizing c with
  | field =>
    rw [Predicate.compile, htarget, ok_bind] at hc ⊢
    obtain ⟨found, found', hfound, hfound', hswap⟩ := kind.swap_fieldCondition htext value value'
    cases hc.symm.trans hfound
    exact ⟨found', hfound', hswap⟩
  | and before after h ih =>
    rw [Predicate.compile] at hc ⊢
    obtain ⟨cs, hcs, hc⟩ := bind_eq_ok hc
    obtain ⟨cs', hcs', hswap⟩ := hlist before after ih hcs
    cases hc
    exact ⟨_, by rw [hcs', ok_bind], .all hswap⟩
  | or before after h ih =>
    rw [Predicate.compile] at hc ⊢
    obtain ⟨cs, hcs, hc⟩ := bind_eq_ok hc
    obtain ⟨cs', hcs', hswap⟩ := hlist before after ih hcs
    cases hc
    exact ⟨_, by rw [hcs', ok_bind], .any hswap⟩
  | not h ih =>
    rw [Predicate.compile] at hc ⊢
    obtain ⟨inner, hinner, hc⟩ := bind_eq_ok hc
    obtain ⟨inner', hinner', hswap⟩ := ih hinner
    cases hc
    exact ⟨_, by rw [hinner', ok_bind], hswap.not⟩

end Predicate

end SchemaSearch
