import SchemaSearch.Proofs.Search.Narrowing
import SchemaSearch.Proofs.Search.Transformed

/-!
# Active and inactive records

A record that is marked as inactive shows only where its being shown is asked for.  The mark of the scope
is set after every term, date and operator, next to the condition and not inside of it, so no expression
reaches it; it is set by the last value of one parameter.

Main statement: what a prepared search selects, by that value (`selects_iff_asked`).  The value is the
one that is sent, as long as no alias and no rewriting of the order makes another one of it.
-/

namespace SchemaSearch

open Query Schema Store

/-! ## The mark of a prepared scope -/

/-- A key that is no alias stands for itself, and alone if no other key leads to it. -/
theorem Schema.Renames.targetOf_eq_iff {renames : Renames} {keys : List String} {key : String}
    (hnamed : renames.get? key = none) (hleads : ∀ k ∈ keys, renames.get? k ≠ some key) :
    ∀ k ∈ keys, renames.targetOf k = key ↔ k = key := by
  intro k hk
  unfold Renames.targetOf
  constructor
  · intro htarget
    cases hpath : renames.get? k with
    | none =>
      rw [hpath] at htarget
      exact htarget
    | some path =>
      rw [hpath] at htarget
      exact absurd (htarget ▸ hpath) (hleads k hk)
  · rintro rfl
    rw [hnamed]
    rfl

/-- A search is marked by the last value that is sent for the parameter. -/
theorem Narrowed.inactive_eq {r : Registry} {c : SearchConfig} {root : String} {p : Params}
    {n : Narrowed} {renames : Renames} (hrenames : r.renames root = .ok renames)
    (hnamed : renames.get? c.includeInactiveParam = none)
    (hleads : ∀ key ∈ p.keys, renames.get? key ≠ some c.includeInactiveParam)
    (horder : c.includeInactiveParam ≠ orderParam) (hkeys : p.keys.Nodup)
    (h : Narrowed.ofParams r c root p = .ok n) :
    n.inactive = p.lastIsTrue c.includeInactiveParam := by
  obtain ⟨transformer, transformed, coerced, _, htransformer, htransformed, hcoerced, _, _, hinactive⟩ :=
    Narrowed.ofParams_eq_ok h
  obtain ⟨_, _, hsame, _⟩ := Transformer.ofRoot_eq_ok htransformer
  have hself := Renames.targetOf_eq_iff hnamed hleads
  rw [hrenames] at hsame
  cases hsame
  rw [hinactive, asksForInactive_coerced hcoerced]
  exact lastIsTrue_process htransformed hkeys horder hself

/-- A prepared scope is one of its root, is faithful, and is marked at the very end. -/
theorem Prepared.scope_of_ofParams {r : Registry} {c : SearchConfig} {root : String} {p : Params}
    {s : Prepared} (h : Prepared.ofParams r c root p = .ok s) :
    ∃ n e, Narrowed.ofParams r c root p = .ok n ∧ r.get? root = some e ∧ s.scope.registry = r
      ∧ s.scope.root = e ∧ s.scope.Faithful ∧ s.scope.activeOnly = !n.inactive := by
  obtain ⟨n, searched, hn, hsearched, hscope⟩ := Prepared.ofParams_eq_ok h
  obtain ⟨e, he, hregistry, hroot, hfaithful⟩ := Narrowed.scope_of_ofParams hn
  have hextends := (Scope.Extends.searchFields hsearched).trans (.marked searched n.inactive)
  rw [← hscope] at hextends
  refine ⟨n, e, hn, he, hextends.registry.trans hregistry, hextends.root.trans hroot,
    hextends.faithful hfaithful, ?_⟩
  rw [hscope, Scope.marked_eq]

/-! ## What is selected -/

/-- Without a token for true, a search selects active records only: those on which all its predicates
hold.  With one, it selects every record on which they hold. -/
theorem selects_iff_asked {r : Registry} {c : SearchConfig} {root : String} {p : Params} {s : Prepared}
    {e : Entity} {renames : Renames} (hroot : r.get? root = some e)
    (hflag : (e.field? activeField).any (·.kind == .boolean) = true)
    (hrenames : r.renames root = .ok renames)
    (hnamed : renames.get? c.includeInactiveParam = none)
    (hleads : ∀ key ∈ p.keys, renames.get? key ≠ some c.includeInactiveParam)
    (horder : c.includeInactiveParam ≠ orderParam) (hkeys : p.keys.Nodup)
    (h : Prepared.ofParams r c root p = .ok s) (db : Database) (row : Row) :
    (p.lastIsTrue c.includeInactiveParam = false →
      (selects db root s.scope.condition row = true ↔
        (∀ predicate ∈ s.scope.predicates, predicate.holdsOn r root db row = true)
          ∧ row.get activeField = .integer 1))
    ∧ (p.lastIsTrue c.includeInactiveParam = true →
      (selects db root s.scope.condition row = true ↔
        ∀ predicate ∈ s.scope.predicates, predicate.holdsOn r root db row = true)) := by
  obtain ⟨n, e', hn, he, hregistry, hentity, hfaithful, hactive⟩ := Prepared.scope_of_ofParams h
  -- the scope is one of the root that is named
  have hsame : e' = e := Option.some.inj (he.symm.trans hroot)
  have hname : s.scope.root.name = root := by rw [hentity, hsame, Registry.name_of_get? hroot]
  have hmark : s.scope.hasActiveFlag = true := by rw [Scope.hasActiveFlag, hentity, hsame, hflag]
  have hdemands : s.scope.demands db row = true ↔
      ∀ predicate ∈ s.scope.predicates, predicate.holdsOn r root db row = true := by
    rw [Scope.demands, List.all_eq_true, hregistry, hname]
  have hselects : selects db root s.scope.condition row
      = (s.scope.demands db row && s.scope.shows row) := by
    rw [← Scope.selects_condition hfaithful, hname]
  have hinactive := Narrowed.inactive_eq hrenames hnamed hleads horder hkeys hn
  rw [hselects, Bool.and_eq_true, hdemands, Scope.shows, hmark, Bool.and_true, hactive, hinactive,
    Bool.not_not]
  constructor
  · intro hasked
    rw [hasked, Bool.false_or, beq_iff_eq]
  · intro hasked
    rw [hasked, Bool.true_or]
    exact and_iff_left rfl

/-- A search for any of two things, one of them to be retired, still shows no question that is. -/
theorem selects_iff_asked_sample :
    ∃ s, Prepared.ofParams Service.registry .standard "questions"
        (.ofPairs [("operator", .text "OR"), ("title", .text "how to"), ("is_active", .text "no"),
          ("include_inactive", .text "no")]) = .ok s
      ∧ ∀ row ∈ Service.sampleQuestions,
          selects Service.sampleDatabase "questions" s.scope.condition row = true →
            row.get activeField = .integer 1 := by
  obtain ⟨s, hs⟩ : ∃ s, Prepared.ofParams Service.registry .standard "questions"
      (.ofPairs [("operator", .text "OR"), ("title", .text "how to"), ("is_active", .text "no"),
        ("include_inactive", .text "no")]) = .ok s := ⟨_, rfl⟩
  refine ⟨s, hs, ?_⟩
  intro row _ hselected
  have hasked := (selects_iff_asked (e := Service.questions.entity) rfl rfl rfl rfl (by decide)
    (by decide) (by decide) hs Service.sampleDatabase row).1 (by decide)
  exact (hasked.mp hselected).2

/-- What is asked of a search without a token for true, where aliases and keys fulfil a condition. -/
def HidesInactive (side : SearchConfig → Renames → Params → Prop) : Prop :=
  ∀ (r : Registry) (c : SearchConfig) (root : String) (p : Params) (s : Prepared) (e : Entity)
    (renames : Renames) (db : Database), ∀ row ∈ db.rows root, r.get? root = some e →
    (e.field? activeField).any (·.kind == .boolean) = true → r.renames root = .ok renames →
    renames.get? c.includeInactiveParam = none → side c renames p →
    Prepared.ofParams r c root p = .ok s → p.lastIsTrue c.includeInactiveParam = false →
    selects db root s.scope.condition row = true → row.get activeField = .integer 1

/-- A field may be named like the parameter: an alias that leads to it asks for inactive records.  And
where the parameter is the order, an alias inside of its value may make a token of it. -/
theorem not_hidesInactive :
    ¬ HidesInactive (fun c _ _ => c.includeInactiveParam ≠ orderParam)
    ∧ ¬ HidesInactive fun c renames p => ∀ key ∈ p.keys, renames.get? key ≠ some c.includeInactiveParam := by
  constructor
  · intro h
    have hrow := h (.ofEntities [⟨"notes", [⟨"include_inactive", .boolean⟩, ⟨"is_active", .boolean⟩,
        ⟨"created_at", .dateTime⟩], [], .ofPairs [("all", "include_inactive")]⟩]) .standard "notes"
      (.ofPairs [("all", .text "1")]) _ _ _ ⟨[("notes", [⟨[("is_active", .integer 0)]⟩])]⟩ _
      List.mem_cons_self rfl rfl rfl rfl (by decide) rfl rfl rfl
    revert hrow
    decide
  · intro h
    have hrow := h (.ofEntities [⟨"notes", [⟨"1", .text⟩, ⟨"t", .text⟩, ⟨"is_active", .boolean⟩], [],
        .ofPairs [("f", "t")]⟩]) { SearchConfig.standard with includeInactiveParam := orderParam } "notes"
      (.ofPairs [("order_by", .text "f")]) _ _ _ ⟨[("notes", [⟨[("is_active", .integer 0)]⟩])]⟩ _
      List.mem_cons_self rfl rfl rfl rfl (by decide) rfl rfl rfl
    revert hrow
    decide

end SchemaSearch
