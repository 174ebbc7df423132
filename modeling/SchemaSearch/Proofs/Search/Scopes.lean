import SchemaSearch.Proofs.Search.Narrowing
import SchemaSearch.Service.Sample

/-!
# Scopes that are reached step by step

A scope keeps its predicates and the condition that they compile to side by side, with the mark for active
records next to both.  Six kinds of step change it, in any order and number; one that fails leaves the scope
that it started from.  Whatever its kind, a step that succeeds demands at most one more predicate and may set
the mark, or it lifts the mark (`Scope.Step.apply_eq_ok`); all else is derived from that.

Main statement: in every scope that is reached the condition selects the rows that its predicates and its
mark ask for, and each step but the one that lifts the mark selects fewer rows
(`reached_condition_mirrors_predicates`).
-/

namespace SchemaSearch

open Query Schema Store

namespace Scope

/-! ## Steps -/

/-- What can be done to a scope. -/
inductive Step where
  /-- Demand one more predicate. -/
  | filter (p : Predicate)
  /-- Search the terms of some parameters. -/
  | searchTerms (p : Params) (excluded : List String)
  /-- Search some parameters by an operator. -/
  | searchOperator (operator : Operator) (p : Params) (filters : List String)
  /-- Search the date bounds of some parameters. -/
  | searchDates (p : Params) (renames : Renames)
  /-- Show active records only. -/
  | restrictToActive
  /-- Show inactive records too. -/
  | includeInactive

/-- The scope that a step comes to, if it succeeds. -/
def Step.apply (s : Scope) : Step → Except SearchError Scope
  | .filter p => s.filter p
  | .searchTerms p excluded => s.searchTerms p excluded
  | .searchOperator operator p filters => s.searchOperator operator p filters
  | .searchDates p renames => do
    let (narrowed, _) ← s.searchDates p renames
    .ok narrowed
  | .restrictToActive => .ok s.restrictToActive
  | .includeInactive => .ok s.includeInactive

/-- The scope behind a step: where the step fails, the scope that it started from. -/
def after (s : Scope) (step : Step) : Scope :=
  match step.apply s with
  | .ok next => next
  | .error _ => s

/-- The scope behind some steps. -/
def run (s : Scope) (steps : List Step) : Scope := steps.foldl after s

/-! ## What a step can do -/

/-- A step that succeeds lifts the mark, or demands at most one more predicate and may set the mark. -/
theorem Step.apply_eq_ok {s s' : Scope} {step : Step} (h : step.apply s = .ok s') :
    step = .includeInactive ∧ s' = s.includeInactive
      ∨ ∃ extra narrowed, s.filter? extra = .ok narrowed
        ∧ (s' = narrowed ∨ s' = narrowed.restrictToActive) := by
  cases step with
  | filter p => exact .inr ⟨some p, s', h, .inl rfl⟩
  | searchTerms p excluded =>
    obtain ⟨_, _, hfilter⟩ := searchTerms_eq_ok h
    exact .inr ⟨_, s', hfilter, .inl rfl⟩
  | searchOperator operator p filters =>
    obtain ⟨_, rfl⟩ | ⟨extra, narrowed, _, hfilter, hmarked⟩ := searchOperator_eq_ok h
    · exact .inr ⟨none, s', rfl, .inl rfl⟩
    · exact .inr ⟨extra, narrowed, hfilter, .inr hmarked⟩
  | searchDates p renames =>
    obtain ⟨⟨narrowed, remaining⟩, hdates, h⟩ := bind_eq_ok h
    cases h
    obtain ⟨extra, hfilter, _⟩ := filter?_of_searchDates hdates
    exact .inr ⟨extra, s', hfilter, .inl rfl⟩
  | restrictToActive =>
    cases h
    exact .inr ⟨none, s, rfl, .inr rfl⟩
  | includeInactive =>
    cases h
    exact .inl ⟨rfl, rfl⟩

/-! ## What every step keeps -/

/-- Every predicate of a scope compiles against its root. -/
def Compiles (s : Scope) : Prop :=
  ∀ p ∈ s.predicates, ∃ c, p.compile s.registry s.root.name = .ok c

theorem Compiles.filter? {s s' : Scope} {extra : Option Predicate} (hs : s.Compiles)
    (h : s.filter? extra = .ok s') : s'.Compiles := by
  cases extra with
  | none =>
    cases h
    exact hs
  | some p =>
    obtain ⟨c, hc, rfl⟩ := filter_eq_ok h
    intro q hq
    rcases List.mem_append.mp hq with hold | hnew
    · exact hs q hold
    · exact ⟨c, List.mem_singleton.mp hnew ▸ hc⟩

/-- What is kept of a scope over a step: it stays a view of the same root, its condition says what its
predicates say, and each of those compiles. -/
structure Keeps (s s' : Scope) : Prop extends Extends s s' where
  compiles : s.Compiles → s'.Compiles

theorem Keeps.refl (s : Scope) : Keeps s s := ⟨.refl s, id⟩

theorem Keeps.trans {s s' s'' : Scope} (h : Keeps s s') (h' : Keeps s' s'') : Keeps s s'' :=
  ⟨h.toExtends.trans h'.toExtends, h'.compiles ∘ h.compiles⟩

theorem Step.keeps {s s' : Scope} {step : Step} (h : step.apply s = .ok s') : Keeps s s' := by
  rcases apply_eq_ok h with ⟨_, rfl⟩ | ⟨extra, narrowed, hfilter, rfl | rfl⟩
  · exact ⟨⟨rfl, rfl, id⟩, id⟩
  · exact ⟨.filter? hfilter, fun hs => hs.filter? hfilter⟩
  · refine ⟨(Extends.filter? hfilter).trans (.restrictToActive narrowed), fun hs => ?_⟩
    -- the mark is no matter of the predicates
    exact (hs.filter? hfilter : narrowed.Compiles)

theorem keeps_after (s : Scope) (step : Step) : Keeps s (s.after step) := by
  unfold after
  split
  · rename_i next hnext
    exact step.keeps hnext
  · exact .refl s

/-- By induction on the steps, a run keeps what each of them keeps. -/
theorem keeps_run (steps : List Step) : ∀ s : Scope, Keeps s (s.run steps) := by
  induction steps with
  | nil => exact .refl
  | cons step steps ih => exact fun s => (keeps_after s step).trans (ih (s.after step))

/-! ## What every step but one narrows -/

/-- Demanding more takes rows away, if any. -/
theorem selects_of_filter? {s s' : Scope} {extra : Option Predicate} (hs : s.Faithful)
    (h : s.filter? extra = .ok s') {db : Database} {row : Row}
    (hrow : selects db s'.root.name s'.condition row = true) :
    selects db s.root.name s.condition row = true := by
  cases extra with
  | none =>
    cases h
    exact hrow
  | some p =>
    rw [selects_condition (faithful_filter hs h)] at hrow
    rw [selects_condition hs]
    obtain ⟨c, _, rfl⟩ := filter_eq_ok h
    rw [Bool.and_eq_true] at hrow ⊢
    refine ⟨?_, hrow.2⟩
    have hall : (s.predicates ++ [p]).all (·.holdsOn s.registry s.root.name db row) = true := hrow.1
    rw [List.all_append, Bool.and_eq_true] at hall
    exact hall.1

/-- So does showing active records only. -/
theorem selects_of_restrictToActive {s : Scope} (hs : s.Faithful) {db : Database} {row : Row}
    (hrow : selects db s.root.name s.restrictToActive.condition row = true) :
    selects db s.root.name s.condition row = true := by
  have hmarked := selects_condition (s := s.restrictToActive) hs db row
  rw [selects_condition hs]
  change selects db s.root.name s.restrictToActive.condition row = _ at hmarked
  rw [hmarked, Bool.and_eq_true] at hrow
  obtain ⟨hdemands, hshows⟩ := hrow
  rw [Bool.and_eq_true]
  refine ⟨hdemands, ?_⟩
  -- a row that shows with the mark set shows with any mark
  change (!(true && s.hasActiveFlag) || row.get activeField == .integer 1) = true at hshows
  unfold shows
  cases s.activeOnly with
  | true => exact hshows
  | false => rfl

theorem Step.selects_of_apply {s s' : Scope} (hs : s.Faithful) {step : Step} (h : step.apply s = .ok s')
    (hstep : step ≠ .includeInactive) {db : Database} {row : Row}
    (hrow : selects db s'.root.name s'.condition row = true) :
    selects db s.root.name s.condition row = true := by
  rcases apply_eq_ok h with ⟨hlift, _⟩ | ⟨extra, narrowed, hfilter, rfl | rfl⟩
  · exact absurd hlift hstep
  · exact selects_of_filter? hs hfilter hrow
  · have hnarrowed := (Extends.filter? hfilter).faithful hs
    exact selects_of_filter? hs hfilter (selects_of_restrictToActive hnarrowed hrow)

/-! ## Scopes of prepared searches -/

theorem after_of_apply {s s' : Scope} {step : Step} (h : step.apply s = .ok s') : s.after step = s' := by
  rw [after, h]

/-- What demanding a predicate keeps, whatever the mark is, every run keeps. -/
theorem run_induction {P : Scope → Prop} (hfilter : ∀ s s' p, P s → s.filter p = .ok s' → P s')
    (hmark : ∀ s active, P s → P { s with activeOnly := active }) :
    ∀ (steps : List Step) {s : Scope}, P s → P (s.run steps)
  | [], _, hs => hs
  | step :: steps, s, hs => by
    refine run_induction hfilter hmark steps (s := s.after step) ?_
    unfold after
    split
    · rename_i next hnext
      have hdemand : ∀ {extra narrowed}, s.filter? extra = .ok narrowed → P narrowed := by
        rintro (_ | p) narrowed h
        · cases h
          exact hs
        · exact hfilter s narrowed p hs h
      rcases Step.apply_eq_ok hnext with ⟨_, rfl⟩ | ⟨extra, narrowed, hnarrowed, rfl | rfl⟩
      · exact hmark s false hs
      · exact hdemand hnarrowed
      · exact hmark narrowed true (hdemand hnarrowed)
    · exact hs

end Scope

/-- The scope of a prepared search is reached from the whole of its root: by the dates, then by an operator
or the terms, then by the mark. -/
theorem Prepared.exists_run {r : Registry} {c : SearchConfig} {root : String} {p : Params} {s : Prepared}
    (h : Prepared.ofParams r c root p = .ok s) :
    ∃ e steps, r.get? root = some e ∧ s.scope = (Scope.ofEntity r e).run steps := by
  obtain ⟨n, searched, hn, hsearched, hscope⟩ := Prepared.ofParams_eq_ok h
  obtain ⟨t, transformed, coerced, scope, _, _, _, hofRoot, hdates, _⟩ := Narrowed.ofParams_eq_ok hn
  obtain ⟨e, hroot, rfl⟩ := Scope.ofRoot_eq_ok hofRoot
  have hdated : Scope.Step.apply (.ofEntity r e) (.searchDates coerced t.renames) = .ok n.scope := by
    rw [Scope.Step.apply, hdates, ok_bind]
  obtain ⟨fields, hfields⟩ : ∃ fields, Scope.Step.apply n.scope fields = .ok searched := by
    unfold Prepared.searchFields at hsearched
    split at hsearched
    · obtain ⟨operator, _, hoperator⟩ := bind_eq_ok hsearched
      exact ⟨.searchOperator operator n.params c.searchFilters, hoperator⟩
    · exact ⟨.searchTerms n.params c.searchFilters, hsearched⟩
  obtain ⟨mark, hmark⟩ : ∃ mark, Scope.Step.apply searched mark = .ok s.scope := by
    rw [hscope, Scope.marked]
    cases n.inactive with
    | true => exact ⟨.includeInactive, rfl⟩
    | false => exact ⟨.restrictToActive, rfl⟩
  refine ⟨e, [.searchDates coerced t.renames, fields, mark], hroot, ?_⟩
  rw [Scope.run, List.foldl_cons, Scope.after_of_apply hdated, List.foldl_cons,
    Scope.after_of_apply hfields, List.foldl_cons, Scope.after_of_apply hmark, List.foldl_nil]

/-- A prepared search is one of its root. -/
theorem Prepared.exists_root {r : Registry} {c : SearchConfig} {root : String} {p : Params} {s : Prepared}
    (h : Prepared.ofParams r c root p = .ok s) :
    ∃ e, r.get? root = some e ∧ s.scope.registry = r ∧ s.scope.root = e := by
  obtain ⟨e, steps, hroot, hscope⟩ := exists_run h
  have hkeeps := Scope.keeps_run steps (.ofEntity r e)
  rw [hscope]
  exact ⟨e, hroot, hkeeps.registry, hkeeps.root⟩

/-! ## Scopes that are reached -/

/-- In every scope that some steps reach from the whole of a root, each predicate compiles, and its own
condition says of every row what the predicate says; the condition of the scope selects the rows on which all
predicates hold and which, if the mark is set and the root has a flag for active records, are active; and a
step that succeeds there selects no row that was not selected, unless it lifts the mark. -/
theorem reached_condition_mirrors_predicates {r : Registry} {root : String} {start : Scope}
    (hstart : Scope.ofRoot r root = .ok start) (steps : List Scope.Step) :
    (∀ p ∈ (start.run steps).predicates, ∃ c, p.compile r root = .ok c
        ∧ ∀ db row, selects db root c row = p.holdsOn r root db row)
      ∧ (∀ db row, selects db root (start.run steps).condition row = true ↔
        (∀ p ∈ (start.run steps).predicates, p.holdsOn r root db row = true)
          ∧ ((start.run steps).activeOnly = true →
            (start.root.field? activeField).any (·.kind == .boolean) = true →
            row.get activeField = .integer 1))
      ∧ ∀ (step : Scope.Step) (next : Scope), step.apply (start.run steps) = .ok next →
        step ≠ .includeInactive → ∀ db row, selects db root next.condition row = true →
          selects db root (start.run steps).condition row = true := by
  have hkeeps := Scope.keeps_run steps start
  have hfaithful := hkeeps.faithful (Scope.faithful_ofRoot hstart)
  obtain ⟨e, he, rfl⟩ := Scope.ofRoot_eq_ok hstart
  have hcompiles := hkeeps.compiles fun p hp => absurd hp List.not_mem_nil
  generalize (Scope.ofEntity r e).run steps = s at hkeeps hfaithful hcompiles ⊢
  -- the scope is one of the root that is named
  have hname : s.root.name = root := by
    rw [hkeeps.root]
    exact Registry.name_of_get? he
  refine ⟨?_, ?_, ?_⟩
  · intro p hp
    obtain ⟨c, hc⟩ := hcompiles p hp
    rw [hkeeps.registry, hname] at hc
    exact ⟨c, hc, fun db row => Predicate.selects_compile hc⟩
  · intro db row
    have hselects := Scope.selects_condition hfaithful db row
    rw [hname] at hselects
    rw [hselects, Bool.and_eq_true, Scope.demands, List.all_eq_true, hkeeps.registry, hname]
    refine and_congr_right fun _ => ?_
    rw [Scope.shows, Scope.hasActiveFlag, hkeeps.root, Bool.or_eq_true, Bool.not_eq_true',
      Bool.and_eq_false_iff, beq_iff_eq]
    cases s.activeOnly <;>
      cases ((Scope.ofEntity r e).root.field? activeField).any (·.kind == .boolean) <;> simp
  · intro step next hnext hstep db row hrow
    have hroot : next.root.name = root := by rw [(Scope.Step.keeps hnext).root, hname]
    rw [← hroot] at hrow
    have hbefore := Scope.Step.selects_of_apply hfaithful hnext hstep hrow
    rwa [hname] at hbefore

/-- Two steps that succeed, about a step that fails: the titles are searched, the mark is set. -/
def billingSteps : List Scope.Step :=
  [.searchTerms (.ofPairs [("topics__title", .text "bill")]) [], .filter (.field "color" (.isNull true)),
    .restrictToActive]

/-- Each question that is selected behind these steps has a topic of that title and is active. -/
theorem reached_condition_mirrors_predicates_sample :
    ∃ start, Scope.ofRoot Service.registry "questions" = .ok start
      ∧ (start.run billingSteps).predicates = [.field "topics__title" (.startsWith "bill")]
      ∧ (∀ row, selects Service.sampleDatabase "questions" (start.run billingSteps).condition row = true →
        Predicate.holdsOn Service.registry "questions" Service.sampleDatabase row
            (.field "topics__title" (.startsWith "bill")) = true
          ∧ row.get activeField = .integer 1) := by
  have hstart : Scope.ofRoot Service.registry "questions"
      = .ok (.ofEntity Service.registry Service.questions.entity) := rfl
  have hpredicates : ((Scope.ofEntity Service.registry Service.questions.entity).run billingSteps).predicates
      = [.field "topics__title" (.startsWith "bill")] := rfl
  refine ⟨_, hstart, hpredicates, fun row hrow => ?_⟩
  obtain ⟨_, hselects, _⟩ := reached_condition_mirrors_predicates hstart billingSteps
  obtain ⟨hholds, hactive⟩ := (hselects _ row).mp hrow
  exact ⟨hholds _ (hpredicates ▸ List.mem_singleton_self _), hactive rfl rfl⟩

end SchemaSearch
