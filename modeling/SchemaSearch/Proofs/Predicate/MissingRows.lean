import SchemaSearch.Proofs.Predicate.Meaning

/-!
# Missing rows

A path that asks for NULL is to be read as a left join: it also matches where there is no related row.
The condition does so at NULL keys, and at owners that no row of the other side names.  It does not at a
key that names a row that is gone, since it takes every key of an owner to name a row.

Main statement: the rows that such a path selects, and the exact condition under which they are those of
the left join (`selects_isNull_iff_leftJoin`).
-/

namespace SchemaSearch

open Query Schema Store

/-! ## Chains and left joins -/

/-- Whether a result of a left join counts: its row is good, or there is none and no key dangles. -/
def Store.Joined.counts (good : Row → Bool) : Joined → Bool
  | .found row => good row
  | .lone hop owner => !(Joined.lone hop owner).dangles

/-- Where missing rows count, a chain holds if some result of the left join counts. -/
theorem chainHolds_true (db : Database) (good : Row → Bool) :
    ∀ (hops : List Hop) (row : Row),
      chainHolds db true good hops row = (leftJoin db hops row).any (Joined.counts good)
  | [], row => by
    rw [chainHolds, leftJoin, List.any_cons, List.any_nil, Bool.or_false]
    rfl
  | hop :: hops, row => by
    rw [chainHolds, Hop.holds, Bool.true_and, leftJoin]
    cases hrelated : hop.edge.related db row with
    | nil =>
      -- a missing row counts, unless a key of the owner's own says that there is one
      show (false || (row.get hop.edge.localColumn == .null || !hop.edge.isForeignKey && true))
        = ((!(hop.edge.isForeignKey && row.get hop.edge.localColumn != .null)) || false)
      rw [Bool.false_or, Bool.and_true, Bool.or_false, Bool.not_and, bne, Bool.not_not, Bool.or_comm]
    | cons found rest =>
      -- only an owner with a key has related rows
      have hkey : (row.get hop.edge.localColumn == .null) = false := by
        rw [beq_eq_false_iff_ne]
        intro hnull
        rw [related_eq_nil hnull] at hrelated
        cases hrelated
      have hhops : (found :: rest).any (chainHolds db true good hops)
          = (found :: rest).any fun row => (leftJoin db hops row).any (Joined.counts good) :=
        congrArg (found :: rest).any (funext (chainHolds_true db good hops))
      rw [hkey, List.isEmpty_cons, Bool.and_false, Bool.or_false, Bool.or_false, hhops]
      exact List.any_flatMap.symm

/-- A result counts for a path that asks for NULL if it shows NULL and no key dangles. -/
theorem counts_isNull (kind : FieldKind) (column : String) (joined : Joined) :
    joined.counts (fun row => (Lookup.isNull true).accepts kind (row.get column))
      = (joined.get column == .null && !joined.dangles) := by
  cases joined with
  | found row =>
    show ((row.get column == .null) == true) = (row.get column == .null && !false)
    rw [beq_true, Bool.not_false, Bool.and_true]
  | lone hop owner => rfl

/-- A dangling result shows NULL. -/
theorem get_of_dangles {joined : Joined} (h : joined.dangles = true) (column : String) :
    joined.get column = .null := by
  cases joined with
  | found row => cases h
  | lone hop owner => rfl

/-! ## Paths that ask for NULL -/

/-- A path that is found compiles for NULL, and selects the rows with a result of the left join that
shows NULL and does not dangle.  So it reads as a left join on exactly those rows where nothing dangles
or something else shows NULL too. -/
theorem selects_isNull_iff_leftJoin {r : Registry} {root path : String} {target : Target}
    (hpath : r.resolve root path = .ok target) :
    ∃ c, (Predicate.field path (.isNull true)).compile r root = .ok c ∧ ∀ db row,
      (selects db root c row = true ↔
        ∃ j ∈ leftJoin db target.hops row, j.get target.column = .null ∧ j.dangles = false)
      ∧ ((selects db root c row = true ↔ ∃ j ∈ leftJoin db target.hops row, j.get target.column = .null)
        ↔ ((∃ j ∈ leftJoin db target.hops row, j.dangles = true) →
          ∃ j ∈ leftJoin db target.hops row, j.get target.column = .null ∧ j.dangles = false)) := by
  obtain ⟨c, hc⟩ : ∃ c, (Predicate.field path (.isNull true)).compile r root = .ok c := by
    rw [Predicate.compile, hpath]
    exact ⟨_, rfl⟩
  refine ⟨c, hc, ?_⟩
  intro db row
  have hselects : selects db root c row = true ↔
      ∃ j ∈ leftJoin db target.hops row, j.get target.column = .null ∧ j.dangles = false := by
    have hchain : selects db root c row = (leftJoin db target.hops row).any
        (Joined.counts fun last => (Lookup.isNull true).accepts target.kind (last.get target.column)) := by
      rw [Predicate.selects_compile hc, ← chainHolds_true, Predicate.holdsOn, Predicate.eval,
        Predicate.pathHolds, hpath]
      rfl
    rw [hchain, List.any_eq_true]
    refine exists_congr fun j => and_congr_right fun _ => ?_
    rw [counts_isNull, Bool.and_eq_true, beq_iff_eq, Bool.not_eq_true']
  refine ⟨hselects, ?_⟩
  rw [hselects]
  constructor
  · rintro hjoin ⟨j, hj, hdangles⟩
    exact hjoin.mpr ⟨j, hj, get_of_dangles hdangles target.column⟩
  · intro hdangling
    constructor
    · rintro ⟨j, hj, hnull, _⟩
      exact ⟨j, hj, hnull⟩
    · rintro ⟨j, hj, hnull⟩
      cases hdangles : j.dangles with
      | false => exact ⟨j, hj, hnull, hdangles⟩
      | true => exact hdangling ⟨j, hj, hdangles⟩

/-- In the sample, four questions have no answer, or an answer without a tag. -/
theorem selects_isNull_iff_leftJoin_sample :
    ∃ c, (Predicate.field "answers__tags__title" (.isNull true)).compile Service.registry "questions"
        = .ok c
      ∧ (Service.sampleQuestions.filter
            (selects Service.sampleDatabase "questions" c)).map (·.get "question_id")
          = [0x301, 0x303, 0x306, 0x307].map Service.sampleId := by
  obtain ⟨c, hc, hrows⟩ :=
    @selects_isNull_iff_leftJoin Service.registry "questions" "answers__tags__title" _ rfl
  refine ⟨c, hc, ?_⟩
  have hselects := funext fun row => Bool.eq_iff_iff.mpr
    ((hrows Service.sampleDatabase row).1.trans decide_eq_true_iff.symm)
  rw [hselects]
  decide +kernel

/-- A key that names no row: the left join shows NULL, but the question is not selected. -/
theorem isNull_misses_dangling_key :
    ¬ ∀ (r : Registry) (root path : String) (target : Target) (c : Condition) (db : Database) (row : Row),
      r.resolve root path = .ok target → target.isNested = true →
      (Predicate.field path (.isNull true)).compile r root = .ok c →
      (selects db root c row = true
        ↔ ∃ j ∈ leftJoin db target.hops row, j.get target.column = .null) := by
  intro h
  have hrow := h Service.registry "questions" "canonical_answer__description" _ _
    Service.sampleDatabase (Service.sampleQuestions.getD 5 ⟨[]⟩) rfl rfl rfl
  revert hrow
  decide +kernel

end SchemaSearch
