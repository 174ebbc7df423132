import SchemaSearch.Proofs.Moment.Order
import SchemaSearch.Proofs.Predicate.Meaning

/-!
# Bounds on time

A bound on a column of moments is compiled to a comparison of texts.  Where the years of the stored moment
and of the bound are in order as texts, as all years of four digits are, it is a comparison of times.

Main statement: a path to a column of moments with readable bounds compiles, and selects by time the rows
whose moments are in order with the bounds; with one bound on a column of the root it selects by time no
other rows (`selects_iff_spans`).
-/

namespace SchemaSearch

open Query Schema Store

/-! ## Bounds and what they span -/

namespace Lookup

/-- The moments that bound a lookup. -/
def bounds : Lookup → List Moment
  | .range start finish => [start, finish]
  | .atLeast start => [start]
  | .atMost finish => [finish]
  | .startsWith _ | .contains _ | .isNull _ | .oneOf _ => []

/-- Whether a moment lies within the bounds, both included. -/
def spans (m : Moment) : Lookup → Bool
  | .range start finish => !m.before start && !finish.before m
  | .atLeast start => !m.before start
  | .atMost finish => !finish.before m
  | .startsWith _ | .contains _ | .isNull _ | .oneOf _ => false

/-- Whether the year of a moment is in order with those of the bounds. -/
def YearsSort (m : Moment) : Lookup → Prop
  | .range start finish => m.YearsSort start ∧ finish.YearsSort m
  | .atLeast start => m.YearsSort start
  | .atMost finish => finish.YearsSort m
  | .startsWith _ | .contains _ | .isNull _ | .oneOf _ => True

end Lookup

/-- Whether a column of a row holds a moment. -/
def Store.Row.HoldsMoment (row : Row) (column : String) (m : Moment) : Prop :=
  m.isValid = true ∧ row.get column = .text m.storedText

/-! ## Stored texts and times -/

section Texts

variable {a b m : Moment} {lookup : Lookup}

/-- Stored moments sort by time if and only if their years do. -/
theorem sortsBefore_storedText_iff (ha : a.isValid = true) (hb : b.isValid = true) :
    (Value.text a.storedText).sortsBefore (.text b.storedText) = (!b.before a) ↔ b.YearsSort a := by
  rw [← Moment.storedText_lt_iff_before hb ha, Value.sortsBefore, Bool.eq_iff_iff, decide_eq_true_iff,
    Bool.not_eq_true', ← not_lt, ← Bool.not_eq_true]
  exact not_iff_not

theorem storedMoment_dateTime (m : Moment) :
    FieldKind.dateTime.storedMoment m = .text m.storedText := rfl

theorem accepts_text (h : lookup.isAboutNull = false) (kind : FieldKind) (s : String) :
    lookup.accepts kind (.text s) = lookup.compares kind (.text s) :=
  accepts_of_ne_null h kind Value.noConfusion

theorem accepts_eq_spans (hbounds : ∀ b ∈ lookup.bounds, b.isValid = true) (hbounded : lookup.bounds ≠ [])
    (hm : m.isValid = true) (hyears : lookup.YearsSort m) :
    lookup.accepts .dateTime (.text m.storedText) = lookup.spans m := by
  cases lookup with
  | range start finish =>
    have hstart := hbounds start List.mem_cons_self
    have hfinish := hbounds finish (List.mem_cons_of_mem _ List.mem_cons_self)
    have hlow := (sortsBefore_storedText_iff hstart hm).mpr hyears.1
    have hhigh := (sortsBefore_storedText_iff hm hfinish).mpr hyears.2
    rw [accepts_text rfl, Lookup.compares, storedMoment_dateTime, storedMoment_dateTime, hlow, hhigh]
    rfl
  | atLeast start =>
    rw [accepts_text rfl, Lookup.compares, storedMoment_dateTime,
      (sortsBefore_storedText_iff (hbounds start List.mem_cons_self) hm).mpr hyears]
    rfl
  | atMost finish =>
    rw [accepts_text rfl, Lookup.compares, storedMoment_dateTime,
      (sortsBefore_storedText_iff hm (hbounds finish List.mem_cons_self)).mpr hyears]
    rfl
  | startsWith | contains | isNull | oneOf => exact absurd rfl hbounded

/-- One bound is a bound on time if and only if its year is in order. -/
theorem accepts_eq_spans_iff (hbounds : ∀ b ∈ lookup.bounds, b.isValid = true)
    (hsingle : lookup.bounds.length = 1) (hm : m.isValid = true) :
    lookup.accepts .dateTime (.text m.storedText) = lookup.spans m ↔ lookup.YearsSort m := by
  cases lookup with
  | atLeast start =>
    rw [accepts_text rfl]
    exact sortsBefore_storedText_iff (hbounds start List.mem_cons_self) hm
  | atMost finish =>
    rw [accepts_text rfl]
    exact sortsBefore_storedText_iff hm (hbounds finish List.mem_cons_self)
  | range | startsWith | contains | isNull | oneOf => cases hsingle

/-- A year of four digits is in order with the bounds that are not too late for four digits. -/
theorem yearsSort_iff_bounds (hlow : 0 ≤ m.year) (hhigh : m.year ≤ 9999) :
    lookup.YearsSort m ↔ ∀ b ∈ lookup.bounds, b.year ≤ 9999 := by
  have hyear : ∀ b : Moment, (m.YearsSort b ↔ b.year ≤ 9999) ∧ (b.YearsSort m ↔ b.year ≤ 9999) :=
    fun _ => Moment.yearsSort_iff_of_fourDigits hlow hhigh
  cases lookup <;> simp [Lookup.YearsSort, Lookup.bounds, hyear]

end Texts

/-! ## Compiled bounds -/

section Compiled

variable {r : Registry} {root path : String} {target : Target} {lookup : Lookup}

theorem isAboutNull_of_bounds (hbounded : lookup.bounds ≠ []) : lookup.isAboutNull = false := by
  cases lookup with
  | isNull expected => exact absurd rfl hbounded
  | _ => rfl

/-- Bounds on a path to dates or moments compile. -/
theorem exists_compile_of_bounds (hpath : r.resolve root path = .ok target)
    (hkind : target.kind.isTemporal = true) (hbounded : lookup.bounds ≠ []) :
    ∃ c, (Predicate.field path lookup).compile r root = .ok c := by
  rw [Predicate.compile_field hpath, fieldCondition, leafCondition]
  cases htarget : target.kind with
  | dateTime | date =>
    cases lookup with
    | range | atLeast | atMost => exact ⟨_, rfl⟩
    | startsWith | contains | isNull | oneOf => exact absurd rfl hbounded
  | _ =>
    rw [htarget] at hkind
    cases hkind

/-- On all other paths they are refused. -/
theorem compile_of_bounds_eq_error (hpath : r.resolve root path = .ok target)
    (hkind : target.kind.isTemporal = false) (hbounded : lookup.bounds ≠ []) :
    (Predicate.field path lookup).compile r root = .error (.invalidParameter path .notTemporal) := by
  rw [Predicate.compile_field hpath, fieldCondition, leafCondition]
  cases htarget : target.kind with
  | dateTime | date =>
    rw [htarget] at hkind
    cases hkind
  | _ =>
    cases lookup with
    | range | atLeast | atMost => rfl
    | startsWith | contains | isNull | oneOf => exact absurd rfl hbounded

/-- A compiled bound selects the rows whose path reaches a value that passes. -/
theorem selects_of_bounds {c : Condition} (hpath : r.resolve root path = .ok target)
    (hbounded : lookup.bounds ≠ []) (hc : (Predicate.field path lookup).compile r root = .ok c)
    (db : Database) (row : Row) :
    selects db root c row = true ↔ ∃ last ∈ reached db target.hops row,
      lookup.accepts target.kind (last.get target.column) = true := by
  have hmissing : lookup.countsMissing = false := by
    cases lookup with
    | isNull expected => exact absurd rfl hbounded
    | _ => rfl
  exact Predicate.selects_field_iff hpath hmissing hc

/-- Bounds select by time where years sort as texts. -/
theorem selects_iff_spans (hpath : r.resolve root path = .ok target) (hkind : target.kind = .dateTime)
    (hbounded : lookup.bounds ≠ []) (hread : ∀ b ∈ lookup.bounds, ∃ text, Moment.read text = some b) :
    (∃ c, (Predicate.field path lookup).compile r root = .ok c ∧ ∀ db row,
      ((∀ last ∈ reached db target.hops row, last.get target.column = .null
          ∨ ∃ m, last.HoldsMoment target.column m ∧ lookup.YearsSort m) →
        (selects db root c row = true ↔
          ∃ last ∈ reached db target.hops row, ∃ m, last.HoldsMoment target.column m ∧ lookup.spans m = true))
      ∧ ∀ m, target.hops = [] → lookup.bounds.length = 1 → row.HoldsMoment target.column m →
        ((selects db root c row = true ↔ lookup.spans m = true) ↔ lookup.YearsSort m))
    ∧ ∀ m : Moment, 0 ≤ m.year → m.year ≤ 9999 →
      (lookup.YearsSort m ↔ ∀ b ∈ lookup.bounds, b.year ≤ 9999) := by
  have hvalid : ∀ b ∈ lookup.bounds, b.isValid = true := by
    intro b hb
    obtain ⟨text, htext⟩ := hread b hb
    exact Moment.isValid_of_read htext
  obtain ⟨c, hc⟩ := exists_compile_of_bounds hpath (by rw [hkind]; rfl) hbounded
  refine ⟨⟨c, hc, fun db row => ⟨?_, ?_⟩⟩, fun m => yearsSort_iff_bounds⟩
  · intro htimes
    rw [selects_of_bounds hpath hbounded hc, hkind]
    refine exists_congr fun last => and_congr_right fun hlast => ?_
    rcases htimes last hlast with hnull | ⟨m, ⟨hm, hcolumn⟩, hyears⟩
    · rw [hnull, accepts_comparison (isAboutNull_of_bounds hbounded)]
      refine ⟨fun h => (Bool.false_ne_true h).elim, ?_⟩
      rintro ⟨m, ⟨-, hcolumn⟩, -⟩
      rw [hnull] at hcolumn
      cases hcolumn
    · rw [hcolumn, accepts_eq_spans hvalid hbounded hm hyears]
      refine ⟨fun h => ⟨m, ⟨hm, hcolumn⟩, h⟩, ?_⟩
      rintro ⟨m', ⟨hm', hcolumn'⟩, hspans⟩
      rw [hcolumn, Value.text.injEq, Moment.storedText_inj hm hm'] at hcolumn'
      rw [hcolumn']
      exact hspans
  · intro m hhops hsingle ⟨hm, hcolumn⟩
    rw [selects_of_bounds hpath hbounded hc, hkind, hhops, reached]
    simp only [List.mem_singleton, exists_eq_left]
    rw [hcolumn, ← Bool.eq_iff_iff]
    exact accepts_eq_spans_iff hvalid hsingle hm

end Compiled

/-- From the moment of the answer to the sample's sixth question until the end of its year. -/
def aboutSixthAnswer : Lookup := .range ⟨2024, 5, 2, 0, 0, 0, 125000000⟩ ⟨2024, 12, 31, 0, 0, 0, 0⟩

theorem selects_iff_spans_sample :
    ∃ c, (Predicate.field "answers__created_at" aboutSixthAnswer).compile Service.registry "questions" = .ok c
      ∧ selects Service.sampleDatabase "questions" c (Service.sampleQuestions.getD 5 ⟨[]⟩) = true := by
  have hread : ∀ b ∈ aboutSixthAnswer.bounds, ∃ text, Moment.read text = some b := by
    simp only [aboutSixthAnswer, Lookup.bounds, List.forall_mem_cons, List.not_mem_nil, false_implies,
      implies_true, and_true]
    exact ⟨⟨"2024-05-02T00:00:00.125", by decide +kernel⟩, ⟨"2024-12-31", by decide +kernel⟩⟩
  have hpath : Service.registry.resolve "questions" "answers__created_at" = .ok
      ⟨[⟨"questions", .reverseMany "answers" "answers" "question_id" "question_id"⟩], "answers",
        "created_at", .dateTime⟩ := rfl
  have hbounded : aboutSixthAnswer.bounds ≠ [] := List.cons_ne_nil _ _
  obtain ⟨⟨c, hc, hrows⟩, -⟩ := selects_iff_spans hpath rfl hbounded hread
  refine ⟨c, hc, ?_⟩
  have hanswer : (Service.sampleAnswers.getD 5 ⟨[]⟩).HoldsMoment "created_at"
      ⟨2024, 5, 2, 0, 0, 0, 125000000⟩ := by
    unfold Row.HoldsMoment
    decide +kernel
  have hreached : reached Service.sampleDatabase
      [⟨"questions", .reverseMany "answers" "answers" "question_id" "question_id"⟩]
      (Service.sampleQuestions.getD 5 ⟨[]⟩) = [Service.sampleAnswers.getD 5 ⟨[]⟩] := by
    decide +kernel
  refine ((hrows _ _).1 ?_).mpr ⟨_, by rw [hreached]; exact List.mem_singleton.mpr rfl, _, hanswer, by decide⟩
  rw [hreached]
  intro last hlast
  rw [List.mem_singleton.mp hlast]
  exact .inr ⟨_, hanswer, by unfold aboutSixthAnswer Lookup.YearsSort; decide +kernel⟩

/-- The demand that a bound selects by time whatever its year. -/
def SelectsByTime (r : Registry) (root path : String) (lookup : Lookup) : Prop :=
  ∀ target c, r.resolve root path = .ok target → target.kind = .dateTime →
    (Predicate.field path lookup).compile r root = .ok c → ∀ db row,
      (∀ last ∈ reached db target.hops row, last.get target.column = .null
        ∨ ∃ m, last.HoldsMoment target.column m) →
      (selects db root c row = true ↔
        ∃ last ∈ reached db target.hops row, ∃ m, last.HoldsMoment target.column m ∧ lookup.spans m = true)

/-- A question of 2024 is not found among those until the year 10000, whose text starts with a plus. -/
theorem not_selectsByTime :
    ¬ ∀ (r : Registry) (root path : String) (lookup : Lookup), lookup.bounds ≠ [] →
      (∀ b ∈ lookup.bounds, ∃ text, Moment.read text = some b) → SelectsByTime r root path lookup := by
  intro h
  have hread : ∀ b ∈ (Lookup.atMost ⟨10000, 1, 1, 0, 0, 0, 0⟩).bounds, ∃ text, Moment.read text = some b := by
    simp only [Lookup.bounds, List.forall_mem_cons, List.not_mem_nil, false_implies, implies_true, and_true]
    exact ⟨"+10000-01-01", by decide +kernel⟩
  have hmoment : (Service.sampleQuestions.getD 0 ⟨[]⟩).HoldsMoment "created_at" ⟨2024, 1, 10, 0, 0, 0, 0⟩ := by
    unfold Row.HoldsMoment
    decide +kernel
  have hrow := h Service.registry "questions" "created_at" (.atMost ⟨10000, 1, 1, 0, 0, 0, 0⟩)
    (List.cons_ne_nil _ _) hread _ _ rfl rfl rfl Service.sampleDatabase
    (Service.sampleQuestions.getD 0 ⟨[]⟩) (by
      intro last hlast
      rw [List.mem_singleton.mp hlast]
      exact .inr ⟨_, hmoment⟩)
  have hfound := hrow.mpr ⟨_, List.mem_singleton.mpr rfl, _, hmoment, by decide⟩
  revert hfound
  decide +kernel

end SchemaSearch
