import SchemaSearch.Predicate.Basic
import SchemaSearch.Query.Condition

/-!
# Junctions of predicates

Both ways to join predicates are one: a junction of parts, where a junction of the same kind brings its items
and any other predicate itself.  What holds of the parts of some predicates holds of the parts of their
junction, whichever of the two it is.
-/

namespace SchemaSearch.Predicate

open Query

/-- The node that joins some items. -/
def junction : Joint → List Predicate → Predicate
  | .all => .and
  | .any => .or

/-- What a predicate brings into a junction. -/
def parts : Joint → Predicate → List Predicate
  | .all => conjuncts
  | .any => disjuncts

/-- The junction of two predicates: `both` or `either`. -/
def join (joint : Joint) (p q : Predicate) : Predicate := junction joint (p.parts joint ++ q.parts joint)

/-- The junction of a list, if it has items: `all?` or `any?`. -/
def joinAll? : Joint → List Predicate → Option Predicate
  | .all => all?
  | .any => any?

variable {p : Predicate} {ps : List Predicate}

@[simp] theorem parts_junction (joint : Joint) (items : List Predicate) :
    (junction joint items).parts joint = items := by
  cases joint <;> rfl

@[simp] theorem parts_join (joint : Joint) (p q : Predicate) :
    (join joint p q).parts joint = p.parts joint ++ q.parts joint := parts_junction joint _

/-- A predicate is a junction of a kind, or brings itself into one. -/
theorem parts_cases (joint : Joint) (p : Predicate) :
    (∃ items, p = junction joint items) ∨ p.parts joint = [p] ∧ ∀ items, p ≠ junction joint items := by
  cases joint <;> cases p <;> simp [junction, parts, conjuncts, disjuncts]

/-- Brackets do not matter. -/
theorem join_assoc (joint : Joint) (a b c : Predicate) :
    join joint (join joint a b) c = join joint a (join joint b c) := by
  show junction joint _ = junction joint _
  simp [List.append_assoc]

/-! ## Lists -/

theorem joinAll?_cons (joint : Joint) (p : Predicate) (ps : List Predicate) :
    joinAll? joint (p :: ps) = some (ps.foldl (join joint) p) := by
  cases joint <;> rfl

/-- Several predicates make one node of all their parts. -/
theorem joinAll?_several (joint : Joint) (h : 2 ≤ ps.length) :
    joinAll? joint ps = some (junction joint (ps.flatMap (parts joint))) := by
  rcases ps with _ | ⟨first, _ | ⟨second, rest⟩⟩
  · simp at h
  · simp at h
  · rw [joinAll?_cons]
    congr 1
    clear h
    induction rest generalizing first second with
    | nil => simp [join]
    | cons third rest ih =>
      -- the first two make a junction, which brings the parts of both
      rw [List.foldl_cons, ih (join joint first second) third]
      simp [List.append_assoc]

/-- What a list is joined to brings what its predicates do. -/
theorem parts_joinAll? (joint : Joint) (h : joinAll? joint ps = some p) :
    p.parts joint = ps.flatMap (parts joint) := by
  rcases ps with _ | ⟨first, _ | ⟨second, rest⟩⟩
  · cases joint <;> cases h
  · rw [joinAll?_cons] at h
    cases h
    simp
  · rw [joinAll?_several joint (by simp)] at h
    cases h
    rw [parts_junction]

end SchemaSearch.Predicate
