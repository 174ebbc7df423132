/-!
# Three truth values

SQL conditions are true, false or unknown.  A row is kept only where its condition is true, so unknown
counts as false at the end, but not under a negation.
-/

namespace SchemaSearch.Store

/-- The truth of a condition on a row. -/
inductive Truth where
  | false | unknown | true
  deriving DecidableEq, Repr

namespace Truth

/-- A truth that is known. -/
def ofBool (b : Bool) : Truth := if b then .true else .false

/-- Whether a row with this truth is kept. -/
def holds (t : Truth) : Bool := t == .true

/-- Both. -/
def and : Truth → Truth → Truth
  | .false, _ => .false
  | _, .false => .false
  | .true, .true => .true
  | _, _ => .unknown

/-- At least one. -/
def or : Truth → Truth → Truth
  | .true, _ => .true
  | _, .true => .true
  | .false, .false => .false
  | _, _ => .unknown

/-- Not. -/
def not : Truth → Truth
  | .false => .true
  | .unknown => .unknown
  | .true => .false

/-- All of a list. -/
def all (ts : List Truth) : Truth := ts.foldr and .true

/-- Some of a list. -/
def any (ts : List Truth) : Truth := ts.foldr or .false

/-! ## Known truths behave like booleans -/

@[simp] theorem holds_ofBool (b : Bool) : (ofBool b).holds = b := by cases b <;> rfl

@[simp] theorem not_ofBool (b : Bool) : (ofBool b).not = ofBool !b := by cases b <;> rfl

@[simp] theorem and_ofBool (a b : Bool) : (ofBool a).and (ofBool b) = ofBool (a && b) := by
  cases a <;> cases b <;> rfl

@[simp] theorem or_ofBool (a b : Bool) : (ofBool a).or (ofBool b) = ofBool (a || b) := by
  cases a <;> cases b <;> rfl

theorem holds_and (a b : Truth) : (a.and b).holds = (a.holds && b.holds) := by
  cases a <;> cases b <;> rfl

theorem holds_or (a b : Truth) : (a.or b).holds = (a.holds || b.holds) := by
  cases a <;> cases b <;> rfl

end Truth

end SchemaSearch.Store
