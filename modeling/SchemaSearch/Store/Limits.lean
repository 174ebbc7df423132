import SchemaSearch.Query.SortKey

/-!
# Limits of the database

The database refuses conditions that are nested too high and sort keys that join too many tables.  The
height of a condition is that of the tree of its operators, in which a chain joined from the left grows
by one with each item.
-/

namespace SchemaSearch

/-! ## Height -/

namespace Query

/-- The height of a column with its table. -/
def columnHeight : Nat := 2

/-- The height of an operand. -/
def Operand.height : Operand → Nat
  | .column _ => columnHeight
  | .castToText _ => columnHeight + 1

/-- The height of a test. -/
def Test.height : Test → Nat
  | .matchesPattern operand _ => operand.height + 2
  | .oneOf _ [] => 2
  | .oneOf operand _ => operand.height + 1
  | .isNull _ | .isNotNull _ | .equals _ _ | .between _ _ _ | .atLeast _ _ | .atMost _ _ =>
    columnHeight + 1

/-- The height of operands joined from the left. -/
def chainHeight : List Nat → Nat
  | [] => 1
  | h :: hs => hs.foldl (fun height h => max height h + 1) h

namespace Condition

mutual

/-- The height of a condition. -/
def height : Condition → Nat
  | .test t => t.height
  | .within _ negated _ rows => max columnHeight (height rows) + (if negated then 2 else 1)
  | .group _ negated items => chainHeight (heights items) + (if negated then 1 else 0)
termination_by structural c => c

/-- The heights of some conditions. -/
def heights : List Condition → List Nat
  | [] => []
  | c :: cs => height c :: heights cs
termination_by structural cs => cs

end

end Condition

/-- How many tables a sort key joins. -/
def SortKey.joined : SortKey → Nat
  | .column _ => 0
  | .related _ _ sources => sources.length

end Query

/-! ## What is refused -/

namespace Store

open Query

/-- The greatest height of a condition. -/
def heightLimit : Nat := 1000

/-- The most tables that may be joined. -/
def joinLimit : Nat := 64

/-- Whether the database takes the condition of a query. -/
def takesCondition (q : Select) : Bool := q.condition.all (·.height ≤ heightLimit)

/-- Whether the database takes the order of a query. -/
def takesOrder (q : Select) : Bool := q.order.all fun (key, _) => key.joined ≤ joinLimit

end Store

end SchemaSearch
