import SchemaSearch.Query.Condition

/-!
# Sort keys and queries

A query sorts by a column of its table, or by the least or greatest value among related rows.  Related
rows are found by a chain of sources, each joined to what came before by the equality of two columns;
the first is tied to the row that is sorted.
-/

namespace SchemaSearch.Query

/-- Which way to sort. -/
inductive Direction where
  | ascending | descending
  deriving DecidableEq, Repr

/-- Which of the related values counts. -/
inductive Extreme where
  | least | greatest
  deriving DecidableEq, Repr

/-- Ascending orders go by the least value, descending ones by the greatest. -/
def Direction.extreme : Direction → Extreme
  | .ascending => .least
  | .descending => .greatest

/-- A table under an alias, with the two columns that have to be equal. -/
structure Source where
  table : String
  tableAlias : String
  left : Column
  right : Column
  deriving DecidableEq, Repr

/-- What rows are sorted by. -/
inductive SortKey where
  | column (c : Column)
  | related (extreme : Extreme) (value : Column) (sources : List Source)
  deriving DecidableEq, Repr

/-- A part of the rows. -/
structure Window where
  limit : Nat
  offset : Nat
  deriving DecidableEq, Repr

/-- A query for rows of one table. -/
structure Select where
  table : String
  condition : Option Condition
  order : Option (SortKey × Direction)
  window : Option Window
  deriving Repr

end SchemaSearch.Query
