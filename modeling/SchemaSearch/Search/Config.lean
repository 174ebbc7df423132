import SchemaSearch.Json.Basic

/-!
# Settings of a search

Which keys steer a search, and what holds when a client leaves them out.  Settings are read from JSON:
an object may leave fields out, and a list gives the fields in order.
-/

namespace SchemaSearch

/-- The settings of a search. -/
structure SearchConfig where
  /-- Keys that steer the search and never name fields. -/
  searchFilters : List String
  defaultPageSize : Nat
  defaultOrder : String
  /-- The key that also asks for inactive records. -/
  includeInactiveParam : String
  deriving DecidableEq, Repr

namespace SearchConfig

/-- The settings that hold when none are given. -/
def standard : SearchConfig where
  searchFilters := ["page", "per_page", "order_by", "operator", "include_inactive", "format"]
  defaultPageSize := 100
  defaultOrder := "-created_at"
  includeInactiveParam := "include_inactive"

/-- Whether a key steers the search. -/
def isSearchFilter (c : SearchConfig) (key : String) : Bool := c.searchFilters.contains key

/-! ## From JSON -/

/-- A text. -/
def textOf? : Json → Option String
  | .text s => some s
  | _ => none

/-- A list of texts. -/
def textsOf? : Json → Option (List String)
  | .list items => items.mapM textOf?
  | _ => none

/-- A whole number that is not negative. -/
def countOf? : Json → Option Nat
  | .number (.whole n) => if 0 ≤ n then some n.toNat else none
  | _ => none

/-- A value that may be left out. -/
def orElse {α : Type} (read : Json → Option α) (standard : α) : Option Json → Option α
  | none => some standard
  | some value => read value

/-- Settings from what is given for each field. -/
def ofFields? (filters size order inactive : Option Json) : Option SearchConfig := do
  let searchFilters ← orElse textsOf? standard.searchFilters filters
  let defaultPageSize ← orElse countOf? standard.defaultPageSize size
  let defaultOrder ← orElse textOf? standard.defaultOrder order
  let includeInactiveParam ← orElse textOf? standard.includeInactiveParam inactive
  some { searchFilters, defaultPageSize, defaultOrder, includeInactiveParam }

/-- Settings from JSON. -/
def ofJson? : Json → Option SearchConfig
  | .object members =>
    ofFields? (Table.find? "search_filters" members) (Table.find? "default_per_page" members)
      (Table.find? "default_order_by" members) (Table.find? "include_inactive_param" members)
  | .list items => if items.length ≤ 4 then ofFields? items[0]? items[1]? items[2]? items[3]? else none
  | _ => none

end SearchConfig

end SchemaSearch
