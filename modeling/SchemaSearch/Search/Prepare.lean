import SchemaSearch.Search.Config
import SchemaSearch.Search.DateBounds
import SchemaSearch.Search.Operator
import SchemaSearch.Search.SortOrder
import SchemaSearch.Search.Page
import SchemaSearch.Search.Transform

/-!
# Prepared searches

From parameters to a query, in stages: aliases and booleans, date bounds, the operator search or the
plain one, the restriction to active records, the order and the page.
-/

namespace SchemaSearch

open Query Schema

/-- A search that is ready to run. -/
structure Prepared where
  scope : Scope
  order : SortOrder
  page : Page
  deriving Repr

namespace Prepared

/-- Whether some parameters ask for inactive records, once their boolean is coerced. -/
def asksForInactive (c : SearchConfig) (p : Params) : Bool :=
  p.getText? c.includeInactiveParam == some "1"

/-- Narrow the scope by everything but dates. -/
def searchFields (c : SearchConfig) (s : Scope) (p : Params) : Except SearchError Scope :=
  match Operator.ofParams? p with
  | some requested => do
    let operator ← requested
    s.searchOperator operator p c.searchFilters
  | none => s.searchTerms p c.searchFilters

/-- The order that some parameters ask for. -/
def orderText (c : SearchConfig) (p : Params) : String := (p.getText? orderParam).getD c.defaultOrder

/-- Prepare a search of a root. -/
def ofParams (r : Registry) (c : SearchConfig) (root : String) (p : Params) :
    Except SearchError Prepared := do
  let transformer ← Transformer.ofRoot r root
  let p ← transformer.process p
  let p ← p.coerceBooleans [c.includeInactiveParam]
  let inactive := asksForInactive c p
  let scope ← Scope.ofRoot r root
  let (scope, p) ← scope.searchDates p transformer.renames
  let scope ← searchFields c scope p
  let scope := if inactive then scope.includeInactive else scope.restrictToActive
  let order ← SortOrder.read (orderText c p) r root
  let page ← Page.ofParams p c.defaultPageSize
  .ok ⟨scope, order, page⟩

/-- The query of a search; a page that cannot exist has no window. -/
def query (s : Prepared) : Select where
  table := s.scope.root.name
  condition := some s.scope.condition
  order := some (s.order.key, s.order.direction)
  window := s.page.offset.map fun rows => ⟨s.page.size, rows⟩

end Prepared

end SchemaSearch
