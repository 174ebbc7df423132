import SchemaSearch.Decimal.Integer
import SchemaSearch.Params

/-!
# Pages

Results come in pages, counted from one.  A page below one is accepted and empty; so is one whose
first row lies beyond what 64 bits can count.
-/

namespace SchemaSearch

open Decimal

/-- The part of the results that a client asks for. -/
structure Page where
  number : Int
  size : Nat
  deriving DecidableEq, Repr

/-- What a client is told about its page. -/
structure PageInfo where
  page : Int
  /-- The records on this page. -/
  pageCount : Nat
  /-- The records on all pages. -/
  totalCount : Nat
  hasNext : Bool
  hasPrevious : Bool
  deriving DecidableEq, Repr

namespace Page

/-- The parameter that asks for a page. -/
def param : String := "page"

/-- The parameter that asks for a page size. -/
def sizeParam : String := "per_page"

/-- The whole number that a key carries, if it carries a text or a number at all. -/
def readKey (p : Params) (key : String) : Except SearchError (Option Int) :=
  match p.getText? key with
  | none => .ok none
  | some s =>
    match readSigned (Text.trim s.toList) with
    | some n => .ok (some n)
    | none => .error .pageNotInteger

/-- The size that a client asks for, which has to be positive, or the default, which is at least
one. -/
def sizeOf (defaultSize : Nat) : Option Int → Except SearchError Nat
  | none => .ok (max defaultSize 1)
  | some n => if 0 < n then .ok n.toNat else .error .pageNotInteger

/-- The page that some parameters ask for. -/
def ofParams (p : Params) (defaultSize : Nat) : Except SearchError Page := do
  let number ← readKey p param
  let size ← sizeOf defaultSize (← readKey p sizeParam)
  .ok ⟨number.getD 1, size⟩

/-- The rows in front of the page, if there is such a page. -/
def offset (page : Page) : Option Nat :=
  if page.number < 1 then none
  else
    let rows := (page.number - 1).toNat * page.size
    if rows ≤ maxUnsigned then some rows else none

/-- What the client is told, given the records on the page and in all. -/
def info (page : Page) (pageCount totalCount : Nat) : PageInfo where
  page := page.number
  pageCount := pageCount
  totalCount := totalCount
  hasNext := page.offset.any fun rows => min (rows + pageCount) maxUnsigned < totalCount
  hasPrevious := 1 < page.number

end Page

/-- The page as JSON. -/
def PageInfo.toJson (i : PageInfo) : Json :=
  .object [("page", .ofInt i.page), ("page_count", .ofNat i.pageCount),
    ("total_count", .ofNat i.totalCount), ("has_next", .bool i.hasNext),
    ("has_previous", .bool i.hasPrevious)]

/-- The body of a search answer: the page, and the items under the plural name of the resource. -/
def resultBody (info : PageInfo) (resource : String) (items : List Json) : Json :=
  .ofMembers [("pagination_info", info.toJson), (resource, .list items)]

end SchemaSearch
