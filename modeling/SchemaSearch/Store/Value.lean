import SchemaSearch.Query.Condition
import SchemaSearch.Table
import SchemaSearch.Store.CodePoints
import SchemaSearch.Store.Truth

/-!
# Stored values

Four storage classes of the database: NULL, whole numbers, texts and byte strings.  Booleans are stored
as 0 and 1, UUIDs as their bytes, moments as text.  Values are ordered by class first, in this order;
texts go by code points and byte strings by bytes.

The class of floating-point numbers is left out, as no table of the service has a column of it: neither the
text form of such numbers nor their order among the whole ones is said here.  So what is said of fields of
kind `float` is said of columns that hold other classes.
-/

namespace SchemaSearch.Store

open Query

/-- A stored value; floating-point numbers are left out. -/
inductive Value where
  | null
  | integer (n : Int)
  | text (s : String)
  | blob (bytes : List UInt8)
  deriving DecidableEq, Repr

namespace Value

/-- The value of a literal. -/
def ofLiteral : Literal → Value
  | .text s => .text s
  | .boolean b => .integer (if b then 1 else 0)
  | .integer n => .integer n
  | .uuid u => .blob u.bytes
  | .dateTime m => .text m.storedText
  | .date m => .text m.dateText

/-- The place of a storage class in the order of values. -/
def rank : Value → Nat
  | .null => 0
  | .integer _ => 1
  | .text _ => 2
  | .blob _ => 3

/-- Whether one value sorts before another or with it. -/
def sortsBefore : Value → Value → Bool
  | .integer a, .integer b => a ≤ b
  | .text a, .text b => decide (a ≤ b)
  | .blob a, .blob b => !(List.lex b a)
  | a, b => a.rank ≤ b.rank

/-- Comparison of two values; with NULL it is unknown. -/
def compareBy (test : Value → Value → Bool) : Value → Value → Truth
  | .null, _ => .unknown
  | _, .null => .unknown
  | a, b => .ofBool (test a b)

/-- Equality. -/
def equals (a b : Value) : Truth := compareBy (· == ·) a b

/-- At most. -/
def atMost (a b : Value) : Truth := compareBy sortsBefore a b

/-- Membership in a list.  It is unknown if only NULL stands in the way of an answer. -/
def isAmong (x : Value) (values : List Value) : Truth := .any (values.map x.equals)

/-- The code points that a pattern is compared with: bytes are read as they are. -/
def codePoints : Value → Option (List CodePoint)
  | .null => none
  | .integer n => some (CodePoint.ofText (toString n))
  | .text s => some (CodePoint.ofText s)
  | .blob bytes => some (CodePoint.ofBytes bytes)

/-- The text form of a value: numbers are printed, bytes are read as UTF-8.  Bytes that are no UTF-8 are those
of no text. -/
def textForm : Value → Option String
  | .null => none
  | .integer n => some (toString n)
  | .text s => some s
  | .blob bytes => String.fromUTF8? ⟨bytes.toArray⟩

/-- The value cast to text.  A cast keeps bytes as they are, so those that are no UTF-8 stay bytes, which equal
no text. -/
def castToText (v : Value) : Value :=
  match v.textForm with
  | some s => .text s
  | none => v

end Value

/-! ## Rows and tables -/

/-- A row: its columns and their values. -/
structure Row where
  cells : List (String × Value)
  deriving DecidableEq, Repr

/-- The value of a column; a column that is not there is NULL. -/
def Row.get (row : Row) (column : String) : Value := (Table.find? column row.cells).getD .null

/-- Tables by name. -/
structure Database where
  tables : List (String × List Row)
  deriving DecidableEq, Repr

/-- The rows of a table. -/
def Database.rows (db : Database) (table : String) : List Row :=
  (Table.find? table db.tables).getD []

end SchemaSearch.Store
