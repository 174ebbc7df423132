/-!
# Kinds of fields

The type of a column says how it is stored; the kind of a field is the coarser view that decides how a
search compares it.
-/

namespace SchemaSearch.Schema

/-- How a search compares a field. -/
inductive FieldKind where
  | boolean | dateTime | date | text | uuid | integer | float | other
  deriving DecidableEq, Repr, Inhabited

namespace FieldKind

/-- Every kind. -/
def all : List FieldKind := [boolean, dateTime, date, text, uuid, integer, float, other]

/-- Whether date bounds apply to the field. -/
def isTemporal : FieldKind → Bool
  | .dateTime | .date => true
  | _ => false

/-- The name of a kind. -/
def name : FieldKind → String
  | .boolean => "boolean"
  | .dateTime => "datetime"
  | .date => "date"
  | .text => "text"
  | .uuid => "uuid"
  | .integer => "integer"
  | .float => "float"
  | .other => "other"

/-- The kind of a name. -/
def ofName? (name : String) : Option FieldKind := all.find? (·.name == name)

end FieldKind

/-- How a column is stored. -/
inductive ColumnType where
  | char | string | text | blob
  | tinyInteger | smallInteger | integer | bigInteger
  | tinyUnsigned | smallUnsigned | unsigned | bigUnsigned
  | float | double | decimal | money
  | dateTime | timestamp | timestampWithTimeZone | time | date | year | interval
  | binary | varBinary | bit | varBit
  | boolean | uuid
  | json | jsonBinary | array | vector | enumeration | custom
  | cidr | inet | macAddress | labelTree
  deriving DecidableEq, Repr

namespace ColumnType

/-- The kind of a field with a column of this type. -/
def kind : ColumnType → FieldKind
  | .boolean => .boolean
  | .dateTime | .timestamp | .timestampWithTimeZone => .dateTime
  | .date => .date
  | .char | .string | .text => .text
  | .uuid => .uuid
  | .tinyInteger | .smallInteger | .integer | .bigInteger
  | .tinyUnsigned | .smallUnsigned | .unsigned | .bigUnsigned => .integer
  | .float | .double | .decimal | .money => .float
  | .blob | .time | .year | .interval | .binary | .varBinary | .bit | .varBit | .json | .jsonBinary
  | .array | .vector | .enumeration | .custom | .cidr | .inet | .macAddress | .labelTree => .other

end ColumnType

end SchemaSearch.Schema
