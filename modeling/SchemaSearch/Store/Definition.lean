import SchemaSearch.Moment.Reader
import SchemaSearch.Query.Sql
import SchemaSearch.Schema.Registry
import SchemaSearch.Store.Value

/-!
# Table definitions

One definition of a table gives the statement that creates it, the fields that a search sees and the
JSON of its rows, so the three cannot differ.
-/

namespace SchemaSearch.Store

open Query Schema

/-- A column of a table. -/
structure ColumnDef where
  name : String
  type : ColumnType
  nullable : Bool
  unique : Bool
  deriving DecidableEq, Repr

namespace ColumnDef

/-- A column that always has a value. -/
def required (name : String) (type : ColumnType) : ColumnDef := ⟨name, type, false, false⟩

/-- A column that may be NULL. -/
def optional (name : String) (type : ColumnType) : ColumnDef := ⟨name, type, true, false⟩

/-- A column whose values never repeat. -/
def distinct (name : String) (type : ColumnType) : ColumnDef := ⟨name, type, false, true⟩

end ColumnDef

/-- A column whose values are keys of another table; its rows go with the row they name. -/
structure ForeignKey where
  column : String
  table : String
  key : String
  deriving DecidableEq, Repr

/-- A table. -/
structure TableDef where
  name : String
  columns : List ColumnDef
  primaryKey : List String
  foreignKeys : List ForeignKey
  deriving DecidableEq, Repr

namespace TableDef

/-- The fields of the table. -/
def fields (t : TableDef) : List Field := t.columns.map fun c => ⟨c.name, c.type.kind⟩

/-! ## Creating it -/

/-- The declared type of a column. -/
def typeSql : ColumnType → String
  | .uuid => "uuid_text"
  | .string => "varchar"
  | .text => "text"
  | .dateTime => "datetime_text"
  | .boolean => "boolean"
  | .date => "date_text"
  | .integer => "integer"
  | _ => "blob"

/-- The declaration of a column.  A key of one column is declared with the column. -/
def columnSql (t : TableDef) (c : ColumnDef) : String :=
  sqlName c.name ++ " " ++ typeSql c.type
    ++ (if c.nullable then "" else " NOT NULL")
    ++ (if c.unique then " UNIQUE" else "")
    ++ (if t.primaryKey == [c.name] then " PRIMARY KEY" else "")

/-- The declaration of a key of several columns. -/
def keySql (t : TableDef) : List String :=
  if t.primaryKey.length ≤ 1 then []
  else
    ["CONSTRAINT " ++ sqlName ("pk-" ++ t.name) ++ " PRIMARY KEY ("
      ++ ", ".intercalate (t.primaryKey.map sqlName) ++ ")"]

/-- The declaration of a foreign key. -/
def foreignKeySql (k : ForeignKey) : String :=
  "FOREIGN KEY (" ++ sqlName k.column ++ ") REFERENCES " ++ sqlName k.table ++ " ("
    ++ sqlName k.key ++ ") ON DELETE CASCADE"

/-- The statement that creates the table. -/
def createSql (t : TableDef) : String :=
  "CREATE TABLE " ++ sqlName t.name ++ " ( "
    ++ ", ".intercalate (t.columns.map t.columnSql ++ t.keySql ++ t.foreignKeys.map foreignKeySql)
    ++ " )"

/-! ## Its rows as JSON -/

/-- A stored moment. -/
def momentOfStored (s : String) : String :=
  match Moment.read s with
  | some m => m.toText
  | none => s

/-- A value of a column as JSON. -/
def valueJson (type : ColumnType) : Value → Json
  | .null => .null
  | .integer n => if type == .boolean then .bool (n != 0) else .ofInt n
  | .text s => if type == .dateTime then .text (momentOfStored s) else .text s
  | .blob bytes => .text (Uuid.mk bytes).toText

/-- A row as JSON. -/
def rowJson (t : TableDef) (row : Row) : Json :=
  .object (t.columns.map fun c => (c.name, valueJson c.type (row.get c.name)))

/-- A value of a column from JSON; what does not fit the column is NULL. -/
def valueOfJson (type : ColumnType) : Json → Value
  | .bool b => .integer (if b then 1 else 0)
  | .number (.whole n) => .integer n
  | .text s =>
    match type with
    | .uuid => match Uuid.read s with
      | some u => .blob u.bytes
      | none => .null
    | .dateTime => match Moment.read s with
      | some m => .text m.storedText
      | none => .null
    | _ => .text s
  | _ => .null

/-- A row from JSON. -/
def rowOfJson (t : TableDef) (value : Json) : Row :=
  ⟨t.columns.map fun c => (c.name, valueOfJson c.type ((value.get? c.name).getD .null))⟩

/-- A row that is written as the list of its values. -/
def rowOfList (t : TableDef) (values : List Json) : Row :=
  ⟨(t.columns.zip values).map fun (c, value) => (c.name, valueOfJson c.type value)⟩

end TableDef

/-! ## The tables of a database -/

/-- What a migration changes: the tables there are, and the migrations that were applied. -/
structure Catalog where
  tables : List TableDef
  applied : List String
  deriving DecidableEq, Repr

/-- A step that creates tables. -/
structure Migration where
  name : String
  /-- The tables in the order in which they are created. -/
  creates : List TableDef
  deriving DecidableEq, Repr

namespace Catalog

/-- A new database. -/
def empty : Catalog := ⟨[], []⟩

/-- Apply a migration that was not applied before. -/
def up (c : Catalog) (m : Migration) : Catalog :=
  if c.applied.contains m.name then c else ⟨c.tables ++ m.creates, c.applied ++ [m.name]⟩

/-- Take an applied migration back. -/
def down (c : Catalog) (m : Migration) : Catalog :=
  if c.applied.contains m.name then
    ⟨c.tables.filter fun t => !(m.creates.any (·.name == t.name)), c.applied.filter (· != m.name)⟩
  else c

/-- The tables with the statements that created them, by name. -/
def statements (c : Catalog) : List (String × String) :=
  (c.tables.map fun t => (t.name, t.createSql)).mergeSort fun a b => decide (a.1 ≤ b.1)

end Catalog

end SchemaSearch.Store
