import SchemaSearch.Params
import SchemaSearch.Schema.Aliases
import SchemaSearch.Search.Tokens

/-!
# Preparing parameters

Before anything is searched, the values of boolean fields become `1` or `0`, keys that are aliases
become the paths they stand for, and aliases inside `order_by` are replaced.  Values keep their order;
several keys with one path are joined in the order in which they came.
-/

namespace SchemaSearch

open Schema

/-- The parameter that asks for an order. -/
def orderParam : String := "order_by"

/-! ## Booleans -/

/-- The text of a value in a message. -/
def Json.shownText (value : Json) : String := value.scalarText.getD value.render

/-- A boolean token as `1` or `0`. -/
def coerceBoolean (field : String) (value : Json) : Except SearchError Json :=
  match value.scalarText.bind classifyBoolean with
  | some true => .ok (.text "1")
  | some false => .ok (.text "0")
  | none => .error (.invalidBoolean field value.shownText)

/-- The parameters with the values of one key coerced; the values are those of `source`. -/
def Params.coerceKey (source p : Params) (name : String) : Except SearchError Params :=
  match source.getAll name with
  | [] => .ok p
  | values => do
    let coerced ← values.mapM (coerceBoolean name)
    .ok (p.setAll name coerced)

/-- The parameters with the values of some keys coerced. -/
def Params.coerceBooleans (p : Params) (names : List String) : Except SearchError Params :=
  names.foldlM (p.coerceKey ·) p

/-! ## Aliases -/

/-- The parameters with aliases replaced by their paths.  Keys without values vanish. -/
def Params.applyRenames (p : Params) (renames : Renames) : Params :=
  p.entries.foldl
    (fun acc (key, values) => values.foldl (fun acc value => acc.push (renames.targetOf key) value) acc)
    .empty

/-- A text with the first alias that occurs in it replaced everywhere. -/
def Schema.Renames.expandText (renames : Renames) (text : String) : Option String :=
  (renames.entries.find? fun (key, _) => Text.contains text key).map fun (key, path) =>
    Text.replace text key path

/-- A value of `order_by` with the first alias that occurs in it replaced. -/
def Schema.Renames.expandOrder (renames : Renames) (value : Json) : Json :=
  match value.scalarText.bind renames.expandText with
  | some text => .text text
  | none => value

/-- The parameters with aliases in `order_by` replaced. -/
def Params.expandOrder (p : Params) (renames : Renames) : Params :=
  match p.getAll orderParam with
  | [] => p
  | values => p.setAll orderParam (values.map renames.expandOrder)

/-! ## Both -/

/-- What a root does to parameters. -/
structure Transformer where
  renames : Renames
  /-- The paths of its boolean fields. -/
  booleans : List String
  deriving Repr

namespace Transformer

/-- The transformer of a root. -/
def ofRoot (r : Registry) (root : String) : Except SearchError Transformer := do
  let e ← r.entity root
  let renames ← r.renames root
  .ok ⟨renames, r.booleanPaths e⟩

/-- Transform some parameters. -/
def process (t : Transformer) (p : Params) : Except SearchError Params := do
  let coerced ← p.coerceBooleans t.booleans
  .ok ((coerced.applyRenames t.renames).expandOrder t.renames)

end Transformer

end SchemaSearch
