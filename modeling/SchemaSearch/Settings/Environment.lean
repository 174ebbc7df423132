import SchemaSearch.Decimal.Plain
import SchemaSearch.Settings.Path

/-!
# Settings from environment variables

A variable `ROON__LOG__LEVEL` sets `log.level`, whatever the case of its name.  Its value is a text, but
one that reads as a boolean or a number becomes one; the one setting that is a list of texts takes its
items with commas between.
-/

namespace SchemaSearch.Setting

open Decimal

/-- What the names of all variables that hold settings start with. -/
def variableMark : String := "roon__"

/-- The setting that is a list of texts. -/
def listedSetting : String := "search.search_filters"

/-- The name of the setting that a variable holds, if it holds one. -/
def nameOfVariable (varName : String) : Option String :=
  let folded := Text.asciiLower varName.toList
  if variableMark.toList.isPrefixOf folded then
    let rest := folded.drop variableMark.length
    some (String.ofList (Text.replaceAll "__".toList ['.'] rest))
  else none

/-- The boolean that a text reads as. -/
def booleanOfText? (s : String) : Option Bool :=
  let folded := String.ofList (Text.asciiLower s.toList)
  if folded = "true" then some true else if folded = "false" then some false else none

/-- The scalar that a text reads as: a boolean, a whole number or a double. -/
def scalarOfText? (s : String) : Option Setting :=
  match booleanOfText? s with
  | some b => some (.boolean b)
  | none =>
    match readSigned s.toList with
    | some n => some (.whole n)
    | none => (Binary64.readPlain s.toList).map .real

/-- The items of a list. -/
def listOfText (s : String) : Setting :=
  .list ((Text.splitOn ',' s.toList).map fun piece => .text (String.ofList piece))

/-- The setting of a name, from the value of its variable. -/
def ofVariable (name value : String) : Setting :=
  match scalarOfText? value with
  | some scalar => scalar
  | none => if name = listedSetting then listOfText value else .text value

/-- The settings that some variables hold.  Of two variables for one name the later counts. -/
def ofVariables (env : List (String × String)) : List (String × Setting) :=
  env.foldl (fun acc (varName, value) =>
    match nameOfVariable varName with
    | some name => Table.insert name (ofVariable name value) acc
    | none => acc) []

/-- A value that reads as no scalar is kept as it is. -/
theorem ofVariable_of_scalarOfText?_eq_none {name value : String} (h : scalarOfText? value = none)
    (hname : name ≠ listedSetting) : ofVariable name value = .text value := by
  simp [ofVariable, h, hname]

end SchemaSearch.Setting
