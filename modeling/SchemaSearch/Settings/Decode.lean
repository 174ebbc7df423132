import SchemaSearch.Decimal.Plain
import SchemaSearch.Settings.Value

/-!
# Reading settings

What a program asks of a setting: a text, a truth, a count, a list of texts, or the fields of a group.
Scalars turn into each other where that makes sense; a group may be given as a table or as the list of
its fields in order.
-/

namespace SchemaSearch

open Decimal

/-- Why settings cannot be used. -/
inductive SettingsError where
  /-- The settings file cannot be read. -/
  | badFile
  /-- A scalar does not turn into what is asked for, or there is a list or a table in its place. -/
  | wrongType
  /-- A list or a group is asked for and something else is there. -/
  | wrongShape
  deriving DecidableEq, Repr

namespace Setting

/-- The words for true. -/
def trueWords : List String := ["true", "on", "yes"]

/-- The words for false. -/
def falseWords : List String := ["false", "off", "no"]

/-- A text in lower case. -/
def folded (s : String) : String := String.ofList (Text.asciiLower s.toList)

/-! ## Scalars -/

/-- A setting as a text. -/
def asText : Setting → Except SettingsError String
  | .text s => .ok s
  | .boolean b => .ok (if b then "true" else "false")
  | .whole n => .ok (toString n)
  | .real x => .ok x.plainText
  | .missing | .list _ | .table _ => .error .wrongType

/-- The truth of a text. -/
def truthOfText (s : String) : Except SettingsError Bool :=
  let word := folded s
  if word = "1" || trueWords.contains word then .ok true
  else if word = "0" || falseWords.contains word then .ok false
  else .error .wrongType

/-- A setting as a truth. -/
def asTruth : Setting → Except SettingsError Bool
  | .boolean b => .ok b
  | .whole n => .ok (n != 0)
  | .real x => .ok (x.magnitude != 0)
  | .text s => truthOfText s
  | .missing | .list _ | .table _ => .error .wrongType

/-- The count that a text denotes. -/
def countOfText (s : String) : Except SettingsError Nat :=
  let word := folded s
  if trueWords.contains word then .ok 1
  else if falseWords.contains word then .ok 0
  else
    let digits := match s.toList with
      | '+' :: cs => cs
      | cs => cs
    match readNat digits with
    | some n => if n ≤ maxUnsigned then .ok n else .error .wrongType
    | none => .error .wrongType

/-- A setting as a count. -/
def asCount : Setting → Except SettingsError Nat
  | .whole n => if 0 ≤ n then .ok n.toNat else .error .wrongType
  | .boolean b => .ok (if b then 1 else 0)
  | .real x => .ok x.toCount
  | .text s => countOfText s
  | .missing | .list _ | .table _ => .error .wrongType

/-! ## Lists and groups -/

/-- A setting as a list of texts. -/
def asTexts : Setting → Except SettingsError (List String)
  | .list items => items.mapM asText
  | _ => .error .wrongShape

/-- What a group gives for its fields, named in order. -/
def asGroup (fields : List String) : Setting → Except SettingsError (List (Option Setting))
  | .table entries => .ok (fields.map (Table.find? · entries))
  | .list items => .ok ((List.range fields.length).map (items[·]?))
  | _ => .error .wrongShape

/-- A field that may be left out. -/
def orElse {α : Type} (read : Setting → Except SettingsError α) (standard : α) :
    Option Setting → Except SettingsError α
  | none => .ok standard
  | some value => read value

end Setting

end SchemaSearch
