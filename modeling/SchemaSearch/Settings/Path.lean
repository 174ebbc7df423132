import SchemaSearch.Decimal.Integer
import SchemaSearch.Settings.Value

/-!
# Setting paths

The name of a setting is a path: names with dots between, and places of lists in brackets, as in
`search.search_filters[0]`.  A name that is no path stands for itself.
-/

namespace SchemaSearch.Setting

open Decimal

/-- Whether a character may stand in a name on a path. -/
def isNameChar (c : Char) : Bool := c.isAlphanum || c = '_' || c = '-' || c = ' '

/-- Read a place: blanks, a number that fits 64 bits, blanks. -/
def readIndex (cs : List Char) : Option Int :=
  let isSpace (c : Char) : Bool := c = ' ' || c = '\t'
  let number := ((cs.dropWhile isSpace).reverse.dropWhile isSpace).reverse
  if number.head? = some '+' then none else readSigned number

/-- Read the steps after the first name.  One unit of fuel pays for one step. -/
def readSteps : Nat → List Char → Option (List Step)
  | _, [] => some []
  | 0, _ => none
  | fuel + 1, '.' :: cs =>
    let name := cs.takeWhile isNameChar
    if name.isEmpty then none
    else
      (readSteps fuel (cs.dropWhile isNameChar)).map (.key (String.ofList name) :: ·)
  | fuel + 1, '[' :: cs =>
    match Text.splitFirst ']' cs with
    | (_, none) => none
    | (inside, some rest) => do
      let n ← readIndex inside
      (readSteps fuel rest).map (.index n :: ·)
  | _ + 1, _ => none

/-- Read a path. -/
def readPath? (cs : List Char) : Option (List Step) :=
  let name := cs.takeWhile isNameChar
  if name.isEmpty then none
  else
    (readSteps cs.length (cs.dropWhile isNameChar)).map (.key (String.ofList name) :: ·)

/-- The path that a name stands for. -/
def pathOf (name : String) : List Step := (readPath? name.toList).getD [.key name]

/-- Lay one named setting over the settings that are there. -/
def overlay (root : Setting) (entry : String × Setting) : Setting :=
  root.assign (pathOf entry.1) entry.2

end SchemaSearch.Setting
