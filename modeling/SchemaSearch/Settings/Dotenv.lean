import SchemaSearch.Table
import SchemaSearch.Text.Alphanumeric
import SchemaSearch.Text.Blank
import SchemaSearch.Text.Pieces

/-!
# Files of environment variables

A `.env` file holds a variable on each line.  Values may be quoted, and then span lines; `$NAME` and
`${NAME}` stand for variables that are set already.  Reading never changes a variable that is set, and
stops at the first bad line; the lines before it count.
-/

namespace SchemaSearch.Dotenv

/-! ## Lines -/

/-- How far a line has come. -/
inductive LineState where
  | open
  | escaped
  | strong
  | strongEscaped
  | weak
  | weakEscaped
  /-- Right after a blank, where a comment may start. -/
  | blank
  | comment
  deriving DecidableEq, Repr

namespace LineState

/-- Take a character outside quotes. -/
def stepOpen (c : Char) : LineState :=
  if c = '\\' then .escaped else if c = '"' then .weak else if c = '\'' then .strong else .open

/-- Take one character. -/
def step (c : Char) : LineState → LineState
  | .open => if Text.isBlank c && c != '\n' && c != '\r' then .blank else stepOpen c
  | .blank => if c = '#' then .comment else stepOpen c
  | .escaped => .open
  | .strong => if c = '\\' then .strongEscaped else if c = '\'' then .open else .strong
  | .strongEscaped => .strong
  | .weak => if c = '\\' then .weakEscaped else if c = '"' then .open else .weak
  | .weakEscaped => .weak
  | .comment => .comment

/-- Take the characters of a line; give the state they lead to, and what stands in front of a
comment. -/
def scan (state : LineState) : List Char → LineState × List Char
  | [] => (state, [])
  | c :: cs =>
    match state.step c with
    | .comment => (.comment, [])
    | next =>
      let (last, kept) := scan next cs
      (last, c :: kept)

end LineState

/-- The lines of a text, each with its line feed. -/
def physicalLines : List Char → List (List Char)
  | [] => []
  | c :: cs =>
    if c = '\n' then [c] :: physicalLines cs
    else
      match physicalLines cs with
      | [] => [[c]]
      | line :: lines => (c :: line) :: lines

/-- A line without its end. -/
def dropLineEnd (line : List Char) : List Char :=
  match line.reverse with
  | '\n' :: '\r' :: rest => rest.reverse
  | '\n' :: rest => rest.reverse
  | _ => line

/-- Whether a line is nothing but a comment. -/
def isComment (line : List Char) : Bool := (Text.trimStart line).head? == some '#'

/-- Put lines together until their quotes are closed.  A text that ends inside a line ends with
`none`. -/
def logicalLines (state : LineState) (held : List Char) : List (List Char) → List (Option (List Char))
  | [] => if state = .open then [] else [none]
  | line :: lines =>
    if isComment (held ++ line) then some [] :: logicalLines .open [] lines
    else
      match state.scan line with
      | (.open, _) => some (dropLineEnd (held ++ line)) :: logicalLines .open [] lines
      | (.comment, kept) => some (held ++ kept) :: logicalLines .open [] lines
      | (next, _) => logicalLines next (held ++ line) lines

/-! ## Values -/

/-- What the next character of a value belongs to. -/
inductive ValuePart where
  | text
  | escape
  /-- Single quotes. -/
  | strong
  /-- The name of a variable, with braces or without, as far as it was read. -/
  | name (braced : Bool) (read : List Char)
  /-- What may follow a value: blanks and a comment. -/
  | tail

/-- The character that an escape stands for. -/
def unescape (c : Char) : Option Char :=
  if c = 'n' then some '\n'
  else if "\\'\"$ ".toList.contains c then some c
  else none

/-- Read a value.  `weak` tells whether double quotes are open. -/
def readValue (valueOf : List Char → List Char) (weak : Bool) :
    ValuePart → List Char → Option (List Char)
  | .text, [] | .escape, [] => if weak then none else some []
  | .strong, [] => none
  | .name braced read, [] => if weak || braced then none else some (valueOf read)
  | .tail, [] => some []
  | .tail, c :: cs =>
    if c = ' ' || c = '\t' then readValue valueOf weak .tail cs
    else if c = '#' then some []
    else none
  | .escape, c :: cs => do
    let d ← unescape c
    (readValue valueOf weak .text cs).map (d :: ·)
  | .strong, c :: cs =>
    if c = '\'' then readValue valueOf weak .text cs
    else (readValue valueOf weak .strong cs).map (c :: ·)
  | .name braced read, c :: cs =>
    if Text.isAlphanumeric c then readValue valueOf weak (.name braced (read ++ [c])) cs
    else if braced then
      if c = '\x7d' then (readValue valueOf weak .text cs).map (valueOf read ++ ·)
      else readValue valueOf weak (.name true (read ++ [c])) cs
    else if c = '\x7b' && read.isEmpty then readValue valueOf weak (.name true []) cs
    else if c = '$' then (readValue valueOf weak (.name false []) cs).map (valueOf read ++ ·)
    else (readValue valueOf weak .text cs).map (valueOf read ++ c :: ·)
  | .text, c :: cs =>
    if c = '$' then readValue valueOf weak (.name false []) cs
    else if c = '\\' then readValue valueOf weak .escape cs
    else if c = '"' then readValue valueOf (!weak) .text cs
    else if !weak && c = '\'' then readValue valueOf weak .strong cs
    else if !weak && (c = ' ' || c = '\t') then readValue valueOf weak .tail cs
    else (readValue valueOf weak .text cs).map (c :: ·)

/-! ## Variables -/

/-- Whether a character may start a name. -/
def isNameStart (c : Char) : Bool := c.isAlpha || c = '_'

/-- Whether a character may stand in a name. -/
def isNameChar (c : Char) : Bool := c.isAlphanum || c = '_' || c = '.'

/-- Read a name and the blanks after it. -/
def readName (cs : List Char) : Option (String × List Char) :=
  if cs.head?.any isNameStart then
    some (String.ofList (cs.takeWhile isNameChar), Text.trimStart (cs.dropWhile isNameChar))
  else none

/-- Read a name and the sign after it; the word `export` may stand in front, and is a name too. -/
def readTarget (cs : List Char) : Option (String × List Char) := do
  let (name, rest) ← readName cs
  match rest with
  | '=' :: value => some (name, value)
  | _ =>
    if name = "export" then
      match ← readName rest with
      | (name, '=' :: value) => some (name, value)
      | _ => none
    else none

/-- Read a line: a variable, or nothing at all on a line that is blank. -/
def readLine (valueOf : List Char → List Char) (line : List Char) : Option (Option (String × String)) :=
  match Text.trim line with
  | [] => some none
  | '#' :: _ => some none
  | cs => do
    let (name, rest) ← readTarget cs
    match Text.trimStart rest with
    | [] => some (some (name, ""))
    | '#' :: _ => some (some (name, ""))
    | value => do
      let value ← readValue valueOf false .text value
      some (some (name, String.ofList value))

/-- The value of a variable; one that is not set is empty. -/
def valueIn (env : List (String × String)) (name : List Char) : List Char :=
  ((Table.find? (String.ofList name) env).getD "").toList

/-- Set a variable that is not set. -/
def setFresh (env : List (String × String)) (name value : String) : List (String × String) :=
  if Table.hasKey name env then env else env ++ [(name, value)]

/-- Set the variables of some lines. -/
def loadLines (env : List (String × String)) :
    List (Option (List Char)) → List (String × String)
  | [] => env
  | none :: _ => env
  | some line :: lines =>
    match readLine (valueIn env) line with
    | none => env
    | some none => loadLines env lines
    | some (some (name, value)) => loadLines (setFresh env name value) lines

/-- The variables that are set once a file was read. -/
def load (env : List (String × String)) (content : String) : List (String × String) :=
  let cs := match content.toList with
    | '\uFEFF' :: cs => cs
    | cs => cs
  loadLines env (logicalLines .open [] (physicalLines cs))

end SchemaSearch.Dotenv
