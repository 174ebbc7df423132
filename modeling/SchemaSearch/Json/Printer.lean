import SchemaSearch.Json.Basic
import SchemaSearch.Text.FormData

/-!
# Writing JSON

The compact form: no blanks, members in order, and only what has to be escaped escaped.
-/

namespace SchemaSearch.Json

/-- The characters for one character of a string. -/
def escapeChar (c : Char) : List Char :=
  if c = '"' then ['\\', '"']
  else if c = '\\' then ['\\', '\\']
  else if c = '\n' then ['\\', 'n']
  else if c = '\r' then ['\\', 'r']
  else if c = '\t' then ['\\', 't']
  else if c = '\x08' then ['\\', 'b']
  else if c = '\x0c' then ['\\', 'f']
  else if c.toNat < 0x20 then
    ['\\', 'u', '0', '0', Text.hexDigit (c.toNat / 16), Text.hexDigit (c.toNat % 16)]
  else [c]

/-- A string with its quotes. -/
def quoted (s : String) : String :=
  String.ofList ('"' :: s.toList.flatMap escapeChar ++ ['"'])

mutual

/-- The compact text of a value. -/
def render : Json → String
  | .null => "null"
  | .bool b => if b then "true" else "false"
  | .number n => n.toText
  | .text s => quoted s
  | .list items => "[" ++ renderItems items ++ "]"
  | .object members => "\x7b" ++ renderMembers members ++ "\x7d"
termination_by structural j => j

/-- The items of a list, with commas between. -/
def renderItems : List Json → String
  | [] => ""
  | item :: items =>
    render item ++ match items with
      | [] => ""
      | _ => "," ++ renderItems items
termination_by structural items => items

/-- The members of an object, with commas between. -/
def renderMembers : List (String × Json) → String
  | [] => ""
  | member :: members =>
    renderMember member ++ match members with
      | [] => ""
      | _ => "," ++ renderMembers members
termination_by structural members => members

/-- One member of an object. -/
def renderMember : String × Json → String
  | (key, value) => quoted key ++ ":" ++ render value
termination_by structural member => member

end

end SchemaSearch.Json
