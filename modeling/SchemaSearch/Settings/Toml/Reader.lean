import SchemaSearch.Settings.Toml.Scalar
import SchemaSearch.Settings.Toml.Tables

/-!
# Reading TOML

A document is a list of lines: pairs, headers, comments and blank lines.  `read?` gives the entries of its
root table, or nothing when any line is bad or names a key that is taken.
-/

namespace SchemaSearch.Toml

/-! ## Values -/

mutual

/-- Take a value.  One unit of fuel pays for one value; `depth` counts the lists and inline tables that
may still be opened, plus one. -/
def readValue : Nat → Nat → List Char → Option (Setting × List Char)
  | 0, _, _ => none
  | fuel + 1, depth, '[' :: cs =>
    if depth ≤ 1 then none
    else do
      let (items, cs) ← readItems fuel (depth - 1) [] (skipLayout cs.length cs)
      some (.list items, cs)
  | fuel + 1, depth, '\x7b' :: cs =>
    if depth ≤ 1 then none
    else
      match skipSpace cs with
      | '\x7d' :: cs => some (.table [], cs)
      | cs => do
        let (entries, cs) ← readMembers fuel (depth - 1) [] cs
        some (.table (entriesToSettings entries), cs)
  | _ + 1, _, cs => readScalar cs

/-- Take the items of a list after those already read, where an item or the bracket may stand. -/
def readItems : Nat → Nat → List Setting → List Char → Option (List Setting × List Char)
  | 0, _, _, _ => none
  | _ + 1, _, read, ']' :: cs => some (read.reverse, cs)
  | fuel + 1, depth, read, cs => do
    let (item, cs) ← readValue fuel depth cs
    match skipLayout cs.length cs with
    | ',' :: cs => readItems fuel depth (item :: read) (skipLayout cs.length cs)
    | ']' :: cs => some ((item :: read).reverse, cs)
    | _ => none

/-- Take the pairs of an inline table after those already read. -/
def readMembers : Nat → Nat → Entries → List Char → Option (Entries × List Char)
  | 0, _, _, _ => none
  | fuel + 1, depth, entries, cs => do
    let (key, cs) ← readKey cs
    match cs with
    | '=' :: cs => do
      let (value, cs) ← readValue fuel depth (skipSpace cs)
      let entries ← entries.addPair (key, value)
      match skipSpace cs with
      | ',' :: cs => readMembers fuel depth entries cs
      | '\x7d' :: cs => some (entries, cs)
      | _ => none
    | _ => none

end

/-! ## Lines -/

/-- What a line says. -/
inductive Line where
  | blank
  | pair (key : List String × String) (value : Setting)
  | header (key : List String × String) (isElement : Bool)

/-- Take the closing brackets of a header. -/
def closeHeader (key : List String × String) (isElement : Bool) :
    List Char → Option (Line × List Char)
  | ']' :: ']' :: cs => if isElement then some (.header key true, cs) else none
  | ']' :: cs => if isElement then none else some (.header key false, cs)
  | _ => none

/-- Take what a line says, up to the blanks and the comment at its end. -/
def readLine : List Char → Option (Line × List Char)
  | '[' :: '[' :: cs => do
    let (key, cs) ← readKey cs
    closeHeader key true cs
  | '[' :: cs => do
    let (key, cs) ← readKey cs
    closeHeader key false cs
  | cs =>
    match cs.head? with
    | none | some '#' | some '\n' | some '\r' => some (.blank, cs)
    | some _ => do
      let (key, cs) ← readKey cs
      match cs with
      | '=' :: cs => do
        let cs := skipSpace cs
        let (value, cs) ← readValue (2 * cs.length + 2) depthLimit cs
        some (.pair key value, cs)
      | _ => none

/-- Take the lines of a document.  One unit of fuel pays for one line. -/
def readDocument : Nat → List Char → Option (List Line)
  | _, [] => some []
  | 0, _ => none
  | fuel + 1, cs => do
    let (line, cs) ← readLine (skipSpace cs)
    let cs ← endLine cs
    (readDocument fuel cs).map (line :: ·)

/-! ## Documents -/

/-- The pairs in front of the first header, and the sections. -/
def sections : List Line → List ((List String × String) × Setting) × List Section
  | [] => ([], [])
  | .blank :: lines => sections lines
  | .pair key value :: lines =>
    let (pairs, parts) := sections lines
    ((key, value) :: pairs, parts)
  | .header (path, key) isElement :: lines =>
    let (pairs, parts) := sections lines
    ([], ⟨path, key, isElement, pairs⟩ :: parts)

/-- The entries of a document. -/
def build (lines : List Line) : Option Entries := do
  let (pairs, parts) := sections lines
  let root ← Entries.addPairs [] pairs
  parts.foldlM Entries.addSection root

/-- Read a document. -/
def read? (content : String) : Option (List (String × Setting)) := do
  let cs := match content.toList with
    | '\uFEFF' :: cs => cs
    | cs => cs
  let lines ← readDocument (cs.length + 1) cs
  (build lines).map entriesToSettings

end SchemaSearch.Toml
