import SchemaSearch.Params
import SchemaSearch.Predicate.Basic

/-!
# Field terms

What one client value means for a field: `^` asks for texts that start with the rest, `$` for texts
that contain it, `null` and `none` in any case for NULL, and anything else for texts that start with
the value.  A plain search demands every value of every key.
-/

namespace SchemaSearch

/-- The longest value of a field, in bytes. -/
def maxValueBytes : Nat := 10000

/-- The lookup of a text. -/
def Lookup.ofText (s : String) : Lookup :=
  match s.toList with
  | '^' :: rest => .startsWith (String.ofList rest)
  | '$' :: rest => .contains (String.ofList rest)
  | _ =>
    if Text.sameIgnoringAsciiCase s "null" || Text.sameIgnoringAsciiCase s "none" then .isNull true
    else .startsWith s

/-- The lookup of a client value for a field. -/
def Lookup.ofValue (field : String) (value : Json) : Except SearchError Lookup :=
  match value with
  | .null => .ok (.isNull true)
  | value =>
    match value.scalarText with
    | none => .error (.invalidParameter field .notScalar)
    | some s =>
      if maxValueBytes < s.utf8ByteSize then .error (.invalidParameter field .tooLong)
      else .ok (.ofText s)

/-- The predicate of one value of a field. -/
def Predicate.ofTerm (field : String) (value : Json) : Except SearchError Predicate := do
  let lookup ← Lookup.ofValue field value
  .ok (.field field lookup)

/-- The terms of some parameters, one for each value, in order. -/
def Params.terms (p : Params) (excluded : List String) : List (String × Json) :=
  (p.without excluded).entries.flatMap fun (key, values) => values.map (key, ·)

/-- The predicates of a plain search. -/
def Params.termPredicates (p : Params) (excluded : List String) :
    Except SearchError (List Predicate) :=
  (p.terms excluded).mapM fun (key, value) => Predicate.ofTerm key value

end SchemaSearch
