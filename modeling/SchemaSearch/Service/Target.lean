import SchemaSearch.Text.Pieces

/-!
# Request targets

What a URI asks for: a path and a query.  A URI starts with its path, or with a scheme and an
authority that say nothing about the resource.  A fragment is left out.
-/

namespace SchemaSearch.Service

/-- What a request asks for. -/
structure Target where
  path : List Char
  query : String
  deriving DecidableEq, Repr

namespace Target

/-- Whether a character may stand in the name of a scheme. -/
def isSchemeChar (c : Char) : Bool := c.isAlphanum || "+-.~".toList.contains c

/-- Whether a character ends an authority. -/
def endsAuthority (c : Char) : Bool := c = '/' || c = '?' || c = '#'

/-- What follows the scheme and the authority of an absolute URI. -/
def afterAuthority? (uri : List Char) : Option (List Char) :=
  match uri.dropWhile isSchemeChar with
  | ':' :: '/' :: '/' :: rest => some (rest.dropWhile (!endsAuthority ·))
  | _ => none

/-- The target of a URI without scheme and authority. -/
def ofRelative (uri : List Char) : Target :=
  let (whole, _) := Text.splitFirst '#' uri
  let (path, query) := Text.splitFirst '?' whole
  ⟨path, String.ofList (query.getD [])⟩

/-- The target of a URI.  The path of an absolute URI is `/` if it has none. -/
def ofUri (uri : String) : Target :=
  match afterAuthority? uri.toList with
  | some rest =>
    let target := ofRelative rest
    if target.path.isEmpty then { target with path := ['/'] } else target
  | none => ofRelative uri.toList

end Target

end SchemaSearch.Service
