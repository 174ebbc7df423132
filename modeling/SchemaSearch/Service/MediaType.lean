import SchemaSearch.Text.Pieces

/-!
# Media types

What a request says about its body: a type, a subtype that may end in a suffix, and parameters.  A media
type that is not well formed announces nothing.
-/

namespace SchemaSearch.Service.MediaType

/-- Whether a character may stand in a name or in a value without quotes. -/
def isTokenChar (c : Char) : Bool := c.isAlphanum || "!#$%&'*+-.^_`|~".toList.contains c

/-- Whether a character may stand in quotes; all of a media type is printable ASCII. -/
def isQuotedChar (c : Char) : Bool := 0x20 ≤ c.toNat && c.toNat < 0x7F

/-- How far the parameters have come. -/
inductive ParamState where
  | start
  | name
  | valueStart
  | value
  | quotedStart
  | quoted
  | quotedEnd

/-- Take one character of the parameters. -/
def ParamState.step (c : Char) : ParamState → Option ParamState
  | .start => if c = ' ' then some .start else if isTokenChar c then some .name else none
  | .name => if c = '=' then some .valueStart else if isTokenChar c then some .name else none
  | .valueStart =>
    if c = '"' then some .quotedStart else if isTokenChar c then some .value else none
  | .value => if c = ';' then some .start else if isTokenChar c then some .value else none
  | .quotedStart => if isQuotedChar c then some .quoted else none
  | .quoted => if c = '"' then some .quotedEnd else if isQuotedChar c then some .quoted else none
  | .quotedEnd => if c = ';' then some .start else if c = ' ' then some .quotedEnd else none

/-- Whether the parameters may end here. -/
def ParamState.isFinal : ParamState → Bool
  | .start | .valueStart | .value | .quotedEnd => true
  | .name | .quotedStart | .quoted => false

/-- Whether parameters are well formed. -/
def parametersOk (cs : List Char) : Bool :=
  (cs.foldlM (fun state c => ParamState.step c state) .start).any ParamState.isFinal

/-- Split a subtype at its last plus sign; one at the very front is part of the name. -/
def splitSuffix (subtype : List Char) : List Char × Option (List Char) :=
  let suffix := (subtype.reverse.takeWhile (· ≠ '+')).reverse
  if suffix.length + 1 < subtype.length then
    (subtype.take (subtype.length - suffix.length - 1), some suffix)
  else (subtype, none)

/-- Whether a type and a subtype are those of JSON. -/
def isJson (kind subtype : List Char) : Bool :=
  let (name, suffix) := splitSuffix subtype
  kind == "application".toList && (name == "json".toList || suffix == some "json".toList)

/-- Whether a media type announces JSON: `application/json`, or a subtype that ends in `+json`. -/
def announcesJson (contentType : String) : Bool :=
  let (essence, parameters) := Text.splitFirst ';' (Text.asciiLower contentType.toList)
  match Text.splitFirst '/' essence with
  | (kind, some subtype) =>
    kind.all isTokenChar && subtype.all isTokenChar && isJson kind subtype
      && parameters.all parametersOk
  | (_, none) => false

end SchemaSearch.Service.MediaType
