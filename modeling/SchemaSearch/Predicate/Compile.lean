import SchemaSearch.Predicate.Basic
import SchemaSearch.Query.Condition
import SchemaSearch.Schema.Path
import SchemaSearch.Search.Tokens
import SchemaSearch.Text.Upper

/-!
# From predicates to conditions

A path is resolved against the schema and becomes a test on its column, wrapped by one membership for
each hop: the owner's key is among the keys of the related rows that fulfil the rest.  No join is
needed, so rows never repeat.

Every condition built here is true or false on every row, never unknown: a comparison also demands
that its column is not NULL, and so does a membership of its two keys.  Negation is therefore exact
complement.  A path that ends in "is NULL" also holds where there is no related row at all.
-/

namespace SchemaSearch

open Query Schema

/-! ## Tests on the last column -/

/-- The text with the wildcards of patterns escaped. -/
def escapeWildcards (s : String) : String :=
  String.ofList (s.toList.flatMap fun c =>
    if c = '\\' ∨ c = '%' ∨ c = '_' then ['\\', c] else [c])

/-- The pattern of texts that start with a value. -/
def startPattern (value : String) : String := Text.toUpper (escapeWildcards value) ++ "%"

/-- The pattern of texts that contain a value. -/
def containsPattern (value : String) : String := "%" ++ Text.toUpper (escapeWildcards value) ++ "%"

/-- The test on the text of an operand. -/
def patternTest (path : String) (operand : Operand) : Lookup → Except SearchError Test
  | .startsWith value => .ok (.matchesPattern operand (startPattern value))
  | .contains value => .ok (.matchesPattern operand (containsPattern value))
  | .oneOf values => .ok (.oneOf operand (values.map .text))
  | .isNull _ | .range _ _ | .atLeast _ | .atMost _ => .error (.invalidParameter path .notTemporal)

/-- A boolean token, or the error that it is none. -/
def parseBoolean (path value : String) : Except SearchError Bool :=
  match classifyBoolean value with
  | some b => .ok b
  | none => .error (.invalidBoolean path value)

/-- The test on a boolean column: any lookup of a token compares with its truth. -/
def booleanTest (path : String) (c : Column) : Lookup → Except SearchError Test
  | .startsWith value | .contains value => do
    let b ← parseBoolean path value
    .ok (.equals c (.boolean b))
  | .oneOf values => do
    let bs ← values.mapM (parseBoolean path)
    .ok (.oneOf (.column c) (bs.map .boolean))
  | .isNull _ | .range _ _ | .atLeast _ | .atMost _ => .error (.invalidParameter path .notTemporal)

/-- The test on a column of dates or of moments: bounds compare values, all else compares text. -/
def temporalTest (path : String) (bound : Moment → Literal) (c : Column) :
    Lookup → Except SearchError Test
  | .range start finish => .ok (.between c (bound start) (bound finish))
  | .atLeast start => .ok (.atLeast c (bound start))
  | .atMost finish => .ok (.atMost c (bound finish))
  | lookup => patternTest path (.castToText c) lookup

/-- A UUID, or the error that the value is none. -/
def parseUuid (path value : String) : Except SearchError Uuid :=
  match Uuid.read value with
  | some u => .ok u
  | none => .error (.invalidParameter path (.notUuid value))

/-- The test on a UUID column: a whole UUID is compared as a value, a part of one as text. -/
def uuidTest (path : String) (c : Column) : Lookup → Except SearchError Test
  | .startsWith value =>
    match Uuid.read value with
    | some u => .ok (.equals c (.uuid u))
    | none => patternTest path (.castToText c) (.startsWith value)
  | .oneOf values => do
    let us ← values.mapM (parseUuid path)
    .ok (.oneOf (.column c) (us.map .uuid))
  | lookup => patternTest path (.castToText c) lookup

/-- A 64-bit number, or the error that the value is none. -/
def parseInteger (path value : String) : Except SearchError Int :=
  match Decimal.readSigned (Text.trim value.toList) with
  | some n => .ok n
  | none => .error (.invalidParameter path (.notNumber value))

/-- The test on an integer column: members are numbers, all else compares text. -/
def integerTest (path : String) (c : Column) : Lookup → Except SearchError Test
  | .oneOf values => do
    let ns ← values.mapM (parseInteger path)
    .ok (.oneOf (.column c) (ns.map .integer))
  | lookup => patternTest path (.castToText c) lookup

/-- The test that a lookup makes on a column of a kind. -/
def leafTest (path : String) (kind : FieldKind) (c : Column) (lookup : Lookup) :
    Except SearchError Test :=
  match lookup with
  | .isNull true => .ok (.isNull c)
  | .isNull false => .ok (.isNotNull c)
  | lookup =>
    match kind with
    | .boolean => booleanTest path c lookup
    | .dateTime => temporalTest path .dateTime c lookup
    | .date => temporalTest path .date c lookup
    | .text => patternTest path (.column c) lookup
    | .uuid => uuidTest path c lookup
    | .integer => integerTest path c lookup
    | .float | .other => patternTest path (.castToText c) lookup

/-! ## Hops -/

/-- The condition "the owner's column is (or is not) among the keys of related rows", where related
rows may have to fulfil a further condition. -/
def Schema.Edge.membership (edge : Edge) (column : Column) (negated : Bool)
    (rows : Option Condition) : Condition :=
  let remote : Column := ⟨edge.target, edge.remoteColumn⟩
  let base := Condition.all [.test (.isNotNull remote)]
  let targets := match rows with
    | some c => base.merge c
    | none => base
  match edge.junction with
  | none => .within column negated remote targets
  | some junction =>
    .within column negated ⟨junction.table, junction.ownerColumn⟩
      (.all [.within ⟨junction.table, junction.targetColumn⟩ false remote targets,
             .test (.isNotNull ⟨junction.table, junction.ownerColumn⟩)])

/-- The condition on the owner of a hop, given the one on its targets.  If a missing row counts, an
owner without a related row fulfils it too; a key of the owner that is not NULL is taken to name a
row. -/
def Schema.Hop.condition (hop : Hop) (missingCounts : Bool) (rows : Condition) : Condition :=
  let column : Column := ⟨hop.owner, hop.edge.localColumn⟩
  let related := Condition.all
    [.test (.isNotNull column), hop.edge.membership column false (some rows)]
  if missingCounts then
    if hop.edge.isForeignKey then .any [.test (.isNull column), related]
    else .any [.test (.isNull column), hop.edge.membership column true none, related]
  else related

/-- Whether a lookup also holds where there is no related row. -/
def Lookup.countsMissing (lookup : Lookup) : Bool := lookup == .isNull true

/-- Whether a lookup is about NULL. -/
def Lookup.isAboutNull : Lookup → Bool
  | .isNull _ => true
  | _ => false

/-- The condition on the last table of a path. -/
def leafCondition (path : String) (target : Target) (lookup : Lookup) :
    Except SearchError Condition := do
  let c : Column := ⟨target.table, target.column⟩
  let test ← leafTest path target.kind c lookup
  if lookup.isAboutNull then .ok (.all [.test test])
  else .ok (.all [.test test, .test (.isNotNull c)])

/-- The condition of one field. -/
def fieldCondition (path : String) (target : Target) (lookup : Lookup) :
    Except SearchError Condition := do
  let leaf ← leafCondition path target lookup
  .ok (target.hops.foldr (fun hop rows => hop.condition lookup.countsMissing rows) leaf)

/-! ## Trees -/

namespace Predicate

mutual

/-- The condition of a predicate on the rows of a root. -/
def compile (r : Registry) (root : String) : Predicate → Except SearchError Condition
  | .field path lookup => do
    let target ← r.resolve root path
    fieldCondition path target lookup
  | .and items => do
    let conditions ← compileAll r root items
    .ok (.all conditions)
  | .or items => do
    let conditions ← compileAll r root items
    .ok (.any conditions)
  | .not inner => do
    let condition ← compile r root inner
    .ok condition.not
termination_by structural p => p

/-- The conditions of some predicates, or the first error. -/
def compileAll (r : Registry) (root : String) : List Predicate → Except SearchError (List Condition)
  | [] => .ok []
  | p :: ps => do
    let condition ← compile r root p
    let conditions ← compileAll r root ps
    .ok (condition :: conditions)
termination_by structural ps => ps

end

end Predicate

end SchemaSearch
