import SchemaSearch.Json.Reader
import SchemaSearch.Search.Prepare
import SchemaSearch.Service.Error
import SchemaSearch.Service.MediaType
import SchemaSearch.Service.OpenApi
import SchemaSearch.Service.Target
import SchemaSearch.Store.Answer
import SchemaSearch.Store.Limits

/-!
# Requests and answers

Every resource can be searched, by a query string or by a JSON body, and read one record at a time;
retired records are reported as missing.  Paths match exactly.  A request by `HEAD` is answered like
one by `GET`, without the body.
-/

namespace SchemaSearch.Service

open Query Schema Store

/-! ## Messages -/

/-- A request. -/
structure Request where
  method : String
  uri : String
  body : String
  contentType : Option String
  deriving DecidableEq, Repr

/-- An answer; some have no body. -/
structure Response where
  status : Nat
  body : Option Json
  deriving BEq, Repr

/-- A service: its data, its settings and its version. -/
structure State where
  database : Database
  config : SearchConfig
  systemVersion : String
  deriving Repr

/-- The answer that a computation comes to. -/
def Response.ofResult : Except ServiceError Json → Response
  | .ok body => ⟨200, some body⟩
  | .error error => ⟨error.status, some error.body⟩

/-! ## Searches -/

/-- How many rows a prepared search finds on all pages. -/
def total (db : Database) (s : Prepared) : Nat :=
  (selectedRows db s.query.table s.query.condition).length

/-- Whether the page that is asked for has rows. -/
def reachesPage (db : Database) (s : Prepared) : Bool := s.page.offset.any (· < total db s)

/-- The rows that a prepared search finds, and what is said about their page. -/
def fetch (db : Database) (s : Prepared) : PageInfo × List Row :=
  let rows := if reachesPage db s then run db s.query else []
  (s.page.info rows.length (total db s), rows)

/-- Whether the database takes a search.  The order is looked at only for a page that has rows. -/
def isTaken (db : Database) (s : Prepared) : Bool :=
  takesCondition s.query && (takesOrder s.query || !reachesPage db s)

/-- Search a resource. -/
def search (state : State) (r : Resource) (p : Params) : Except ServiceError Json :=
  match Prepared.ofParams registry state.config r.table.name p with
  | .error error => .error (.search error)
  | .ok prepared =>
    if isTaken state.database prepared then
      let (info, rows) := fetch state.database prepared
      .ok (resultBody info r.plural (rows.map r.table.rowJson))
    else .error (.database "query too large")

/-! ## JSON bodies -/

/-- How many bytes a body may have: two MiB. -/
def maxBodySize : Nat := 2097152

/-- The body of a request as JSON.  Its media type is looked at before its size. -/
def Request.json (q : Request) : Except ServiceError Json :=
  if !q.contentType.any MediaType.announcesJson then
    .error (.badRequest "Expected request with `Content-Type: application/json`")
  else if q.body.utf8ByteSize > maxBodySize then
    .error (.badRequest "Failed to buffer the request body: length limit exceeded")
  else
    match Json.parse q.body.toList with
    | .ok value => .ok value
    | .error fault =>
      .error (.badRequest
        ("Failed to parse the request body as JSON: " ++ fault.messageWithPath q.body.toList))

/-- Search a resource by the body of a request. -/
def searchByBody (state : State) (r : Resource) (q : Request) : Except ServiceError Json := do
  let body ← q.json
  match Params.ofJson body with
  | .ok p => search state r p
  | .error error => .error (.search error)

/-! ## Single records -/

/-- The UUID in a path. -/
def readId (segment : List Char) : Except ServiceError Uuid :=
  match Text.Utf8.decode? (Text.percentDecode segment) with
  | none => .error (.badRequest "Invalid URL: Invalid UTF-8 in `id`")
  | some cs =>
    let s := String.ofList cs
    match Uuid.read s with
    | some u => .ok u
    | none =>
      .error (.badRequest
        ("Invalid URL: Cannot parse `id` with value `" ++ s ++ "`: UUID parsing failed: "
          ++ (Uuid.flaw s).message))

/-- The condition for one active record. -/
def recordCondition (r : Resource) (u : Uuid) : Condition :=
  let scope := (Scope.ofEntity registry r.entity).restrictToActive
  (Condition.all [.test (.equals ⟨r.table.name, r.keyColumn⟩ (.uuid u))]).merge scope.condition

/-- Read one record. -/
def readRecord (state : State) (r : Resource) (segment : List Char) : Except ServiceError Json := do
  let u ← readId segment
  match selectedRows state.database r.table.name (some (recordCondition r u)) with
  | row :: _ => .ok (r.table.rowJson row)
  | [] => .error (.notFound r.singular (some u.toText))

/-! ## Routes -/

/-- What a path names. -/
inductive Route where
  | heartbeat
  | description
  | index
  | search (r : Resource)
  | record (r : Resource) (segment : List Char)
  deriving DecidableEq, Repr

/-- The route of a path below a resource. -/
def Route.ofSegments (plural segment : List Char) : Option Route :=
  (resource? (String.ofList plural)).bind fun r =>
    if segment.isEmpty then none
    else if segment = "search".toList then some (.search r)
    else some (.record r segment)

/-- The route of a path. -/
def Route.ofPath (path : List Char) : Option Route :=
  if path = "/heartbeat".toList then some .heartbeat
  else if path = "/api-docs/openapi.json".toList then some .description
  else if path = "/api/v1".toList then some .index
  else
    match Text.splitOn '/' path with
    | [root, api, version, plural, segment] =>
      if root.isEmpty ∧ api = "api".toList ∧ version = "v1".toList then
        Route.ofSegments plural segment
      else none
    | _ => none

/-- The health of the service; a client may ask for the version. -/
def heartbeat (state : State) (query : String) : Json :=
  let asked := (Params.ofQuery query).getText? "system_version"
  if asked.any (!·.isEmpty) then
    .object [("success", .bool true), ("system_version", .text state.systemVersion)]
  else .object [("success", .bool true)]

/-- Where each resource is searched. -/
def index : Json :=
  .object (resources.map fun r => (r.plural, .text ("/api/v1/" ++ r.plural ++ "/search")))

/-- The answer to a `GET`. -/
def get (state : State) (route : Route) (query : String) : Response :=
  match route with
  | .heartbeat => ⟨200, some (heartbeat state query)⟩
  | .description => ⟨200, some OpenApi.document⟩
  | .index => ⟨200, some index⟩
  | .search r => .ofResult (search state r (.ofQuery query))
  | .record r segment => .ofResult (readRecord state r segment)

/-- Answer a request. -/
def answer (state : State) (q : Request) : Response :=
  let target := Target.ofUri q.uri
  match Route.ofPath target.path with
  | none => ⟨404, none⟩
  | some route =>
    if q.method = "GET" then get state route target.query
    else if q.method = "HEAD" then { get state route target.query with body := none }
    else
      match route with
      | .search r => if q.method = "POST" then .ofResult (searchByBody state r q) else ⟨405, none⟩
      | _ => ⟨405, none⟩

end SchemaSearch.Service
