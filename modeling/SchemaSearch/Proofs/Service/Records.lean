import SchemaSearch.Proofs.Search.Booleans
import SchemaSearch.Proofs.Service.Pages
import SchemaSearch.Proofs.Service.Statuses
import SchemaSearch.Proofs.Text.Plain

/-!
# Records and searches for their keys

A record is read by a query of its own: its key, merged with the condition of a scope.  A search for the
same key goes through everything that parameters go through, and comes to a prefix lookup that takes the
text for a whole UUID.  Both select the active rows with the key, and of these there is one at most.

Main statement: a record is answered just if the search for its key answers with it alone, and it is missing
just if the search finds nothing (`record_agrees_with_search`).
-/

namespace SchemaSearch

open Query Schema Store

namespace Service

/-! ## The rows with a key -/

/-- Whether a row is active and has a key. -/
def isRecord (r : Resource) (u : Uuid) (row : Row) : Bool :=
  row.get r.keyColumn == .blob u.bytes && row.get activeField == .integer 1

/-- The rows of a resource with a key. -/
def keyed (db : Database) (r : Resource) (u : Uuid) : List Row :=
  (db.rows r.table.name).filter fun row => row.get r.keyColumn == .blob u.bytes

/-- The active rows of a resource with a key. -/
def records (db : Database) (r : Resource) (u : Uuid) : List Row :=
  (db.rows r.table.name).filter (isRecord r u)

theorem mem_keyed {db : Database} {r : Resource} {u : Uuid} {row : Row} :
    row ∈ keyed db r u ↔ row ∈ db.rows r.table.name ∧ row.get r.keyColumn = .blob u.bytes := by
  rw [keyed, List.mem_filter, beq_iff_eq]

theorem mem_records {db : Database} {r : Resource} {u : Uuid} {row : Row} :
    row ∈ records db r u ↔ row ∈ keyed db r u ∧ row.get activeField = .integer 1 := by
  rw [records, List.mem_filter, isRecord, Bool.and_eq_true, beq_iff_eq, beq_iff_eq, mem_keyed, and_assoc]

/-- Some of the rows with a key are active. -/
theorem length_records_le (db : Database) (r : Resource) (u : Uuid) :
    (records db r u).length ≤ (keyed db r u).length := by
  have hrecords : records db r u = (keyed db r u).filter fun row => row.get activeField == .integer 1 := by
    rw [keyed, List.filter_filter]
    exact List.filter_congr fun row _ => Bool.and_comm _ _
  rw [hrecords]
  exact List.length_filter_le _ _

/-- No two rows of a table have the same primary key. -/
def KeysDiffer (db : Database) (t : TableDef) : Prop :=
  (db.rows t.name).Pairwise fun a b => t.primaryKey.map a.get ≠ t.primaryKey.map b.get

section Selections

variable (db : Database) (r : Resource) (u : Uuid) (row : Row)

theorem holds_key : (truth db [(r.table.name, row)]
    (.test (.equals ⟨r.table.name, r.keyColumn⟩ (.uuid u)))).holds
      = (row.get r.keyColumn == .blob u.bytes) := by
  show ((valueOf [(r.table.name, row)] ⟨r.table.name, r.keyColumn⟩).equals (.blob u.bytes)).holds = _
  rw [valueOf_head, Value.holds_equals]
  cases row.get r.keyColumn <;> rfl

theorem holds_active : (truth db [(r.table.name, row)]
    (.test (.equals ⟨r.table.name, activeField⟩ (.boolean true)))).holds
      = (row.get activeField == .integer 1) := by
  show ((valueOf [(r.table.name, row)] ⟨r.table.name, activeField⟩).equals (.integer 1)).holds = _
  rw [valueOf_head, Value.holds_equals]
  cases row.get activeField <;> rfl

end Selections

section Resources

variable {r : Resource} (hr : r ∈ resources)

include hr

/-- Every resource marks its active rows. -/
theorem hasActiveFlag_resource : (Scope.ofEntity registry r.entity).hasActiveFlag = true := by
  revert r
  decide

/-- The condition for one record selects the active rows with its key. -/
theorem selects_recordCondition (db : Database) (u : Uuid) (row : Row) :
    selects db r.table.name (recordCondition r u) row = isRecord r u row := by
  have hcondition : (Scope.ofEntity registry r.entity).restrictToActive.condition
      = Condition.always.and (.test (.equals ⟨r.table.name, activeField⟩ (.boolean true))) := by
    rw [Scope.condition, if_pos]
    · rfl
    · exact hasActiveFlag_resource hr
  rw [selects, recordCondition, hcondition, truth_merge, truth_and, truth_all]
  show (((truth db _ (.test (.equals ⟨r.table.name, r.keyColumn⟩ (.uuid u)))).and .true).and
    (Truth.true.and (truth db _ (.test (.equals ⟨r.table.name, activeField⟩ (.boolean true)))))).holds = _
  rw [Truth.and_true, Truth.true_and, Truth.holds_and, holds_key, holds_active, isRecord]

/-! ## The search for a key -/

theorem resolve_key :
    registry.resolve r.table.name r.keyColumn = .ok ⟨[], r.table.name, r.keyColumn, .uuid⟩ := by
  simp only [resources, List.mem_cons, List.not_mem_nil, or_false] at hr
  rcases hr with rfl | rfl | rfl | rfl <;> rfl

/-- The key of a resource is a parameter that is searched under its own name. -/
theorem searches_key : ∃ t, Transformer.ofRoot registry r.table.name = .ok t
    ∧ t.Searches .standard r.keyColumn ∧ r.keyColumn ∉ t.booleans := by
  simp only [resources, List.mem_cons, List.not_mem_nil, or_false] at hr
  rcases hr with rfl | rfl | rfl | rfl <;> exact ⟨_, rfl, by decide, by decide⟩

end Resources

/-- A plain text that is no word for NULL is looked up as the start of a text. -/
theorem ofText_of_isPlain {s : String} (h : Text.IsPlain s.toList) (hlength : s.toList.length ≠ 4) :
    Lookup.ofText s = .startsWith s := by
  have hword : ∀ word : String, word.toList.length = 4 → Text.sameIgnoringAsciiCase s word = false := by
    intro word hword
    rw [Text.sameIgnoringAsciiCase, beq_eq_false_iff_ne]
    intro hsame
    have hlengths := congrArg List.length hsame
    rw [Text.asciiLower, Text.asciiLower, List.length_map, List.length_map, hword] at hlengths
    exact hlength hlengths
  unfold Lookup.ofText
  split
  · rename_i hmark
    exact absurd (h.head hmark).1 Bool.false_ne_true
  · rename_i hmark
    exact absurd (h.head hmark).1 Bool.false_ne_true
  · rw [hword "null" rfl, hword "none" rfl]
    rfl

/-- The condition that the text of a UUID comes to as the value of a key. -/
def keyCondition (r : Resource) (u : Uuid) : Condition :=
  .all [.test (.equals ⟨r.table.name, r.keyColumn⟩ (.uuid u)), .test (.isNotNull ⟨r.table.name, r.keyColumn⟩)]

/-- The search for a key. -/
def keySearch (r : Resource) (u : Uuid) : Prepared :=
  ⟨⟨registry, r.entity, [.field r.keyColumn (.startsWith u.toText)],
      Condition.always.and (keyCondition r u), true⟩,
    ⟨"created_at", .descending, .column ⟨r.table.name, "created_at"⟩⟩, ⟨1, 100⟩⟩

section Searches

variable {r : Resource} (hr : r ∈ resources) {u : Uuid}

include hr

/-- The text of a UUID is searched as the UUID. -/
theorem ofParams_key (hu : u.bytes.length = 16) :
    Prepared.ofParams registry .standard r.table.name (.ofPairs [(r.keyColumn, .text u.toText)])
      = .ok (keySearch r u) := by
  obtain ⟨t, ht, hsearches, hboolean⟩ := searches_key hr
  have hroot := get?_resource r hr
  have hlength := Uuid.length_toText hu
  have hterm : Predicate.ofTerm r.keyColumn (.text u.toText)
      = .ok (.field r.keyColumn (.startsWith u.toText)) := by
    have hshort : ¬ maxValueBytes < u.toText.utf8ByteSize := by
      have hbytes := utf8ByteSize_le u.toText
      rw [hlength] at hbytes
      rw [maxValueBytes]
      omega
    simp only [Predicate.ofTerm, Lookup.ofValue, Json.scalarText, if_neg hshort]
    rw [ofText_of_isPlain (Uuid.isPlain_toText u) (by rw [hlength]; decide)]
    rfl
  have hcompile : (Predicate.field r.keyColumn (.startsWith u.toText)).compile registry r.table.name
      = .ok (keyCondition r u) := by
    rw [Predicate.compile, resolve_key hr, ok_bind, fieldCondition, leafCondition]
    simp only [leafTest, uuidTest, Uuid.read_toText hu]
    rfl
  have horder : SortOrder.read SearchConfig.standard.defaultOrder registry r.table.name
      = .ok ⟨"created_at", .descending, .column ⟨r.table.name, "created_at"⟩⟩ := by
    simp only [resources, List.mem_cons, List.not_mem_nil, or_false] at hr
    rcases hr with rfl | rfl | rfl | rfl <;> rfl
  show Prepared.ofParams registry .standard r.table.name ⟨[(r.keyColumn, [.text u.toText])]⟩ = _
  rw [Prepared.ofParams_single hroot ht hsearches (coerceBooleans_of_not_mem hboolean _),
    Narrowed.finish_single hroot (SearchConfig.namesField_eq_true.mp hsearches.namesField).1
      hsearches.notSteering, hterm, ok_bind, hcompile, ok_bind, horder, ok_bind]
  rfl

/-- The search for a key selects the active rows with the key. -/
theorem selects_keySearch (db : Database) (row : Row) :
    selects db r.table.name (keySearch r u).scope.condition row = isRecord r u row := by
  have hcondition : (keySearch r u).scope.condition = (Condition.always.and (keyCondition r u)).and
      (.test (.equals ⟨r.table.name, activeField⟩ (.boolean true))) := by
    rw [Scope.condition, if_pos]
    · rfl
    · exact hasActiveFlag_resource hr
  rw [selects, hcondition, truth_and, truth_and, keyCondition, truth_all, List.map_cons, List.map_singleton,
    truth_isNotNull, valueOf_head]
  show ((Truth.true.and ((truth db _ (.test (.equals ⟨r.table.name, r.keyColumn⟩ (.uuid u)))).and
    ((Truth.ofBool _).and .true))).and
      (truth db _ (.test (.equals ⟨r.table.name, activeField⟩ (.boolean true))))).holds = _
  rw [Truth.true_and, Truth.and_true, Truth.holds_and, Truth.holds_and, holds_key, holds_active,
    Truth.holds_ofBool, isRecord]
  -- a key that is found is not NULL
  cases hkey : row.get r.keyColumn == .blob u.bytes with
  | false => rfl
  | true =>
    rw [beq_iff_eq.mp hkey]
    rfl

theorem isTaken_keySearch (db : Database) : isTaken db (keySearch r u) = true := by
  have hcondition : takesCondition (keySearch r u).query = true := by
    simp only [resources, List.mem_cons, List.not_mem_nil, or_false] at hr
    rcases hr with rfl | rfl | rfl | rfl <;> rfl
  rw [isTaken, hcondition]
  rfl

/-! ## What is answered -/

variable {state : State}

theorem selectedRows_record (db : Database) :
    selectedRows db r.table.name (some (recordCondition r u)) = records db r u := by
  rw [selectedRows_some]
  exact congrArg (List.filter · _) (funext (selects_recordCondition hr db u))

theorem selectedRows_keySearch (db : Database) :
    selectedRows db (keySearch r u).query.table (keySearch r u).query.condition = records db r u := by
  show selectedRows db r.table.name (some (keySearch r u).scope.condition) = _
  rw [selectedRows_some]
  exact congrArg (List.filter · _) (funext (selects_keySearch hr db))

/-- What a search finds of the rows with a key, of which there is one at most: all of them. -/
theorem fetch_keySearch (db : Database) (hone : (records db r u).length ≤ 1) :
    fetch db (keySearch r u)
      = ((keySearch r u).page.info (records db r u).length (records db r u).length, records db r u) := by
  have htotal : total db (keySearch r u) = (records db r u).length := by
    rw [total, selectedRows_keySearch hr]
  have hreaches : reachesPage db (keySearch r u) = decide (0 < (records db r u).length) := by
    rw [reachesPage, htotal]
    rfl
  have hrows : (if reachesPage db (keySearch r u) then run db (keySearch r u).query else [])
      = records db r u := by
    rw [hreaches, run, selectedRows_keySearch hr]
    generalize records db r u = rows at hone
    cases rows with
    | nil => rfl
    | cons row rest =>
      obtain rfl : rest = [] := by simpa using hone
      show cut ⟨100, 0⟩ (sortRows db r.table.name _ _ [row]) = [row]
      rw [List.perm_singleton.mp (sortRows_perm db r.table.name _ _ [row])]
      rfl
  rw [fetch, hrows, htotal]

/-- Of rows whose keys differ, one at most has a key. -/
theorem length_keyed {db : Database} (hkeys : KeysDiffer db r.table) : (keyed db r u).length ≤ 1 := by
  have hprimary : ∀ r ∈ resources, r.table.primaryKey = [r.keyColumn] := by decide
  have hdiffer : (keyed db r u).Pairwise fun a b => a.get r.keyColumn ≠ b.get r.keyColumn := by
    refine (List.Pairwise.filter _ hkeys).imp fun hne hsame => hne ?_
    rw [hprimary r hr, List.map_singleton, List.map_singleton, hsame]
  have hkey : ∀ row ∈ keyed db r u, row.get r.keyColumn = .blob u.bytes := fun row hrow => (mem_keyed.mp hrow).2
  match hkeyed : keyed db r u with
  | [] => exact Nat.zero_le 1
  | [_] => exact Nat.le_refl 1
  | a :: b :: rest =>
    rw [hkeyed] at hdiffer hkey
    have hne := (List.pairwise_cons.mp hdiffer).1 b List.mem_cons_self
    rw [hkey a List.mem_cons_self, hkey b (List.mem_cons_of_mem _ List.mem_cons_self)] at hne
    exact absurd rfl hne

/-- The search for a key answers with the records, counted. -/
theorem search_key (hconfig : state.config = .standard) (hu : u.bytes.length = 16)
    (hkeys : KeysDiffer state.database r.table) :
    search state r (.ofPairs [(r.keyColumn, .text u.toText)])
      = .ok (resultBody
          ((keySearch r u).page.info (records state.database r u).length (records state.database r u).length)
          r.plural ((records state.database r u).map r.table.rowJson)) := by
  have hone := Nat.le_trans (length_records_le state.database r u) (length_keyed hr hkeys)
  simp only [search, hconfig, ofParams_key hr hu]
  rw [isTaken_keySearch hr, if_pos rfl, fetch_keySearch hr _ hone]

end Searches

/-! ## Requests -/

theorem ofUri_of_slash {uri : String} (h : uri.toList.head? = some '/') :
    Target.ofUri uri = Target.ofRelative uri.toList := by
  obtain ⟨rest, hrest⟩ := List.head?_eq_some_iff.mp h
  rw [Target.ofUri, hrest]
  rfl

/-- A URI without a query. -/
theorem ofUri_of_path {uri : String} {path : List Char} (h : uri.toList = path) (hslash : path.head? = some '/')
    (hmarks : ∀ c ∈ ['#', '?'], c ∉ path) : Target.ofUri uri = ⟨path, ""⟩ := by
  rw [ofUri_of_slash (h ▸ hslash), h, Target.ofRelative, Text.splitFirst_of_not_mem (hmarks '#' (by decide))]
  dsimp only
  rw [Text.splitFirst_of_not_mem (hmarks '?' (by decide))]
  rfl

/-- A URI with a query. -/
theorem ofUri_of_query {uri : String} {path query : List Char} (h : uri.toList = path ++ '?' :: query)
    (hslash : path.head? = some '/') (hmarks : ∀ c ∈ ['#', '?'], c ∉ path) (hquery : '#' ∉ query) :
    Target.ofUri uri = ⟨path, String.ofList query⟩ := by
  have hwhole : '#' ∉ path ++ '?' :: query := by
    simpa [hquery] using hmarks '#' (by decide)
  have hfirst : uri.toList.head? = some '/' := by
    rw [h, List.head?_append, hslash]
    rfl
  rw [ofUri_of_slash hfirst, h, Target.ofRelative, Text.splitFirst_of_not_mem hwhole]
  dsimp only
  rw [Text.splitFirst_append (hmarks '?' (by decide))]
  rfl

theorem answer_get {state : State} {uri : String} {path : List Char} {query : String} {route : Route}
    (htarget : Target.ofUri uri = ⟨path, query⟩) (hroute : Route.ofPath path = some route) (body : String)
    (contentType : Option String) : answer state ⟨"GET", uri, body, contentType⟩ = get state route query := by
  simp only [answer, htarget, hroute]
  rfl

/-- The path below a resource. -/
def pathOf (r : Resource) (segment : List Char) : List Char :=
  '/' :: ("api".toList ++ '/' :: ("v1".toList ++ '/' :: (r.plural.toList ++ '/' :: segment)))

section Requests

variable {r : Resource} (hr : r ∈ resources)

include hr

theorem isPlain_plural : Text.IsPlain r.plural.toList ∧ Text.IsPlain r.keyColumn.toList := by
  revert r
  decide

/-- The route of a path below a resource is told by its last segment. -/
theorem ofPath_pathOf {segment : List Char} (h : '/' ∉ segment) :
    Route.ofPath (pathOf r segment) = Route.ofSegments r.plural.toList segment := by
  have hplural : '/' ∉ r.plural.toList := (isPlain_plural hr).1.not_mem rfl
  have hpieces : Text.splitOn '/' (pathOf r segment)
      = [[], "api".toList, "v1".toList, r.plural.toList, segment] := by
    rw [pathOf, ← List.nil_append ('/' :: _), Text.splitOn_append List.not_mem_nil,
      Text.splitOn_append (by decide), Text.splitOn_append (by decide), Text.splitOn_append hplural,
      Text.splitOn_of_not_mem h]
  have hother : ∀ path ∈ ["/heartbeat", "/api-docs/openapi.json", "/api/v1"],
      pathOf r segment ≠ path.toList := by
    intro path hpath hsame
    rw [hsame] at hpieces
    have hfewer : ∀ path ∈ ["/heartbeat", "/api-docs/openapi.json", "/api/v1"],
        (Text.splitOn '/' path.toList).length ≠ 5 := by decide
    exact hfewer path hpath (congrArg List.length hpieces)
  rw [Route.ofPath, if_neg (hother _ (by decide)), if_neg (hother _ (by decide)), if_neg (hother _ (by decide)),
    hpieces]
  exact if_pos ⟨rfl, rfl, rfl⟩

theorem marks_pathOf {segment : List Char} (h : Text.IsPlain segment) :
    ∀ c ∈ ['#', '?'], c ∉ pathOf r segment := by
  intro c hc
  have hmark : c = '#' ∨ c = '?' := by simpa using hc
  have hplain : Text.isPlain c = false := by rcases hmark with rfl | rfl <;> rfl
  obtain ⟨hslash, hapi, hversion⟩ : c ≠ '/' ∧ c ∉ "api".toList ∧ c ∉ "v1".toList := by
    rcases hmark with rfl | rfl <;> decide
  have hplural := (isPlain_plural hr).1.not_mem hplain
  have hsegment := h.not_mem hplain
  simp only [pathOf, List.mem_cons, List.mem_append, not_or]
  exact ⟨hslash, hapi, hslash, hversion, hslash, hplural, hslash, hsegment⟩

variable {u : Uuid} (hu : u.bytes.length = 16) (state : State) (body : String) (contentType : Option String)

include hu

/-- A record is read if it is there, and reported as missing if not. -/
theorem answer_record :
    answer state ⟨"GET", "/api/v1/" ++ r.plural ++ "/" ++ u.toText, body, contentType⟩
      = .ofResult (match records state.database r u with
        | row :: _ => .ok (r.table.rowJson row)
        | [] => .error (.notFound r.singular (some u.toText))) := by
  have hplain := Uuid.isPlain_toText u
  have hlength := Uuid.length_toText hu
  have huri : ("/api/v1/" ++ r.plural ++ "/" ++ u.toText).toList = pathOf r u.toText.toList := by
    simp [pathOf]
  have htarget := ofUri_of_path huri rfl (marks_pathOf hr hplain)
  have hroute : Route.ofPath (pathOf r u.toText.toList) = some (.record r u.toText.toList) := by
    have hsome : u.toText.toList.isEmpty = false := by
      rw [List.isEmpty_eq_false_iff_exists_mem]
      exact List.exists_mem_of_length_pos (by rw [hlength]; decide)
    have hsearch : u.toText.toList ≠ "search".toList := by
      intro hsame
      rw [hsame] at hlength
      cases hlength
    have hresource : ∀ r ∈ resources, resource? (String.ofList r.plural.toList) = some r := by
      simp only [String.ofList_toList]
      decide
    rw [ofPath_pathOf hr (hplain.not_mem rfl), Route.ofSegments, hresource r hr, Option.bind_some, hsome,
      if_neg Bool.false_ne_true, if_neg hsearch]
  have hid : readId u.toText.toList = .ok u := by
    rw [readId, Text.decode?_of_isPlain hplain]
    simp only [String.ofList_toList, Uuid.read_toText hu]
  rw [answer_get htarget hroute]
  show Response.ofResult (readRecord state r u.toText.toList) = _
  cases hrecords : records state.database r u with
  | nil => rw [readRecord, hid, ok_bind, selectedRows_record hr, hrecords]
  | cons row rows => rw [readRecord, hid, ok_bind, selectedRows_record hr, hrecords]

/-- The search for a key is answered with the records. -/
theorem answer_keySearch (hconfig : state.config = .standard) (hkeys : KeysDiffer state.database r.table) :
    answer state ⟨"GET", "/api/v1/" ++ r.plural ++ "/search?" ++ r.keyColumn ++ "=" ++ u.toText, body,
        contentType⟩
      = ⟨200, some (resultBody
          ((keySearch r u).page.info (records state.database r u).length (records state.database r u).length)
          r.plural ((records state.database r u).map r.table.rowJson))⟩ := by
  have hplain := Uuid.isPlain_toText u
  have hkey := (isPlain_plural hr).2
  have huri : ("/api/v1/" ++ r.plural ++ "/search?" ++ r.keyColumn ++ "=" ++ u.toText).toList
      = pathOf r "search".toList ++ '?' :: (r.keyColumn ++ "=" ++ u.toText).toList := by
    simp [pathOf]
  have hquery : '#' ∉ (r.keyColumn ++ "=" ++ u.toText).toList := by
    simpa using ⟨hkey.not_mem rfl, hplain.not_mem rfl⟩
  have htarget := ofUri_of_query huri rfl (marks_pathOf hr (by decide)) hquery
  have hroute : Route.ofPath (pathOf r "search".toList) = some (.search r) := by
    have hsearch : ∀ r ∈ resources, Route.ofSegments r.plural.toList "search".toList = some (.search r) := by
      decide
    rw [ofPath_pathOf hr (by decide), hsearch r hr]
  have hparams : Params.ofQuery (r.keyColumn ++ "=" ++ u.toText)
      = .ofPairs [(r.keyColumn, .text u.toText)] := by
    rw [Params.ofQuery, Text.FormData.read_plain hkey hplain]
    rfl
  rw [answer_get htarget hroute, String.ofList_toList]
  show Response.ofResult (search state r (.ofQuery (r.keyColumn ++ "=" ++ u.toText))) = _
  rw [hparams, search_key hr hconfig hu hkeys]
  rfl

end Requests

/-- The body of a search says how many rows there are, and which. -/
theorem resultBody_inj {r : Resource} (hr : r ∈ resources) {info info' : PageInfo} {items items' : List Json}
    (h : resultBody info r.plural items = resultBody info' r.plural items') :
    info.totalCount = info'.totalCount ∧ items = items' := by
  have hmembers : ∀ (info : PageInfo) (items : List Json), resultBody info r.plural items
      = .object [("pagination_info", info.toJson), (r.plural, .list items)] := by
    simp only [resources, List.mem_cons, List.not_mem_nil, or_false] at hr
    rcases hr with rfl | rfl | rfl | rfl <;> exact fun _ _ => rfl
  rw [hmembers, hmembers] at h
  simp only [Json.object.injEq, List.cons.injEq, Prod.mk.injEq, Json.list.injEq, true_and, and_true,
    PageInfo.toJson, Json.ofNat, Json.number.injEq, Number.whole.injEq] at h
  exact ⟨by omega, h.2⟩

/-- What is answered for a record agrees with what a search for its key found: there is an item just if the
search found it and no more, none just if the search found none, and one of the two it is. -/
structure Agrees (r : Resource) (record found : Response) : Prop where
  item : ∀ item, record = ⟨200, some item⟩
    ↔ ∃ info, found = ⟨200, some (resultBody info r.plural [item])⟩ ∧ info.totalCount = 1
  missing : record.status = 404
    ↔ ∃ info items, found = ⟨200, some (resultBody info r.plural items)⟩ ∧ info.totalCount = 0
  known : record.status = 404 ∨ ∃ item, record = ⟨200, some item⟩

section Agreement

variable {r : Resource} {record found : Response} {info : PageInfo}

theorem result_inj (hr : r ∈ resources) {items items' : List Json} {info' : PageInfo}
    (hfound : found = ⟨200, some (resultBody info r.plural items)⟩)
    (h : found = ⟨200, some (resultBody info' r.plural items')⟩) :
    info.totalCount = info'.totalCount ∧ items = items' :=
  resultBody_inj hr (Option.some.inj (Response.mk.inj (hfound.symm.trans h)).2)

theorem agrees_nothing (hr : r ∈ resources) (hmissing : record.status = 404)
    (hfound : found = ⟨200, some (resultBody info r.plural [])⟩) (htotal : info.totalCount = 0) :
    Agrees r record found := by
  refine ⟨fun item => ⟨?_, ?_⟩, ⟨fun _ => ⟨info, [], hfound, htotal⟩, fun _ => hmissing⟩, .inl hmissing⟩
  · rintro rfl
    cases hmissing
  · rintro ⟨info', h, _⟩
    cases (result_inj hr hfound h).2

theorem agrees_single (hr : r ∈ resources) {item : Json} (hthere : record = ⟨200, some item⟩)
    (hfound : found = ⟨200, some (resultBody info r.plural [item])⟩) (htotal : info.totalCount = 1) :
    Agrees r record found := by
  refine ⟨fun other => ⟨?_, ?_⟩, ⟨?_, ?_⟩, .inr ⟨item, hthere⟩⟩
  · intro h
    rw [hthere] at h
    obtain rfl := Option.some.inj (Response.mk.inj h).2
    exact ⟨info, hfound, htotal⟩
  · rintro ⟨info', h, _⟩
    rw [hthere, (List.cons.inj (result_inj hr hfound h).2).1]
  · intro h
    rw [hthere] at h
    cases h
  · rintro ⟨info', items, h, hnone⟩
    have hcount := (result_inj hr hfound h).1
    rw [htotal, hnone] at hcount
    cases hcount

end Agreement

/-- Where one row at most has a key, two rows with it are the same. -/
theorem eq_of_mem_keyed {db : Database} {r : Resource} {u : Uuid} (honly : (keyed db r u).length ≤ 1)
    {row other : Row} (hrow : row ∈ keyed db r u) (hother : other ∈ keyed db r u) : row = other := by
  obtain ⟨only, honly⟩ := List.length_eq_one_iff.mp (Nat.le_antisymm honly (List.length_pos_of_mem hrow))
  rw [honly] at hrow hother
  rw [List.mem_singleton.mp hrow, List.mem_singleton.mp hother]

/-- A record and a search for its key agree, in every database whose keys differ.  The record is answered with
an item just if the search answers that there is one record in all, and with this item alone; it is reported
as missing just if the search answers that there is none; and one of the two it is.  A row of the table with
the key is answered by both if it is active, and by neither if it is not. -/
theorem record_agrees_with_search {state : State} (hconfig : state.config = .standard) {r : Resource}
    (hr : r ∈ resources) {u : Uuid} (hu : u.bytes.length = 16) (hkeys : KeysDiffer state.database r.table)
    {record found : Response} {body : String} {contentType : Option String}
    (hrecord : record
      = answer state ⟨"GET", "/api/v1/" ++ r.plural ++ "/" ++ u.toText, body, contentType⟩)
    (hfound : found
      = answer state ⟨"GET", "/api/v1/" ++ r.plural ++ "/search?" ++ r.keyColumn ++ "=" ++ u.toText, body,
          contentType⟩) :
    (∀ item, record = ⟨200, some item⟩
        ↔ ∃ info, found = ⟨200, some (resultBody info r.plural [item])⟩ ∧ info.totalCount = 1)
      ∧ (record.status = 404
        ↔ ∃ info items, found = ⟨200, some (resultBody info r.plural items)⟩ ∧ info.totalCount = 0)
      ∧ (record.status = 404 ∨ ∃ item, record = ⟨200, some item⟩)
      ∧ ∀ row ∈ state.database.rows r.table.name, row.get r.keyColumn = .blob u.bytes →
        if row.get activeField = .integer 1 then record = ⟨200, some (r.table.rowJson row)⟩
        else record.status = 404 := by
  have honly : (keyed state.database r u).length ≤ 1 := length_keyed hr hkeys
  have hone := Nat.le_trans (length_records_le state.database r u) honly
  rw [answer_record hr hu] at hrecord
  rw [answer_keySearch hr hu _ _ _ hconfig hkeys] at hfound
  cases hrecords : records state.database r u with
  | nil =>
    rw [hrecords] at hrecord hfound
    have hmissing : record.status = 404 := congrArg Response.status hrecord
    obtain ⟨hitem, hnone, hknown⟩ := agrees_nothing hr hmissing hfound rfl
    refine ⟨hitem, hnone, hknown, ?_⟩
    intro row hmem hkey
    rw [if_neg fun hactive => ?_]
    · exact hmissing
    · have hthere := mem_records.mpr ⟨mem_keyed.mpr ⟨hmem, hkey⟩, hactive⟩
      exact List.not_mem_nil (hrecords ▸ hthere)
  | cons single rest =>
    obtain rfl : rest = [] := by simpa [hrecords] using hone
    rw [hrecords] at hrecord hfound
    have hthere : record = ⟨200, some (r.table.rowJson single)⟩ := hrecord
    obtain ⟨hitem, hnone, hknown⟩ := agrees_single hr hthere hfound rfl
    refine ⟨hitem, hnone, hknown, ?_⟩
    intro row hmem hkey
    -- the row with the key is the one that was found, which is active
    have hmember : single ∈ records state.database r u := hrecords ▸ List.mem_cons_self
    obtain ⟨hsingle, hactive⟩ := mem_records.mp hmember
    obtain rfl := eq_of_mem_keyed honly (mem_keyed.mpr ⟨hmem, hkey⟩) hsingle
    rw [if_pos hactive]
    exact hthere

/-- The first question of the sample is active, the fourth is not. -/
theorem record_agrees_with_search_sample :
    let state : State := ⟨sampleDatabase, .standard, "1.0"⟩
    let active : Uuid := ⟨List.replicate 14 0 ++ [3, 0]⟩
    let retired : Uuid := ⟨List.replicate 14 0 ++ [3, 3]⟩
    KeysDiffer sampleDatabase questions.table
      ∧ answer state ⟨"GET", "/api/v1/" ++ questions.plural ++ "/" ++ active.toText, "", none⟩
        = ⟨200, some (questions.table.rowJson (sampleQuestions.getD 0 ⟨[]⟩))⟩
      ∧ (answer state ⟨"GET", "/api/v1/" ++ questions.plural ++ "/" ++ retired.toText, "", none⟩).status = 404
      ∧ ∃ info items, answer state ⟨"GET", "/api/v1/" ++ questions.plural ++ "/search?" ++ questions.keyColumn
          ++ "=" ++ retired.toText, "", none⟩ = ⟨200, some (resultBody info questions.plural items)⟩
        ∧ info.totalCount = 0 := by
  intro state active retired
  have hkeys : KeysDiffer sampleDatabase questions.table := by
    unfold KeysDiffer
    decide
  have hquestions : questions ∈ resources := List.mem_cons_self
  have hagrees := fun u hu =>
    @record_agrees_with_search state rfl questions hquestions u hu hkeys _ _ "" none rfl rfl
  have hactive := hagrees active rfl
  have hretired := hagrees retired rfl
  have hmissing := hretired.2.2.2 (sampleQuestions.getD 3 ⟨[]⟩) (by decide) (by decide)
  rw [if_neg (by decide)] at hmissing
  have hthere := hactive.2.2.2 (sampleQuestions.getD 0 ⟨[]⟩) (by decide) (by decide)
  rw [if_pos (by decide)] at hthere
  exact ⟨hkeys, hthere, hmissing, hretired.2.1.mp hmissing⟩

end Service

end SchemaSearch
