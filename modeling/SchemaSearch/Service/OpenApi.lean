import SchemaSearch.Service.Resource

/-!
# The description of the service

An OpenAPI document: the schema of each resource, read off its table, the bodies of search answers and
errors, and what pages look like.
-/

namespace SchemaSearch.Service.OpenApi

open Schema Store

/-- A property of an object. -/
structure Property where
  name : String
  /-- What is said of it besides its type. -/
  details : List (String × Json)
  type : String
  required : Bool

/-- The type of a property; one that may be missing may be null too. -/
def Property.typeJson (p : Property) : Json :=
  if p.required then .text p.type else .list [.text p.type, .text "null"]

/-- A property as JSON. -/
def Property.toJson (p : Property) : Json := .object (("type", p.typeJson) :: p.details)

/-- An object schema. -/
def objectSchema (description : Option String) (required : List String)
    (properties : List (String × Json)) : Json :=
  .object
    ((description.toList.map fun d => ("description", Json.text d))
      ++ [("type", .text "object"), ("required", .list (required.map .text)),
          ("properties", .object properties)])

/-- The schema of some properties. -/
def propertySchema (description : Option String) (properties : List Property) : Json :=
  objectSchema description ((properties.filter (·.required)).map (·.name))
    (properties.map fun p => (p.name, p.toJson))

/-! ## Resources -/

/-- The type and the format of a column's values. -/
def columnType : ColumnType → String × Option String
  | .uuid => ("string", some "uuid")
  | .dateTime => ("string", some "date-time")
  | .boolean => ("boolean", none)
  | _ => ("string", none)

/-- A column as a property. -/
def columnProperty (c : ColumnDef) : Property :=
  let (type, format) := columnType c.type
  ⟨c.name, format.toList.map fun f => ("format", Json.text f), type, !c.nullable⟩

/-- A reference to a schema. -/
def reference (name : String) : Json := .object [("$ref", .text ("#/components/schemas/" ++ name))]

/-- The schema of a resource. -/
def resourceSchema (r : Resource) : String × Json :=
  (r.schemaName, propertySchema none (r.table.columns.map columnProperty))

/-- The word with its first letter in upper case. -/
def capitalized (s : String) : String :=
  match s.toList with
  | [] => ""
  | c :: cs => String.ofList (c.toUpper :: cs)

/-- The schema of a search answer. -/
def answerSchema (r : Resource) : String × Json :=
  (capitalized r.singular ++ "SearchResponse",
   objectSchema none ["pagination_info", r.plural]
    [("pagination_info", reference "PaginationInfo"),
     (r.plural, .object [("type", .text "array"), ("items", reference r.schemaName)])])

/-! ## Pages and errors -/

/-- A whole number. -/
def wholeProperty (name : String) (description : Option String) (unsigned : Bool) : Property :=
  ⟨name,
   (description.toList.map fun d => ("description", Json.text d))
     ++ [("format", .text "int64")] ++ (if unsigned then [("minimum", .ofNat 0)] else []),
   "integer", true⟩

/-- The schema of a page. -/
def pageSchema : String × Json :=
  ("PaginationInfo",
   propertySchema (some "Pagination block of a search response.")
    [wholeProperty "page" none false,
     wholeProperty "page_count" (some "Number of records on this page.") true,
     wholeProperty "total_count" (some "Number of records matching the search across all pages.") true,
     ⟨"has_next", [], "boolean", true⟩, ⟨"has_previous", [], "boolean", true⟩])

/-- The schema of an error. -/
def errorSchema : String × Json :=
  ("ErrorBody",
   propertySchema (some "Body of every 4xx/5xx response.")
    [⟨"success", [], "boolean", true⟩,
     ⟨"error_reason", [("description", .text "`<reason>: <detail>`, e.g. `Date search error: ...`")],
      "string", true⟩])

/-- The whole document. -/
def document : Json :=
  .object
    [("openapi", .text "3.1.0"),
     ("info", .object
       [("title", .text "Roon API"),
        ("description", .text "Search over questions, answers, topics and tags"),
        ("license", .object [("name", .text "MIT"), ("identifier", .text "MIT")]),
        ("version", .text "0.3.0")]),
     ("paths", .object []),
     ("components", .object
       [("schemas", .object
         (pageSchema :: resources.map resourceSchema ++ resources.map answerSchema ++ [errorSchema]))])]

end SchemaSearch.Service.OpenApi
