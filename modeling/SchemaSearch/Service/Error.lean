import SchemaSearch.Error

/-!
# Errors of the service

What goes wrong while a request is answered, the status it is answered with, and the words the client
gets.  Details of internal errors stay inside: the client learns only that the server failed.
-/

namespace SchemaSearch.Service

/-- Why a request is not answered with what it asks for. -/
inductive ServiceError where
  | notFound (resource : String) (id : Option String)
  | badRequest (message : String)
  | search (error : SearchError)
  /-- The database failed. -/
  | database (detail : String)
  | internal (message : String) (detail : Option String)
  deriving BEq, Repr

namespace ServiceError

/-- All that a client learns of an internal error. -/
def internalNotice : String := "Server Error, contact Roon to resolve"

/-- The status of the answer. -/
def status : ServiceError → Nat
  | .notFound _ _ => 404
  | .badRequest _ => 400
  | .search error => if error.isClientError then 400 else 500
  | .database _ | .internal _ _ => 500

/-- The words for the client. -/
def message : ServiceError → String
  | .notFound resource (some id) =>
    "Resource not found: " ++ resource ++ " with ID '" ++ id ++ "' not found"
  | .notFound resource none => "Resource not found: " ++ resource ++ " not found"
  | .badRequest message => "Bad Request: " ++ message
  | .search error =>
    if error.isClientError then error.reasonLead ++ ": " ++ error.message else internalNotice
  | .database _ => internalNotice
  | .internal message _ => message

/-- The body of the answer. -/
def body (e : ServiceError) : Json :=
  .object [("success", .bool false), ("error_reason", .text e.message)]

/-- What the database says when it finds nothing is that the resource is missing. -/
def ofMissingRecord (message : String) : ServiceError := .notFound message none

end ServiceError

end SchemaSearch.Service
