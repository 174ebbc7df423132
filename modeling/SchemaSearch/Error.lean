import SchemaSearch.Json.Printer

/-!
# Why a search is refused

Every way in which parameters can fail to become a query, as causes; the wording is in one place, the
`message` functions.  An error raised inside an operator search is wrapped once: the wrapper takes over its
words and keeps the error itself as the cause.
-/

namespace SchemaSearch

/-! ## Causes -/

/-- What is wrong with date bounds. -/
inductive DateFault where
  /-- A bound is no moment. -/
  | badFormat
  /-- The attribute does not exist. -/
  | unknownAttribute
  /-- The attribute is no date. -/
  | notTemporal
  /-- The end does not come after the start. -/
  | emptyRange
  /-- The bounds name different attributes. -/
  | mixedAttributes
  /-- A fault that another part of the system has put into words. -/
  | stated (message : String)
  deriving DecidableEq, Repr

/-- The words for a fault of date bounds. -/
def DateFault.message : DateFault → String
  | .badFormat => "For date search, please format datetime as follows: YYYY-MM-DDTH:M:S"
  | .unknownAttribute => "For date search, a valid model attribute needs to be provided."
  | .notTemporal => "For date search, a valid datetime model attribute needs to be provided."
  | .emptyRange => "For date range search, the date_end has to be greater than the date_start."
  | .mixedAttributes =>
    "For date range search, date_start and date_end have to refer to the same attribute."
  | .stated message => message

/-- The outer operations of an expression tree. -/
def outerOperations : List String := ["_OR", "_AND", "_NOT"]

/-- A list of names in quotes and brackets. -/
def quotedList (names : List String) : String :=
  "[" ++ ", ".intercalate (names.map Json.quoted) ++ "]"

/-- What is wrong with an operator search as a whole. -/
inductive OperatorFault where
  /-- The operator is a text that names none. -/
  | unknownName (name : String)
  /-- The operator has no text form. -/
  | notAName (value : Json)
  /-- A scalar stands where an object or a list has to. -/
  | scalarNode (value : Json)
  /-- An operation has nothing to combine. -/
  | noTerms (operation : String)
  /-- An advanced search names no outer operation. -/
  | noOuterOperation
  /-- An advanced search names several. -/
  | manyOuterOperations (operations : List String)
  /-- An element of an advanced search is no JSON text. -/
  | undecodable (element reason : String)
  /-- A fault that another part of the system has put into words. -/
  | stated (message : String)
  deriving BEq, Repr

/-- The words that list the operators. -/
def operatorChoice : String := "Choose one of AND, OR, NOT, IN, ADVANCED"

/-- The words for a fault of an operator search. -/
def OperatorFault.message : OperatorFault → String
  | .unknownName name => "Unknown search operator '" ++ name ++ "'. " ++ operatorChoice
  | .notAName value => "Unknown search operator " ++ value.render ++ ". " ++ operatorChoice
  | .scalarNode value =>
    "Invalid search expression: expected an object or a list, got " ++ value.render
  | .noTerms operation => operation ++ " needs at least one search term"
  | .noOuterOperation =>
    "Invalid usage of Advanced search. You have not sent an operation. Choose one \"outer\" operation Ex: "
      ++ quotedList outerOperations
  | .manyOuterOperations operations =>
    "Invalid usage of Advanced search. You have sent: " ++ quotedList operations
      ++ ". Choose only one \"outer\" operation"
  | .undecodable element reason =>
    "Invalid usage of Advanced search. Could not decode " ++ element ++ ": " ++ reason
  | .stated message => message

/-- What is wrong with the value of one parameter. -/
inductive ValueFault where
  | bodyNotObject
  | notScalar
  | tooLong
  /-- A date bound on a column that holds no dates. -/
  | notTemporal
  | notUuid (value : String)
  | notNumber (value : String)
  | membersNotScalar
  /-- A fault that another part of the system has put into words. -/
  | stated (reason : String)
  deriving DecidableEq, Repr

/-- The words for a fault of one value. -/
def ValueFault.message : ValueFault → String
  | .bodyNotObject => "search parameters must be a JSON object"
  | .notScalar => "expected a string, number or boolean"
  | .tooLong => "value is too long"
  | .notTemporal => "date comparisons need a date or datetime field"
  | .notUuid value => "'" ++ value ++ "' is not a valid UUID"
  | .notNumber value => "'" ++ value ++ "' is not a number"
  | .membersNotScalar => "IN search values must be strings or numbers"
  | .stated reason => reason

/-! ## Errors of a search -/

/-- Why parameters do not become a query. -/
inductive SearchError where
  /-- A boolean field got a value that is no boolean token. -/
  | invalidBoolean (field value : String)
  | date (fault : DateFault)
  | operator (fault : OperatorFault)
  /-- An error inside an operator search, with the words for it. -/
  | wrapped (message : String) (source : SearchError)
  /-- A path that does not lead to a field. -/
  | unknownField (entity path : String)
  /-- A declared alias that does not lead to a field. -/
  | unresolvedRename (entity key target : String)
  | invalidParameter (field : String) (fault : ValueFault)
  | invalidOrdering (value : String)
  | pageNotInteger
  /-- An entity that was never registered. -/
  | unknownEntity (entity : String)
  deriving BEq, Repr

namespace SearchError

/-- The words for an error. -/
def message : SearchError → String
  | .invalidBoolean field value => field ++ " has invalid boolean field value of " ++ value
  | .date fault => fault.message
  | .operator fault => fault.message
  | .wrapped message _ => message
  | .unknownField entity path =>
    "Cannot resolve keyword '" ++ path ++ "' into field on " ++ entity
  | .unresolvedRename entity key target =>
    "Rename of '" ++ key ++ "' on " ++ entity ++ " points at unknown field path '" ++ target ++ "'"
  | .invalidParameter field fault => "Invalid value for '" ++ field ++ "': " ++ fault.message
  | .invalidOrdering value => "Cannot order by '" ++ value ++ "'"
  | .pageNotInteger => "Invalid value, per_page/page are integers only."
  | .unknownEntity entity => "Entity '" ++ entity ++ "' is not registered for search"

/-- The error as one of an operator search, in its own words.  What is one already stays as it is. -/
def asOperatorError : SearchError → SearchError
  | .operator fault => .operator fault
  | .wrapped message source => .wrapped message source
  | error => .wrapped error.message error

/-- Whether the client caused the error, and not the wiring of the service. -/
def isClientError : SearchError → Bool
  | .unknownEntity _ => false
  | _ => true

/-- The words in front of the message that a client gets. -/
def reasonLead : SearchError → String
  | .date _ => "Date search error"
  | .operator _ | .wrapped _ _ => "Search error"
  | _ => "Invalid parameters or data"

/-- Wrapping never changes the words. -/
@[simp] theorem message_asOperatorError (e : SearchError) :
    e.asOperatorError.message = e.message := by
  cases e <;> rfl

/-- Wrapping twice is wrapping once. -/
@[simp] theorem asOperatorError_idem (e : SearchError) :
    e.asOperatorError.asOperatorError = e.asOperatorError := by
  cases e <;> rfl

end SearchError

end SchemaSearch
