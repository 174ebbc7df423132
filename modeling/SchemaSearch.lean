import SchemaSearch.Text.FormData
import SchemaSearch.Text.Upper
import SchemaSearch.Decimal.Integer
import SchemaSearch.Decimal.Binary64
import SchemaSearch.Decimal.Shortest
import SchemaSearch.Json.Printer
import SchemaSearch.Json.Reader
import SchemaSearch.Moment.Reader
import SchemaSearch.Uuid
import SchemaSearch.Params
import SchemaSearch.Schema.Aliases
import SchemaSearch.Query.Sql
import SchemaSearch.Predicate.Compile
import SchemaSearch.Search.Prepare
import SchemaSearch.Store.CodePoints
import SchemaSearch.Store.Evaluation
import SchemaSearch.Store.Plan
import SchemaSearch.Store.Limits
import SchemaSearch.Store.Answer
import SchemaSearch.Store.Definition
import SchemaSearch.Service.Target
import SchemaSearch.Service.Api
import SchemaSearch.Service.Sample
import SchemaSearch.Settings.Value
import SchemaSearch.Settings.Path
import SchemaSearch.Settings.Environment
import SchemaSearch.Settings.Decode
import SchemaSearch.Decimal.Plain
import SchemaSearch.Text.Alphanumeric
import SchemaSearch.Settings.Dotenv
import SchemaSearch.Settings.Toml.Scalar
import SchemaSearch.Settings.Toml.Tables
import SchemaSearch.Settings.Toml.Reader
import SchemaSearch.Service.Settings
import SchemaSearch.Service.MediaType
import SchemaSearch.Proofs.Outcome
import SchemaSearch.Proofs.Schema.Discovery
import SchemaSearch.Proofs.Store.Groups
import SchemaSearch.Proofs.Store.Related
import SchemaSearch.Proofs.Store.Order
import SchemaSearch.Proofs.Predicate.Comparison
import SchemaSearch.Proofs.Predicate.Hops
import SchemaSearch.Proofs.Predicate.Meaning
import SchemaSearch.Proofs.Predicate.MissingRows
import SchemaSearch.Proofs.Search.Transformed
import SchemaSearch.Proofs.Search.Hidden
import SchemaSearch.Proofs.Search.Narrowing
import SchemaSearch.Proofs.Search.Activity
import SchemaSearch.Proofs.Search.Operators
import SchemaSearch.Proofs.Search.Complement
import SchemaSearch.Proofs.Search.Fields
import SchemaSearch.Proofs.Search.Pairs
import SchemaSearch.Proofs.Search.Conservation
import SchemaSearch.Proofs.Search.Ordering
import SchemaSearch.Proofs.Search.NestedOrder
import SchemaSearch.Proofs.Search.Childless
import SchemaSearch.Proofs.Search.Nesting
import SchemaSearch.Proofs.Service.Pages
import SchemaSearch.Proofs.Service.Ties
import SchemaSearch.Proofs.Tables
import SchemaSearch.Proofs.Agreement
import SchemaSearch.Proofs.Json.Brackets
import SchemaSearch.Proofs.Schema.Paths
import SchemaSearch.Proofs.Schema.Merging
import SchemaSearch.Proofs.Search.Additions
import SchemaSearch.Proofs.Search.Bounds
import SchemaSearch.Proofs.Search.Meanings
import SchemaSearch.Proofs.Search.Steering
import SchemaSearch.Proofs.Search.Reordering
import SchemaSearch.Proofs.Search.Texts
import SchemaSearch.Proofs.Search.Bodies
import SchemaSearch.Proofs.Search.Encodings
import SchemaSearch.Proofs.Search.Conjunction
import SchemaSearch.Proofs.Search.Booleans
import SchemaSearch.Proofs.Search.Causes
import SchemaSearch.Proofs.Service.Statuses
import SchemaSearch.Proofs.Search.Columns
import SchemaSearch.Proofs.Search.Controls
import SchemaSearch.Proofs.Search.Marks
import SchemaSearch.Proofs.Search.Scopes
import SchemaSearch.Proofs.Search.References
import SchemaSearch.Proofs.Service.Migrated
import SchemaSearch.Proofs.Text.Plain
import SchemaSearch.Proofs.Service.Records
import SchemaSearch.Proofs.Apart
import SchemaSearch.Proofs.Query.Lexemes
import SchemaSearch.Proofs.Query.Writing
import SchemaSearch.Proofs.Query.Differences
import SchemaSearch.Proofs.Predicate.Replaced
import SchemaSearch.Proofs.Search.Identifiers
import SchemaSearch.Proofs.Search.Slots
import SchemaSearch.Proofs.Search.Substituted
import SchemaSearch.Proofs.Search.Literals
import SchemaSearch.Proofs.Search.Trees
import SchemaSearch.Proofs.Search.Repeated
import SchemaSearch.Proofs.Search.DateKeys
import SchemaSearch.Proofs.Decimal.Padded
import SchemaSearch.Proofs.Moment.Order
import SchemaSearch.Proofs.Predicate.Times
import SchemaSearch.Proofs.Search.DateFaults
import SchemaSearch.Proofs.Search.Overwrites
import SchemaSearch.Proofs.Search.Members
import SchemaSearch.Proofs.Decimal.Numerals
import SchemaSearch.Proofs.Search.PageValues
import SchemaSearch.Proofs.Search.Defaults
import SchemaSearch.Proofs.Text.Casing
import SchemaSearch.Proofs.Store.CodePoints
import SchemaSearch.Proofs.Store.Like
import SchemaSearch.Proofs.Predicate.Patterns
import SchemaSearch.Proofs.Predicate.OwnText
import SchemaSearch.Proofs.Predicate.PartialUuids
import SchemaSearch.Proofs.Schema.Resolution
import SchemaSearch.Proofs.Moment.Parts
import SchemaSearch.Proofs.Moment.Forms
import SchemaSearch.Proofs.Search.Refusals
import SchemaSearch.Proofs.Settings.Overlays
import SchemaSearch.Proofs.Service.TextOptions
import SchemaSearch.Proofs.Predicate.Composition
import SchemaSearch.Proofs.Params.History
