import SchemaSearch.Schema.Aliases
import SchemaSearch.Store.Definition

/-!
# The resources of the service

Questions, answers, topics and tags: their tables, how they are related, and the aliases that clients
may use.  Questions have topics and answers have tags through junction tables; a question may name one
of its answers as canonical.  Owners of questions live in another service.
-/

namespace SchemaSearch.Service

open Schema Store

/-- A resource: a table that clients search and read. -/
structure Resource where
  /-- Its name in messages. -/
  singular : String
  /-- Its name in paths and bodies. -/
  plural : String
  /-- The name of its schema in the description of the service. -/
  schemaName : String
  table : TableDef
  relationships : List Edge
  renames : Renames
  /-- The relationships by which its rows are joined to those of other resources. -/
  joins : List String
  deriving DecidableEq, Repr

namespace Resource

/-- The resource as a searchable entity. -/
def entity (r : Resource) : Entity := ⟨r.table.name, r.table.fields, r.relationships, r.renames⟩

/-- The column that names a row. -/
def keyColumn (r : Resource) : String := r.table.primaryKey.headD ""

end Resource

/-! ## Tables -/

/-- The columns that record when a row was made, changed and retired. -/
def auditColumns : List ColumnDef :=
  [.required "created_at" .dateTime, .required "last_modified" .dateTime,
   .required "is_active" .boolean, .optional "deactivated_at" .dateTime]

/-- The table of questions. -/
def questionTable : TableDef where
  name := "questions"
  columns :=
    [.required "question_id" .uuid, .required "title" .string, .optional "context" .text,
     .optional "canonical_answer_id" .uuid, .optional "owner_id" .uuid] ++ auditColumns
  primaryKey := ["question_id"]
  foreignKeys := []

/-- The table of answers. -/
def answerTable : TableDef where
  name := "answers"
  columns :=
    [.required "answer_id" .uuid, .required "description" .text, .required "question_id" .uuid]
      ++ auditColumns
  primaryKey := ["answer_id"]
  foreignKeys := [⟨"question_id", "questions", "question_id"⟩]

/-- The table of topics. -/
def topicTable : TableDef where
  name := "question_topics"
  columns := [.required "question_topic_id" .uuid, .distinct "title" .string] ++ auditColumns
  primaryKey := ["question_topic_id"]
  foreignKeys := []

/-- The table of tags. -/
def tagTable : TableDef where
  name := "answer_tags"
  columns := [.required "answer_tag_id" .uuid, .distinct "title" .string] ++ auditColumns
  primaryKey := ["answer_tag_id"]
  foreignKeys := []

/-- The table that links questions and topics. -/
def questionTopicLink : TableDef where
  name := "questions_topics"
  columns := [.required "question_id" .uuid, .required "question_topic_id" .uuid]
  primaryKey := ["question_id", "question_topic_id"]
  foreignKeys :=
    [⟨"question_id", "questions", "question_id"⟩,
     ⟨"question_topic_id", "question_topics", "question_topic_id"⟩]

/-- The table that links answers and tags. -/
def answerTagLink : TableDef where
  name := "answers_tags"
  columns := [.required "answer_id" .uuid, .required "answer_tag_id" .uuid]
  primaryKey := ["answer_id", "answer_tag_id"]
  foreignKeys :=
    [⟨"answer_id", "answers", "answer_id"⟩, ⟨"answer_tag_id", "answer_tags", "answer_tag_id"⟩]

/-- The migration that creates every table, parents first. -/
def createTables : Migration where
  name := "m20240101_000001_create_qa_tables"
  creates :=
    [topicTable, tagTable, questionTable, answerTable, questionTopicLink, answerTagLink]

/-! ## Resources -/

/-- Questions. -/
def questions : Resource where
  singular := "question"
  plural := "questions"
  schemaName := "Question"
  table := questionTable
  relationships :=
    [.toOne "canonical_answer" "answers" "canonical_answer_id" "answer_id",
     .toOne "owner" "users" "owner_id" "user_id",
     .reverseMany "answers" "answers" "question_id" "question_id",
     .manyToMany "topics" "question_topics" "question_id"
       ⟨"questions_topics", "question_id", "question_topic_id"⟩ "question_topic_id"]
  renames := .ofPairs [("topic", "topics__title")]
  joins := ["answers", "topics"]

/-- Answers. -/
def answers : Resource where
  singular := "answer"
  plural := "answers"
  schemaName := "Answer"
  table := answerTable
  relationships :=
    [.toOne "question" "questions" "question_id" "question_id",
     .reverseOne "canonical_for" "questions" "answer_id" "canonical_answer_id",
     .manyToMany "tags" "answer_tags" "answer_id"
       ⟨"answers_tags", "answer_id", "answer_tag_id"⟩ "answer_tag_id"]
  renames := .ofPairs [("tag", "tags__title")]
  joins := ["question", "tags"]

/-- Topics of questions. -/
def topics : Resource where
  singular := "topic"
  plural := "topics"
  schemaName := "QuestionTopic"
  table := topicTable
  relationships :=
    [.manyToMany "questions" "questions" "question_topic_id"
       ⟨"questions_topics", "question_topic_id", "question_id"⟩ "question_id"]
  renames := .empty
  joins := ["questions"]

/-- Tags of answers. -/
def tags : Resource where
  singular := "tag"
  plural := "tags"
  schemaName := "AnswerTag"
  table := tagTable
  relationships :=
    [.manyToMany "answers" "answers" "answer_tag_id"
       ⟨"answers_tags", "answer_tag_id", "answer_id"⟩ "answer_id"]
  renames := .empty
  joins := ["answers"]

/-- Every resource, in the order in which they are registered. -/
def resources : List Resource := [questions, answers, topics, tags]

/-- The resource of a plural name. -/
def resource? (plural : String) : Option Resource := resources.find? (·.plural == plural)

/-- The entities of the service, unchecked; `registry_ok` says that nothing is wrong with them. -/
def registry : Registry := .ofEntities (resources.map Resource.entity)

/-! ## Joins between resources -/

/-- The joins that lead from the rows of a target back to their owner. -/
def joinsBack (owner : TableDef) (edge : Edge) : List (String × Query.Column × Query.Column) :=
  let target : Query.Column := ⟨edge.target, edge.remoteColumn⟩
  let own : Query.Column := ⟨owner.name, edge.localColumn⟩
  match edge.junction with
  | none => [(owner.name, own, target)]
  | some j =>
    [(j.table, ⟨j.table, j.targetColumn⟩, target), (owner.name, own, ⟨j.table, j.ownerColumn⟩)]

/-- The query for all rows of one resource that are related to rows of another. -/
def relatedSql (owner target : Resource) : Option String :=
  let edge? := owner.relationships.find? fun e =>
    e.target == target.table.name && owner.joins.contains e.name
  edge?.map fun edge =>
    let columns := target.table.columns.map fun c => (Query.Column.mk target.table.name c.name).sql
    "SELECT " ++ ", ".intercalate columns ++ " FROM " ++ Query.sqlName target.table.name
      ++ String.join ((joinsBack owner.table edge).map fun (table, left, right) =>
        " INNER JOIN " ++ Query.sqlName table ++ " ON " ++ left.sql ++ " = " ++ right.sql)

end SchemaSearch.Service
