import SchemaSearch.Service.Resource

/-!
# Data sets

Filling the tables of the service from JSON, and a small sample: eight questions with their answers,
five topics and five tags, some retired, with texts that need escaping or are not ASCII.
-/

namespace SchemaSearch.Service

open Store

/-! ## Data from JSON -/

/-- The tables and the names that a data set gives them. -/
def dataTables : List (String × TableDef) :=
  [("topics", topicTable), ("tags", tagTable), ("questions", questionTable),
   ("answers", answerTable), ("questions_topics", questionTopicLink),
   ("answers_tags", answerTagLink)]

/-- A row, written as an object or as the list of its values. -/
def readRow (t : TableDef) : Json → Row
  | .list values => t.rowOfList values
  | value => t.rowOfJson value

/-- The rows of one table in a data set. -/
def readRows (t : TableDef) : Option Json → List Row
  | some (.list rows) => rows.map (readRow t)
  | _ => []

/-- The database of a data set. -/
def databaseOfJson (data : Json) : Database :=
  ⟨dataTables.map fun (name, t) => (t.name, readRows t (data.get? name))⟩

/-! ## The sample -/

/-- The UUID of a small number. -/
def sampleId (n : Nat) : Value :=
  .blob (List.replicate 14 0 ++ [UInt8.ofNat (n / 256), UInt8.ofNat (n % 256)])

/-- A text or NULL. -/
def sampleText : Option String → Value
  | some s => .text s
  | none => .null

/-- A UUID or NULL. -/
def sampleId? : Option Nat → Value
  | some n => sampleId n
  | none => .null

/-- The audit columns of a row; a row that was retired is not active. -/
def sampleAudit (created modified : String) (retired : Option String) : List (String × Value) :=
  [("created_at", .text created), ("last_modified", .text modified),
   ("is_active", .integer (if retired.isSome then 0 else 1)),
   ("deactivated_at", sampleText retired)]

/-- A question. -/
def sampleQuestion (id : Nat) (title : String) (context : Option String) (canonical owner : Option Nat)
    (created modified : String) (retired : Option String) : Row :=
  ⟨[("question_id", sampleId id), ("title", .text title), ("context", sampleText context),
    ("canonical_answer_id", sampleId? canonical), ("owner_id", sampleId? owner)]
    ++ sampleAudit created modified retired⟩

/-- An answer. -/
def sampleAnswer (id : Nat) (description : String) (question : Nat) (created modified : String)
    (retired : Option String) : Row :=
  ⟨[("answer_id", sampleId id), ("description", .text description),
    ("question_id", sampleId question)] ++ sampleAudit created modified retired⟩

/-- A topic or a tag. -/
def sampleTitle (key : String) (id : Nat) (title created modified : String)
    (retired : Option String) : Row :=
  ⟨[(key, sampleId id), ("title", .text title)] ++ sampleAudit created modified retired⟩

/-- A link between two rows. -/
def sampleLink (left right : String) (ids : Nat × Nat) : Row :=
  ⟨[(left, sampleId ids.1), (right, sampleId ids.2)]⟩

/-- The sample's questions. -/
def sampleQuestions : List Row :=
  [sampleQuestion 0x300 "How do I reset my password?" (some "Account setup help") (some 0x400)
     (some 0x900) "2024-01-10 00:00:00" "2025-02-01 10:00:00" none,
   sampleQuestion 0x301 "How to export data?" none none none "2024-03-05 00:00:00"
     "2024-03-05 00:00:00" none,
   sampleQuestion 0x302 "Why is billing late?" (some "Invoices arrive after the due date") none
     (some 0x901) "2024-06-20 00:00:00" "2025-02-03 10:00:00" none,
   sampleQuestion 0x303 "How to delete account?" (some "Old question") none (some 0x900)
     "2023-11-01 00:00:00" "2023-11-01 00:00:00" (some "2024-07-01 00:00:00"),
   sampleQuestion 0x304 "100% of the time_out errors" (some "50%_off \\ slash") (some 0x404) none
     "2024-02-29 23:59:59" "2025-02-05 10:00:00" none,
   sampleQuestion 0x305 "Où est l'été?" (some "ÉTÉ straße") (some 0x999) (some 0x902)
     "2024-05-01 12:30:45.250" "2024-05-01 12:30:45.250" none,
   sampleQuestion 0x306 "null" (some "none") none (some 0x901) "2022-12-31 00:00:00"
     "2025-02-07 10:00:00" none,
   sampleQuestion 0x307 "zebra crossing" (some "") (some 0x405) none "2025-01-01 00:00:00"
     "2025-01-01 00:00:00" none]

/-- The sample's answers. -/
def sampleAnswers : List Row :=
  [sampleAnswer 0x400 "Use the restart link on the login page" 0x300 "2024-01-11 00:00:00"
     "2025-03-01 00:00:00" none,
   sampleAnswer 0x401 "Billing runs nightly" 0x302 "2024-06-21 00:00:00" "2025-03-02 00:00:00" none,
   sampleAnswer 0x402 "Export from the settings page" 0x301 "2024-03-06 00:00:00"
     "2025-03-03 00:00:00" (some "2024-07-02 00:00:00"),
   sampleAnswer 0x403 "Ask support" 0x300 "2024-01-12 09:15:00" "2025-03-04 00:00:00" none,
   sampleAnswer 0x404 "100% done_now" 0x304 "2024-03-01 00:00:00" "2025-03-05 00:00:00" none,
   sampleAnswer 0x405 "C'est \"ici\"" 0x305 "2024-05-02 00:00:00.125" "2025-03-06 00:00:00" none,
   sampleAnswer 0x406 "Cannot be undone" 0x303 "2023-11-02 00:00:00" "2025-03-07 00:00:00" none,
   sampleAnswer 0x407 "" 0x306 "2023-01-01 00:00:01" "2025-03-08 00:00:00" none]

/-- The sample's topics. -/
def sampleTopics : List Row :=
  let topic := sampleTitle "question_topic_id"
  [topic 0x100 "billing" "2023-01-01 00:00:00" "2024-01-01 00:00:00" none,
   topic 0x101 "setup" "2023-01-02 00:00:00" "2024-01-02 00:00:00" none,
   topic 0x102 "100% safe_mode" "2023-01-03 08:30:00" "2024-01-03 08:30:00" none,
   topic 0x103 "Élan vital" "2023-01-04 12:00:00.250" "2024-01-04 12:00:00.250" none,
   topic 0x104 "archived" "2023-01-05 00:00:00" "2024-01-05 00:00:00" (some "2023-06-01 00:00:00")]

/-- The sample's tags. -/
def sampleTags : List Row :=
  let tag := sampleTitle "answer_tag_id"
  [tag 0x200 "urgent" "2023-02-01 00:00:00" "2024-02-01 00:00:00" none,
   tag 0x201 "legacy" "2023-02-02 00:00:00" "2024-02-02 00:00:00" (some "2023-06-02 00:00:00"),
   tag 0x202 "back\\slash" "2023-02-03 00:00:00" "2024-02-03 00:00:00" none,
   tag 0x203 "it's" "2023-02-04 00:00:00" "2024-02-04 00:00:00" none,
   tag 0x204 "naïve" "2023-02-05 00:00:00.500" "2024-02-05 00:00:00.500" none]

/-- The sample database. -/
def sampleDatabase : Database :=
  ⟨[("question_topics", sampleTopics), ("answer_tags", sampleTags),
    ("questions", sampleQuestions), ("answers", sampleAnswers),
    ("questions_topics",
      [(0x300, 0x100), (0x300, 0x101), (0x301, 0x101), (0x302, 0x100), (0x303, 0x104),
       (0x304, 0x102), (0x305, 0x103)].map (sampleLink "question_id" "question_topic_id")),
    ("answers_tags",
      [(0x400, 0x200), (0x400, 0x201), (0x401, 0x201), (0x403, 0x204), (0x404, 0x202),
       (0x405, 0x203), (0x405, 0x204)].map (sampleLink "answer_id" "answer_tag_id"))]⟩

end SchemaSearch.Service
