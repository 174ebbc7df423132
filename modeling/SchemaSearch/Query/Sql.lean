import SchemaSearch.Query.SortKey
import SchemaSearch.Text.Pieces

/-!
# SQL text

The text of conditions, sort keys and queries.  Conditions become binary operators joined from the
left; an operand gets parentheses unless its form says that it binds tighter (`Form.isBare`).
-/

namespace SchemaSearch.Query

/-! ## Names and values -/

/-- Text between two quotes, with the quotes inside it doubled. -/
def enclose (quote : Char) (s : String) : String :=
  String.ofList
    (quote :: (s.toList.flatMap fun c => if c = quote then [quote, quote] else [c]) ++ [quote])

/-- A name. -/
def sqlName (name : String) : String := enclose '"' name

/-- A text value. -/
def sqlText (s : String) : String := enclose '\'' s

/-- A column with its table. -/
def Column.sql (c : Column) : String := sqlName c.table ++ "." ++ sqlName c.name

/-- A value. -/
def Literal.sql : Literal → String
  | .text s => sqlText s
  | .boolean b => if b then "TRUE" else "FALSE"
  | .integer n => toString n
  | .uuid u => sqlText u.toText
  | .dateTime m => sqlText m.literalText
  | .date m => sqlText m.dateText

/-- An operand. -/
def Operand.sql : Operand → String
  | .column c => c.sql
  | .castToText c => "CAST(" ++ c.sql ++ " AS TEXT)"

/-! ## Tests -/

/-- A list of values; a test for membership in none is a constant falsehood. -/
def membershipSql (operand : String) : List Literal → String
  | [] => "1 = 2"
  | values => operand ++ " IN (" ++ ", ".intercalate (values.map Literal.sql) ++ ")"

/-- A test. -/
def Test.sql : Test → String
  | .isNull c => c.sql ++ " IS NULL"
  | .isNotNull c => c.sql ++ " IS NOT NULL"
  | .equals c value => c.sql ++ " = " ++ value.sql
  | .matchesPattern operand pattern =>
    "UPPER(" ++ operand.sql ++ ") LIKE " ++ sqlText pattern ++ " ESCAPE " ++ sqlText "\\"
  | .oneOf operand values => membershipSql operand.sql values
  | .between c low high => c.sql ++ " BETWEEN " ++ low.sql ++ " AND " ++ high.sql
  | .atLeast c low => c.sql ++ " >= " ++ low.sql
  | .atMost c high => c.sql ++ " <= " ++ high.sql

/-! ## Conditions -/

/-- What decides whether an operand needs parentheses. -/
inductive Form where
  /-- A constant. -/
  | constant
  /-- A comparison, a pattern, a membership or a test for NULL. -/
  | comparison
  | range
  | joined (joint : Joint)
  | negation
  deriving DecidableEq, Repr

/-- Whether an operand of a logical operator is written without parentheses. -/
def Form.isBare : Form → Bool
  | .constant | .comparison => true
  | _ => false

/-- A text and its form. -/
structure Phrase where
  text : String
  form : Form
  deriving DecidableEq, Repr

/-- The phrase as an operand. -/
def Phrase.operand (p : Phrase) (bare : Bool) : String := if bare then p.text else "(" ++ p.text ++ ")"

/-- The word of a joint. -/
def Joint.word : Joint → String
  | .all => "AND"
  | .any => "OR"

/-- Join two phrases.  Joining from the left, the same operator needs no parentheses there. -/
def Phrase.join (joint : Joint) (left right : Phrase) : Phrase :=
  ⟨left.operand (left.form.isBare || left.form == .joined joint)
      ++ " " ++ joint.word ++ " " ++ right.operand right.form.isBare,
   .joined joint⟩

/-- Negate a phrase. -/
def Phrase.negate (p : Phrase) : Phrase := ⟨"NOT " ++ p.operand p.form.isBare, .negation⟩

/-- The phrase of a group of none: all of nothing holds, some of nothing does not. -/
def Joint.unit : Joint → Phrase
  | .all => ⟨"TRUE", .constant⟩
  | .any => ⟨"FALSE", .constant⟩

/-- Join the phrases of a group. -/
def Phrase.joinAll (joint : Joint) : List Phrase → Phrase
  | [] => joint.unit
  | first :: rest => rest.foldl (Phrase.join joint) first

/-- The form of a test. -/
def Test.form : Test → Form
  | .between _ _ _ => .range
  | _ => .comparison

mutual

/-- The phrase of a condition. -/
def Condition.phrase : Condition → Phrase
  | .test t => ⟨t.sql, t.form⟩
  | .within column negated key rows =>
    ⟨column.sql ++ (if negated then " NOT IN (" else " IN (") ++ "SELECT " ++ key.sql ++ " FROM "
        ++ sqlName key.table ++ " WHERE " ++ rows.phrase.text ++ ")",
     .comparison⟩
  | .group joint negated items =>
    let joined := Phrase.joinAll joint (phrases items)
    if negated then joined.negate else joined
termination_by structural c => c

/-- The phrases of some conditions. -/
def Condition.phrases : List Condition → List Phrase
  | [] => []
  | c :: cs => c.phrase :: Condition.phrases cs
termination_by structural cs => cs

end

/-- The text of a condition. -/
def Condition.sql (c : Condition) : String := c.phrase.text

/-! ## Sort keys and queries -/

/-- The function that finds an extreme. -/
def Extreme.word : Extreme → String
  | .least => "MIN"
  | .greatest => "MAX"

/-- The condition that ties a source to what came before. -/
def Source.tie (s : Source) : String := s.left.sql ++ " = " ++ s.right.sql

/-- A table under its alias. -/
def Source.named (s : Source) : String := sqlName s.table ++ " AS " ++ sqlName s.tableAlias

/-- The text of a sort key. -/
def SortKey.sql : SortKey → String
  | .column c => c.sql
  | .related extreme value [] => "(SELECT " ++ extreme.word ++ "(" ++ value.sql ++ "))"
  | .related extreme value (first :: rest) =>
    "(SELECT " ++ extreme.word ++ "(" ++ value.sql ++ ") FROM " ++ first.named
      ++ String.join (rest.map fun s => " INNER JOIN " ++ s.named ++ " ON " ++ s.tie)
      ++ " WHERE " ++ first.tie ++ ")"

/-- The word of a direction. -/
def Direction.word : Direction → String
  | .ascending => "ASC"
  | .descending => "DESC"

/-- The text of a query for whole rows. -/
def Select.sql (q : Select) : String :=
  "SELECT * FROM " ++ sqlName q.table
    ++ (match q.condition with
      | some c => " WHERE " ++ c.sql
      | none => "")
    ++ (match q.order with
      | some (key, direction) => " ORDER BY " ++ key.sql ++ " " ++ direction.word
      | none => "")
    ++ (match q.window with
      | some w => " LIMIT " ++ toString w.limit ++ " OFFSET " ++ toString w.offset
      | none => "")

end SchemaSearch.Query
