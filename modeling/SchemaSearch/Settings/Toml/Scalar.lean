import SchemaSearch.Decimal.Plain
import SchemaSearch.Moment.Reader
import SchemaSearch.Settings.Value
import SchemaSearch.Text.FormData

/-!
# TOML keys and scalars

Strings in four kinds of quotes, keys, numbers and dates.  A reader takes what it reads off the front of
a text, or refuses the text.  Dates and times are kept as texts.
-/

namespace SchemaSearch.Toml

open Decimal

/-! ## Blanks, ends of lines and comments -/

/-- The blanks within a line. -/
def isSpace (c : Char) : Bool := c = ' ' || c = '\t'

/-- Skip blanks within a line. -/
def skipSpace (cs : List Char) : List Char := cs.dropWhile isSpace

/-- Whether a character may stand in a comment or in quotes. -/
def isPrintable (c : Char) : Bool := c = '\t' || (0x20 ≤ c.toNat && c.toNat != 0x7F)

/-- Take the end of a line. -/
def takeNewline : List Char → Option (List Char)
  | '\n' :: cs => some cs
  | '\r' :: '\n' :: cs => some cs
  | _ => none

/-- Skip a comment, if there is one, up to the end of its line. -/
def skipComment : List Char → List Char
  | '#' :: cs => cs.dropWhile isPrintable
  | cs => cs

/-- Take what may follow on a line: blanks, a comment, and the end of the line or of the text. -/
def endLine (cs : List Char) : Option (List Char) :=
  match skipComment (skipSpace cs) with
  | [] => some []
  | cs => takeNewline cs

/-- Skip blanks, comments and ends of lines.  One unit of fuel pays for one line. -/
def skipLayout : Nat → List Char → List Char
  | 0, cs => cs
  | fuel + 1, cs =>
    match takeNewline (skipComment (skipSpace cs)) with
    | some rest => skipLayout fuel rest
    | none => skipSpace cs

/-- Skip blanks and ends of lines. -/
def skipBlankLines : List Char → List Char
  | [] => []
  | '\r' :: '\n' :: cs => skipBlankLines cs
  | c :: cs => if isSpace c || c = '\n' then skipBlankLines cs else c :: cs

/-! ## Strings -/

/-- The character of a code, unless the code belongs to none. -/
def charOfCode? (n : Nat) : Option Char := if n.isValidChar then some (Char.ofNat n) else none

/-- Take a code of so many hexadecimal digits. -/
def readCode (count : Nat) (cs : List Char) : Option (Char × List Char) := do
  let digits ← (cs.take count).mapM Text.hexValue
  if digits.length = count then
    let c ← charOfCode? (digits.foldl (fun n d => 16 * n + d) 0)
    some (c, cs.drop count)
  else none

/-- Take what follows a backslash. -/
def readEscape : List Char → Option (Char × List Char)
  | 'b' :: cs => some ('\x08', cs)
  | 't' :: cs => some ('\t', cs)
  | 'n' :: cs => some ('\n', cs)
  | 'f' :: cs => some ('\x0c', cs)
  | 'r' :: cs => some ('\r', cs)
  | '"' :: cs => some ('"', cs)
  | '\\' :: cs => some ('\\', cs)
  | 'u' :: cs => readCode 4 cs
  | 'U' :: cs => readCode 8 cs
  | _ => none

/-- Take a string in double quotes, after the first.  One unit of fuel pays for one character. -/
def readBasic : Nat → List Char → List Char → Option (String × List Char)
  | 0, _, _ => none
  | _ + 1, _, [] => none
  | _ + 1, read, '"' :: cs => some (String.ofList read.reverse, cs)
  | fuel + 1, read, '\\' :: cs => do
    let (c, cs) ← readEscape cs
    readBasic fuel (c :: read) cs
  | fuel + 1, read, c :: cs => if isPrintable c then readBasic fuel (c :: read) cs else none

/-- Take a string in single quotes, after the first. -/
def readLiteral (cs : List Char) : Option (String × List Char) :=
  let isInside (c : Char) : Bool := isPrintable c && c != '\''
  match cs.dropWhile isInside with
  | '\'' :: rest => some (String.ofList (cs.takeWhile isInside), rest)
  | _ => none

/-- Take a run of quotes inside a string of several lines.  Three close the string; up to two more in
front of them belong to it.  Gives the quotes that belong to the string, whether it is closed, and what
follows the run. -/
def takeQuotes (quote : Char) (cs : List Char) : List Char × Bool × List Char :=
  let run := (cs.takeWhile (· = quote)).length
  if run < 3 then (List.replicate run quote, false, cs.drop run)
  else
    let kept := min (run - 3) 2
    (List.replicate kept quote, true, cs.drop (kept + 3))

/-- Take a string of several lines, after its opening quotes.  In double quotes there are escapes, and a
backslash at the end of a line takes out the blanks up to the next text. -/
def readLines (quote : Char) : Nat → List Char → List Char → Option (String × List Char)
  | 0, _, _ => none
  | _ + 1, _, [] => none
  | fuel + 1, read, c :: cs =>
    if c = quote then
      match takeQuotes quote (c :: cs) with
      | (kept, true, rest) => some (String.ofList (kept ++ read).reverse, rest)
      | (kept, false, rest) => readLines quote fuel (kept ++ read) rest
    else if quote = '"' ∧ c = '\\' then
      match takeNewline (skipSpace cs) with
      | some rest => readLines quote fuel read (skipBlankLines rest)
      | none => do
        let (d, cs) ← readEscape cs
        readLines quote fuel (d :: read) cs
    else
      match takeNewline (c :: cs) with
      | some rest => readLines quote fuel ('\n' :: read) rest
      | none => if isPrintable c then readLines quote fuel (c :: read) cs else none

/-- Skip the end of the line on which a string of several lines was opened. -/
def skipFirstNewline (cs : List Char) : List Char := (takeNewline cs).getD cs

/-- Take a string, if the text starts with one. -/
def readString : List Char → Option (String × List Char)
  | '"' :: '"' :: '"' :: cs => readLines '"' (cs.length + 1) [] (skipFirstNewline cs)
  | '\'' :: '\'' :: '\'' :: cs => readLines '\'' (cs.length + 1) [] (skipFirstNewline cs)
  | '"' :: cs => readBasic (cs.length + 1) [] cs
  | '\'' :: cs => readLiteral cs
  | _ => none

/-! ## Keys -/

/-- The lists, inline tables or names of one key that may be nested, plus one. -/
def depthLimit : Nat := 80

/-- Whether a character may stand in a key without quotes. -/
def isBare (c : Char) : Bool := c.isAlphanum || c = '_' || c = '-'

/-- Take one name of a key. -/
def readName : List Char → Option (String × List Char)
  | '"' :: cs => readBasic (cs.length + 1) [] cs
  | '\'' :: cs => readLiteral cs
  | cs =>
    let name := cs.takeWhile isBare
    if name.isEmpty then none else some (String.ofList name, cs.dropWhile isBare)

/-- Take names with dots between, and the blanks around them.  One unit of fuel pays for one name. -/
def readNames : Nat → List Char → Option (List String × List Char)
  | 0, _ => none
  | fuel + 1, cs => do
    let (name, cs) ← readName (skipSpace cs)
    match skipSpace cs with
    | '.' :: cs => do
      let (names, cs) ← readNames fuel cs
      some (name :: names, cs)
    | cs => some ([name], cs)

/-- Take a key: the names in front of the last, and the last. -/
def readKey (cs : List Char) : Option ((List String × String) × List Char) := do
  let (names, cs) ← readNames depthLimit cs
  let last ← names.getLast?
  if names.length < depthLimit then some ((names.dropLast, last), cs) else none

/-! ## Numbers -/

/-- The digits of a text of digits, which may have single underscores between them. -/
def ungroup (digit : Char → Bool) : List Char → Option (List Char)
  | [] => none
  | [c] => if digit c then some [c] else none
  | c :: '_' :: cs => if digit c then (ungroup digit cs).map (c :: ·) else none
  | c :: cs => if digit c then (ungroup digit cs).map (c :: ·) else none

/-- Split a sign off. -/
def splitSign : List Char → Bool × List Char
  | '-' :: cs => (true, cs)
  | '+' :: cs => (false, cs)
  | cs => (false, cs)

/-- The digits of a whole number in decimal, which has no leading zeros. -/
def wholeDigits (cs : List Char) : Option (List Char) :=
  (ungroup isDigit cs).filter fun digits => digits.length == 1 || digits.head? != some '0'

/-- Read a whole number in decimal. -/
def readDecimalWhole (cs : List Char) : Option Int := do
  let (negative, cs) := splitSign cs
  let n := natOfDigits (← wholeDigits cs)
  let n : Int := if negative then -(n : Int) else n
  if minSigned ≤ n ∧ n ≤ maxSigned then some n else none

/-- Read the digits of a whole number in another base. -/
def readBased (base : Nat) (cs : List Char) : Option Int := do
  let isBaseDigit (c : Char) : Bool := (Text.hexValue c).any (· < base)
  let digits ← (← ungroup isBaseDigit cs).mapM Text.hexValue
  let n := digits.foldl (fun n d => base * n + d) 0
  if (n : Int) ≤ maxSigned then some n else none

/-- Read a whole number. -/
def readWhole : List Char → Option Int
  | '0' :: 'x' :: cs => readBased 16 cs
  | '0' :: 'o' :: cs => readBased 8 cs
  | '0' :: 'b' :: cs => readBased 2 cs
  | cs => readDecimalWhole cs

/-- Whether a character may stand among the digits of a number. -/
def isGrouped (c : Char) : Bool := isDigit c || c = '_'

/-- Read an exponent after its letter. -/
def readExponent (cs : List Char) : Option Int := do
  let (negative, cs) := splitSign cs
  let n := natOfDigits (← ungroup isDigit cs)
  some (if negative then -(n : Int) else n)

/-- Read what follows the whole part of a double: digits after a point, an exponent, or both. -/
def readRealTail : List Char → Option (List Char × Int)
  | '.' :: cs => do
    let fraction ← ungroup isDigit (cs.takeWhile isGrouped)
    match cs.dropWhile isGrouped with
    | [] => some (fraction, 0)
    | c :: cs => if c = 'e' || c = 'E' then (readExponent cs).map (fraction, ·) else none
  | c :: cs => if c = 'e' || c = 'E' then (readExponent cs).map ([], ·) else none
  | [] => none

/-- Read a double: a word, or digits with a point or an exponent.  Positive numbers that are too large
are refused. -/
def readReal (cs : List Char) : Option Binary64 := do
  let (negative, cs) := splitSign cs
  if cs = "inf".toList then some (Binary64.infinity.withSign negative)
  else if cs = "nan".toList then some Binary64.notNumber
  else
    let whole ← wholeDigits (cs.takeWhile isGrouped)
    let (fraction, exponent) ← readRealTail (cs.dropWhile isGrouped)
    let x := Binary64.ofDecimal (natOfDigits (whole ++ fraction)) (exponent - fraction.length)
    if x.isInfinity ∧ ¬ negative then none else some (x.withSign negative)

/-! ## Dates and times -/

/-- Read a date; give its text. -/
def readDate (cs : List Char) : Option (String × List Char) := do
  let (year, cs) ← Moment.number 4 4 cs
  let (month, cs) ← Moment.number 2 2 (← Moment.mark '-' cs)
  let (day, cs) ← Moment.number 2 2 (← Moment.mark '-' cs)
  if 1 ≤ month ∧ month ≤ 12 ∧ 1 ≤ day ∧ day ≤ Moment.daysInMonth year month then
    some (padded 4 year ++ "-" ++ padded 2 month ++ "-" ++ padded 2 day, cs)
  else none

/-- The text of a fraction of a second, without trailing zeros. -/
def fractionText (nanosecond : Nat) : String :=
  if nanosecond = 0 then ""
  else "." ++ String.ofList (((padded 9 nanosecond).toList.reverse.dropWhile (· = '0')).reverse)

/-- Read a time of day; give its text. -/
def readTime (cs : List Char) : Option (String × List Char) := do
  let (hour, cs) ← Moment.number 2 2 cs
  let (minute, cs) ← Moment.number 2 2 (← Moment.mark ':' cs)
  let (second, cs) ← Moment.number 2 2 (← Moment.mark ':' cs)
  let (nanosecond, cs) ← Moment.fraction cs
  if hour ≤ 23 ∧ minute ≤ 59 ∧ second ≤ 60 then
    some (padded 2 hour ++ ":" ++ padded 2 minute ++ ":" ++ padded 2 second ++ fractionText nanosecond,
      cs)
  else none

/-- Read an offset to the end, or nothing; give its text. -/
def readOffset : List Char → Option String
  | [] => some ""
  | ['Z'] | ['z'] => some "Z"
  | sign :: cs =>
    if sign = '+' || sign = '-' then do
      let (hour, cs) ← Moment.number 2 2 cs
      let (minute, cs) ← Moment.number 2 2 (← Moment.mark ':' cs)
      if hour ≤ 23 ∧ minute ≤ 59 ∧ cs.isEmpty then
        let sign := if sign = '-' ∧ hour + minute ≠ 0 then "-" else "+"
        some (sign ++ padded 2 hour ++ ":" ++ padded 2 minute)
      else none
    else none

/-- Read a time of day with an offset or without. -/
def readClock (cs : List Char) : Option String := do
  let (time, cs) ← readTime cs
  some (time ++ (← readOffset cs))

/-- Read a date, a time, or a date and a time with `T` between; give the text. -/
def readDateTime (cs : List Char) : Option String :=
  match readDate cs with
  | some (date, []) => some date
  | some (date, c :: cs) =>
    if c = 'T' || c = 't' then (readClock cs).map (date ++ "T" ++ ·) else none
  | none =>
    match readTime cs with
    | some (time, []) => some time
    | _ => none

/-! ## Scalars without quotes -/

/-- Whether a character may stand in a scalar without quotes. -/
def isTokenChar (c : Char) : Bool := c.isAlphanum || "+-_.:".toList.contains c

/-- Read a scalar without quotes. -/
def readToken (cs : List Char) : Option Setting :=
  if cs = "true".toList then some (.boolean true)
  else if cs = "false".toList then some (.boolean false)
  else
    match readDateTime cs with
    | some s => some (.text s)
    | none =>
      match readReal cs with
      | some x => some (.real x)
      | none => (readWhole cs).map .whole

/-- Take a scalar.  A blank between a date and a time is part of the scalar. -/
def readScalar (cs : List Char) : Option (Setting × List Char) :=
  match cs with
  | '"' :: _ | '\'' :: _ => (readString cs).map fun (s, rest) => (.text s, rest)
  | _ =>
    let token := cs.takeWhile isTokenChar
    match readDate token, cs.dropWhile isTokenChar with
    | some (date, []), ' ' :: c :: rest =>
      if isDigit c then
        (readClock ((c :: rest).takeWhile isTokenChar)).map fun time =>
          (.text (date ++ "T" ++ time), (c :: rest).dropWhile isTokenChar)
      else some (.text date, ' ' :: c :: rest)
    | _, rest => (readToken token).map fun value => (value, rest)

end SchemaSearch.Toml
