import SchemaSearch.Decimal.Integer
import SchemaSearch.Json.Basic
import SchemaSearch.Text.FormData

/-!
# Reading JSON

A reader that says what is wrong and where.  Each step works on the characters that are left; a fault
carries the text from which its place is counted, so the line and the column are worked out once, at
the end.  Columns count bytes.  Nesting deeper than `depthLimit` is refused.

Numbers with a fraction or an exponent, and whole numbers beyond 64 bits, are read as doubles in three
roundings: the first nineteen or twenty digits, the power of ten, and their product or quotient.
-/

namespace SchemaSearch.Json

open Decimal

/-! ## Faults -/

/-- What is wrong with a text. -/
inductive Flaw where
  | endInValue | endInList | endInObject | endInString
  | expectedColon | expectedListCommaOrEnd | expectedObjectCommaOrEnd
  | expectedIdent | expectedValue | keyMustBeString | trailingComma | trailingCharacters
  | invalidEscape | invalidNumber | numberOutOfRange
  | loneSurrogate | brokenSurrogatePair | controlCharacter | tooDeep
  deriving DecidableEq, Repr

/-- The words for a flaw. -/
def Flaw.message : Flaw → String
  | .endInValue => "EOF while parsing a value"
  | .endInList => "EOF while parsing a list"
  | .endInObject => "EOF while parsing an object"
  | .endInString => "EOF while parsing a string"
  | .expectedColon => "expected `:`"
  | .expectedListCommaOrEnd => "expected `,` or `]`"
  | .expectedObjectCommaOrEnd => "expected `,` or `\x7d`"
  | .expectedIdent => "expected ident"
  | .expectedValue => "expected value"
  | .keyMustBeString => "key must be a string"
  | .trailingComma => "trailing comma"
  | .trailingCharacters => "trailing characters"
  | .invalidEscape => "invalid escape"
  | .invalidNumber => "invalid number"
  | .numberOutOfRange => "number out of range"
  | .loneSurrogate => "lone leading surrogate in hex escape"
  | .brokenSurrogatePair => "unexpected end of hex escape"
  | .controlCharacter => "control character (\\u0000-\\u001F) found while parsing a string"
  | .tooDeep => "recursion limit exceeded"

/-- One step on the way from the whole value to the part where the fault is. -/
inductive PathStep where
  | index (n : Nat)
  | key (name : String)
  | unknown
  deriving DecidableEq, Repr

/-- A fault: the flaw, the text left where it was found, how many bytes further its place is, and the
way to the part. -/
structure Fault where
  flaw : Flaw
  rest : List Char
  ahead : Nat
  path : List PathStep := []

/-- A fault at the next byte. -/
def Fault.next (flaw : Flaw) (rest : List Char) : Fault := ⟨flaw, rest, 1, []⟩

/-- A fault right before the text left. -/
def Fault.here (flaw : Flaw) (rest : List Char) : Fault := ⟨flaw, rest, 0, []⟩

/-- The fault seen from one level further out. -/
def Fault.within (fault : Fault) (step : PathStep) : Fault := { fault with path := step :: fault.path }

/-- The line, counted from one, and the bytes of it that come before byte `offset` of the text. -/
def lineAndColumn (offset : Nat) : List Char → Nat × Nat
  | cs => go 1 0 0 cs
where
  /-- Walk on, `seen` bytes into the text and `column` bytes into the line. -/
  go (line column seen : Nat) : List Char → Nat × Nat
    | [] => (line, column)
    | c :: cs =>
      if offset ≤ seen then (line, column)
      else if offset < seen + c.utf8Size then (line, column + (offset - seen))
      else if c = '\n' then go (line + 1) 0 (seen + 1) cs
      else go line (column + c.utf8Size) (seen + c.utf8Size) cs

/-- The flaw with its place in the whole text. -/
def Fault.place (fault : Fault) (whole : List Char) : Nat × Nat :=
  let total := Text.byteSize whole
  lineAndColumn (min total (total - Text.byteSize fault.rest + fault.ahead)) whole

/-- The words for a fault, with line and column. -/
def Fault.message (fault : Fault) (whole : List Char) : String :=
  let (line, column) := fault.place whole
  fault.flaw.message ++ " at line " ++ toString line ++ " column " ++ toString column

/-- A path as text: indexes in brackets, keys with dots between. -/
def renderPath : List PathStep → String
  | [] => ""
  | .index n :: steps => "[" ++ toString n ++ "]" ++ follow steps
  | .key name :: steps => name ++ follow steps
  | .unknown :: steps => "?" ++ follow steps
where
  /-- The steps after the first. -/
  follow : List PathStep → String
    | [] => ""
    | .index n :: steps => "[" ++ toString n ++ "]" ++ follow steps
    | .key name :: steps => "." ++ name ++ follow steps
    | .unknown :: steps => ".?" ++ follow steps

/-- The words for a fault, led by the path to it if any step of the path is known. -/
def Fault.messageWithPath (fault : Fault) (whole : List Char) : String :=
  if fault.path.all (· == .unknown) then fault.message whole
  else renderPath fault.path ++ ": " ++ fault.message whole

/-! ## Blanks and words -/

/-- The blanks of JSON. -/
def isSpace (c : Char) : Bool := c = ' ' || c = '\n' || c = '\t' || c = '\r'

/-- Skip blanks. -/
def skipSpace (cs : List Char) : List Char := cs.dropWhile isSpace

/-- Read the rest of `true`, `false` or `null`. -/
def readWord (value : Json) : List Char → List Char → Except Fault (Json × List Char)
  | [], cs => .ok (value, cs)
  | _ :: _, [] => .error (.here .endInValue [])
  | w :: ws, c :: cs =>
    if c = w then readWord value ws cs else .error (.next .expectedIdent (c :: cs))

/-! ## Strings -/

/-- The value of four hexadecimal digits. -/
def hexQuad (a b c d : Char) : Option Nat :=
  match Text.hexValue a, Text.hexValue b, Text.hexValue c, Text.hexValue d with
  | some a, some b, some c, some d => some (((a * 16 + b) * 16 + c) * 16 + d)
  | _, _, _, _ => none

/-- The fault of a text that does not start with four hexadecimal digits. -/
def badQuad (cs : List Char) : Fault :=
  if Text.byteSize cs < 4 then .here .endInString [] else ⟨.invalidEscape, cs, 4, []⟩

/-- Read the four digits of an escape. -/
def readQuad : List Char → Except Fault (Nat × List Char)
  | a :: b :: c :: d :: rest =>
    match hexQuad a b c d with
    | some n => .ok (n, rest)
    | none => .error (badQuad (a :: b :: c :: d :: rest))
  | cs => .error (badQuad cs)

/-- Read the second half of a surrogate pair. -/
def readLowSurrogate (lead : Nat) : List Char → Except Fault (Char × List Char)
  | [] => .error (.here .endInString [])
  | '\\' :: [] => .error (.here .endInString [])
  | '\\' :: 'u' :: rest => do
    let (n, rest) ← readQuad rest
    if n < 0xDC00 || 0xDFFF < n then .error (.here .loneSurrogate rest)
    else .ok (Char.ofNat (0x10000 + (lead - 0xD800) * 0x400 + (n - 0xDC00)), rest)
  | '\\' :: rest => .error (.next .brokenSurrogatePair rest)
  | rest => .error (.next .brokenSurrogatePair rest)

/-- Read what follows `\u`. -/
def readUnicodeEscape (cs : List Char) : Except Fault (Char × List Char) := do
  let (n, rest) ← readQuad cs
  if 0xDC00 ≤ n && n ≤ 0xDFFF then .error (.here .loneSurrogate rest)
  else if 0xD800 ≤ n && n ≤ 0xDBFF then readLowSurrogate n rest
  else .ok (Char.ofNat n, rest)

/-- Read what follows a backslash. -/
def readEscape : List Char → Except Fault (Char × List Char)
  | [] => .error (.here .endInString [])
  | 'u' :: cs => readUnicodeEscape cs
  | '"' :: cs => .ok ('"', cs)
  | '\\' :: cs => .ok ('\\', cs)
  | '/' :: cs => .ok ('/', cs)
  | 'b' :: cs => .ok ('\x08', cs)
  | 'f' :: cs => .ok ('\x0c', cs)
  | 'n' :: cs => .ok ('\n', cs)
  | 'r' :: cs => .ok ('\r', cs)
  | 't' :: cs => .ok ('\t', cs)
  | cs => .error (.next .invalidEscape cs)

/-- Read a string up to its closing quote.  One unit of fuel pays for one character. -/
def readString : Nat → List Char → List Char → Except Fault (String × List Char)
  | 0, _, cs => .error (.here .endInString cs)
  | _ + 1, _, [] => .error (.here .endInString [])
  | _ + 1, read, '"' :: cs => .ok (String.ofList read.reverse, cs)
  | fuel + 1, read, '\\' :: cs => do
    let (c, cs) ← readEscape cs
    readString fuel (c :: read) cs
  | fuel + 1, read, c :: cs =>
    if c.toNat < 0x20 then .error (.next .controlCharacter (c :: cs))
    else readString fuel (c :: read) cs

/-! ## Numbers -/

/-- The double for `significand · 10 ^ exponent`: both are rounded first, then their product or
quotient.  Exponents below what a power of ten can reach are taken off in steps of 308. -/
def scaleReal : Nat → Binary64 → Int → Option Binary64
  | 0, _, _ => some .zero
  | fuel + 1, x, exponent =>
    let (n, d) := x.quotient
    if x.magnitude = 0 then some .zero
    else if exponent.natAbs ≤ 308 then do
      let (pn, pd) := (← Binary64.nearest (Nat.pow 10 exponent.natAbs) 1).quotient
      if 0 ≤ exponent then Binary64.nearest (n * pn) (d * pd) else Binary64.nearest (n * pd) (d * pn)
    else if 0 ≤ exponent then none
    else do
      let (pn, pd) := (← Binary64.nearest (Nat.pow 10 308) 1).quotient
      scaleReal fuel (← Binary64.nearest (n * pd) (d * pn)) (exponent + 308)

/-- A number as a double; `rest` is what follows it. -/
def realOfParts (negative : Bool) (significand : Nat) (exponent : Int) (rest : List Char) :
    Except Fault (Number × List Char) :=
  match (Binary64.nearest significand 1).bind (scaleReal 4 · exponent) with
  | some x => .ok (.real (x.withSign negative), rest)
  | none => .error (.here .numberOutOfRange rest)

/-- Take digits into the significand as long as it fits 64 bits; also count them. -/
def takeDigits (significand count : Nat) : List Char → Nat × Nat × List Char
  | [] => (significand, count, [])
  | c :: cs =>
    if isDigit c && 10 * significand + digitValue c ≤ maxUnsigned then
      takeDigits (10 * significand + digitValue c) (count + 1) cs
    else (significand, count, c :: cs)

/-- Skip digits. -/
def skipDigits (cs : List Char) : List Char := cs.dropWhile isDigit

/-- The largest exponent that is read digit by digit. -/
def maxExponent : Nat := 2147483647

/-- Take the digits of an exponent; `none` and the text after the digit at fault when it grows past
`maxExponent`. -/
def takeExponent (exponent : Nat) : List Char → Option Nat × List Char
  | [] => (some exponent, [])
  | c :: cs =>
    if isDigit c then
      if 10 * exponent + digitValue c ≤ maxExponent then
        takeExponent (10 * exponent + digitValue c) cs
      else (none, cs)
    else (some exponent, c :: cs)

/-- Read the digits of an exponent whose sign is known. -/
def readExponentDigits (negative down : Bool) (significand : Nat) (before : Int) :
    List Char → Except Fault (Number × List Char)
  | [] => .error (.here .endInValue [])
  | c :: cs =>
    if isDigit c then
      match takeExponent (digitValue c) cs with
      | (some exponent, rest) =>
        realOfParts negative significand (if down then before - exponent else before + exponent) rest
      | (none, rest) =>
        if significand ≠ 0 ∧ ¬ down then .error (.here .numberOutOfRange rest)
        else .ok (.real (Binary64.zero.withSign negative), skipDigits rest)
    else .error (.next .invalidNumber (c :: cs))

/-- Read what follows the `e` of a number. -/
def readExponent (negative : Bool) (significand : Nat) (before : Int) :
    List Char → Except Fault (Number × List Char)
  | '+' :: cs => readExponentDigits negative false significand before cs
  | '-' :: cs => readExponentDigits negative true significand before cs
  | cs => readExponentDigits negative false significand before cs

/-- Read what may follow the digits of a number that is a double already. -/
def readRealTail (negative : Bool) (significand : Nat) (exponent : Int) :
    List Char → Except Fault (Number × List Char)
  | 'e' :: cs => readExponent negative significand exponent cs
  | 'E' :: cs => readExponent negative significand exponent cs
  | cs => realOfParts negative significand exponent cs

/-- Read what follows the point of a number.  Digits that no longer fit the significand are skipped. -/
def readFraction (negative : Bool) (significand : Nat) (before : Int) (cs : List Char) :
    Except Fault (Number × List Char) :=
  let (significand, count, rest) := takeDigits significand 0 cs
  if count = 0 ∧ ¬ rest.head?.any isDigit then
    match rest with
    | [] => .error (.here .endInValue [])
    | _ => .error (.next .invalidNumber rest)
  else
    readRealTail negative significand (before - count) (skipDigits rest)

/-- Read what follows the whole part of a number; `extra` counts digits that did not fit. -/
def readNumberTail (negative : Bool) (significand extra : Nat) :
    List Char → Except Fault (Number × List Char)
  | '.' :: cs => readFraction negative significand extra cs
  | 'e' :: cs => readExponent negative significand extra cs
  | 'E' :: cs => readExponent negative significand extra cs
  | cs =>
    if extra ≠ 0 then realOfParts negative significand extra cs
    else if !negative then .ok (.whole significand, cs)
    else if significand ≠ 0 ∧ minSigned ≤ -(significand : Int) then .ok (.whole (-(significand : Int)), cs)
    else realOfParts true significand 0 cs

/-- Read a number after its sign. -/
def readNumber (negative : Bool) : List Char → Except Fault (Number × List Char)
  | [] => .error (.here .endInValue [])
  | '0' :: cs =>
    if cs.head?.any isDigit then .error (.next .invalidNumber cs) else readNumberTail negative 0 0 cs
  | c :: cs =>
    if isDigit c then
      let (significand, _, rest) := takeDigits (digitValue c) 0 cs
      readNumberTail negative significand (rest.takeWhile isDigit).length (skipDigits rest)
    else .error (.next .invalidNumber (c :: cs))

/-! ## Values -/

/-- Nested lists and objects that may be open at one time, plus one. -/
def depthLimit : Nat := 128

mutual

/-- Read a value.  One unit of fuel pays for one character or one value; `depth` counts the lists and
objects that may still be opened, plus one. -/
def readValue : Nat → Nat → List Char → Except Fault (Json × List Char)
  | 0, _, cs => .error (.here .endInValue cs)
  | fuel + 1, depth, cs =>
    match skipSpace cs with
    | [] => .error (.here .endInValue [])
    | 'n' :: cs => readWord .null ['u', 'l', 'l'] cs
    | 't' :: cs => readWord (.bool true) ['r', 'u', 'e'] cs
    | 'f' :: cs => readWord (.bool false) ['a', 'l', 's', 'e'] cs
    | '-' :: cs => do
      let (n, cs) ← readNumber true cs
      .ok (.number n, cs)
    | '"' :: cs => do
      let (s, cs) ← readString (cs.length + 1) [] cs
      .ok (.text s, cs)
    | '[' :: cs =>
      if depth ≤ 1 then .error (.next .tooDeep ('[' :: cs))
      else do
        let (items, cs) ← readItems fuel (depth - 1) [] cs
        .ok (.list items, cs)
    | '\x7b' :: cs =>
      if depth ≤ 1 then .error (.next .tooDeep ('\x7b' :: cs))
      else do
        let (members, cs) ← readMembers fuel (depth - 1) [] true cs
        .ok (.object members, cs)
    | c :: cs =>
      if isDigit c then do
        let (n, cs) ← readNumber false (c :: cs)
        .ok (.number n, cs)
      else .error (.next .expectedValue (c :: cs))

/-- Read the items of a list after those already read.  A fault between items belongs to the list, one
inside an item to that item. -/
def readItems : Nat → Nat → List Json → List Char → Except Fault (List Json × List Char)
  | 0, _, _, cs => .error (.here .endInList cs)
  | fuel + 1, depth, read, cs =>
    match skipSpace cs with
    | [] => .error (.here .endInList [])
    | ']' :: cs => .ok (read.reverse, cs)
    | c :: cs =>
      let item (cs : List Char) : Except Fault (List Json × List Char) :=
        match readValue fuel depth cs with
        | .ok (value, cs) => readItems fuel depth (value :: read) cs
        | .error fault => .error (fault.within (.index read.length))
      if read.isEmpty then item (c :: cs)
      else if c = ',' then
        match skipSpace cs with
        | ']' :: cs => .error (.next .trailingComma (']' :: cs))
        | [] => .error (.here .endInValue [])
        | cs => item cs
      else .error (.next .expectedListCommaOrEnd (c :: cs))

/-- Read the members of an object after those already read.  A fault in front of a name belongs to a
member whose name is unknown. -/
def readMembers : Nat → Nat → List (String × Json) → Bool → List Char →
    Except Fault (List (String × Json) × List Char)
  | 0, _, _, _, cs => .error (.here .endInObject cs)
  | fuel + 1, depth, read, first, cs =>
    match skipSpace cs with
    | [] => .error ((Fault.here .endInObject []).within .unknown)
    | '\x7d' :: cs => .ok (read, cs)
    | c :: cs =>
      if first then readMember fuel depth read (c :: cs)
      else if c = ',' then
        match skipSpace cs with
        | '\x7d' :: cs => .error ((Fault.next .trailingComma ('\x7d' :: cs)).within .unknown)
        | [] => .error ((Fault.here .endInValue []).within .unknown)
        | cs => readMember fuel depth read cs
      else .error ((Fault.next .expectedObjectCommaOrEnd (c :: cs)).within .unknown)

/-- Read one member and go on.  A fault at the colon belongs to the object, one behind it to the member. -/
def readMember : Nat → Nat → List (String × Json) → List Char →
    Except Fault (List (String × Json) × List Char)
  | 0, _, _, cs => .error (.here .endInObject cs)
  | fuel + 1, depth, read, '"' :: cs =>
    match readString (cs.length + 1) [] cs with
    | .error fault => .error (fault.within .unknown)
    | .ok (key, cs) =>
      match skipSpace cs with
      | [] => .error (.here .endInObject [])
      | ':' :: cs =>
        match readValue fuel depth cs with
        | .error fault => .error (fault.within (.key key))
        | .ok (value, cs) => readMembers fuel depth (Table.insert key value read) false cs
      | cs => .error (.next .expectedColon cs)
  | _ + 1, _, _, cs => .error ((Fault.next .keyMustBeString cs).within .unknown)

end

/-- Read a whole text as one value.  Three units of fuel for each character always suffice. -/
def parse (text : List Char) : Except Fault Json := do
  let (value, rest) ← readValue (3 * text.length + 3) depthLimit text
  match skipSpace rest with
  | [] => .ok value
  | rest => .error (.next .trailingCharacters rest)

end SchemaSearch.Json
