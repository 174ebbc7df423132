import Mathlib.Data.List.Chain
import SchemaSearch.Proofs.Json.Brackets
import SchemaSearch.Query.Sql

/-!
# How SQL text is read

What stands between double quotes in SQL text is a name, what stands between single quotes is a value; a
quote that is doubled inside of them stands for itself.  Everything else is read character by character.
The reader below knows nothing of who wrote a text.  The text that conditions, sort keys and queries print is
made of the words of a fixed vocabulary, of names, of values and of whole numbers, and the reader finds exactly
those.

Main statement: a text that is written from words, names, values and numbers is read as them (`Written.read`).
-/

namespace SchemaSearch.Query

/-! ## Reading -/

/-- The two kinds of quotes. -/
inductive Quote where
  | name | value
  deriving DecidableEq, Repr

namespace Quote

/-- The character of a quote. -/
def char : Quote → Char
  | .name => '"'
  | .value => '\''

/-- The quote of a character. -/
def ofChar? (c : Char) : Option Quote :=
  if c = '"' then some .name else if c = '\'' then some .value else none

theorem ofChar?_char (q : Quote) : ofChar? q.char = some q := by
  cases q <;> rfl

end Quote

/-- What a text is made of. -/
inductive Lexeme where
  | bare (c : Char)
  /-- What stands between two quotes. -/
  | quoted (quote : Quote) (content : String)
  /-- A quote that is never closed, and what follows it. -/
  | unclosed (quote : Quote) (content : String)
  deriving DecidableEq, Repr

/-- Where a reader is. -/
inductive Place where
  | outside
  | inside (quote : Quote) (content : List Char)
  /-- Behind a quote that closes what was read, unless it is doubled. -/
  | behind (quote : Quote) (content : List Char)
  deriving DecidableEq, Repr

namespace Place

/-- What a character outside of quotes is, and where it leads. -/
def enter (c : Char) : List Lexeme × Place :=
  match Quote.ofChar? c with
  | some quote => ([], .inside quote [])
  | none => ([.bare c], .outside)

/-- What one character completes, and where it leads. -/
def step : Place → Char → List Lexeme × Place
  | .outside, c => enter c
  | .inside quote content, c =>
    if c = quote.char then ([], .behind quote content) else ([], .inside quote (content ++ [c]))
  | .behind quote content, c =>
    if c = quote.char then ([], .inside quote (content ++ [c]))
    else (.quoted quote (String.ofList content) :: (enter c).1, (enter c).2)

/-- What the end of the text completes. -/
def finish : Place → List Lexeme
  | .outside => []
  | .inside quote content => [.unclosed quote (String.ofList content)]
  | .behind quote content => [.quoted quote (String.ofList content)]

/-- Read the rest of a text. -/
def read (place : Place) : List Char → List Lexeme
  | [] => place.finish
  | c :: cs => (place.step c).1 ++ (place.step c).2.read cs

end Place

/-- What a text is made of. -/
def lexemes (text : String) : List Lexeme := Place.outside.read text.toList

example : lexemes "\"a\".\"b\" = 'it''s'"
    = [.quoted .name "a", .bare '.', .quoted .name "b", .bare ' ', .bare '=', .bare ' ',
      .quoted .value "it's"] := by decide +kernel

namespace Place

/-- Characters that are no quotes are read one by one. -/
theorem read_outside_append {cs : List Char} (h : ∀ c ∈ cs, Quote.ofChar? c = none) (rest : List Char) :
    outside.read (cs ++ rest) = cs.map .bare ++ outside.read rest := by
  induction cs with
  | nil => rfl
  | cons c cs ih =>
    have hstep : outside.step c = ([.bare c], .outside) := by
      rw [step, enter, h c List.mem_cons_self]
    rw [List.cons_append, read, hstep, ih fun other hother => h other (List.mem_cons_of_mem _ hother)]
    rfl

/-- Inside of quotes every character is read, a doubled quote as one. -/
theorem read_inside_append (quote : Quote) (cs : List Char) (content rest : List Char) :
    (inside quote content).read
        (cs.flatMap (fun c => if c = quote.char then [quote.char, quote.char] else [c])
          ++ quote.char :: rest)
      = (behind quote (content ++ cs)).read rest := by
  induction cs generalizing content with
  | nil => rw [List.flatMap_nil, List.nil_append, read, step, if_pos rfl, List.append_nil]; rfl
  | cons c cs ih =>
    rw [List.flatMap_cons, List.append_assoc, List.append_cons content c cs, ← ih]
    split
    · rename_i hquote
      rw [List.cons_append, read, step, if_pos rfl, List.cons_append, read, step, if_pos rfl, hquote]
      rfl
    · rename_i hother
      rw [List.cons_append, read, step, if_neg hother]
      rfl

/-- A closing quote is one when another character follows, or none. -/
theorem read_behind {quote : Quote} {content rest : List Char} (h : rest.head? ≠ some quote.char) :
    (behind quote content).read rest = .quoted quote (String.ofList content) :: outside.read rest := by
  cases rest with
  | nil => rfl
  | cons c cs =>
    have hc : c ≠ quote.char := fun hquote => h (congrArg some hquote)
    rw [read, step, if_neg hc]
    rfl

/-- A text in quotes is read as what was put in them. -/
theorem read_enclose {quote : Quote} {s : String} {rest : List Char} (h : rest.head? ≠ some quote.char) :
    outside.read ((enclose quote.char s).toList ++ rest) = .quoted quote s :: outside.read rest := by
  have hopen : outside.step quote.char = ([], .inside quote []) := by
    rw [step, enter, Quote.ofChar?_char]
  rw [enclose, String.toList_ofList, List.cons_append, List.cons_append, read, hopen, List.nil_append,
    List.append_assoc, List.singleton_append, read_inside_append, List.nil_append, read_behind h,
    String.ofList_toList]

end Place

/-! ## Writing -/

/-- The words that are written between names and values. -/
def vocabulary : List String :=
  ["SELECT * FROM ", " WHERE ", " ORDER BY ", "ASC", "DESC", " LIMIT ", " OFFSET ", "(SELECT ", "MIN", "MAX",
    ") FROM ", "))", " AS ", " INNER JOIN ", " ON ", "SELECT ", " FROM ", " IN (", " NOT IN (", ".", "CAST(",
    " AS TEXT)", "UPPER(", ") LIKE ", " ESCAPE ", " IS NULL", " IS NOT NULL", " = ", " >= ", " <= ",
    " BETWEEN ", " AND ", "AND", "OR", "NOT ", " ", ", ", "(", ")", "TRUE", "FALSE", "1 = 2"]

/-- A piece of written text. -/
inductive Token where
  | word (text : String)
  | number (n : Int)
  | quoted (quote : Quote) (content : String)
  deriving DecidableEq, Repr

namespace Token

/-- The text of a piece. -/
def chars : Token → List Char
  | .word text => text.toList
  | .number n => (toString n).toList
  | .quoted quote content => (enclose quote.char content).toList

/-- What a piece should be read as. -/
def lexemes : Token → List Lexeme
  | .quoted quote content => [.quoted quote content]
  | token => token.chars.map .bare

/-- Whether a piece stands in quotes. -/
def isQuoted : Token → Bool
  | .quoted _ _ => true
  | _ => false

/-- Words are those of the vocabulary, and names are as demanded. -/
def IsAllowed (names : String → Prop) : Token → Prop
  | .word text => text ∈ vocabulary
  | .number _ => True
  | .quoted .name content => names content
  | .quoted .value _ => True

/-- The text of some pieces. -/
def render (tokens : List Token) : List Char := tokens.flatMap chars

/-- Words of the vocabulary are not empty and have no quotes. -/
theorem vocabulary_plain :
    ∀ text ∈ vocabulary, text.toList ≠ [] ∧ ∀ c ∈ text.toList, Quote.ofChar? c = none := by
  have hall : vocabulary.all (fun text =>
      !text.toList.isEmpty && text.toList.all fun c => (Quote.ofChar? c).isNone) = true := by
    decide +kernel
  intro text htext
  simpa using List.all_eq_true.mp hall text htext

theorem ofChar?_of_isNumeric {c : Char} (h : Decimal.isNumeric c = true) : Quote.ofChar? c = none := by
  unfold Quote.ofChar?
  split
  · rename_i hc
    subst hc
    cases h
  · split
    · rename_i hc
      subst hc
      cases h
    · rfl

theorem number_ne_nil (n : Int) : (number n).chars ≠ [] := by
  cases n with
  | ofNat n =>
    change (Nat.repr n).toList ≠ []
    rw [Nat.toList_repr]
    exact Nat.toDigits_ne_nil
  | negSucc n => simp [chars, Int.toString_eq_repr, Int.repr]

/-- What is not in quotes has none, and is not empty. -/
theorem chars_plain {names : String → Prop} {token : Token} (hallowed : token.IsAllowed names)
    (hbare : token.isQuoted = false) : token.chars ≠ [] ∧ ∀ c ∈ token.chars, Quote.ofChar? c = none := by
  cases token with
  | word text => exact vocabulary_plain text hallowed
  | number n =>
    exact ⟨number_ne_nil n, fun c hc => ofChar?_of_isNumeric (Decimal.isNumeric_intText n c hc)⟩
  | quoted quote content => cases hbare

theorem lexemes_of_bare {token : Token} (hbare : token.isQuoted = false) :
    token.lexemes = token.chars.map .bare := by
  cases token with
  | word text => rfl
  | number n => rfl
  | quoted quote content => cases hbare

/-- What is read in quotes was written in quotes. -/
theorem mem_of_quoted {tokens : List Token} {quote : Quote} {content : String}
    (h : .quoted quote content ∈ tokens.flatMap lexemes) : .quoted quote content ∈ tokens := by
  obtain ⟨token, htoken, hread⟩ := List.mem_flatMap.mp h
  cases token with
  | word text | number n =>
    obtain ⟨c, _, hc⟩ := List.mem_map.mp hread
    cases hc
  | quoted quote' content' =>
    cases List.mem_singleton.mp hread
    exact htoken

/-- What is written leaves no quote open. -/
theorem unclosed_notMem {tokens : List Token} {quote : Quote} {content : String} :
    .unclosed quote content ∉ tokens.flatMap lexemes := by
  intro h
  obtain ⟨token, _, hread⟩ := List.mem_flatMap.mp h
  cases token with
  | word text | number n =>
    obtain ⟨c, _, hc⟩ := List.mem_map.mp hread
    cases hc
  | quoted quote' content' => cases List.mem_singleton.mp hread

/-- Nothing in quotes stands right behind another. -/
def Spaced (tokens : List Token) : Prop :=
  tokens.IsChain fun token next => token.isQuoted = true → next.isQuoted = false

/-- Pieces that keep quotes apart are read as what they are. -/
theorem read_render {names : String → Prop} : ∀ {tokens : List Token}, Spaced tokens →
    (∀ token ∈ tokens, token.IsAllowed names) →
    Place.outside.read (render tokens) = tokens.flatMap lexemes
  | [], _, _ => rfl
  | token :: tokens, hspaced, hallowed => by
    obtain ⟨hnext, hspaced⟩ := List.isChain_cons.mp hspaced
    have hrest := read_render hspaced fun other hother => hallowed other (List.mem_cons_of_mem _ hother)
    rw [render, List.flatMap_cons, List.flatMap_cons, ← hrest]
    cases hbare : token.isQuoted with
    | false =>
      have hplain := (chars_plain (hallowed token List.mem_cons_self) hbare).2
      rw [lexemes_of_bare hbare]
      exact Place.read_outside_append hplain _
    | true =>
      cases token with
      | word text => cases hbare
      | number n => cases hbare
      | quoted quote content =>
        refine Place.read_enclose ?_
        -- what follows is not in quotes
        cases tokens with
        | nil => simp
        | cons next tokens =>
          obtain ⟨hne, hplain⟩ := chars_plain
            (hallowed next (List.mem_cons_of_mem _ List.mem_cons_self)) (hnext next rfl rfl)
          obtain ⟨c, cs, hchars⟩ := List.exists_cons_of_ne_nil hne
          rw [List.flatMap_cons, hchars, List.cons_append, List.head?_cons]
          intro hquote
          have hnone := hplain c (hchars ▸ List.mem_cons_self)
          rw [Option.some.inj hquote, Quote.ofChar?_char] at hnone
          cases hnone

end Token

/-! ## Written text -/

/-- A text is written from some pieces, its names as demanded. -/
structure Written (names : String → Prop) (text : String) (tokens : List Token) : Prop where
  text : text.toList = Token.render tokens
  spaced : Token.Spaced tokens
  allowed : ∀ token ∈ tokens, token.IsAllowed names

namespace Written

variable {names : String → Prop} {a b w : String} {xs ys : List Token}

/-- What is written is read again. -/
theorem read (h : Written names a xs) : lexemes a = xs.flatMap Token.lexemes := by
  rw [lexemes, h.text]
  exact Token.read_render h.spaced h.allowed

theorem single {token : Token} (htext : a.toList = token.chars) (hallowed : token.IsAllowed names) :
    Written names a [token] := by
  refine ⟨?_, List.isChain_singleton _, ?_⟩
  · rw [htext, Token.render, List.flatMap_singleton]
  · intro other hother
    rwa [List.mem_singleton.mp hother]

theorem word (hw : w ∈ vocabulary) : Written names w [.word w] := single rfl hw

theorem name (h : names a) : Written names (sqlName a) [.quoted .name a] := single rfl h

theorem value (a : String) : Written names (sqlText a) [.quoted .value a] := single rfl trivial

theorem number (n : Int) : Written names (toString n) [.number n] := single rfl trivial

theorem nothing : Written names "" [] := ⟨rfl, List.isChain_nil, by simp⟩

/-- A text may follow another unless it begins with a quote. -/
theorem follow (ha : Written names a xs) (hb : Written names b ys)
    (hbare : ∀ next ∈ ys.head?, next.isQuoted = false) : Written names (a ++ b) (xs ++ ys) := by
  refine ⟨?_, ?_, ?_⟩
  · rw [String.toList_append, ha.text, hb.text, Token.render, Token.render, Token.render, List.flatMap_append]
  · exact List.isChain_append.mpr ⟨ha.spaced, hb.spaced, fun _ _ next hnext _ => hbare next hnext⟩
  · intro token htoken
    rcases List.mem_append.mp htoken with hfirst | hsecond
    · exact ha.allowed token hfirst
    · exact hb.allowed token hsecond

/-- A text behind a word. -/
theorem after (hw : w ∈ vocabulary) (hb : Written names b ys) : Written names (w ++ b) (.word w :: ys) := by
  refine ⟨?_, List.isChain_cons.mpr ⟨?_, hb.spaced⟩, ?_⟩
  · rw [String.toList_append, hb.text, Token.render, Token.render, List.flatMap_cons]
    rfl
  · intro next _ hword
    cases hword
  · intro token htoken
    rcases List.mem_cons.mp htoken with rfl | hrest
    · exact hw
    · exact hb.allowed token hrest

/-- A text in front of a word. -/
theorem before (ha : Written names a xs) (hw : w ∈ vocabulary) : Written names (a ++ w) (xs ++ [.word w]) :=
  ha.follow (.word hw) fun _ hnext => Option.some.inj hnext ▸ rfl

/-- Two texts with a word between them. -/
theorem between (ha : Written names a xs) (hw : w ∈ vocabulary) (hb : Written names b ys) :
    Written names (a ++ w ++ b) (xs ++ .word w :: ys) := by
  rw [String.append_assoc]
  exact ha.follow (.after hw hb) fun _ hnext => Option.some.inj hnext ▸ rfl

end Written

end SchemaSearch.Query
