/-!
# Pieces of a text

Searching, replacing and splitting on texts seen as lists of characters.  All of it is structural
recursion from the left, so the leftmost match always wins and matches never overlap.
-/

namespace SchemaSearch.Text

/-! ## Searching -/

/-- Whether `pattern` occurs somewhere in the text; the empty pattern occurs everywhere. -/
def occurs (pattern : List Char) : List Char → Bool
  | [] => pattern.isEmpty
  | c :: cs => pattern.isPrefixOf (c :: cs) || occurs pattern cs

/-- Whether `pattern` occurs somewhere in `s`. -/
def contains (s pattern : String) : Bool := occurs pattern.toList s.toList

/-! ## Replacing -/

/-- Replace every occurrence of a non-empty pattern.  `skip` counts the characters of the last match
that are still to be dropped. -/
def replaceFrom (pattern replacement : List Char) (skip : Nat) : List Char → List Char
  | [] => []
  | c :: cs =>
    match skip with
    | skip + 1 => replaceFrom pattern replacement skip cs
    | 0 =>
      if pattern.isPrefixOf (c :: cs) then
        replacement ++ replaceFrom pattern replacement (pattern.length - 1) cs
      else
        c :: replaceFrom pattern replacement 0 cs

/-- Replace every occurrence of `pattern`, from the left.  The empty pattern occurs before every
character and at the end. -/
def replaceAll (pattern replacement : List Char) (cs : List Char) : List Char :=
  if pattern.isEmpty then
    replacement ++ cs.flatMap fun c => c :: replacement
  else
    replaceFrom pattern replacement 0 cs

/-- `s` with every occurrence of `pattern` replaced. -/
def replace (s pattern replacement : String) : String :=
  String.ofList (replaceAll pattern.toList replacement.toList s.toList)

/-! ## Splitting -/

/-- Put a character in front of the first piece. -/
def consFirst (c : Char) : List (List Char) → List (List Char)
  | [] => [[c]]
  | piece :: pieces => (c :: piece) :: pieces

/-- The pieces between the separators; there is always one more than there are separators. -/
def splitOn (separator : Char) : List Char → List (List Char)
  | [] => [[]]
  | c :: cs => if c = separator then [] :: splitOn separator cs else consFirst c (splitOn separator cs)

theorem splitOn_ne_nil (separator : Char) (cs : List Char) : splitOn separator cs ≠ [] := by
  cases cs with
  | nil => simp [splitOn]
  | cons c cs =>
    simp only [splitOn]
    split
    · simp
    · cases splitOn separator cs <;> simp [consFirst]

/-- Split at the first separator, which belongs to neither part. -/
def splitFirst (separator : Char) (cs : List Char) : List Char × Option (List Char) :=
  match cs.dropWhile (· ≠ separator) with
  | [] => (cs, none)
  | _ :: rest => (cs.takeWhile (· ≠ separator), some rest)

/-- Join pieces with a separator. -/
def joinWith (separator : String) : List String → String
  | [] => ""
  | [piece] => piece
  | piece :: pieces => piece ++ separator ++ joinWith separator pieces

/-! ## ASCII case -/

/-- The text with `A` to `Z` in lower case and all else as it is. -/
def asciiLower (cs : List Char) : List Char := cs.map Char.toLower

/-- Equality that ignores the case of `A` to `Z` only. -/
def sameIgnoringAsciiCase (a b : String) : Bool := asciiLower a.toList == asciiLower b.toList

/-- The number of bytes of the UTF-8 form. -/
def byteSize (cs : List Char) : Nat := cs.foldl (fun n c => n + c.utf8Size) 0

end SchemaSearch.Text
