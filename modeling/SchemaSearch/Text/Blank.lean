/-!
# White space

The characters with the Unicode property `White_Space`, and trimming by it.  Every number, date and
operator name that a client sends is trimmed with `trim` before it is read.
-/

namespace SchemaSearch.Text

/-- The blocks of the property `White_Space`, as first and last code point of each. -/
def blankRanges : List (Nat × Nat) :=
  [(0x09, 0x0D), (0x20, 0x20), (0x85, 0x85), (0xA0, 0xA0), (0x1680, 0x1680), (0x2000, 0x200A),
   (0x2028, 0x2029), (0x202F, 0x202F), (0x205F, 0x205F), (0x3000, 0x3000)]

/-- Whether a character is white space. -/
def isBlank (c : Char) : Bool :=
  blankRanges.any fun (first, last) => first ≤ c.toNat && c.toNat ≤ last

/-- Drop leading white space. -/
def trimStart (cs : List Char) : List Char := cs.dropWhile isBlank

/-- Drop trailing white space. -/
def trimEnd (cs : List Char) : List Char := (trimStart cs.reverse).reverse

/-- Drop white space at both ends. -/
def trim (cs : List Char) : List Char := trimEnd (trimStart cs)

/-- The text without white space at its ends. -/
def trimmed (s : String) : String := String.ofList (trim s.toList)

end SchemaSearch.Text
