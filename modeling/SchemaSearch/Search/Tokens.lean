import SchemaSearch.Text.Pieces

/-!
# Boolean tokens

The words that clients may write for true and false, in any case.  Folding the case of ASCII letters
is enough: the only other character whose lower case is a single ASCII letter is the Kelvin sign, and
no token has a `k`.
-/

namespace SchemaSearch

/-- The words for true. -/
def trueTokens : List String := ["true", "1", "t", "y", "yes"]

/-- The words for false. -/
def falseTokens : List String := ["false", "0", "f", "n", "no"]

/-- The truth of a token. -/
def classifyBoolean (token : String) : Option Bool :=
  let folded := String.ofList (Text.asciiLower token.toList)
  if trueTokens.contains folded then some true
  else if falseTokens.contains folded then some false
  else none

end SchemaSearch
