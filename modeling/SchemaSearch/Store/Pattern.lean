import SchemaSearch.Store.CodePoints

/-!
# Patterns

`LIKE` with an escape character: `%` stands for any text, `_` for any one code point, and a code point
behind the escape for itself.  Letters `A` to `Z` match in either case.  Like any text, a pattern ends
in front of its first NUL.  A pattern that ends in its escape matches nothing.
-/

namespace SchemaSearch.Store.Pattern

/-- One piece of a pattern. -/
inductive Piece where
  | literal (n : CodePoint)
  | anyOne
  | anyText
  deriving DecidableEq, Repr

/-- The piece that a code point without an escape stands for. -/
def Piece.ofPoint (n : CodePoint) : Piece :=
  if n = '%'.toNat then .anyText else if n = '_'.toNat then .anyOne else .literal n

/-- The pieces of a pattern, or `none` if it ends in its escape. -/
def pieces? (escape : CodePoint) : List CodePoint → Option (List Piece)
  | [] => some []
  | [n] => if n = escape then none else some [.ofPoint n]
  | n :: m :: rest =>
    if n = escape then (pieces? escape rest).map (.literal m :: ·)
    else (pieces? escape (m :: rest)).map (.ofPoint n :: ·)

/-- Every way to drop code points in front. -/
def suffixes : List CodePoint → List (List CodePoint)
  | [] => [[]]
  | n :: ns => (n :: ns) :: suffixes ns

/-- Whether a text matches. -/
def fits : List Piece → List CodePoint → Bool
  | [], text => text.isEmpty
  | .literal p :: ps, n :: text => p.sameIgnoringCase n && fits ps text
  | .anyOne :: ps, _ :: text => fits ps text
  | .anyText :: ps, text => (suffixes text).any (fits ps)
  | _ :: _, [] => false

/-- Whether a text matches a pattern with `\` as its escape. -/
def isLike (text : List CodePoint) (pattern : String) : Bool :=
  (pieces? '\\'.toNat (CodePoint.ofText pattern)).any (fits · text)

end SchemaSearch.Store.Pattern
