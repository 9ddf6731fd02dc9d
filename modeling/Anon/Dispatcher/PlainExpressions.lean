import Anon.Dispatcher.Responders

/-!
# Plain expressions

The regular expression that is made of a path specification consists of its literal text and of
groups `([^/]*)`. As long as the literal text has no other meaning in an expression, what a match
is can be said without a regular expression library.

* `MatchesPieces`: what a path specification is to match.
* `plainFullMatch`: the match of a plain expression, each group as long as possible.
-/

namespace Anon.Dispatcher

/-- The literal characters are those of the path, and every variable is a nonempty piece of it
without a slash. -/
def MatchesPieces : List Piece → Bytes → Prop
  | [], path => path = []
  | .lit c :: pieces, path => ∃ rest, path = c :: rest ∧ MatchesPieces pieces rest
  | .var :: pieces, path =>
    ∃ v rest, v ≠ [] ∧ slash ∉ v ∧ path = v ++ rest ∧ MatchesPieces pieces rest

/-- The pieces of a regular expression that is made of literal characters and `([^/]*)`; `skip`
is the number of its characters that belong to a group before. -/
def expressionPieces (skip : ℕ) : Bytes → List Piece
  | [] => []
  | c :: rest =>
    match skip with
    | skip + 1 => expressionPieces skip rest
    | 0 =>
      if (ascii "([^/]*)").isPrefixOf (c :: rest) then .var :: expressionPieces 6 rest
      else .lit c :: expressionPieces 0 rest

/-- The groups of a match of a whole text, each as long as possible. -/
def matchGroups : List Piece → Bytes → Option (List Bytes)
  | [], [] => some []
  | [], _ :: _ => none
  | .lit _ :: _, [] => none
  | .lit c :: pieces, x :: rest => if x = c then matchGroups pieces rest else none
  | .var :: pieces, path =>
    (List.range ((path.takeWhile fun c => c ≠ slash).length + 1)).reverse.findSome? fun k =>
      (matchGroups pieces (path.drop k)).map (path.take k :: ·)

/-- What a regular expression library does with such expressions. -/
def plainFullMatch (expression path : Bytes) : Option (List Bytes) :=
  matchGroups (expressionPieces 0 expression) path

end Anon.Dispatcher
