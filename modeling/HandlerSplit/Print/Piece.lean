import HandlerSplit.Text.Blank
/-!
# Printed text in pieces

The printer writes words, runs of spaces and tabs, and line breaks, and only at the end joins
them into a text. A word is a lexeme or a comment, so the words of an output are its tokens;
everything else is white space.
-/

namespace HandlerSplit.Print

/-- A piece of output. -/
inductive Piece where
  /-- A lexeme or a comment, written as it is. -/
  | word (text : String)
  | spaces (n : Nat)
  | tabs (n : Nat)
  | newline
  deriving DecidableEq, Repr

/-- Printed text, piece by piece. -/
abbrev Output := List Piece

namespace Piece

/-- A single space. -/
def space : Piece := .spaces 1

/-- What the piece writes. -/
def text : Piece → String
  | word s => s
  | spaces n => String.ofList (List.replicate n ' ')
  | tabs n => String.ofList (List.replicate n '\t')
  | newline => "\n"

/-- The characters of a piece. -/
def chars (p : Piece) : List Char :=
  p.text.toList

/-- The number of characters of a piece. -/
def width : Piece → Nat
  | word s => s.length
  | spaces n => n
  | tabs n => n
  | newline => 1

/-- Whether the piece runs over the end of a line. -/
def isMultiline : Piece → Bool
  | word s => s.toList.contains '\n'
  | spaces _ => false
  | tabs _ => false
  | newline => true

end Piece

namespace Output

/-- The characters of an output. -/
def chars (o : Output) : List Char :=
  o.flatMap Piece.chars

/-- The text of an output. -/
def render (o : Output) : String :=
  o.foldl (fun s p => s ++ p.text) ""

/-- The number of characters of an output. -/
def width (o : Output) : Nat :=
  o.foldr (fun p w => p.width + w) 0

/-- Whether nothing is written. -/
def isBlank (o : Output) : Bool :=
  o.all fun p => p.width == 0

/-- Whether the output takes more than one line. -/
def isMultiline (o : Output) : Bool :=
  o.any Piece.isMultiline

/-- The first character, if there is one. -/
def firstChar? : Output → Option Char
  | [] => none
  | p :: ps =>
    match p.chars with
    | c :: _ => some c
    | [] => firstChar? ps

/-- Removes a character from the end of an output whose pieces come last first. -/
def dropFromLast (c : Char) : List Piece → List Piece
  | [] => []
  | p :: ps =>
    let kept := Text.dropEndWhile (· == c) p.chars
    if kept.isEmpty then dropFromLast c ps
    else if kept.length == p.chars.length then p :: ps
    else .word (String.ofList kept) :: ps

/-- The output without the character `c` at its end, however often it stands there. -/
def dropEnd (c : Char) (o : Output) : Output :=
  (dropFromLast c o.reverse).reverse

/-- Outputs with a separator between them. -/
def joined (separator : Output) (os : List Output) : Output :=
  (os.intersperse separator).flatten

/-- Outputs with commas between them. -/
def commaSeparated (os : List Output) : Output :=
  joined [.word ",", .space] os

/-- Names with commas between them. -/
def names (ns : List String) : Output :=
  commaSeparated (ns.map fun n => [.word n])

end Output

end HandlerSplit.Print
