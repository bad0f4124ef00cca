import HandlerSplit.Toml.Text
/-!
# Readers

A reader takes characters from the front of a document and answers what they stand for, or
refuses the document. Where one reader refuses, `<|>` tries another at the same place.
-/

namespace HandlerSplit.Toml

/-- Reads from the characters that are left, or refuses the document. -/
abbrev Reader (α : Type) := StateT (List Char) Option α

namespace Reader

/-- Refuses the document. -/
def refuse {α : Type} : Reader α :=
  fun _ => none

/-- Refuses the document unless something holds. -/
def require (holds : Bool) : Reader Unit :=
  if holds then pure () else refuse

/-- The next character, which is not taken. -/
def next? : Reader (Option Char) :=
  fun cs => some (cs.head?, cs)

/-- Takes the characters of a word. -/
def word (w : List Char) : Reader Unit :=
  fun cs => if w.isPrefixOf cs then some ((), cs.drop w.length) else none

/-- Takes one character of a class. -/
def one (p : Char → Bool) : Reader Char
  | [] => none
  | c :: cs => if p c then some (c, cs) else none

/-- Takes all characters of a class. -/
def takeAll (p : Char → Bool) : Reader (List Char) :=
  fun cs => some (cs.takeWhile p, cs.dropWhile p)

/-- Takes what a reader takes, unless it refuses. -/
def optional {α : Type} (r : Reader α) : Reader (Option α) :=
  (some <$> r) <|> pure none

end Reader

end HandlerSplit.Toml
