import HandlerSplit.Parse.Fault
import HandlerSplit.Tree
/-!
# The cursor

The parser reads a token sequence through a cursor: the current token, the tokens after it,
and what has been seen of comments and lines since the last token. A parser answers a value
or a rejection, and in both cases the cursor it stopped at.

Comments between tokens wait in `pending` until a node claims them, so that no comment is
lost. A comment trails if it starts on the line where the token before it ended.
-/

namespace HandlerSplit.Parse

/-- A comment that waits for a node. -/
structure Pending where
  comment : Comment
  /-- The comment starts on the line where the token before it ended. -/
  trailing : Bool
  deriving DecidableEq, Repr

/-- Where a parser stands. -/
structure Cursor where
  /-- The current token, never a comment. -/
  current : Token
  /-- The tokens after the current one, comments included. -/
  rest : List Token
  /-- Comments read since comments were last claimed. -/
  pending : List Pending
  /-- The line on which the last token ended. -/
  prevEndLine : Nat
  /-- The line on which the last token or comment ended. -/
  lastLine : Nat
  /-- The current token starts on a later line than `prevEndLine`. -/
  newlineBefore : Bool
  /-- An empty line precedes the current token. -/
  blankBefore : Bool
  /-- Nesting of brackets; negative directly inside the header of a control statement. -/
  exprLevel : Int
  /-- Nesting of expressions, types and blocks. -/
  depth : Nat
  /-- How many tokens have been asked for. -/
  taken : Nat
  deriving DecidableEq, Repr

namespace Cursor

/-- Moves to the first token of `tokens` that is no comment, collecting the comments. -/
def pull (c : Cursor) : List Token → Cursor
  | [] => { c with rest := [], newlineBefore := false, blankBefore := false }
  | t :: rest =>
    match t.kind with
    | .comment text =>
      let trailing := t.span.line == c.prevEndLine && c.pending.all (·.trailing)
      let comment : Comment := ⟨text, t.span.line > c.lastLine + 1⟩
      pull { c with pending := c.pending ++ [⟨comment, trailing⟩], lastLine := t.endLine } rest
    | _ =>
      { c with
        current := t
        rest := rest
        newlineBefore := t.span.line > c.prevEndLine
        blankBefore := t.span.line > c.lastLine + 1 }

/-- Moves past the current token. An inserted semicolon ends no line. -/
def advance (c : Cursor) : Cursor :=
  let c := { c with taken := c.taken + 1 }
  if c.current.kind = .semicolon true then c.pull c.rest
  else
    let line := c.current.endLine
    { c with prevEndLine := line, lastLine := line }.pull c.rest

/-- The cursor at the first token. -/
def start (tokens : List Token) : Cursor :=
  advance
    { current := ⟨.semicolon false, [], ⟨0, 0, 0, 0⟩⟩
      rest := tokens
      pending := []
      prevEndLine := 0
      lastLine := 0
      newlineBefore := false
      blankBefore := false
      exprLevel := 0
      depth := 0
      taken := 0 }

end Cursor

/-! ## Parsers -/

/-- A parser answers a value or a rejection, and moves the cursor either way. -/
abbrev Parser (α : Type) := ExceptT Rejection (StateM Cursor) α

/-- The current token. -/
def peek : Parser Token :=
  return (← get).current

/-- The kind of the current token. -/
def peekKind : Parser TokenKind :=
  return (← get).current.kind

/-- Whether the current token has the given kind. -/
def at? (kind : TokenKind) : Parser Bool :=
  return (← get).current.kind == kind

/-- Whether the current token is the given mark. -/
def atPunct (mark : Punct) : Parser Bool :=
  at? (.punct mark)

/-- Whether the current token is a semicolon, written or inserted. -/
def atSemicolon : Parser Bool :=
  return (← get).current.kind.isSemicolon

/-- Moves past the current token. -/
def advance : Parser Unit :=
  modify Cursor.advance

/-- Rejects at the given place. -/
def rejectAt {α : Type} (span : Span) (fault : Fault) : Parser α :=
  throw ⟨fault, span⟩

/-- Rejects at the current token. -/
def reject {α : Type} (fault : Fault) : Parser α := do
  rejectAt (← peek).span fault

/-- Rejects the current token, where something else is wanted. A text that is no token is
reported as such. -/
def unexpected {α : Type} (wanted : Wanted) : Parser α := do
  match ← peekKind with
  | .fault f => reject (.lexical f)
  | found => reject (.unexpected wanted found)

/-- Moves past a token of the given kind. -/
def expect (kind : TokenKind) : Parser Unit := do
  if ← at? kind then advance else unexpected (.token kind)

/-- Moves past the given mark. -/
def expectPunct (mark : Punct) : Parser Unit :=
  expect (.punct mark)

/-- Moves past the given reserved word. -/
def expectKeyword (word : Keyword) : Parser Unit :=
  expect (.keyword word)

/-- Moves past an identifier and answers its name. -/
def expectIdent : Parser String := do
  match ← peekKind with
  | .ident name => advance; return name
  | _ => unexpected .identifier

/-- Moves past the end of a statement or entry. A closing parenthesis or brace may stand for
it, and is left. -/
def expectTerminator : Parser Unit := do
  match ← peekKind with
  | .semicolon _ => advance
  | .punct .rparen | .punct .rbrace => return
  | _ => unexpected .terminator

/-! ## Comments and lines -/

/-- All pending comments, in order. -/
def claimComments : Parser (List Comment) := do
  let c ← get
  set { c with pending := [] }
  return c.pending.map (·.comment)

/-- The layout of a node that starts at the current token; pending comments lead it. -/
def startDecorations : Parser Decorations := do
  let c ← get
  return {
    blankBefore := c.blankBefore
    newlineBefore := c.newlineBefore
    leading := ← claimComments }

/-- The first pending comment, if it trails the token before it. -/
def claimTrailing : Parser (Option Comment) := do
  let c ← get
  match c.pending with
  | first :: others =>
    if first.trailing then
      set { c with pending := others }
      return some first.comment
    else return none
  | [] => return none

/-- The layout of a list whose closing bracket is the current token. -/
def closeEnclosure (openComment : Option Comment) : Parser Enclosure := do
  let c ← get
  return {
    openComment := openComment
    closeNewline := c.newlineBefore
    closeComments := ← claimComments }

/-! ## Context -/

/-- The deepest nesting of expressions, types and blocks. -/
def maxNesting : Nat := 40

/-- Runs a parser one level of nesting deeper, unless that is too deep. -/
def nested {α : Type} (p : Parser α) : Parser α := do
  if (← get).depth ≥ maxNesting then reject .nestedTooDeeply
  else
    fun c =>
      let (answer, c) := p.run { c with depth := c.depth + 1 }
      (answer, { c with depth := c.depth - 1 })

/-- Runs a parser inside brackets, where composite literals may stand. -/
def bracketed {α : Type} (p : Parser α) : Parser α :=
  fun c =>
    let (answer, c) := p.run { c with exprLevel := c.exprLevel + 1 }
    (answer, { c with exprLevel := c.exprLevel - 1 })

/-- Runs a parser in the header of a control statement, where a brace opens the body. -/
def inHeader {α : Type} (p : Parser α) : Parser α :=
  fun c =>
    let (answer, c') := p.run { c with exprLevel := -1 }
    (answer, { c' with exprLevel := c.exprLevel })

/-! ## Repetition -/

/-- What one turn of a list loop comes to. -/
inductive Turn (α : Type) where
  /-- The list ends here. -/
  | stop
  /-- Something that is no entry was passed. -/
  | skip
  /-- An entry, and the list may go on. -/
  | more (a : α)
  /-- The last entry. -/
  | last (a : α)

/-- The entries of a list, `turn` by `turn`, in at most `n` turns. -/
def entries {α : Type} (turn : Parser (Turn α)) : Nat → Parser (List α)
  | 0 => reject .exhausted
  | n + 1 => do
    match ← turn with
    | .stop => return []
    | .skip => entries turn n
    | .more a => return a :: (← entries turn n)
    | .last a => return [a]

/-- A value that grows while `grow` answers a larger one, at most `n` times. -/
def growing {α : Type} (grow : α → Parser (Option α)) : Nat → α → Parser α
  | 0, _ => reject .exhausted
  | n + 1, a => do
    match ← grow a with
    | none => return a
    | some b => growing grow n b

end HandlerSplit.Parse
