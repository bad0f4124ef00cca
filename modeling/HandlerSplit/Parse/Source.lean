import HandlerSplit.Lexer
import HandlerSplit.Parse.Stmt
/-!
# Parsing whole texts

`parseFile`, `parseExpr` and `parseType` read a text to its end. A rejected text is answered
by the fault, the line and column of the token it is reported at, and that source line.
-/

namespace HandlerSplit

/-- Why a text was rejected, and where. -/
structure SyntaxError where
  fault : Parse.Fault
  line : Nat
  column : Nat
  /-- The source line the error is on. -/
  context : String
  deriving DecidableEq, Repr

namespace Parse

namespace Grammar

variable (g : Grammar)

/-- A function or method declaration. -/
def funcDecl : Parser FuncDecl := do
  expectKeyword .func
  let recv : Option FieldList ← (do
    if ← atPunct .lparen then return some (← g.params) else return none)
  let name ← expectIdent
  let signature ← g.signature
  let body : Option Block ← (do
    if ← atPunct .lbrace then return some (← g.nestedBlock) else return none)
  return ⟨recv, name, signature, body⟩

/-- A top-level declaration. -/
def declKind : Parser DeclKind := do
  match ← peekKind with
  | .keyword .func => return .func (← g.funcDecl)
  | .keyword .import | .keyword .const | .keyword .var | .keyword .type =>
    return .gen (← g.genDecl)
  | _ => unexpected .declaration

/-- A top-level declaration, with the comment on its last line. -/
def declEnd (kind : DeclKind) (decs : Decorations) : Parser (Turn Decl) := do
  let trailing ← claimTrailing
  return .more ⟨kind, { decs with trailing := trailing }⟩

/-- The declarations up to the end of the text. -/
def decls : Parser (List Decl) :=
  g.entries do
    let kind ← peekKind
    if kind = .eof then return .stop
    else if kind.isSemicolon then
      advance
      return .skip
    else
      let decs ← startDecorations
      let kind ← g.declKind
      if !(← at? .eof) then expectTerminator
      declEnd kind decs

/-- A source file. -/
def sourceFile : Parser SourceFile := do
  let decs ← startDecorations
  expectKeyword .package
  let package ← expectIdent
  expectTerminator
  let trailing ← claimTrailing
  let decls ← g.decls
  return {
    package := package
    packageDecs := { decs with trailing := trailing }
    decls := decls
    trailingComments := ← claimComments }

end Grammar

/-- A phrase that makes up the whole text; an inserted semicolon may follow it. -/
def alone {α : Type} (phrase : Parser α) : Parser α := do
  let a ← phrase
  if ← at? (.semicolon true) then advance
  if ← at? .eof then return a else unexpected .endOfInput

/-! ## Running a parser on a text -/

/-- The phrases for a text of `n` tokens: a level and a turn of every loop for each token. -/
def Grammar.forTokens (n : Nat) : Grammar :=
  Grammar.level (n + 2) (n + 2)

/-- The number of tokens that are no comments; a parser is never at a comment. -/
def grammatical (tokens : List Token) : Nat :=
  tokens.countP (!·.kind.isTrivia)

/-- Cuts a text at a byte offset. -/
def splitAtOffset : Nat → List Char → List Char × List Char
  | 0, cs => ([], cs)
  | _ + 1, [] => ([], [])
  | n + 1, c :: cs =>
    let (before, after) := splitAtOffset (n + 1 - c.utf8Size) cs
    (c :: before, after)

/-- The source line around a byte offset. -/
def lineAround (source : List Char) (offset : Nat) : List Char :=
  let (before, after) := splitAtOffset offset source
  (before.reverse.takeWhile (· != '\n')).reverse ++ after.takeWhile (· != '\n')

/-- The error for a rejection of the given source. -/
def Rejection.toError (source : List Char) (r : Rejection) : SyntaxError :=
  ⟨r.fault, r.span.line, r.span.column, String.ofList (lineAround source r.span.start)⟩

/-- Runs a parser on the tokens of a text, and answers the cursor it stopped at. -/
def runOn {α : Type} (phrase : Grammar → Parser α) (tokens : List Token) :
    Except Rejection α × Cursor :=
  (phrase (Grammar.forTokens (grammatical tokens))).run (Cursor.start tokens)

/-- Runs a parser on a text. -/
def onText {α : Type} (phrase : Grammar → Parser α) (source : String) :
    Except SyntaxError α :=
  match (runOn phrase (tokenize source.toList)).1 with
  | .ok a => .ok a
  | .error r => .error (r.toError source.toList)

end Parse

/-- Parses a source file. -/
def parseFile (source : String) : Except SyntaxError SourceFile :=
  Parse.onText Parse.Grammar.sourceFile source

/-- Parses a text that is a single expression. -/
def parseExpr (source : String) : Except SyntaxError Expr :=
  Parse.onText (fun g => Parse.alone (g.binaryFrom 1)) source

/-- Parses a text that is a single type. -/
def parseType (source : String) : Except SyntaxError Expr :=
  Parse.onText (fun g => Parse.alone g.nestedType) source

end HandlerSplit
