import HandlerSplit.Parse.Expr
/-!
# Parsing statements and declarations

Blocks, the simple statements that control headers share with them, the control statements,
and declarations with their groups.
-/

namespace HandlerSplit.Parse

/-- A simple statement, or the range clause that may stand in its place in a loop header. -/
inductive Simple where
  | plain (kind : StmtKind)
  | range (key value : Option Expr) (define : Bool) (x : Expr)

/-- The header of a loop. -/
inductive LoopHeader where
  | clauses (init : Option Stmt) (cond : Option Expr) (post : Option Stmt)
  | range (key value : Option Expr) (define : Bool) (x : Expr)

/-- The assignment operator a token is, if it is one. -/
def assignOp? : TokenKind → Option AssignOp
  | .punct .define => some .define
  | .punct .assign => some .assign
  | .opAssign o => some (.op o)
  | _ => none

/-- The declaration keyword a token is, if it is one. -/
def genKeyword? : TokenKind → Option GenKeyword
  | .keyword .import => some .import
  | .keyword .const => some .const
  | .keyword .var => some .var
  | .keyword .type => some .type
  | _ => none

/-- Whether a token ends a list of statements. -/
def endsStmts : TokenKind → Bool
  | .punct .rbrace | .keyword .case | .keyword .default | .eof => true
  | _ => false

/-- `x.(type)` -/
def isTypeGuard : Expr → Bool
  | .typeAssert _ none => true
  | _ => false

/-- `x := y.(type)` or `y.(type)` -/
def isTypeSwitchGuard : StmtKind → Bool
  | .expr x => isTypeGuard x
  | .assign _ .define [y] => isTypeGuard y
  | _ => false

/-- The statement a simple statement of a header is. -/
def Simple.toStmt : Simple → Parser Stmt
  | .plain kind => return .plain kind
  | .range _ _ _ _ => reject .strayRange

namespace Grammar

variable (g : Grammar)

/-! ## Declarations inside and outside of functions -/

/-- The name before an import path. -/
def importName : Parser (Option String) := do
  match ← peekKind with
  | .ident name => advance; return some name
  | .punct .period => advance; return some "."
  | _ => return none

/-- An entry of an import declaration. -/
def importSpec : Parser SpecKind := do
  let name ← importName
  match ← peekKind with
  | .literal .string path => advance; return .importPath name path
  | _ => unexpected .importPath

/-- An entry of a constant or variable declaration. -/
def valueSpec : Parser SpecKind := do
  let names ← g.idents
  let type : Option Expr ← (do
    match ← peekKind with
    | .punct .assign | .semicolon _ | .punct .rparen | .eof => return none
    | _ => return some (← g.nestedType))
  if ← atPunct .assign then
    advance
    return .value names type (← g.exprs)
  else return .value names type []

/-- An entry of a type declaration. -/
def typeSpec : Parser SpecKind := do
  let name ← expectIdent
  let isAlias ← atPunct .assign
  if isAlias then advance
  return .type name isAlias (← g.nestedType)

/-- An entry of a declaration. -/
def spec : GenKeyword → Parser SpecKind
  | .import => importSpec
  | .const | .var => g.valueSpec
  | .type => g.typeSpec

/-- The entries of a parenthesized declaration, from the parenthesis on. -/
def specGroup (keyword : GenKeyword) : Parser (List Spec × Enclosure) := do
  let opening := (← peek).span
  advance
  let openComment ← claimTrailing
  let specs ← g.entries do
    match ← peekKind with
    | .punct .rparen => return .stop
    | .eof => rejectAt opening (.unterminated .declarationGroup)
    | .semicolon false => advance; return .skip
    | _ =>
      let decs ← startDecorations
      let kind ← g.spec keyword
      expectTerminator
      let trailing ← claimTrailing
      return .more ⟨kind, { decs with trailing := trailing }⟩
  let enclosure ← closeEnclosure openComment
  expectPunct .rparen
  return (specs, enclosure)

/-- An import, constant, variable or type declaration. -/
def genDecl : Parser GenDecl := do
  match genKeyword? (← peekKind) with
  | none => unexpected .declarationKeyword
  | some keyword =>
    advance
    if ← atPunct .lparen then
      let (specs, group) ← g.specGroup keyword
      return ⟨keyword, specs, some group⟩
    else
      let kind ← g.spec keyword
      return ⟨keyword, [⟨kind, .plain⟩], none⟩

/-! ## Simple statements -/

/-- A label has been read: the statement it is on. -/
def labeled (label : String) : Parser StmtKind := do
  match ← peekKind with
  | .punct .rbrace | .semicolon _ => return .labeled label (.plain .empty)
  | _ =>
    let decs ← startDecorations
    let kind ← g.stmt
    return .labeled label ⟨kind, decs⟩

/-- The right-hand side of an assignment to `lhs`. -/
def assignment (rangeOk : Bool) (lhs : List Expr) (op : AssignOp) : Parser Simple := do
  advance
  let plain := op == .define || op == .assign
  if rangeOk && plain && (← at? (.keyword .range)) then
    if lhs.length > 2 then reject .tooManyRangeVariables
    else
      advance
      let x ← g.expr
      return .range lhs[0]? lhs[1]? (op == .define) x
  else return .plain (.assign lhs op (← g.exprs))

/-- What a single expression that is no label is the beginning of. -/
def exprStmt (x : Expr) : Parser Simple := do
  match ← peekKind with
  | .punct .arrow =>
    advance
    return .plain (.send x (← g.expr))
  | .punct .inc =>
    advance
    return .plain (.incDec x true)
  | .punct .dec =>
    advance
    return .plain (.incDec x false)
  | _ => return .plain (.expr x)

/-- What a single expression is the beginning of. -/
def afterExpr (labelOk : Bool) (x : Expr) : Parser Simple := do
  if labelOk && (← atPunct .colon) then
    match x with
    | .ident label =>
      advance
      return .plain (← g.labeled label)
    | _ => reject .invalidLabel
  else g.exprStmt x

/-- A simple statement that begins with expressions. -/
def exprsStmt (rangeOk labelOk : Bool) : Parser Simple := do
  let lhs ← g.exprs
  match assignOp? (← peekKind), lhs with
  | some op, _ => g.assignment rangeOk lhs op
  | none, [x] => g.afterExpr labelOk x
  | none, _ => unexpected .assignment

/-- A simple statement. Range clauses and labels stand only where they are allowed. -/
def simple (rangeOk labelOk : Bool) : Parser Simple := do
  if rangeOk && (← at? (.keyword .range)) then
    advance
    return .range none none false (← g.expr)
  else g.exprsStmt rangeOk labelOk

/-- A simple statement of a header, unless its clause is empty. -/
def headerStmt (rangeOk : Bool) : Parser (Option Simple) := do
  match ← peekKind with
  | .semicolon _ | .punct .lbrace => return none
  | _ => return some (← g.simple rangeOk false)

/-- The statement of a header clause, if the clause is not empty. -/
def clauseStmt (first : Option Simple) : Parser (Option Stmt) := do
  match first with
  | some s => return some (← s.toStmt)
  | none => return none

/-! ## Blocks -/

/-- A statement of a list, with the comment on its last line. -/
def stmtEnd (kind : StmtKind) (decs : Decorations) : Parser (Turn Stmt) := do
  let trailing ← claimTrailing
  return .more ⟨kind, { decs with trailing := trailing }⟩

/-- Statements up to a closing brace or the next clause. -/
def stmts : Parser (List Stmt) :=
  g.entries do
    let kind ← peekKind
    if endsStmts kind then return .stop
    else if kind.isSemicolon then
      advance
      return .skip
    else
      let decs ← startDecorations
      let kind ← g.stmt
      match ← peekKind with
      | .punct .rbrace | .keyword .case | .keyword .default => pure ()
      | _ => expectTerminator
      stmtEnd kind decs

/-- A block, without the guard on its nesting. -/
def blockInner : Parser Block := do
  let opening := (← peek).span
  expectPunct .lbrace
  let openComment ← claimTrailing
  let stmts ← g.stmts
  match ← peekKind with
  | .punct .rbrace =>
    let oneLine := (← peek).span.line == opening.line
    let enclosure ← closeEnclosure openComment
    advance
    return ⟨stmts, enclosure, oneLine⟩
  | .eof => rejectAt opening (.unterminated .block)
  | _ => unexpected .closingBrace

/-- A block, one level of nesting deeper. -/
def nestedBlock : Parser Block :=
  nested g.blockInner

/-! ## Control statements -/

/-- The header of an `if` statement. -/
def ifHeader : Parser (Option Stmt × Expr) := do
  if ← atPunct .lbrace then reject .missingIfCondition
  else
    let first ← g.headerStmt false
    if ← atSemicolon then
      advance
      let init ← clauseStmt first
      return (init, ← g.expr)
    else
      match first with
      | some (.plain (.expr cond)) => return (none, cond)
      | _ => reject .ifConditionExpected

/-- What follows the body of an `if` statement. -/
def otherwise : Parser Else := do
  if ← at? (.keyword .else) then
    advance
    match ← peekKind with
    | .keyword .if =>
      let (init, cond, body, otherwise) ← g.ifThen
      return .elseIf init cond body otherwise
    | .punct .lbrace => return .block (← g.nestedBlock)
    | _ => unexpected .elseBranch
  else return .none

/-- An `if` statement. -/
def ifThenHere : Parser (Option Stmt × Expr × Block × Else) := do
  expectKeyword .if
  let (init, cond) ← inHeader g.ifHeader
  let body ← g.nestedBlock
  let otherwise ← g.otherwise
  return (init, cond, body, otherwise)

/-- The clauses of a loop header, after the first semicolon. -/
def loopClauses (first : Option Simple) : Parser LoopHeader := do
  let init ← clauseStmt first
  let cond : Option Expr ← (do
    if ← atSemicolon then return none else return some (← g.expr))
  expectTerminator
  let post ← clauseStmt (← g.headerStmt false)
  return .clauses init cond post

/-- The header of a loop. -/
def loopHeader : Parser LoopHeader := do
  match ← g.headerStmt true with
  | some (.range key value define x) => return .range key value define x
  | first =>
    if ← atSemicolon then
      advance
      g.loopClauses first
    else
      match first with
      | none => return .clauses none none none
      | some (.plain (.expr cond)) => return .clauses none (some cond) none
      | some _ => reject .forConditionExpected

/-- A loop. -/
def loop : Parser StmtKind := do
  expectKeyword .for
  let header ← inHeader g.loopHeader
  let body ← g.nestedBlock
  match header with
  | .range key value define x => return .rangeLoop key value define x body
  | .clauses init cond post => return .forLoop init cond post body

/-- The clauses of a switch or select statement with their braces; `head` reads what follows
`case`. -/
def clauses (phrase : Opened) (head : Parser ClauseHead) :
    Parser (Span × List Clause × Enclosure) := do
  let opening := (← peek).span
  expectPunct .lbrace
  let openComment ← claimTrailing
  let clauses ← g.entries do
    let kind ← peekKind
    if kind = .punct .rbrace then return .stop
    else
      let decs ← startDecorations
      let head : ClauseHead ← (do
        match kind with
        | .keyword .case => advance; head
        | .keyword .default => advance; return .default
        | .eof => rejectAt opening (.unterminated phrase)
        | _ => unexpected .clause)
      expectPunct .colon
      let trailing ← claimTrailing
      let body ← g.stmts
      return .more ⟨head, body, { decs with trailing := trailing }⟩
  let enclosure ← closeEnclosure openComment
  expectPunct .rbrace
  return (opening, clauses, enclosure)

/-- The header of a switch: an initial statement, and the tag or guard. -/
def switchHeader : Parser (Option Stmt × Option Stmt) := do
  if ← atPunct .lbrace then return (none, none)
  else
    let first ← g.headerStmt false
    if ← atSemicolon then
      advance
      let init ← clauseStmt first
      let tag ← clauseStmt (← g.headerStmt false)
      return (init, tag)
    else return (none, ← clauseStmt first)

/-- A switch on values or types. -/
def switch : Parser StmtKind := do
  expectKeyword .switch
  let (init, tag) ← inHeader g.switchHeader
  let (opening, clauses, braces) ← g.clauses .switch (return .values (← g.exprs))
  match tag with
  | none => return .switch init none clauses braces
  | some guard =>
    if isTypeSwitchGuard guard.kind then return .typeSwitch init guard clauses braces
    else
      match guard.kind with
      | .expr x => return .switch init (some x) clauses braces
      | _ => rejectAt opening .switchExpressionExpected

/-- A select statement. -/
def select : Parser StmtKind := do
  expectKeyword .select
  let (_, clauses, braces) ← g.clauses .select do
    let s ← g.simple false false
    return .comm (← s.toStmt)
  return .select clauses braces

/-- The label of a branch statement. -/
def branchLabel : Parser (Option String) := do
  match ← peekKind with
  | .ident label => advance; return some label
  | _ => return none

/-- A branch statement that may have a label. -/
def branch (kind : BranchKind) : Parser StmtKind := do
  advance
  return .branch kind (← branchLabel)

/-- A statement. -/
def stmtHere : Parser StmtKind := do
  match ← peekKind with
  | .keyword .var | .keyword .const | .keyword .type => return .decl (← g.genDecl)
  | .keyword .return =>
    advance
    match ← peekKind with
    | .semicolon _ | .punct .rbrace => return .returns []
    | _ => return .returns (← g.exprs)
  | .keyword .break => branch .break
  | .keyword .continue => branch .continue
  | .keyword .goto => branch .goto
  | .keyword .fallthrough =>
    advance
    return .branch .fallthrough none
  | .punct .lbrace => return .block (← g.nestedBlock)
  | .keyword .if =>
    let (init, cond, body, otherwise) ← g.ifThenHere
    return .ifThen init cond body otherwise
  | .keyword .for => g.loop
  | .keyword .switch => g.switch
  | .keyword .select => g.select
  | .keyword .go =>
    advance
    return .go (← g.expr)
  | .keyword .defer =>
    advance
    return .defer (← g.expr)
  | _ =>
    match ← g.simple false true with
    | .plain kind => return kind
    | .range _ _ _ _ => reject .strayRange

/-! ## The levels -/

/-- The phrases of the next level, built from those of the level below. -/
def next : Grammar where
  budget := g.budget
  binary := g.binaryFrom
  unary := g.nestedUnary
  elementValue := g.elementValueHere
  type := g.nestedType
  block := g.nestedBlock
  stmt := g.stmtHere
  ifThen := g.ifThenHere

/-- The phrases with the given number of levels below them. -/
def level (budget : Nat) : Nat → Grammar
  | 0 => bottom budget
  | n + 1 => (level budget n).next

end Grammar

theorem budget_level (budget m : Nat) : (Grammar.level budget m).budget = budget := by
  cases m with
  | zero => rfl
  | succ m => exact budget_level budget m

end HandlerSplit.Parse
