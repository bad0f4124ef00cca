import HandlerSplit.Proofs.Tree.Spelling
/-!
# Scripts of statements

A statement without a body stays on one line. A body stands line by line between its braces, and an
empty line is one more line break. So what a statement, a function or a file is written with is a
script (`StmtKind.script`, `SourceFile.script`), and it leaves open only the spaces and columns.
-/

namespace HandlerSplit

namespace Script

/-- The line break of an empty line, if there is one. -/
def gap (isBlank : Bool) : Script :=
  if isBlank then [.lineBreak] else []

/-- Lines in braces. -/
def braced (s : Script) : Script :=
  .token (.punct .lbrace) :: .lineBreak :: (s ++ [.token (.punct .rbrace)])

@[simp] theorem size_gap (isBlank : Bool) : size (gap isBlank) = 0 := by
  cases isBlank <;> rfl

@[simp] theorem size_braced (s : Script) : size (braced s) = size s + 2 := by
  simp [braced, size]

end Script

open Script (line)

/-! ## Statements on one line -/

namespace StmtKind

/-- The expressions of a statement without a body. -/
def exprs : StmtKind → List Expr
  | .expr x => [x]
  | .assign lhs _ rhs => lhs ++ rhs
  | .incDec x _ => [x]
  | .send chan value => [chan, value]
  | .returns values => values
  | .go call => [call]
  | .defer call => [call]
  | _ => []

/-- The tokens of a statement without a body. -/
def spelling : StmtKind → List TokenKind
  | .expr x => x.spelling
  | .assign lhs op rhs =>
    separated (lhs.map Expr.spelling) ++ [op.kind] ++ separated (rhs.map Expr.spelling)
  | .incDec x up => x.spelling ++ [.punct (if up then .inc else .dec)]
  | .send chan value => chan.spelling ++ [.punct .arrow] ++ value.spelling
  | .returns values => [.keyword .return] ++ separated (values.map Expr.spelling)
  | .branch kind label => [.keyword kind.keyword] ++ label.toList.map .ident
  | .go call => [.keyword .go] ++ call.spelling
  | .defer call => [.keyword .defer] ++ call.spelling
  | _ => []

end StmtKind

/-! ## Headers -/

/-- The tokens between a control keyword and the body. Only a loop has a third clause. -/
def headerSpelling (isLoop : Bool) (init cond post : Option (List TokenKind)) : List TokenKind :=
  if init.isNone && post.isNone then cond.getD []
  else
    init.getD [] ++ [.semicolon false] ++ cond.getD [] ++
      if isLoop then [.semicolon false] ++ post.getD [] else []

/-- The tokens of a statement of a header. -/
def clauseSpelling (s : Option Stmt) : Option (List TokenKind) :=
  s.map (·.kind.spelling)

/-- The tokens before the `range` of a loop. -/
def varsSpelling (key value : Option Expr) (define : Bool) : List TokenKind :=
  separated ((key.toList ++ value.toList).map Expr.spelling) ++ rangeOpWords key.isSome define

/-- The tokens of what a clause is chosen by. A select clause is not spelled. -/
def ClauseHead.spelling : ClauseHead → List TokenKind
  | .default => [.keyword .default]
  | .values xs => [.keyword .case] ++ separated (xs.map Expr.spelling)
  | .comm _ => []

/-! ## Statements line by line -/

mutual

/-- The script of a block. -/
def Block.script : Block → Script
  | ⟨ss, _, _⟩ => Script.braced (stmtsScript ss)
termination_by structural b => b

/-- The script of statements, each with its line break. -/
def stmtsScript : List Stmt → Script
  | [] => []
  | s :: ss => s.script ++ stmtsScript ss
termination_by structural ss => ss

/-- The script of a statement with its line break, and with the empty line before it. -/
def Stmt.script : Stmt → Script
  | ⟨k, d⟩ => Script.gap d.blankBefore ++ (k.script ++ [.lineBreak])
termination_by structural s => s

/-- The script of what a statement does. Declarations, type switches and select statements are not
spelled. -/
def StmtKind.script : StmtKind → Script
  | .block b => b.script
  | .ifThen i c b e =>
    line ([.keyword .if] ++ headerSpelling false (clauseSpelling i) (some c.spelling) none) ++
      b.script ++ e.script
  | .forLoop i c p b =>
    line ([.keyword .for] ++
      headerSpelling true (clauseSpelling i) (c.map Expr.spelling) (clauseSpelling p)) ++ b.script
  | .rangeLoop k v d x b =>
    line ([.keyword .for] ++ varsSpelling k v d ++ [.keyword .range] ++ x.spelling) ++ b.script
  | .switch i t cs _ =>
    line ([.keyword .switch] ++
      headerSpelling false (clauseSpelling i) (t.map Expr.spelling) none) ++
      Script.braced (clausesScript cs)
  | .labeled l ⟨k, _⟩ => line [.ident l, .punct .colon] ++ .lineBreak :: k.script
  | k => line k.spelling
termination_by structural k => k

/-- The script of what follows the body of an `if` statement. -/
def Else.script : Else → Script
  | .none => []
  | .elseIf i c b e =>
    .token (.keyword .else) ::
      (line ([.keyword .if] ++ headerSpelling false (clauseSpelling i) (some c.spelling) none) ++
        b.script ++ e.script)
  | .block b => .token (.keyword .else) :: b.script
termination_by structural e => e

/-- The script of clauses, each with its body. -/
def clausesScript : List Clause → Script
  | [] => []
  | ⟨h, b, d⟩ :: cs =>
    Script.gap d.blankBefore ++
      (line (h.spelling ++ [.punct .colon]) ++ .lineBreak :: stmtsScript b) ++ clausesScript cs
termination_by structural cs => cs

end

/-- The script of a clause with its body, and with the empty line before it. -/
def Clause.script (c : Clause) : Script :=
  Script.gap c.decs.blankBefore ++
    (line (c.head.spelling ++ [.punct .colon]) ++ .lineBreak :: stmtsScript c.body)

theorem Stmt.script_eq (s : Stmt) :
    s.script = Script.gap s.decs.blankBefore ++ (s.kind.script ++ [.lineBreak]) := by
  cases s
  rfl

theorem stmtsScript_eq (ss : List Stmt) : stmtsScript ss = ss.flatMap Stmt.script := by
  induction ss with
  | nil => rfl
  | cons s ss ih => rw [stmtsScript, ih, List.flatMap_cons]

theorem clausesScript_eq (cs : List Clause) : clausesScript cs = cs.flatMap Clause.script := by
  induction cs with
  | nil => rfl
  | cons c cs ih =>
    obtain ⟨h, b, d⟩ := c
    rw [clausesScript, ih, List.flatMap_cons]
    rfl

/-- What follows `else`, as a statement. -/
def Else.branch? : Else → Option StmtKind
  | .none => Option.none
  | .elseIf init cond body otherwise => some (.ifThen init cond body otherwise)
  | .block body => some (.block body)

theorem Else.script_eq (e : Else) :
    e.script = e.branch?.elim [] fun k => .token (.keyword .else) :: k.script := by
  cases e <;> rfl

/-! ## Files -/

/-- The script of a function. -/
def FuncDecl.script (f : FuncDecl) : Script :=
  line ([.keyword .func] ++ f.recv.elim [] FieldList.spelling ++ [.ident f.name] ++
    f.signature.spelling) ++ f.body.elim [] Block.script

/-- The script of a function declaration with its line break, and with the empty line before it.
Other declarations are not spelled. -/
def Decl.script (d : Decl) : Script :=
  Script.gap d.decs.blankBefore ++ (d.func?.elim [] FuncDecl.script ++ [.lineBreak])

/-- The script of a file. -/
def SourceFile.script (file : SourceFile) : Script :=
  line [.keyword .package, .ident file.package] ++ .lineBreak :: file.decls.flatMap Decl.script

end HandlerSplit
