import HandlerSplit.Parse.Stmt
import HandlerSplit.Proofs.Parse.Progress.Expr
/-!
# Progress in statements and declarations

A statement may begin with an expression of the level below, and so serves as many tokens as that
level. The statements of a block or clause and the statement behind a label come after a token of
their own. What ends an entry may be left in place, but the entry has taken a token.
-/

namespace HandlerSplit.Parse

theorem assignOp_ne_eof {kind : TokenKind} {op : AssignOp} (h : assignOp? kind = some op) :
    kind ≠ .eof := by
  rintro rfl
  cases h

theorem genKeyword_ne_eof {kind : TokenKind} {keyword : GenKeyword}
    (h : genKeyword? kind = some keyword) : kind ≠ .eof := by
  rintro rfl
  cases h

theorem isSemicolon_ne_eof {kind : TokenKind} (h : kind.isSemicolon = true) : kind ≠ .eof := by
  rintro rfl
  cases h

namespace Grammar

/-! ## Turns of loops -/

variable (g : Grammar)

/-- An entry of a declaration group with its terminator. -/
def specTurn (keyword : GenKeyword) (opening : Span) : Parser (Turn Spec) := do
  match ← peekKind with
  | .punct .rparen => return .stop
  | .eof => rejectAt opening (.unterminated .declarationGroup)
  | .semicolon false => advance; return .skip
  | _ =>
    let decs ← startDecorations
    let kind ← g.spec keyword
    expectTerminator
    let trailing ← claimTrailing
    return .more ⟨kind, { decs with trailing := trailing }⟩

/-- A statement of a list with its terminator. -/
def stmtTurn : Parser (Turn Stmt) := do
  let kind ← peekKind
  if endsStmts kind then return .stop
  else if kind.isSemicolon then
    advance
    return .skip
  else
    let decs ← startDecorations
    let kind ← g.stmt
    match ← peekKind with
    | .punct .rbrace | .keyword .case | .keyword .default => pure ()
    | _ => expectTerminator
    stmtEnd kind decs

/-- A clause of a switch or select statement. -/
def clauseTurn (phrase : Opened) (head : Parser ClauseHead) (opening : Span) :
    Parser (Turn Clause) := do
  let kind ← peekKind
  if kind = .punct .rbrace then return .stop
  else
    let decs ← startDecorations
    let head : ClauseHead ← (do
      match kind with
      | .keyword .case => advance; head
      | .keyword .default => advance; return .default
      | .eof => rejectAt opening (.unterminated phrase)
      | _ => unexpected .clause)
    expectPunct .colon
    let trailing ← claimTrailing
    let body ← g.stmts
    return .more ⟨head, body, { decs with trailing := trailing }⟩

/-- A group of declarations is a loop with one of them to each turn. -/
theorem specGroup_eq (keyword : GenKeyword) :
    g.specGroup keyword = (do
      let opening := (← peek).span
      advance
      let openComment ← claimTrailing
      let specs ← g.entries (g.specTurn keyword opening)
      let enclosure ← closeEnclosure openComment
      expectPunct .rparen
      return (specs, enclosure)) :=
  rfl

/-- Statements are a loop with one statement to each turn. -/
theorem stmts_eq : g.stmts = g.entries g.stmtTurn :=
  rfl

/-- The clauses of a switch or select are a loop with one clause to each turn. -/
theorem clauses_eq (phrase : Opened) (head : Parser ClauseHead) :
    g.clauses phrase head = (do
      let opening := (← peek).span
      expectPunct .lbrace
      let openComment ← claimTrailing
      let clauses ← g.entries (g.clauseTurn phrase head opening)
      let enclosure ← closeEnclosure openComment
      expectPunct .rbrace
      return (opening, clauses, enclosure)) :=
  rfl

namespace Serves

variable {g : Grammar} {K : TokenKind → Prop} {n : Nat}

/-! ## Declarations inside and outside of functions -/

theorem importName : Proceeds K n Never importName := by
  refine .peekKind fun kind => ?_
  split
  · exact .past (.advance nofun) fun _ => .answer
  · exact .past (.advance nofun) fun _ => .answer
  · exact .answer

/-- An import takes its path. -/
theorem importSpec {M : SpecKind → Prop} : Proceeds K n M importSpec := by
  refine .bind importName fun name => .peekKind fun kind => ?_
  split
  · exact .past (.advance nofun) fun _ => .answer
  · exact .unexpected _

/-- Making a statement of what has been read takes nothing. -/
theorem toStmt (s : Simple) : Proceeds K n Never s.toStmt := by
  cases s with
  | plain kind => exact .answer
  | range => exact .reject nofun

theorem clauseStmt (s : Option Simple) : Proceeds K n Never (clauseStmt s) := by
  cases s with
  | none => exact .answer
  | some s => exact .bind (toStmt s) fun t => .answer

theorem branchLabel : Proceeds K n Never branchLabel := by
  refine .peekKind fun kind => ?_
  split
  · exact .past .advanceIdent fun _ => .answer
  · exact .answer

theorem branch {M : StmtKind → Prop} {word : Keyword} (kind : BranchKind) :
    Proceeds (· = .keyword word) n M (branch kind) :=
  .past (.advance nofun) fun _ => .bind branchLabel fun _ => .answer

/-- Claiming the comment that trails a statement takes nothing. -/
theorem stmtEnd (kind : StmtKind) (d : Decorations) : Proceeds K n Never (stmtEnd kind d) :=
  .claimTrailing fun _ => .answer

variable (hg : g.Serves n)

include hg

/-- A type by itself on as many tokens as the level serves. -/
theorem typeHere {M : Expr → Prop} : Proceeds K n M g.nestedType :=
  hg.nestedType.fewer (Nat.le_succ n)

/-- Names with a type or values take their first name. -/
theorem valueSpec {M : SpecKind → Prop} : Proceeds K n M g.valueSpec := by
  refine .past hg.idents fun names => .bind (.peekKind fun kind => ?_) fun type => ?_
  · split
    iterate 4 exact .answer
    · exact .past hg.typeHere fun _ => .answer
  · exact .atPunct (.past (.advance nofun) fun _ => .past hg.exprs fun xs => .answer) .answer

theorem typeSpec {M : SpecKind → Prop} : Proceeds K n M g.typeSpec := by
  refine .past .expectIdent fun name => .atPunct (.past (.advance nofun) fun _ => ?_) ?_
  · exact .past hg.typeHere fun x => .answer
  · exact .past hg.typeHere fun x => .answer

theorem spec {M : SpecKind → Prop} (keyword : GenKeyword) : Proceeds K n M (g.spec keyword) := by
  cases keyword with
  | «import» => exact importSpec
  | const => exact hg.valueSpec
  | var => exact hg.valueSpec
  | type => exact hg.typeSpec

/-- A turn that goes on has taken a declaration. -/
theorem specTurn (keyword : GenKeyword) (opening : Span) :
    Proceeds K n Turn.GoesOn (g.specTurn keyword opening) := by
  refine .peekKind fun kind => ?_
  split
  · exact .pure id
  · exact .rejectAt _ nofun
  · exact .past (.advance nofun) fun _ => .answer
  · refine .startDecorations fun d => .past (hg.spec keyword) fun kind => ?_
    exact .bind .expectTerminator fun _ => .claimTrailing fun trailing => .answer

theorem specGroup (keyword : GenKeyword) :
    Proceeds (· = .punct .lparen) n Never (g.specGroup keyword) := by
  rw [specGroup_eq]
  refine .peek fun t => .past (.advance nofun) fun _ => .claimTrailing fun comment => ?_
  refine .bind (hg.entries (hg.specTurn keyword _)) fun specs => .closeEnclosure fun b => ?_
  exact .past .expectPunct fun _ => .answer

/-- A declaration takes its keyword. -/
theorem genDecl {M : GenDecl → Prop} : Proceeds K n M g.genDecl := by
  refine .peekKind fun kind => ?_
  split
  · exact .unexpected _
  · rename_i keyword hkeyword
    refine .past (.advance (genKeyword_ne_eof hkeyword)) fun _ => .atPunct ?_ ?_
    · exact .bind (hg.specGroup keyword) fun r => .answer
    · exact .past (hg.spec keyword) fun kind => .answer

/-! ## Simple statements -/

/-- What a label stands before may be empty, and has one token less, since the label is taken. -/
theorem labeled (label : String) : Proceeds K (n - 1) Never (g.labeled label) := by
  refine .peekKind fun kind => ?_
  split
  · exact .answer
  · exact .answer
  · exact .startDecorations fun d => .past hg.stmt fun kind => .answer

/-- An assignment is entered at its operator. -/
theorem assignment (rangeOk : Bool) (lhs : List Expr) {kind : TokenKind} {op : AssignOp}
    (hop : assignOp? kind = some op) :
    Proceeds (· = kind) n Never (g.assignment rangeOk lhs op) := by
  refine .past (.advance (assignOp_ne_eof hop)) fun _ => ?_
  have plain {K : TokenKind → Prop} : Proceeds K n Never
      (do return Simple.plain (.assign lhs op (← g.exprs))) := .past hg.exprs fun xs => .answer
  refine .at? ?_ ?_
  · split
    · split
      · exact .reject nofun
      · exact .past (.advance nofun) fun _ => .past hg.expr fun x => .answer
    · exact plain
  · rw [Bool.and_false, if_neg Bool.false_ne_true]
    exact plain

theorem exprStmt (x : Expr) : Proceeds K n Never (g.exprStmt x) := by
  refine .peekKind fun kind => ?_
  split
  · exact .past (.advance nofun) fun _ => .past hg.expr fun y => .answer
  · exact .past (.advance nofun) fun _ => .answer
  · exact .past (.advance nofun) fun _ => .answer
  · exact .answer

theorem afterExpr (labelOk : Bool) (x : Expr) : Proceeds K n Never (g.afterExpr labelOk x) := by
  cases labelOk with
  | false => exact .atPunct (hg.exprStmt x) (hg.exprStmt x)
  | true =>
    refine .atPunct ?_ (hg.exprStmt x)
    cases x with
    | ident label => exact .below (.advance nofun) fun _ => .bind (hg.labeled label) fun _ => .answer
    | _ => exact .reject nofun

/-- A statement that starts with an expression takes a token for it. -/
theorem exprsStmt {M : Simple → Prop} (rangeOk labelOk : Bool) :
    Proceeds K n M (g.exprsStmt rangeOk labelOk) := by
  refine .past hg.exprs fun lhs => .peekKind fun kind => ?_
  split
  · rename_i op hop
    exact hg.assignment rangeOk _ hop
  · exact hg.afterExpr labelOk _
  · exact .unexpected _

theorem simple {M : Simple → Prop} (rangeOk labelOk : Bool) :
    Proceeds K n M (g.simple rangeOk labelOk) := by
  have rest {K : TokenKind → Prop} : Proceeds K n M (g.exprsStmt rangeOk labelOk) :=
    hg.exprsStmt rangeOk labelOk
  cases rangeOk with
  | false => exact .at? rest rest
  | true => exact .at? (.past (.advance nofun) fun _ => .past hg.expr fun x => .answer) rest

theorem headerStmt (rangeOk : Bool) : Proceeds K n Never (g.headerStmt rangeOk) := by
  refine .peekKind fun kind => ?_
  split
  · exact .answer
  · exact .answer
  · exact .past (hg.simple _ _) fun s => .answer

/-! ## Blocks -/

/-- A statement of a list on as many tokens as statements of the level serve. -/
theorem stmtTurn : Proceeds K (n - 1) Turn.GoesOn g.stmtTurn := by
  refine .peekKind fun kind => ?_
  split
  · exact .pure id
  · split
    · rename_i hsemicolon
      exact .past (.advance (isSemicolon_ne_eof hsemicolon)) fun _ => .answer
    · refine .startDecorations fun d => .past hg.stmt fun kind => .peekKind fun next => ?_
      split
      iterate 3 exact stmtEnd kind d
      · exact .bind .expectTerminator fun _ => stmtEnd kind d

/-- There may be no statements. -/
theorem stmts : Proceeds K (n - 1) Never g.stmts := by
  rw [stmts_eq]
  exact .entries hg.stmtTurn (Nat.le_trans (Nat.sub_le n 1) hg.turns)

/-- A block takes its braces. -/
theorem blockInner {M : Block → Prop} : Proceeds K n M g.blockInner := by
  refine .peek fun t => .below .expectPunct fun _ => .claimTrailing fun comment => ?_
  refine .bind hg.stmts fun ss => .peekKind fun kind => ?_
  split
  · refine .peek fun t => .closeEnclosure fun b => ?_
    exact .past (.advance nofun) fun _ => .answer
  · exact .rejectAt _ nofun
  · exact .unexpected _

/-- A block, one level of nesting down. -/
theorem nestedBlock {M : Block → Prop} : Proceeds K n M g.nestedBlock :=
  .nested hg.blockInner

/-! ## Control statements -/

/-- No token is promised of a header, since the keyword has been taken before it. -/
theorem ifHeader : Proceeds K n Never g.ifHeader := by
  refine .atPunct (.reject nofun) ?_
  refine .bind (hg.headerStmt _) fun first => .atSemicolon ?_ ?_
  · refine .past .advanceSemicolon fun _ => .bind (clauseStmt first) fun init => ?_
    exact .past hg.expr fun x => .answer
  · rw [if_neg Bool.false_ne_true]
    split
    · exact .answer
    · exact .reject nofun

/-- There may be no `else`. -/
theorem otherwise : Proceeds K n Never g.otherwise := by
  refine .at? (.below (.advance nofun) fun _ => .peekKind fun kind => ?_) .answer
  split
  · exact .past hg.ifThen fun r => .answer
  · exact .past (hg.nestedBlock.fewer (Nat.sub_le n 1)) fun b => .answer
  · exact .unexpected _

/-- An `if` takes its keyword, and its header and blocks come behind it. -/
theorem ifThenHere {M : Option Stmt × Expr × Block × Else → Prop} :
    Proceeds K n M g.ifThenHere := by
  refine .past .expectKeyword fun _ => .bind (.inHeader hg.ifHeader) fun r => ?_
  exact .past hg.nestedBlock fun b => .bind hg.otherwise fun e => .answer

/-- No token is promised of the clauses of a loop, since the first may be missing. -/
theorem loopClauses (first : Option Simple) : Proceeds K n Never (g.loopClauses first) := by
  refine .bind (clauseStmt first) fun init => ?_
  refine .bind (.atSemicolon .answer (.past hg.expr fun _ => .answer)) fun cond => ?_
  refine .bind .expectTerminator fun _ => .bind (hg.headerStmt _) fun s => ?_
  exact .bind (clauseStmt s) fun post => .answer

theorem loopHeader : Proceeds K n Never g.loopHeader := by
  refine .bind (hg.headerStmt _) fun s => ?_
  split
  · exact .answer
  · refine .atSemicolon (.past .advanceSemicolon fun _ => hg.loopClauses _) ?_
    rw [if_neg Bool.false_ne_true]
    split
    · exact .answer
    · exact .answer
    · exact .reject nofun

/-- A loop takes its keyword. -/
theorem loop {M : StmtKind → Prop} : Proceeds K n M g.loop := by
  refine .past .expectKeyword fun _ => .bind (.inHeader hg.loopHeader) fun header => ?_
  refine .past hg.nestedBlock fun b => ?_
  cases header with
  | clauses => exact .answer
  | range => exact .answer

/-- A turn that goes on has taken a `case` or `default`. -/
theorem clauseTurn (phrase : Opened) {head : Parser ClauseHead} (opening : Span)
    (h : Proceeds Anything n Never head) :
    Proceeds K n Turn.GoesOn (g.clauseTurn phrase head opening) := by
  refine .peekKind fun kind => ?_
  split
  · exact .pure id
  · refine .startDecorations fun d => .past ?_ fun head => ?_
    · split
      · exact .past (.advance nofun) fun _ => h
      · exact .past (.advance nofun) fun _ => .answer
      · exact .rejectAt _ nofun
      · exact .unexpected _
    · refine .below .expectPunct fun _ => .claimTrailing fun trailing => ?_
      exact .bind hg.stmts fun ss => .answer

/-- Clauses take the braces around them. -/
theorem clauses {M : Span × List Clause × Enclosure → Prop} (phrase : Opened)
    {head : Parser ClauseHead} (h : Proceeds Anything n Never head) :
    Proceeds K n M (g.clauses phrase head) := by
  rw [clauses_eq]
  refine .peek fun t => .past .expectPunct fun _ => .claimTrailing fun comment => ?_
  refine .bind (hg.entries (hg.clauseTurn phrase _ h)) fun cs => .closeEnclosure fun b => ?_
  exact .past .expectPunct fun _ => .answer

/-- The header of a switch may be empty. -/
theorem switchHeader : Proceeds K n Never g.switchHeader := by
  refine .atPunct .answer (.bind (hg.headerStmt _) fun first => .atSemicolon ?_ ?_)
  · refine .past .advanceSemicolon fun _ => .bind (clauseStmt first) fun init => ?_
    exact .bind (hg.headerStmt _) fun s => .bind (clauseStmt s) fun tag => .answer
  · exact .bind (clauseStmt first) fun tag => .answer

/-- The values of a clause take a token. -/
theorem valuesHead {M : ClauseHead → Prop} :
    Proceeds K n M (do return ClauseHead.values (← g.exprs)) :=
  .past hg.exprs fun _ => .answer

/-- The communication of a clause takes a token. -/
theorem commHead {M : ClauseHead → Prop} :
    Proceeds K n M (do return ClauseHead.comm (← (← g.simple false false).toStmt)) :=
  .past (hg.simple _ _) fun s => .bind (toStmt s) fun _ => .answer

theorem switch {M : StmtKind → Prop} : Proceeds K n M g.switch := by
  refine .past .expectKeyword fun _ => .bind (.inHeader hg.switchHeader) fun r => ?_
  obtain ⟨init, tag⟩ := r
  refine .past (hg.clauses _ hg.valuesHead) fun r => ?_
  cases tag with
  | none => exact .answer
  | some guard =>
    dsimp only
    split
    · exact .answer
    · split
      · exact .answer
      · exact .rejectAt _ nofun

theorem select {M : StmtKind → Prop} : Proceeds K n M g.select :=
  .past .expectKeyword fun _ => .past (hg.clauses _ hg.commHead) fun _ => .answer

/-- The forms of statements, told apart by their first token. -/
theorem stmtHere {M : StmtKind → Prop} : Proceeds K n M g.stmtHere := by
  refine .peekKind fun kind => ?_
  split
  iterate 3 exact .past hg.genDecl fun d => .answer
  · refine .past (.advance nofun) fun _ => .peekKind fun kind => ?_
    split
    · exact .answer
    · exact .answer
    · exact .past hg.exprs fun xs => .answer
  · exact branch .break
  · exact branch .continue
  · exact branch .goto
  · exact .past (.advance nofun) fun _ => .answer
  · exact .past hg.nestedBlock fun b => .answer
  · exact .past hg.ifThenHere fun r => .answer
  · exact hg.loop
  · exact hg.switch
  · exact hg.select
  · exact .past (.advance nofun) fun _ => .past hg.expr fun x => .answer
  · exact .past (.advance nofun) fun _ => .past hg.expr fun x => .answer
  · refine .past (hg.simple _ _) fun s => ?_
    cases s with
    | plain kind => exact .answer
    | range => exact .reject nofun

end Serves

/-! ## The levels -/

/-- At the bottom there are no phrases, which is enough for a text of no tokens. -/
theorem serves_bottom (budget : Nat) : (bottom budget).Serves 0 where
  turns := Nat.zero_le _
  binary _ := .exhausted
  unary := .exhausted
  elementValue := .exhausted
  type := .exhausted
  block := .exhausted
  stmt := .exhausted
  ifThen := .exhausted

/-- The next level serves one token more, if its loops may turn as often. -/
theorem Serves.next {g : Grammar} {n m : Nat} (hg : g.Serves n) (hm : m ≤ n + 1)
    (hturns : m ≤ g.budget) : g.next.Serves m where
  turns := hturns
  binary strength := (hg.binaryFrom strength).fewer hm
  unary := hg.nestedUnary.fewer hm
  elementValue := hg.elementValueHere.fewer (Nat.sub_le_of_le_add hm)
  type := hg.nestedType.fewer hm
  block := hg.nestedBlock.fewer (Nat.sub_le_of_le_add hm)
  stmt := hg.stmtHere.fewer (Nat.sub_le_of_le_add hm)
  ifThen := hg.ifThenHere.fewer (Nat.sub_le_of_le_add hm)

/-- As many levels as there are tokens are enough, and as many turns. -/
theorem serves_level {n budget levels : Nat} (hturns : n ≤ budget) (hlevels : n ≤ levels) :
    (level budget levels).Serves n := by
  induction levels generalizing n with
  | zero =>
    obtain rfl := Nat.le_zero.mp hlevels
    exact serves_bottom budget
  | succ levels ih =>
    have hbelow : (level budget levels).Serves (n - 1) :=
      ih (Nat.le_trans (Nat.sub_le n 1) hturns) (Nat.sub_le_of_le_add hlevels)
    exact hbelow.next (Nat.le_add_of_sub_le (Nat.le_refl _))
      ((budget_level budget levels).symm ▸ hturns)

end Grammar

end HandlerSplit.Parse
