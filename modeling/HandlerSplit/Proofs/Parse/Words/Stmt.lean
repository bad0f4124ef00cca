import HandlerSplit.Parse.Stmt
import HandlerSplit.Proofs.Parse.Words.Expr
/-!
# Words of statements

Statements and declarations consume their words. With them a level of the grammar hands the
property to the next, so every level has it.
-/

namespace HandlerSplit.Parse

/-! ## The words of phrases -/

/-- An assignment operator is written as the token it was read from. -/
theorem kind_of_assignOp {kind : TokenKind} {op : AssignOp} (h : assignOp? kind = some op) :
    kind = op.kind := by
  unfold assignOp? at h
  split at h <;> cases h <;> rfl

/-- The keyword of a declaration is the token it was read from. -/
theorem kind_of_genKeyword {kind : TokenKind} {keyword : GenKeyword}
    (h : genKeyword? kind = some keyword) : kind = .keyword keyword.keyword := by
  unfold genKeyword? at h
  split at h <;> cases h <;> rfl

/-- The words of a range clause. -/
def clauseRangeWords (key value : Option Expr) (define : Bool) (x : Expr) : List TokenKind :=
  optExprWords key ++ optExprWords value ++ rangeOpWords key.isSome define ++
    [.keyword .range] ++ x.words

/-- The words of a simple statement. -/
def Simple.words : Simple → List TokenKind
  | .plain kind => kind.words
  | .range key value define x => clauseRangeWords key value define x

/-- The words of a clause of a header. -/
def headerWords (s : Option Simple) : List TokenKind :=
  s.toList.flatMap Simple.words

/-- The words of the header of a loop. -/
def LoopHeader.words : LoopHeader → List TokenKind
  | .clauses init cond post => optStmtWords init ++ optExprWords cond ++ optStmtWords post
  | .range key value define x => clauseRangeWords key value define x

/-- The words of the clauses of a switch with their braces. -/
def switchWords (r : Span × List Clause × Enclosure) : List TokenKind :=
  [.punct .lbrace] ++ clauseWords r.2.1 ++ [.punct .rbrace]

/-- At most two expressions are told by the first two. -/
theorem exprWords_firstTwo {xs : List Expr} (h : ¬xs.length > 2) :
    optExprWords xs[0]? ++ optExprWords xs[1]? = exprWords xs := by
  rcases xs with _ | ⟨x, _ | ⟨y, _ | ⟨z, xs⟩⟩⟩
  · rfl
  · simp [optExprWords, exprWords]
  · simp [optExprWords, exprWords]
  · simp at h

variable {K : TokenKind → Prop}

/-- Making a statement of what has been read consumes nothing. -/
theorem Simple.toStmt_consumes (s : Simple) : Consumes K s.words Stmt.words s.toStmt := by
  cases s with
  | plain kind => exact .pure rfl
  | range => exact .reject _

namespace Grammar.Exact

variable {g : Grammar}

/-! ## Declarations inside and outside of functions -/

/-- A name before an import path; no name is a point. -/
theorem importName : Consumes K [] importNameWords importName := by
  intro c hc hK name c' hrun
  rw [Grammar.importName, peekKind_bind_run] at hrun
  split at hrun
  · rename_i n hkind
    obtain ⟨_, c₁, hadvance, hrun⟩ := bind_ok hrun
    obtain ⟨rfl, rfl⟩ := pure_ok hrun
    obtain rfl : c.advance = c' := congrArg Prod.snd hadvance
    obtain ⟨hproper, hwords⟩ := c.words_advance_of_word hc (by rw [hkind]; rfl)
    have hne : n ≠ "." := fun h => hc.ne_point (h ▸ hkind)
    exact ⟨hproper, by rw [hwords, hkind, importNameWords, if_neg hne]; rfl⟩
  · rename_i hkind
    obtain ⟨_, c₁, hadvance, hrun⟩ := bind_ok hrun
    obtain ⟨rfl, rfl⟩ := pure_ok hrun
    obtain rfl : c.advance = c' := congrArg Prod.snd hadvance
    obtain ⟨hproper, hwords⟩ := c.words_advance_of_word hc (by rw [hkind]; rfl)
    exact ⟨hproper, by rw [hwords, hkind]; rfl⟩
  · obtain ⟨rfl, rfl⟩ := pure_ok hrun
    exact ⟨hc, rfl⟩

theorem importSpec : Consumes K [] SpecKind.words importSpec := by
  refine .bind importName fun name => .peekKind fun kind _ => ?_
  split
  · exact .word rfl (.pure rfl)
  · exact .unexpected _

theorem branchLabel : Consumes K [] (fun l => nameWords l.toList) branchLabel := by
  refine .peekKind fun kind _ => ?_
  split
  · exact .word rfl (.pure rfl)
  · exact .pure rfl

/-- A branch has its keyword and the name of its label. -/
theorem branch (kind : BranchKind) :
    Consumes (· = .keyword kind.keyword) [] StmtKind.words (branch kind) :=
  .word rfl (.bind branchLabel fun _ => .pure rfl)

theorem clauseStmt (s : Option Simple) :
    Consumes K (headerWords s) optStmtWords (clauseStmt s) := by
  cases s with
  | none => exact .pure rfl
  | some s =>
    have hwords : headerWords (some s) = s.words := List.append_nil _
    rw [hwords]
    exact .seq s.toStmt_consumes fun t => .pure rfl

/-- A list of expressions has at least one. -/
theorem exprs_ne_nil : Answers (· ≠ []) g.exprs :=
  .after fun _ => .after fun _ => .pure (List.cons_ne_nil _ _)

/-- The comment that trails a statement is no word. -/
theorem stmtEnd (kind : StmtKind) (d : Decorations) :
    Consumes K kind.words (Turn.words Stmt.words) (stmtEnd kind d) :=
  .claimTrailing fun _ => .pure rfl

variable (hg : g.Exact)

include hg

theorem valueSpec : Consumes K [] SpecKind.words g.valueSpec := by
  refine .bind idents fun names => .bind (e := optExprWords) (.peekKind fun kind _ => ?_)
    fun type => .atPunct ?_ (.pure rfl)
  · split
    · exact .pure rfl
    · exact .pure rfl
    · exact .pure rfl
    · exact .pure rfl
    · exact .bind hg.nestedType fun _ => .pure rfl
  · refine .word rfl (.bindAnswer hg.exprs exprs_ne_nil fun xs hxs => .pure ?_)
    obtain ⟨x, xs, rfl⟩ := List.exists_cons_of_ne_nil hxs
    rfl

theorem typeSpec : Consumes K [] SpecKind.words g.typeSpec := by
  refine .bind .expectIdent fun name => .atPunct (.word rfl ?_) ?_
  · exact .bind hg.nestedType fun x => .pure rfl
  · exact .bind hg.nestedType fun x => .pure rfl

theorem spec (keyword : GenKeyword) : Consumes K [] SpecKind.words (g.spec keyword) := by
  cases keyword with
  | «import» => exact importSpec
  | const => exact hg.valueSpec
  | var => exact hg.valueSpec
  | type => exact hg.typeSpec

/-- A group has the words of its declarations in order. -/
theorem specGroup (keyword : GenKeyword) :
    Consumes (· = .punct .lparen) [] (fun r => specWords r.1) (g.specGroup keyword) := by
  refine .peek fun t => .next rfl (.claimTrailing fun comment => ?_)
  refine .bind (.entries (e := fun s => s.kind.words) (.peekKind fun kind _ => ?_) _)
    fun specs => .closeEnclosure _ fun b => .skip (.expectFree rfl) (.pure ?_)
  · split
    · exact .pure rfl
    · exact .rejectAt _ _
    · exact .next rfl (.pure rfl)
    · refine .startDecorations fun d => .bind (hg.spec keyword) fun kind => ?_
      exact .skip .expectTerminator (.claimTrailing fun trailing => .pure rfl)
  · exact specWords_eq specs

/-- The keyword of a declaration stands before its words. -/
theorem genDecl : Consumes K [] GenDecl.words g.genDecl := by
  refine .peekKind fun kind _ => ?_
  split
  · exact .unexpected _
  · rename_i keyword hkeyword
    obtain rfl := kind_of_genKeyword hkeyword
    refine .word rfl (.atPunct ?_ ?_)
    · exact .bind (hg.specGroup keyword) fun r => .pure rfl
    · refine .bind (hg.spec keyword) fun kind => .pure ?_
      simp [GenDecl.words, specWords]

/-! ## Simple statements -/

/-- The label and its colon have been consumed before. -/
theorem labeled (label : String) :
    Consumes K ([.ident label] ++ [.punct .colon]) StmtKind.words (g.labeled label) := by
  refine .peekKind fun kind _ => ?_
  split
  · exact .pure rfl
  · exact .pure rfl
  · exact .startDecorations fun d => .bind hg.stmt fun kind => .pure rfl

/-- The operator stands between the words of both sides, and the left side is not empty. -/
theorem assignment (rangeOk : Bool) {lhs : List Expr} (hlhs : lhs ≠ []) {kind : TokenKind}
    {op : AssignOp} (hop : assignOp? kind = some op) :
    Consumes (· = kind) (exprWords lhs) Simple.words (g.assignment rangeOk lhs op) := by
  obtain rfl := kind_of_assignOp hop
  refine .word op.isWord_kind ?_
  have plain {K : TokenKind → Prop} : Consumes K (exprWords lhs ++ [op.kind]) Simple.words
      (do return .plain (.assign lhs op (← g.exprs))) := by
    exact .bind hg.exprs fun xs => .pure rfl
  refine .at? ?_ ?_
  · split
    · rename_i hrange
      split
      · exact .reject _
      · rename_i hlength
        refine .word rfl (.bind hg.expr fun x => .pure ?_)
        have hkey : lhs[0]?.isSome = true := by
          obtain ⟨y, ys, rfl⟩ := List.exists_cons_of_ne_nil hlhs
          rfl
        have hkind : op.kind = .punct (if op == .define then .define else .assign) := by
          cases op <;> simp_all [AssignOp.kind]
        rw [Simple.words, clauseRangeWords, exprWords_firstTwo hlength, hkey, rangeOpWords,
          if_pos rfl, ← hkind]
    · exact plain
  · rw [Bool.and_false, if_neg Bool.false_ne_true]
    exact plain

theorem exprStmt (x : Expr) : Consumes K x.words Simple.words (g.exprStmt x) := by
  refine .peekKind fun kind _ => ?_
  split
  · exact .word rfl (.bind hg.expr fun y => .pure rfl)
  · exact .word rfl (.pure rfl)
  · exact .word rfl (.pure rfl)
  · exact .pure rfl

/-- How a statement goes on behind an expression that has been consumed. -/
theorem afterExpr (labelOk : Bool) (x : Expr) :
    Consumes K x.words Simple.words (g.afterExpr labelOk x) := by
  cases labelOk with
  | false => exact .atPunct (hg.exprStmt x) (hg.exprStmt x)
  | true =>
    refine .atPunct ?_ (hg.exprStmt x)
    cases x with
    | ident label => exact .word rfl (.seq (hg.labeled label) fun kind => .pure rfl)
    | _ => exact .reject _

theorem exprsStmt (rangeOk labelOk : Bool) :
    Consumes K [] Simple.words (g.exprsStmt rangeOk labelOk) := by
  refine .bindAnswer hg.exprs exprs_ne_nil fun lhs hlhs => .peekKind fun kind _ => ?_
  cases hop : assignOp? kind with
  | some op => exact hg.assignment rangeOk hlhs hop
  | none =>
    rcases lhs with _ | ⟨x, _ | ⟨y, xs⟩⟩
    · exact .unexpected _
    · have hwords : [] ++ exprWords [x] = x.words := by simp [exprWords]
      rw [hwords]
      exact hg.afterExpr labelOk x
    · exact .unexpected _

theorem simple (rangeOk labelOk : Bool) :
    Consumes K [] Simple.words (g.simple rangeOk labelOk) := by
  have rest {K : TokenKind → Prop} : Consumes K [] Simple.words (g.exprsStmt rangeOk labelOk) :=
    hg.exprsStmt rangeOk labelOk
  cases rangeOk with
  | false => exact .at? rest rest
  | true =>
    refine .at? ?_ rest
    exact .word rfl (.bind hg.expr fun x => .pure rfl)

theorem headerStmt (rangeOk : Bool) : Consumes K [] headerWords (g.headerStmt rangeOk) := by
  refine .peekKind fun kind _ => ?_
  split
  · exact .pure rfl
  · exact .pure rfl
  · exact .bind (hg.simple _ _) fun s => .pure (List.append_nil _)

/-! ## Blocks -/

/-- The words of statements in order. -/
theorem stmts : Consumes K [] stmtWords g.stmts := by
  rw [funext stmtWords_eq]
  refine .entries (.peekKind fun kind _ => ?_) _
  split
  · exact .pure rfl
  · split
    · rename_i hsemicolon
      refine .free (fun kind' h => ?_) (.pure rfl)
      obtain rfl : kind' = kind := h
      cases kind' <;> first | rfl | cases hsemicolon
    · refine .startDecorations fun d => .bind hg.stmt fun kind => .peekKind fun next _ => ?_
      split
      · exact stmtEnd kind d
      · exact stmtEnd kind d
      · exact stmtEnd kind d
      · exact .skip .expectTerminator (stmtEnd kind d)

/-- The words of a block stand between its braces. -/
theorem blockInner : Consumes K [] Block.words g.blockInner := by
  refine .peek fun t => .expectMark rfl (.claimTrailing fun comment => ?_)
  refine .bind hg.stmts fun ss => .peekKind fun kind _ => ?_
  split
  · exact .peek fun t => .closeEnclosure _ fun b => .word rfl (.pure rfl)
  · exact .rejectAt _ _
  · exact .unexpected _

theorem nestedBlock : Consumes K [] Block.words g.nestedBlock :=
  .nested hg.blockInner

/-! ## Control statements -/

theorem ifHeader :
    Consumes K [] (fun r : Option Stmt × Expr => optStmtWords r.1 ++ r.2.words) g.ifHeader := by
  refine .atPunct (.reject _) ?_
  refine .bind (hg.headerStmt _) fun first => .atSemicolon ?_ ?_
  · exact .nextSemicolon (.seq (clauseStmt first) fun init => .bind hg.expr fun x => .pure rfl)
  · rw [if_neg Bool.false_ne_true]
    split
    · exact .pure (List.append_nil _).symm
    · exact .reject _

theorem otherwise : Consumes K [] Else.words g.otherwise := by
  refine .at? (.word rfl (.peekKind fun kind _ => ?_)) (.pure rfl)
  split
  · exact .bind hg.ifThen fun r => .pure rfl
  · exact .bind hg.nestedBlock fun b => .pure rfl
  · exact .unexpected _

/-- The keyword, the header and the blocks of an `if`. -/
theorem ifThenHere : Consumes K [] ifWords g.ifThenHere := by
  refine .expectKeyword (.bind (.inHeader hg.ifHeader) fun r => ?_)
  exact .bind hg.nestedBlock fun b => .bind hg.otherwise fun e => .pure rfl

/-- The words of the further clauses of a loop come behind those of the first. -/
theorem loopClauses (first : Option Simple) :
    Consumes K (headerWords first) LoopHeader.words (g.loopClauses first) := by
  refine .seq (clauseStmt first) fun init => ?_
  refine .bind (e := optExprWords) (.atSemicolon (.pure rfl) (.bind hg.expr fun _ => .pure rfl))
    fun cond => .skip .expectTerminator ?_
  exact .bind (hg.headerStmt _) fun s => .seq ((clauseStmt s).behind _) fun post => .pure rfl

theorem loopHeader : Consumes K [] LoopHeader.words g.loopHeader := by
  refine .bind (hg.headerStmt _) fun s => ?_
  rcases s with _ | s
  · exact .atSemicolon (.nextSemicolon (hg.loopClauses none)) (.pure rfl)
  · cases s with
    | plain kind =>
      refine .atSemicolon (.nextSemicolon (hg.loopClauses (some (.plain kind)))) ?_
      cases kind with
      | expr cond => exact .pure rfl
      | _ => exact .reject _
    | range key value define x => exact .pure (List.append_nil _).symm

theorem loop : Consumes K [] StmtKind.words g.loop := by
  refine .expectKeyword (.bind (.inHeader hg.loopHeader) fun header => ?_)
  refine .bind hg.nestedBlock fun b => ?_
  cases header with
  | clauses => exact .pure rfl
  | range => exact .pure rfl

/-- Each clause has its keyword before the words of its head. -/
theorem clauses (phrase : Opened) {head : Parser ClauseHead}
    (h : Consumes Anything [.keyword .case] ClauseHead.words head) :
    Consumes K [] switchWords (g.clauses phrase head) := by
  refine .peek fun t => .expectMark rfl (.claimTrailing fun comment => ?_)
  refine .bind (.entries (e := Clause.words) (.peekKind fun kind _ => ?_) _)
    fun cs => .closeEnclosure _ fun b => .expectMark rfl (.pure ?_)
  · split
    · exact .pure rfl
    · refine .startDecorations fun d => .bind (e := ClauseHead.words) ?_ fun head => ?_
      · split
        · exact .word rfl h
        · exact .word rfl (.pure rfl)
        · exact .rejectAt _ _
        · exact .unexpected _
      · refine .expectMark rfl (.claimTrailing fun trailing => .bind hg.stmts fun ss => ?_)
        exact .pure rfl
  · rw [switchWords, clauseWords_eq]
    rfl

/-- The words of the statement of a switch, then those of its tag. -/
theorem switchHeader :
    Consumes K [] (fun r : Option Stmt × Option Stmt => optStmtWords r.1 ++ optStmtWords r.2)
      g.switchHeader := by
  refine .atPunct (.pure rfl) (.bind (hg.headerStmt _) fun first => .atSemicolon ?_ ?_)
  · refine .nextSemicolon (.seq (clauseStmt first) fun init => ?_)
    exact .bind (hg.headerStmt _) fun s => .seq ((clauseStmt s).behind _) fun tag => .pure rfl
  · exact .seq (clauseStmt first).weaken fun tag => .pure rfl

theorem switch : Consumes K [] StmtKind.words g.switch := by
  refine .expectKeyword (.bind (.inHeader hg.switchHeader) fun r => ?_)
  obtain ⟨init, tag⟩ := r
  refine .bind (hg.clauses _ (.bind hg.exprs fun xs => .pure rfl)) fun r => ?_
  cases tag with
  | none => exact .pure rfl
  | some guard =>
    obtain ⟨kind, d⟩ := guard
    dsimp only
    split
    · exact .pure rfl
    · cases kind with
      | expr x => exact .pure rfl
      | _ => exact .rejectAt _ _

theorem select : Consumes K [] StmtKind.words g.select := by
  refine .expectKeyword (.bind (hg.clauses _ ?_) fun r => .pure rfl)
  exact .bind (hg.simple _ _) fun s => .seq (s.toStmt_consumes.behind _) fun t => .pure rfl

/-- The forms of statements, told apart by their first token. -/
theorem stmtHere : Consumes K [] StmtKind.words g.stmtHere := by
  refine .peekKind fun kind _ => ?_
  split
  iterate 3 exact .bind hg.genDecl fun d => .pure rfl
  · refine .word rfl (.peekKind fun kind _ => ?_)
    split
    · exact .pure rfl
    · exact .pure rfl
    · exact .bind hg.exprs fun xs => .pure rfl
  · exact branch .break
  · exact branch .continue
  · exact branch .goto
  · exact .word rfl (.pure rfl)
  · exact .bind hg.nestedBlock fun b => .pure rfl
  · exact .bind hg.ifThenHere fun r => .pure rfl
  · exact hg.loop
  · exact hg.switch
  · exact hg.select
  · exact .word rfl (.bind hg.expr fun x => .pure rfl)
  · exact .word rfl (.bind hg.expr fun x => .pure rfl)
  · refine .bind (hg.simple _ _) fun s => ?_
    cases s with
    | plain kind => exact .pure rfl
    | range => exact .reject _

end Grammar.Exact

/-! ## The levels -/

namespace Grammar

/-- The bottom answers nothing. -/
theorem bottom_exact (budget : Nat) : (bottom budget).Exact where
  binary _ := .reject _
  unary := .reject _
  elementValue := .reject _
  type := .reject _
  block := .reject _
  stmt := .reject _
  ifThen := .reject _

/-- A level built from one that answers what it consumes does so too. -/
theorem Exact.next {g : Grammar} (hg : g.Exact) : g.next.Exact where
  binary := hg.binaryFrom
  unary := hg.nestedUnary
  elementValue := hg.elementValueHere
  type := hg.nestedType
  block := hg.nestedBlock
  stmt := hg.stmtHere
  ifThen := hg.ifThenHere

/-- Every level of the grammar answers the words it consumes. -/
theorem level_exact (budget n : Nat) : (level budget n).Exact := by
  induction n with
  | zero => exact bottom_exact budget
  | succ n ih => exact ih.next

end Grammar

end HandlerSplit.Parse
