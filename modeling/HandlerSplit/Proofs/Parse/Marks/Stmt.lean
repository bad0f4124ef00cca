import HandlerSplit.Parse.Stmt
import HandlerSplit.Proofs.Parse.Marks.Expr
/-!
# Comments and names of statements

Statements and declarations hold the comments and names they were read from, in order. With
them a level of the grammar hands the property to the next, so every level has it.
-/

namespace HandlerSplit.Parse

/-! ## The marks of phrases -/

theorem mark?_of_assignOp {kind : TokenKind} {op : AssignOp} (h : assignOp? kind = some op) :
    kind.mark? = none := by
  cases kind <;> first | rfl | cases h

theorem mark?_of_genKeyword {kind : TokenKind} {keyword : GenKeyword}
    (h : genKeyword? kind = some keyword) : kind.mark? = none := by
  cases kind <;> first | rfl | cases h

/-- A semicolon is no mark. -/
theorem mark?_of_isSemicolon {kind : TokenKind} (h : kind.isSemicolon = true) :
    kind.mark? = none := by
  cases kind <;> first | rfl | cases h

/-- The marks of a simple statement. -/
def Simple.marks : Simple → List Mark
  | .plain kind => kind.marks
  | .range key value _ x => optExprMarks key ++ optExprMarks value ++ x.marks

/-- The marks of a clause of a header. -/
def headerMarks (s : Option Simple) : List Mark :=
  s.toList.flatMap Simple.marks

/-- The marks of the header of a loop. -/
def LoopHeader.marks : LoopHeader → List Mark
  | .clauses init cond post => optStmtMarks init ++ optExprMarks cond ++ optStmtMarks post
  | .range key value _ x => optExprMarks key ++ optExprMarks value ++ x.marks

/-- The marks of a group of entries. -/
def groupMarks (r : List Spec × Enclosure) : List Mark :=
  r.2.around (specMarks r.1)

/-- The marks of the clauses of a switch. -/
def switchMarks (r : Span × List Clause × Enclosure) : List Mark :=
  r.2.2.around (clauseMarks r.2.1)

/-- At most two expressions are told by the first two. -/
theorem exprMarks_firstTwo {xs : List Expr} (h : ¬xs.length > 2) :
    optExprMarks xs[0]? ++ optExprMarks xs[1]? = xs.flatMap Expr.marks := by
  rcases xs with _ | ⟨x, _ | ⟨y, _ | ⟨z, xs⟩⟩⟩
  · rfl
  · simp
  · simp
  · simp at h

variable {K : TokenKind → Prop}

/-- Making a statement of what has been read takes no marks. -/
theorem Simple.toStmt_reads (s : Simple) : Reads K s.marks Stmt.marks s.toStmt := by
  cases s with
  | plain kind => exact .pure (Decorations.around_plain _)
  | range => exact .reject _

/-- The statement of a header carries no layout. -/
theorem Simple.toStmt_plain (s : Simple) : Answers (fun t => t.decs = .plain) s.toStmt := by
  cases s with
  | plain kind => exact .pure rfl
  | range => exact .reject _

namespace Grammar.Keeps

variable {g : Grammar}

/-! ## Declarations inside and outside of functions -/

theorem importName : Reads K [] importNameMarks importName := by
  refine .peekKind fun kind _ => ?_
  split
  · exact .nameNe fun hpoint => .pure (if_neg hpoint)
  · exact .next rfl (.pure (by rw [importNameMarks, if_pos rfl]))
  · exact .pure rfl

theorem importSpec : Reads K [] SpecKind.marks importSpec := by
  refine .bind importName fun name => .peekKind fun kind _ => ?_
  split
  · exact .next rfl (.pure rfl)
  · exact .unexpected _

theorem branchLabel : Reads K [] (fun l => nameMarks l.toList) branchLabel := by
  refine .peekKind fun kind _ => ?_
  split
  · exact .name (.pure rfl)
  · exact .pure rfl

/-- A branch holds the name of its label. -/
theorem branch (kind : BranchKind) {word : Keyword} :
    Reads (· = .keyword word) [] StmtKind.marks (branch kind) :=
  .next rfl (.bind branchLabel fun _ => .pure rfl)

theorem clauseStmt (s : Option Simple) : Reads K (headerMarks s) optStmtMarks (clauseStmt s) := by
  cases s with
  | none => exact .pure rfl
  | some s =>
    have hmarks : headerMarks (some s) = s.marks := List.append_nil _
    rw [hmarks]
    exact .seq s.toStmt_reads fun t => .pure rfl

/-- A statement in a header carries no comments of its own. -/
theorem clauseStmt_plain (s : Option Simple) :
    Answers (fun t => ∀ stmt ∈ t, stmt.decs = .plain) (Grammar.clauseStmt s) := by
  cases s with
  | none => exact .pure nofun
  | some s =>
    refine .bind s.toStmt_plain fun t ht => .pure fun stmt hstmt => ?_
    obtain rfl := Option.mem_some.mp hstmt
    exact ht

/-- The comments before a statement, its own marks, and the comment that trails it. -/
theorem stmtEnd (kind : StmtKind) (d : Decorations) :
    Reads K (commentMarks d.leading ++ kind.marks) (Turn.marks Stmt.marks) (stmtEnd kind d) :=
  .claimTrailing fun _ => .pure rfl

variable (hg : g.Keeps)

include hg

theorem valueSpec : Reads K [] SpecKind.marks g.valueSpec := by
  refine .bind idents fun names => .bind (e := optExprMarks) (.peekKind fun kind _ => ?_)
    fun type => .atPunct ?_ (.pure ?_)
  · split
    · exact .pure rfl
    · exact .pure rfl
    · exact .pure rfl
    · exact .pure rfl
    · exact .bind hg.nestedType fun _ => .pure rfl
  · refine .next rfl (.bind hg.exprs fun xs => .pure ?_)
    rw [SpecKind.marks, exprMarks_eq]
    rfl
  · exact List.append_nil _

theorem typeSpec : Reads K [] SpecKind.marks g.typeSpec := by
  refine .bind .expectIdent fun name => .atPunct (.next rfl ?_) ?_
  · exact .bind hg.nestedType fun x => .pure rfl
  · exact .bind hg.nestedType fun x => .pure rfl

theorem spec (keyword : GenKeyword) : Reads K [] SpecKind.marks (g.spec keyword) := by
  cases keyword with
  | «import» => exact importSpec
  | const => exact hg.valueSpec
  | var => exact hg.valueSpec
  | type => exact hg.typeSpec

/-- A group of declarations holds the comments at its parentheses. -/
theorem specGroup (keyword : GenKeyword) :
    Reads (· = .punct .lparen) [] groupMarks (g.specGroup keyword) := by
  refine .peek fun t => .next rfl (.claimTrailing fun comment => ?_)
  refine .bind (.entries (e := Spec.marks) (.peekKind fun kind _ => ?_) _)
    fun specs => .closeEnclosure _ fun b hb => .skip (.expectPunct _) (.pure ?_)
  · split
    · exact .pure rfl
    · exact .rejectAt _ _
    · exact .next rfl (.pure rfl)
    · refine .startDecorations fun d _ => .bind (hg.spec keyword) fun kind => ?_
      exact .skip .expectTerminator (.claimTrailing fun trailing => .pure rfl)
  · rw [groupMarks, ← hb, Enclosure.around, specMarks_eq]
    rfl

/-- The marks of a declaration, or of a group of them. -/
theorem genDecl : Reads K [] GenDecl.marks g.genDecl := by
  refine .peekKind fun kind _ => ?_
  split
  · exact .unexpected _
  · rename_i keyword hkeyword
    refine .next (mark?_of_genKeyword hkeyword) (.atPunct ?_ ?_)
    · exact .bind (hg.specGroup keyword) fun r => .pure rfl
    · refine .bind (hg.spec keyword) fun kind => .pure ?_
      simp only [GenDecl.marks, specMarks, Decorations.around_plain, List.append_nil]
      rfl

/-! ## Simple statements -/

/-- The name of a label stands before what it labels. -/
theorem labeled (label : String) :
    Reads K [.name label false] StmtKind.marks (g.labeled label) := by
  refine .peekKind fun kind _ => ?_
  split
  · exact .pure rfl
  · exact .pure rfl
  · refine .startDecorations fun d hd => .bind hg.stmt fun kind => .pure ?_
    rw [StmtKind.marks, Stmt.marks, d.around_of_trailing_none hd]
    rfl

/-- The marks of the right sides come behind those of the left. -/
theorem assignment (rangeOk : Bool) (lhs : List Expr) {kind : TokenKind} {op : AssignOp}
    (hop : assignOp? kind = some op) :
    Reads (· = kind) (lhs.flatMap Expr.marks) Simple.marks (g.assignment rangeOk lhs op) := by
  refine .next (mark?_of_assignOp hop) ?_
  have plain {K : TokenKind → Prop} : Reads K (lhs.flatMap Expr.marks) Simple.marks
      (do return .plain (.assign lhs op (← g.exprs))) := by
    refine .bind hg.exprs fun xs => .pure ?_
    rw [Simple.marks, StmtKind.marks, exprMarks_eq, exprMarks_eq]
  refine .at? ?_ ?_
  · split
    · split
      · exact .reject _
      · rename_i hlength
        refine .next rfl (.bind hg.expr fun x => .pure ?_)
        rw [Simple.marks, exprMarks_firstTwo hlength]
    · exact plain
  · rw [Bool.and_false, if_neg Bool.false_ne_true]
    exact plain

theorem exprStmt (x : Expr) : Reads K x.marks Simple.marks (g.exprStmt x) := by
  refine .peekKind fun kind _ => ?_
  split
  · exact .next rfl (.bind hg.expr fun y => .pure rfl)
  · exact .next rfl (.pure rfl)
  · exact .next rfl (.pure rfl)
  · exact .pure rfl

/-- How a statement goes on behind an expression that has been read. -/
theorem afterExpr (labelOk : Bool) (x : Expr) :
    Reads K x.marks Simple.marks (g.afterExpr labelOk x) := by
  cases labelOk with
  | false => exact .atPunct (hg.exprStmt x) (hg.exprStmt x)
  | true =>
    refine .atPunct ?_ (hg.exprStmt x)
    cases x with
    | ident label => exact .next rfl (.seq (hg.labeled label) fun kind => .pure rfl)
    | _ => exact .reject _

theorem exprsStmt (rangeOk labelOk : Bool) :
    Reads K [] Simple.marks (g.exprsStmt rangeOk labelOk) := by
  refine .bind hg.exprs fun lhs => .peekKind fun kind _ => ?_
  cases hop : assignOp? kind with
  | some op => exact hg.assignment rangeOk lhs hop
  | none =>
    rcases lhs with _ | ⟨x, _ | ⟨y, xs⟩⟩
    · exact .unexpected _
    · rw [List.nil_append, List.flatMap_singleton]
      exact hg.afterExpr labelOk x
    · exact .unexpected _

theorem simple (rangeOk labelOk : Bool) : Reads K [] Simple.marks (g.simple rangeOk labelOk) := by
  have rest {K : TokenKind → Prop} : Reads K [] Simple.marks (g.exprsStmt rangeOk labelOk) :=
    hg.exprsStmt rangeOk labelOk
  cases rangeOk with
  | false => exact .at? rest rest
  | true =>
    refine .at? ?_ rest
    exact .next rfl (.bind hg.expr fun x => .pure rfl)

/-- The statement in a header may be missing. -/
theorem headerStmt (rangeOk : Bool) : Reads K [] headerMarks (g.headerStmt rangeOk) := by
  refine .peekKind fun kind _ => ?_
  split
  · exact .pure rfl
  · exact .pure rfl
  · exact .bind (hg.simple _ _) fun s => .pure (List.append_nil _)

/-! ## Blocks -/

/-- The marks of statements in order. -/
theorem stmts : Reads K [] (List.flatMap Stmt.marks) g.stmts := by
  refine .entries (.peekKind fun kind _ => ?_) _
  split
  · exact .pure rfl
  · split
    · rename_i hsemicolon
      exact .next (mark?_of_isSemicolon hsemicolon) (.pure rfl)
    · refine .startDecorations fun d hd => .bind hg.stmt fun kind => .peekKind fun next _ => ?_
      split
      · exact stmtEnd kind d
      · exact stmtEnd kind d
      · exact stmtEnd kind d
      · exact .skip .expectTerminator (stmtEnd kind d)

/-- The comments at the braces and the marks of the statements. -/
theorem blockInner : Reads K [] Block.marks g.blockInner := by
  refine .peek fun t => .skip (.expectPunct _) (.claimTrailing fun comment => ?_)
  refine .bind hg.stmts fun ss => .peekKind fun kind _ => ?_
  split
  · refine .peek fun t => .closeEnclosure _ fun b hb => .next rfl (.pure ?_)
    rw [Block.marks, ← hb, Enclosure.around, stmtMarks_eq]
    rfl
  · exact .rejectAt _ _
  · exact .unexpected _

theorem nestedBlock : Reads K [] Block.marks g.nestedBlock :=
  .nested hg.blockInner

/-! ## Control statements -/

/-- The marks of the statement, then those of the condition. -/
theorem ifHeader :
    Reads K [] (fun r : Option Stmt × Expr => optStmtMarks r.1 ++ r.2.marks) g.ifHeader := by
  refine .atPunct (.reject _) ?_
  refine .bind (hg.headerStmt _) fun first => .atSemicolon ?_ ?_
  · exact .nextSemicolon (.seq (clauseStmt first) fun init => .bind hg.expr fun x => .pure rfl)
  · rw [if_neg Bool.false_ne_true]
    split
    · exact .pure (List.append_nil _).symm
    · exact .reject _

theorem otherwise : Reads K [] Else.marks g.otherwise := by
  refine .at? (.next rfl (.peekKind fun kind _ => ?_)) (.pure rfl)
  split
  · refine .bind hg.ifThen fun r => .pure ?_
    rw [Else.marks, optStmtMarks_eq]
    rfl
  · exact .bind hg.nestedBlock fun b => .pure rfl
  · exact .unexpected _

theorem ifThenHere : Reads K [] ifMarks g.ifThenHere := by
  refine .skip (.expectKeyword _) (.bind (.inHeader hg.ifHeader) fun r => ?_)
  refine .bind hg.nestedBlock fun b => .bind hg.otherwise fun e => .pure ?_
  rw [ifMarks, optStmtMarks_eq]
  rfl

/-- The marks of the condition and the last statement come behind those of the first. -/
theorem loopClauses (first : Option Simple) :
    Reads K (headerMarks first) LoopHeader.marks (g.loopClauses first) := by
  refine .seq (clauseStmt first) fun init => ?_
  refine .bind (e := optExprMarks) (.atSemicolon (.pure rfl) (.bind hg.expr fun _ => .pure rfl))
    fun cond => .skip .expectTerminator ?_
  exact .bind (hg.headerStmt _) fun s => .seq ((clauseStmt s).behind _) fun post => .pure rfl

theorem loopHeader : Reads K [] LoopHeader.marks g.loopHeader := by
  refine .bind (hg.headerStmt _) fun s => ?_
  rcases s with _ | s
  · exact .atSemicolon (.nextSemicolon (hg.loopClauses none)) (.pure rfl)
  · cases s with
    | plain kind =>
      refine .atSemicolon (.nextSemicolon (hg.loopClauses (some (.plain kind)))) ?_
      cases kind with
      | expr cond => exact .pure rfl
      | _ => exact .reject _
    | range key value define x => exact .pure (List.append_nil _).symm

theorem loop : Reads K [] StmtKind.marks g.loop := by
  refine .skip (.expectKeyword _) (.bind (.inHeader hg.loopHeader) fun header => ?_)
  refine .bind hg.nestedBlock fun b => ?_
  cases header with
  | clauses => exact .pure rfl
  | range => exact .pure rfl

/-- The comments at the braces and the marks of the clauses. -/
theorem clauses (phrase : Opened) {head : Parser ClauseHead}
    (h : Reads Anything [] ClauseHead.marks head) :
    Reads K [] switchMarks (g.clauses phrase head) := by
  refine .peek fun t => .skip (.expectPunct _) (.claimTrailing fun comment => ?_)
  refine .bind (.entries (e := Clause.marks) (.peekKind fun kind _ => ?_) _)
    fun cs => .closeEnclosure _ fun b hb => .skip (.expectPunct _) (.pure ?_)
  · split
    · exact .pure rfl
    · refine .startDecorations fun d hd => .bind (e := ClauseHead.marks) ?_ fun head => ?_
      · split
        · exact .next rfl h
        · exact .next rfl (.pure rfl)
        · exact .rejectAt _ _
        · exact .unexpected _
      · refine .skip (.expectPunct _) (.claimTrailing fun trailing => .bind hg.stmts fun ss => ?_)
        refine .pure ?_
        rw [Turn.marks, Clause.marks, stmtMarks_eq]
        rfl
  · rw [switchMarks, ← hb, Enclosure.around, clauseMarks_eq]
    rfl

theorem switchHeader :
    Reads K [] (fun r : Option Stmt × Option Stmt => optStmtMarks r.1 ++ optStmtMarks r.2)
      g.switchHeader := by
  refine .atPunct (.pure rfl) (.bind (hg.headerStmt _) fun first => .atSemicolon ?_ ?_)
  · refine .nextSemicolon (.seq (clauseStmt first) fun init => ?_)
    exact .bind (hg.headerStmt _) fun s => .seq ((clauseStmt s).behind _) fun tag => .pure rfl
  · exact .seq (clauseStmt first).weaken fun tag => .pure rfl

omit hg in
/-- The tag of a switch carries no comments of its own. -/
theorem switchHeader_plain :
    Answers (fun r : Option Stmt × Option Stmt => ∀ tag ∈ r.2, tag.decs = .plain)
      g.switchHeader := by
  refine .after fun b => ?_
  split
  · exact .pure nofun
  · refine .after fun first => .after fun b => ?_
    split
    · refine .after fun _ => .after fun init => .after fun second => ?_
      exact .bind (clauseStmt_plain second) fun tag htag => .pure htag
    · exact .bind (clauseStmt_plain first) fun tag htag => .pure htag

theorem switch : Reads K [] StmtKind.marks g.switch := by
  refine .skip (.expectKeyword _) ?_
  refine .bindAnswer (.inHeader hg.switchHeader) (.inHeader switchHeader_plain) fun r hplain => ?_
  obtain ⟨init, tag⟩ := r
  refine .bind (hg.clauses _ (.bind hg.exprs fun xs => .pure ?_)) fun r => ?_
  · rw [ClauseHead.marks, exprMarks_eq]
    rfl
  · cases tag with
    | none => exact .pure rfl
    | some guard =>
      obtain ⟨kind, d⟩ := guard
      obtain rfl : d = .plain := hplain _ rfl
      dsimp only
      split
      · exact .pure rfl
      · cases kind with
        | expr x =>
          have hguard : optStmtMarks (some ⟨.expr x, .plain⟩) = x.marks :=
            Decorations.around_plain _
          refine .pure ?_
          rw [StmtKind.marks, hguard]
          rfl
        | _ => exact .rejectAt _ _

theorem select : Reads K [] StmtKind.marks g.select := by
  refine .skip (.expectKeyword _) (.bind (hg.clauses _ ?_) fun r => .pure rfl)
  exact .bind (hg.simple _ _) fun s => .seq s.toStmt_reads fun t => .pure rfl

/-- The forms of statements, told apart by their first token. -/
theorem stmtHere : Reads K [] StmtKind.marks g.stmtHere := by
  refine .peekKind fun kind _ => ?_
  split
  iterate 3 exact .bind hg.genDecl fun d => .pure rfl
  · refine .next rfl (.peekKind fun kind _ => ?_)
    split
    · exact .pure rfl
    · exact .pure rfl
    · refine .bind hg.exprs fun xs => .pure ?_
      rw [StmtKind.marks, exprMarks_eq]
      rfl
  · exact branch _
  · exact branch _
  · exact branch _
  · exact .next rfl (.pure rfl)
  · exact .bind hg.nestedBlock fun b => .pure rfl
  · refine .bind hg.ifThenHere fun r => .pure ?_
    rw [StmtKind.marks, optStmtMarks_eq]
    rfl
  · exact hg.loop
  · exact hg.switch
  · exact hg.select
  · exact .next rfl (.bind hg.expr fun x => .pure rfl)
  · exact .next rfl (.bind hg.expr fun x => .pure rfl)
  · refine .bind (hg.simple _ _) fun s => ?_
    cases s with
    | plain kind => exact .pure rfl
    | range => exact .reject _

end Grammar.Keeps

/-! ## The levels -/

namespace Grammar

/-- The bottom answers nothing, so it loses no mark. -/
theorem bottom_keeps (budget : Nat) : (bottom budget).Keeps where
  binary _ := .reject _
  unary := .reject _
  elementValue := .reject _
  type := .reject _
  block := .reject _
  stmt := .reject _
  ifThen := .reject _

/-- A level built from one that keeps marks does so too. -/
theorem Keeps.next {g : Grammar} (hg : g.Keeps) : g.next.Keeps where
  binary := hg.binaryFrom
  unary := hg.nestedUnary
  elementValue := hg.elementValueHere
  type := hg.nestedType
  block := hg.nestedBlock
  stmt := hg.stmtHere
  ifThen := hg.ifThenHere

/-- Every level of the grammar reads the marks of what it answers. -/
theorem level_keeps (budget n : Nat) : (level budget n).Keeps := by
  induction n with
  | zero => exact bottom_keeps budget
  | succ n ih => exact ih.next

end Grammar

end HandlerSplit.Parse
