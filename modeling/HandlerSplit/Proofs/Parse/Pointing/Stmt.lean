import HandlerSplit.Parse.Source
import HandlerSplit.Proofs.Parse.Pointing.Expr
/-!
# Statements and files point at the text

A switch points at its brace when its tag is no expression, after the clauses have been read: they
answer the place of the brace. With the statements every level of the grammar points at the text.
-/

namespace HandlerSplit.Parse

variable {ts : List Token}

namespace Grammar.Pointing

variable {g : Grammar} [hg : g.Pointing ts]

include hg

/-! ## Declarations -/

omit hg in
@[instance] theorem importSpec : Points ts importSpec := by
  refine .bind (.after fun kind => ?_) fun name => .after fun kind => ?_
  · split
    · exact .after fun _ => .pure _
    · exact .after fun _ => .pure _
    · exact .pure _
  · split
    · exact .after fun _ => .pure _
    · exact .unexpected _

@[instance] theorem valueSpec : Points ts g.valueSpec := by
  refine .after fun names => .bind (.after fun kind => ?_) fun type => .after fun assign => ?_
  · split
    iterate 4 exact .pure _
    · exact .after fun _ => .pure _
  · split
    · exact .after fun _ => .after fun _ => .pure _
    · exact .pure _

@[instance] theorem typeSpec : Points ts g.typeSpec := by
  refine .after fun name => .after fun aliased => ?_
  split
  · exact .after fun _ => .after fun _ => .pure _
  · exact .after fun _ => .pure _

@[instance] theorem spec (keyword : GenKeyword) : Points ts (g.spec keyword) := by
  cases keyword with
  | «import» => exact importSpec
  | const => exact valueSpec
  | var => exact valueSpec
  | type => exact typeSpec

/-- A group that is not closed points at its parenthesis. -/
@[instance] theorem specGroup (keyword : GenKeyword) : Points ts (g.specGroup keyword) := by
  refine .peek fun opening hopening => .after fun _ => .after fun comment => ?_
  refine .bind (.entries (.after fun kind => ?_) _) fun specs =>
    .after fun _ => .after fun _ => .pure _
  split
  · exact .pure _
  · exact .rejectAt hopening _
  · exact .after fun _ => .pure _
  · exact .after fun _ => .after fun _ => .after fun _ => .after fun _ => .pure _

/-- A single declaration, or a group in parentheses. -/
@[instance] theorem genDecl : Points ts g.genDecl := by
  refine .after fun kind => ?_
  split
  · exact .unexpected _
  · refine .after fun _ => .after fun group => ?_
    split
    · exact .after fun _ => .pure _
    · exact .after fun _ => .pure _

/-! ## Simple statements -/

@[instance] theorem labeled (label : String) : Points ts (g.labeled label) := by
  refine .after fun kind => ?_
  split
  · exact .pure _
  · exact .pure _
  · exact .after fun _ => .after fun _ => .pure _

/-- A range clause with too many variables points at its keyword. -/
@[instance] theorem assignment (rangeOk : Bool) (lhs : List Expr) (op : AssignOp) :
    Points ts (g.assignment rangeOk lhs op) := by
  refine .after fun _ => .after fun range => ?_
  split
  · split
    · exact .reject _
    · exact .after fun _ => .after fun _ => .pure _
  · exact .after fun _ => .pure _

@[instance] theorem exprStmt (x : Expr) : Points ts (g.exprStmt x) := by
  refine .after fun kind => ?_
  split
  · exact .after fun _ => .after fun _ => .pure _
  · exact .after fun _ => .pure _
  · exact .after fun _ => .pure _
  · exact .pure _

/-- How a statement goes on behind its first expression. -/
@[instance] theorem afterExpr (labelOk : Bool) (x : Expr) : Points ts (g.afterExpr labelOk x) := by
  refine .after fun colon => ?_
  split
  · split
    · exact .after fun _ => .after fun _ => .pure _
    · exact .reject _
  · exact exprStmt x

@[instance] theorem exprsStmt (rangeOk labelOk : Bool) : Points ts (g.exprsStmt rangeOk labelOk) := by
  refine .after fun lhs => .after fun kind => ?_
  split
  · exact assignment _ _ _
  · exact afterExpr _ _
  · exact .unexpected _

@[instance] theorem simple (rangeOk labelOk : Bool) : Points ts (g.simple rangeOk labelOk) := by
  refine .after fun range => ?_
  split
  · exact .after fun _ => .after fun _ => .pure _
  · exact exprsStmt _ _

@[instance] theorem headerStmt (rangeOk : Bool) : Points ts (g.headerStmt rangeOk) := by
  refine .after fun kind => ?_
  split
  · exact .pure _
  · exact .pure _
  · exact .after fun _ => .pure _

omit hg in
/-- A range clause that may not stand where it does points at the current token. -/
@[instance] theorem toStmt (s : Simple) : Points ts s.toStmt := by
  cases s with
  | plain kind => exact .pure _
  | range => exact .reject _

omit hg in
/-- A range clause among the clauses of a header points at the current token. -/
@[instance] theorem clauseStmt (first : Option Simple) : Points ts (clauseStmt first) := by
  cases first with
  | none => exact .pure _
  | some s => exact .after fun _ => .pure _

/-! ## Blocks -/

omit hg in
/-- Claiming the comment that trails a statement rejects nothing. -/
@[instance] theorem stmtEnd (kind : StmtKind) (decs : Decorations) : Points ts (stmtEnd kind decs) :=
  .after fun _ => .pure _

/-- Statements up to the brace or the next clause. -/
@[instance] theorem stmts : Points ts g.stmts := by
  refine .entries (.after fun kind => ?_) _
  split
  · exact .pure _
  · split
    · exact .after fun _ => .pure _
    · refine .after fun _ => .after fun kind => .after fun next => ?_
      split
      iterate 3 exact stmtEnd _ _
      · exact .after fun _ => stmtEnd _ _

/-- A block that is not closed points at its brace. -/
@[instance] theorem blockInner : Points ts g.blockInner := by
  refine .peek fun opening hopening => .after fun _ => .after fun comment => ?_
  refine .after fun stmts => .after fun kind => ?_
  split
  · exact .peek fun _ _ => .after fun _ => .after fun _ => .pure _
  · exact .rejectAt hopening _
  · exact .unexpected _

/-- A block that is nested too deeply points at its brace. -/
@[instance] theorem nestedBlock : Points ts g.nestedBlock :=
  .nested

/-! ## Control statements -/

/-- An `if` without a condition points at the current token. -/
@[instance] theorem ifHeader : Points ts g.ifHeader := by
  refine .after fun brace => ?_
  split
  · exact .reject _
  · refine .after fun first => .after fun semicolon => ?_
    split
    · exact .after fun _ => .after fun _ => .after fun _ => .pure _
    · split
      · exact .pure _
      · exact .reject _

/-- Behind an `else` stands an `if` or a block, or the current token is wrong. -/
@[instance] theorem otherwise : Points ts g.otherwise := by
  refine .after fun word => ?_
  split
  · refine .after fun _ => .after fun kind => ?_
    split
    · exact .after fun _ => .pure _
    · exact .after fun _ => .pure _
    · exact .unexpected _
  · exact .pure _

@[instance] theorem ifThenHere : Points ts g.ifThenHere :=
  .after fun _ => .after fun _ => .after fun _ => .after fun _ => .pure _

/-- The clauses of a loop behind the first. -/
@[instance] theorem loopClauses (first : Option Simple) : Points ts (g.loopClauses first) := by
  refine .after fun init => .bind (.after fun semicolon => ?_) fun cond =>
    .after fun _ => .after fun _ => .after fun _ => .pure _
  split
  · exact .pure _
  · exact .after fun _ => .pure _

@[instance] theorem loopHeader : Points ts g.loopHeader := by
  refine .after fun s => ?_
  split
  · exact .pure _
  · refine .after fun semicolon => ?_
    split
    · exact .after fun _ => loopClauses _
    · split
      · exact .pure _
      · exact .pure _
      · exact .reject _

@[instance] theorem loop : Points ts g.loop := by
  refine .after fun _ => .after fun header => .after fun body => ?_
  split
  · exact .pure _
  · exact .pure _

/-- Clauses that are not closed point at their brace. -/
theorem clauses (phrase : Opened) {head : Parser ClauseHead} (h : Points ts head) :
    Points ts (g.clauses phrase head) := by
  refine .peek fun opening hopening => .after fun _ => .after fun comment => ?_
  refine .bind (.entries (.after fun kind => ?_) _) fun clauses =>
    .after fun _ => .after fun _ => .pure _
  split
  · exact .pure _
  · refine .after fun _ => .bind ?_ fun head =>
      .after fun _ => .after fun _ => .after fun _ => .pure _
    split
    · exact .after fun _ => h
    · exact .after fun _ => .pure _
    · exact .rejectAt hopening _
    · exact .unexpected _

omit hg in
/-- The clauses of a statement answer the place of their brace. -/
theorem isSpanIn_of_clauses (phrase : Opened) {head : Parser ClauseHead} {c c' : Cursor}
    {r : Span × List Clause × Enclosure} (hc : c.tokens ⊆ ts)
    (hrun : (g.clauses phrase head).run c = (.ok r, c')) : IsSpanIn ts r.1 := by
  rw [Grammar.clauses] at hrun
  obtain ⟨t, c₁, hpeek, hrun⟩ := bind_ok hrun
  obtain rfl := Except.ok.inj (congrArg Prod.fst hpeek)
  obtain ⟨_, c₂, -, hrun⟩ := bind_ok hrun
  obtain ⟨comment, c₃, -, hrun⟩ := bind_ok hrun
  obtain ⟨clauses, c₄, -, hrun⟩ := bind_ok hrun
  obtain ⟨braces, c₅, -, hrun⟩ := bind_ok hrun
  obtain ⟨_, c₆, -, hrun⟩ := bind_ok hrun
  obtain ⟨rfl, -⟩ := pure_ok hrun
  exact ⟨c.current, hc List.mem_cons_self, rfl⟩

/-- The statement of a switch and its tag. -/
@[instance] theorem switchHeader : Points ts g.switchHeader := by
  refine .after fun brace => ?_
  split
  · exact .pure _
  · refine .after fun first => .after fun semicolon => ?_
    split
    · exact .after fun _ => .after fun _ => .after fun _ => .after fun _ => .pure _
    · exact .after fun _ => .pure _

/-- A tag that is no expression points at the brace behind it. -/
@[instance] theorem switch : Points ts g.switch := by
  refine .after fun _ => .after fun header => ?_
  refine .bindAnswer (hg.clauses _ (.after fun _ => .pure _))
    (fun c r c' hc hrun => isSpanIn_of_clauses _ hc hrun) fun r hopening => ?_
  dsimp only
  split
  · exact .pure _
  · split
    · exact .pure _
    · split
      · exact .pure _
      · exact .rejectAt hopening _

@[instance] theorem select : Points ts g.select :=
  .after fun _ => .bind (hg.clauses _ (.after fun _ => .after fun _ => .pure _)) fun _ => .pure _

omit hg in
@[instance] theorem branch (kind : BranchKind) : Points ts (branch kind) := by
  refine .after fun _ => .bind (.after fun kind => ?_) fun label => .pure _
  split
  · exact .after fun _ => .pure _
  · exact .pure _

/-- The forms of statements, told apart by their first token. -/
@[instance] theorem stmtHere : Points ts g.stmtHere := by
  refine .after fun kind => ?_
  split
  iterate 3 exact .after fun _ => .pure _
  · refine .after fun _ => .after fun kind => ?_
    split
    · exact .pure _
    · exact .pure _
    · exact .after fun _ => .pure _
  iterate 3 exact branch _
  · exact .after fun _ => .pure _
  · exact .after fun _ => .pure _
  · exact .after fun _ => .pure _
  · exact loop
  · exact switch
  · exact select
  · exact .after fun _ => .after fun _ => .pure _
  · exact .after fun _ => .after fun _ => .pure _
  · refine .after fun s => ?_
    split
    · exact .pure _
    · exact .reject _

/-! ## Files -/

/-- A function or method, with its body or without. -/
@[instance] theorem funcDecl : Points ts g.funcDecl := by
  refine .after fun _ => .bind (.after fun paren => ?_) fun recv => .after fun name =>
    .after fun signature => .bind (.after fun brace => ?_) fun body => .pure _
  · split
    · exact .after fun _ => .pure _
    · exact .pure _
  · split
    · exact .after fun _ => .pure _
    · exact .pure _

@[instance] theorem declKind : Points ts g.declKind := by
  refine .after fun kind => ?_
  split
  · exact .after fun _ => .pure _
  iterate 4 exact .after fun _ => .pure _
  · exact .unexpected _

@[instance] theorem decls : Points ts g.decls := by
  have declEnd (kind : DeclKind) (decs : Decorations) : Points ts (declEnd kind decs) :=
    .after fun _ => .pure _
  refine .entries (.after fun kind => ?_) _
  split
  · exact .pure _
  · split
    · exact .after fun _ => .pure _
    · refine .after fun _ => .after fun kind => .after fun eof => ?_
      split
      · exact .after fun _ => declEnd _ _
      · exact declEnd _ _

/-- A whole file points at the text. -/
@[instance] theorem sourceFile : Points ts g.sourceFile :=
  .after fun _ => .after fun _ => .after fun _ => .after fun _ => .after fun _ => .after fun _ =>
    .after fun _ => .pure _

end Grammar.Pointing

namespace Grammar

/-- The bottom rejects at the current token. -/
theorem bottom_pointing (ts : List Token) (budget : Nat) : (bottom budget).Pointing ts where
  binary _ := .reject _
  unary := .reject _
  elementValue := .reject _
  type := .reject _
  block := .reject _
  stmt := .reject _
  ifThen := .reject _

/-- A level built from one that points at the text does so too. -/
theorem Pointing.next {g : Grammar} (hg : g.Pointing ts) : g.next.Pointing ts where
  binary := hg.binaryFrom
  unary := hg.nestedUnary
  elementValue := hg.elementValueHere
  type := hg.nestedType
  block := hg.nestedBlock
  stmt := hg.stmtHere
  ifThen := hg.ifThenHere

/-- Every level of the grammar points at the text. -/
@[instance] theorem level_pointing (ts : List Token) (budget n : Nat) : (level budget n).Pointing ts := by
  induction n with
  | zero => exact bottom_pointing ts budget
  | succ n ih => exact ih.next

end Grammar

end HandlerSplit.Parse
