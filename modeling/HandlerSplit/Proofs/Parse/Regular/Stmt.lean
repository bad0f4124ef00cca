import HandlerSplit.Proofs.Parse.Regular.Expr
import HandlerSplit.Proofs.Parse.Words.Stmt
/-!
# Statements are read regular

A header reads no labels and no declarations, so its statements are simple and have no layout. A
declaration inside a function starts with another word than `import`. With the statements every
level of the grammar answers regular trees.
-/

namespace HandlerSplit.Parse

/-! ## The parts of phrases -/

/-- A range clause of regular expressions; it has no second variable without a first. -/
def rangeRegular (key value : Option Expr) (x : Expr) : Prop :=
  (value.isSome = true → key.isSome = true) ∧ optExprRegular key ∧ optExprRegular value ∧ x.Regular

/-- A simple statement that is regular. -/
def Simple.Regular : Simple → Prop
  | .plain kind => StmtKind.Present kind
  | .range key value _ x => rangeRegular key value x

/-- A simple statement that may stand in a header, or a range clause. -/
def Simple.InHeader (s : Simple) : Prop :=
  s.Regular ∧ ∀ kind, s = .plain kind → kind.isSimple = true

/-- The header of a loop, if it is regular. -/
def LoopHeader.Regular : LoopHeader → Prop
  | .clauses init cond post => headerRegular init ∧ optExprRegular cond ∧ headerRegular post
  | .range key value _ x => rangeRegular key value x

/-- The statement of a header is simple and has no comments of its own. -/
theorem Simple.toStmt_regular {s : Simple} (h : s.InHeader) :
    Answers Stmt.HeaderRegular s.toStmt := by
  cases s with
  | plain kind => exact .pure ⟨⟨h.2 kind rfl, rfl⟩, h.1.2⟩
  | range => exact .reject _

namespace Grammar.Regular

variable {g : Grammar} (hg : g.Regular)

include hg

/-! ## Declarations -/

omit hg in
/-- An import is a regular entry of an import declaration. -/
theorem importSpec : Answers (Spec.Regular .import ⟨·, .plain⟩) importSpec := by
  refine .after fun name => .after fun kind => ?_
  split
  · exact .after fun _ => .pure ⟨rfl, trivial⟩
  · exact .unexpected _

/-- Names with a type or values, in a declaration of constants or variables. -/
theorem valueSpec {keyword : GenKeyword} (hkeyword : keyword = .const ∨ keyword = .var) :
    Answers (Spec.Regular keyword ⟨·, .plain⟩) g.valueSpec := by
  have hfits (ns : List String) (t : Option Expr) (vs : List Expr) :
      (SpecKind.value ns t vs).fits keyword = true := by
    rcases hkeyword with rfl | rfl <;> rfl
  refine .bind idents fun names hnames => .bind (P := optExprRegular) (.after fun kind => ?_)
    fun t ht => .after fun assign => ?_
  · split
    iterate 4 exact .pure trivial
    · exact .bind hg.nestedType fun x hx => .pure hx
  · split
    · exact .after fun _ => .bind hg.exprs fun vs hvs =>
        .pure ⟨hfits _ _ _, ht, hvs.1, hnames⟩
    · exact .pure ⟨hfits _ _ _, ht, trivial, hnames⟩

/-- A type is a regular entry of a type declaration. -/
theorem typeSpec : Answers (Spec.Regular .type ⟨·, .plain⟩) g.typeSpec := by
  refine .after fun name => .after fun aliased => ?_
  split
  · exact .after fun _ => .bind hg.nestedType fun x hx => .pure ⟨rfl, hx⟩
  · exact .bind hg.nestedType fun x hx => .pure ⟨rfl, hx⟩

/-- An entry is regular in a declaration with the keyword it was read for. -/
theorem spec (keyword : GenKeyword) :
    Answers (Spec.Regular keyword ⟨·, .plain⟩) (g.spec keyword) := by
  cases keyword with
  | «import» => exact importSpec
  | const => exact hg.valueSpec (.inl rfl)
  | var => exact hg.valueSpec (.inr rfl)
  | type => exact hg.typeSpec

/-- The entries of a group all belong under its keyword. -/
theorem specGroup (keyword : GenKeyword) :
    Answers (fun r => specsRegular keyword r.1) (g.specGroup keyword) := by
  refine .after fun t => .after fun _ => .after fun comment => ?_
  refine .bind (P := fun ss => ∀ s ∈ ss, s.Regular keyword) (.entries (.after fun kind => ?_) _)
    fun specs hspecs => .after fun b => .after fun _ => .pure (specsRegular_iff.mpr hspecs)
  split
  · exact .pure trivial
  · exact .rejectAt _ _
  · exact .after fun _ => .pure trivial
  · refine .after fun d => .bind (hg.spec keyword) fun kind hkind => ?_
    exact .after fun _ => .after fun trailing => .pure hkind

/-- A declaration without parentheses has one entry. -/
theorem genDecl : Answers GenDecl.Regular g.genDecl := by
  refine .after fun kind => ?_
  split
  · exact .unexpected _
  · rename_i keyword _
    refine .after fun _ => .after fun group => ?_
    split
    · exact .bind (hg.specGroup keyword) fun r hr => .pure ⟨nofun, hr⟩
    · exact .bind (hg.spec keyword) fun kind hkind => .pure ⟨fun _ => rfl, hkind, trivial⟩

omit hg in
/-- A declaration has the keyword that stands before it. -/
theorem genDecl_keyword {c c' : Cursor} {d : GenDecl} (hrun : g.genDecl.run c = (.ok d, c')) :
    genKeyword? c.current.kind = some d.keyword := by
  rw [Grammar.genDecl, peekKind_bind_run] at hrun
  split at hrun
  · obtain ⟨kind, c₁, -, hrun⟩ := bind_ok hrun
    split at hrun <;> cases hrun
  · rename_i keyword hkeyword
    rw [hkeyword]
    obtain ⟨_, c₁, -, hrun⟩ := bind_ok hrun
    obtain ⟨group, c₂, -, hrun⟩ := bind_ok hrun
    split at hrun
    · obtain ⟨r, c₃, -, hrun⟩ := bind_ok hrun
      obtain ⟨rfl, -⟩ := pure_ok hrun
      rfl
    · obtain ⟨kind, c₃, -, hrun⟩ := bind_ok hrun
      obtain ⟨rfl, -⟩ := pure_ok hrun
      rfl

/-! ## Simple statements -/

/-- What a label stands before may be the empty statement. -/
theorem labeled (label : String) :
    Answers StmtKind.Present (g.labeled label) := by
  have hnone : (StmtKind.labeled label (.plain .empty)).Regular := ⟨⟨rfl, fun _ => rfl⟩, trivial⟩
  refine .after fun kind => ?_
  split
  · exact .pure ⟨rfl, hnone⟩
  · exact .pure ⟨rfl, hnone⟩
  · intro c kind c' hrun
    obtain ⟨d, c₁, hdecs, hrun⟩ := bind_ok hrun
    obtain ⟨inner, c₂, hstmt, hrun⟩ := bind_ok hrun
    obtain ⟨rfl, -⟩ := pure_ok hrun
    obtain ⟨hempty, hinner⟩ := hg.stmt _ _ _ hstmt
    have htrailing : d.trailing = none := by
      cases hdecs
      rfl
    exact ⟨rfl, ⟨htrailing, fun h => by rw [hempty] at h; cases h⟩, hinner⟩

/-- An assignment has a left side, and may stand in a header. -/
theorem assignment (rangeOk : Bool) {lhs : List Expr} (hlhs : exprsRegular lhs) (op : AssignOp) :
    Answers Simple.InHeader (g.assignment rangeOk lhs op) := by
  have hplain : Answers Simple.InHeader (do return .plain (.assign lhs op (← g.exprs))) := by
    refine .bind hg.exprs fun xs hxs => .pure ⟨⟨rfl, hlhs, hxs⟩, fun kind h => ?_⟩
    cases h
    rfl
  refine .after fun _ => .after fun range => ?_
  split
  · split
    · exact .reject _
    · refine .after fun _ => .bind hg.expr fun x hx => .pure ⟨⟨?_, ?_, ?_, hx⟩, nofun⟩
      · rcases lhs with _ | ⟨y, ys⟩
        · exact nofun
        · exact fun _ => rfl
      · exact optExprRegular_iff.mpr fun y hy =>
          exprsRegular_iff.mp hlhs y (List.mem_of_getElem? hy)
      · exact optExprRegular_iff.mpr fun y hy =>
          exprsRegular_iff.mp hlhs y (List.mem_of_getElem? hy)
  · exact hplain

/-- What a single expression begins may stand in a header. -/
theorem exprStmt {x : Expr} (hx : x.Regular) : Answers Simple.InHeader (g.exprStmt x) := by
  have simple {kind : StmtKind} (hsimple : kind.isSimple = true) (hempty : kind.isEmpty = false)
      (hkind : kind.Regular) : Simple.InHeader (.plain kind) :=
    ⟨⟨hempty, hkind⟩, fun _ h => by cases h; exact hsimple⟩
  refine .after fun kind => ?_
  split
  · exact .after fun _ => .bind hg.expr fun y hy => .pure (simple rfl rfl ⟨hx, hy⟩)
  · exact .after fun _ => .pure (simple rfl rfl hx)
  · exact .after fun _ => .pure (simple rfl rfl hx)
  · exact .pure (simple rfl rfl hx)

/-- A simple statement is regular, and without labels it may stand in a header. -/
theorem simple (rangeOk labelOk : Bool) :
    Answers (fun s => s.Regular ∧ (labelOk = false → s.InHeader)) (g.simple rangeOk labelOk) := by
  have header {p : Parser Simple} (h : Answers Simple.InHeader p) :
      Answers (fun s => s.Regular ∧ (labelOk = false → s.InHeader)) p :=
    h.weaken fun s hs => ⟨hs.1, fun _ => hs⟩
  have rest : Answers (fun s => s.Regular ∧ (labelOk = false → s.InHeader))
      (g.exprsStmt rangeOk labelOk) := by
    refine .bind hg.exprs fun lhs hlhs => .after fun kind => ?_
    split
    · exact header (hg.assignment rangeOk hlhs.1 _)
    · rename_i x _
      obtain ⟨⟨hx, -⟩, -⟩ := hlhs
      refine .after fun colon => ?_
      split
      · rename_i hlabel
        obtain ⟨rfl, -⟩ := Bool.and_eq_true_iff.mp hlabel
        cases x with
        | ident label =>
          exact .after fun _ => .bind (hg.labeled label) fun kind hkind => .pure ⟨hkind, nofun⟩
        | _ => exact .reject _
      · exact header (hg.exprStmt hx)
    · exact .unexpected _
  refine .after fun range => ?_
  split
  · refine .after fun _ => .bind hg.expr fun x hx => .pure ?_
    have hrange : Simple.Regular (.range none none false x) := ⟨nofun, trivial, trivial, hx⟩
    exact ⟨hrange, fun _ => ⟨hrange, nofun⟩⟩
  · exact rest

/-- A header reads no labels and no declarations. -/
theorem headerStmt (rangeOk : Bool) :
    Answers (fun s => ∀ t ∈ s, Simple.InHeader t) (g.headerStmt rangeOk) := by
  refine .after fun kind => ?_
  split
  · exact .pure nofun
  · exact .pure nofun
  · refine .bind (hg.simple rangeOk false) fun s hs => .pure fun t ht => ?_
    cases ht
    exact hs.2 rfl

omit hg in
theorem clauseStmt {s : Option Simple} (hs : ∀ t ∈ s, Simple.InHeader t) :
    Answers headerRegular (clauseStmt s) := by
  cases s with
  | none => exact .pure trivial
  | some s => exact .bind (Simple.toStmt_regular (hs s rfl)) fun t ht => .pure ht

/-! ## Blocks -/

/-- No statement of a list is empty. -/
theorem stmts : Answers stmtsRegular g.stmts := by
  refine Answers.weaken (.entries (P := Stmt.Regular) (.after fun kind => ?_) _)
    fun ss => stmtsRegular_iff.mpr
  split
  · exact .pure trivial
  · split
    · exact .after fun _ => .pure trivial
    · refine .after fun d => .bind hg.stmt fun kind hkind => .after fun next => ?_
      have hend : Answers (Turn.All Stmt.Regular) (stmtEnd kind d) :=
        .after fun trailing => .pure hkind
      split
      · exact hend
      · exact hend
      · exact hend
      · exact .after fun _ => hend

theorem blockInner : Answers Block.Regular g.blockInner := by
  refine .after fun t => .after fun _ => .after fun comment => .bind hg.stmts fun ss hss => ?_
  refine .after fun kind => ?_
  split
  · exact .after fun t => .after fun b => .after fun _ => .pure hss
  · exact .rejectAt _ _
  · exact .unexpected _

theorem nestedBlock : Answers Block.Regular g.nestedBlock :=
  .nested hg.blockInner

/-! ## Control statements -/

/-- The statement of a header is regular there, and so is the condition. -/
theorem ifHeader :
    Answers (fun r : Option Stmt × Expr => headerRegular r.1 ∧ r.2.Regular) g.ifHeader := by
  refine .after fun brace => ?_
  split
  · exact .reject _
  · refine .bind (hg.headerStmt false) fun first hfirst => .after fun semicolon => ?_
    split
    · refine .after fun _ => .bind (clauseStmt hfirst) fun init hinit => ?_
      exact .bind hg.expr fun x hx => .pure ⟨hinit, hx⟩
    · split
      · rename_i cond
        exact .pure ⟨trivial, (hfirst _ rfl).1.2⟩
      · exact .reject _

theorem otherwise : Answers Else.Regular g.otherwise := by
  refine .after fun word => ?_
  split
  · refine .after fun _ => .after fun kind => ?_
    split
    · exact .bind hg.ifThen fun r hr => .pure hr
    · exact .bind hg.nestedBlock fun b hb => .pure hb
    · exact .unexpected _
  · exact .pure trivial

theorem ifThenHere : Answers ifRegular g.ifThenHere := by
  refine .after fun _ => .bind (.inHeader hg.ifHeader) fun r hr => ?_
  exact .bind hg.nestedBlock fun b hb => .bind hg.otherwise fun e he => .pure ⟨hr.1, hr.2, hb, he⟩

/-- The clauses of a loop are regular in a header. -/
theorem loopClauses {first : Option Simple} (hfirst : ∀ t ∈ first, Simple.InHeader t) :
    Answers LoopHeader.Regular (g.loopClauses first) := by
  refine .bind (clauseStmt hfirst) fun init hinit => ?_
  refine .bind (P := optExprRegular) (.after fun semicolon => ?_) fun cond hcond =>
    .after fun _ => .bind (hg.headerStmt false) fun s hs => .bind (clauseStmt hs) fun post hpost =>
      .pure ⟨hinit, hcond, hpost⟩
  split
  · exact .pure trivial
  · exact .bind hg.expr fun x hx => .pure hx

theorem loopHeader : Answers LoopHeader.Regular g.loopHeader := by
  refine .bind (hg.headerStmt true) fun s hs => ?_
  split
  · exact .pure (hs _ rfl).1
  · refine .after fun semicolon => ?_
    split
    · exact .after fun _ => hg.loopClauses hs
    · split
      · exact .pure ⟨trivial, trivial, trivial⟩
      · exact .pure ⟨trivial, (hs _ rfl).1.2, trivial⟩
      · exact .reject _

theorem loop : Answers StmtKind.Present g.loop := by
  refine .after fun _ => .bind (.inHeader hg.loopHeader) fun header hheader => ?_
  refine .bind hg.nestedBlock fun b hb => ?_
  cases header with
  | clauses init cond post =>
    obtain ⟨hinit, hcond, hpost⟩ := hheader
    exact .pure ⟨rfl, hinit, hcond, hpost, hb⟩
  | range key value define x =>
    obtain ⟨hvars, hkey, hvalue, hx⟩ := hheader
    exact .pure ⟨rfl, hvars, hkey, hvalue, hx, hb⟩

/-- Regular clauses from regular heads. -/
theorem clauses (phrase : Opened) {head : Parser ClauseHead}
    (h : Answers ClauseHead.Regular head) :
    Answers (fun r : Span × List Clause × Enclosure => clausesRegular r.2.1)
      (g.clauses phrase head) := by
  refine .after fun t => .after fun _ => .after fun comment => ?_
  refine .bind (P := fun cs => ∀ c ∈ cs, c.Regular) (.entries (.after fun kind => ?_) _)
    fun cs hcs => .after fun b => .after fun _ => .pure (clausesRegular_iff.mpr hcs)
  split
  · exact .pure trivial
  · refine .after fun d => .bind (P := ClauseHead.Regular) ?_ fun head hhead =>
      .after fun _ => .after fun trailing => .bind hg.stmts fun ss hss => .pure ⟨hhead, hss⟩
    split
    · exact .after fun _ => h
    · exact .after fun _ => .pure trivial
    · exact .rejectAt _ _
    · exact .unexpected _

/-- The statement of a switch and its tag are regular in a header. -/
theorem switchHeader :
    Answers (fun r : Option Stmt × Option Stmt => headerRegular r.1 ∧ headerRegular r.2)
      g.switchHeader := by
  refine .after fun brace => ?_
  split
  · exact .pure ⟨trivial, trivial⟩
  · refine .bind (hg.headerStmt false) fun first hfirst => .after fun semicolon => ?_
    split
    · refine .after fun _ => .bind (clauseStmt hfirst) fun init hinit => ?_
      refine .bind (hg.headerStmt false) fun s hs => .bind (clauseStmt hs) fun tag htag => ?_
      exact .pure ⟨hinit, htag⟩
    · exact .bind (clauseStmt hfirst) fun tag htag => .pure ⟨trivial, htag⟩

theorem switch : Answers StmtKind.Present g.switch := by
  refine .after fun _ => .bind (.inHeader hg.switchHeader) fun r hr => ?_
  obtain ⟨init, tag⟩ := r
  obtain ⟨hinit, htag⟩ := hr
  refine .bind (hg.clauses _ (.bind hg.exprs fun xs hxs => .pure hxs.1)) fun r hcs => ?_
  cases tag with
  | none => exact .pure ⟨rfl, hinit, trivial, hcs⟩
  | some guard =>
    obtain ⟨kind, d⟩ := guard
    dsimp only
    split
    · exact .pure ⟨rfl, hinit, htag, hcs⟩
    · cases kind with
      | expr x => exact .pure ⟨rfl, hinit, htag.2, hcs⟩
      | _ => exact .rejectAt _ _

theorem select : Answers StmtKind.Present g.select := by
  refine .after fun _ => .bind (hg.clauses _ ?_) fun r hcs => .pure ⟨rfl, hcs⟩
  refine .bind (hg.simple false false) fun s hs => ?_
  exact .bind (Simple.toStmt_regular (hs.2 rfl)) fun t ht => .pure ht

/-- A statement that is read is not empty. -/
theorem stmtHere : Answers StmtKind.Present g.stmtHere := by
  intro c kind c' hrun
  have of {p : Parser StmtKind} (hrun : p.run c = (.ok kind, c')) (h : Answers StmtKind.Present p) :
      StmtKind.Present kind :=
    h c kind c' hrun
  have decl (hkind : c.current.kind ≠ .keyword .import)
      (hrun : (do return .decl (← g.genDecl) : Parser StmtKind).run c = (.ok kind, c')) :
      StmtKind.Present kind := by
    obtain ⟨d, c₁, hd, hrun⟩ := bind_ok hrun
    obtain ⟨rfl, -⟩ := pure_ok hrun
    refine ⟨rfl, fun himport => hkind ?_, hg.genDecl _ _ _ hd⟩
    have hkeyword := genDecl_keyword hd
    rw [himport] at hkeyword
    exact kind_of_genKeyword hkeyword
  rw [Grammar.stmtHere, peekKind_bind_run] at hrun
  split at hrun
  iterate 3
    · rename_i hkind
      exact decl (by rw [hkind]; exact nofun) hrun
  · refine of hrun (.after fun _ => .after fun kind => ?_)
    split
    · exact .pure ⟨rfl, trivial⟩
    · exact .pure ⟨rfl, trivial⟩
    · exact .bind hg.exprs fun xs hxs => .pure ⟨rfl, hxs.1⟩
  iterate 3 exact of hrun (.after fun _ => .after fun label => .pure ⟨rfl, trivial⟩)
  · exact of hrun (.after fun _ => .pure ⟨rfl, trivial⟩)
  · exact of hrun (.bind hg.nestedBlock fun b hb => .pure ⟨rfl, hb⟩)
  · exact of hrun (.bind hg.ifThenHere fun r hr => .pure ⟨rfl, hr⟩)
  · exact of hrun hg.loop
  · exact of hrun hg.switch
  · exact of hrun hg.select
  · exact of hrun (.after fun _ => .bind hg.expr fun x hx => .pure ⟨rfl, hx⟩)
  · exact of hrun (.after fun _ => .bind hg.expr fun x hx => .pure ⟨rfl, hx⟩)
  · refine of hrun (.bind (hg.simple false true) fun s hs => ?_)
    cases s with
    | plain kind => exact .pure hs.1
    | range => exact .reject _

end Grammar.Regular

/-! ## The levels -/

namespace Grammar

/-- The bottom answers nothing. -/
theorem bottom_regular (budget : Nat) : (bottom budget).Regular where
  binary _ := .reject _
  unary := .reject _
  elementValue := .reject _
  type := .reject _
  block := .reject _
  stmt := .reject _
  ifThen := .reject _

/-- A level built from one that answers regular trees does so too. -/
theorem Regular.next {g : Grammar} (hg : g.Regular) : g.next.Regular where
  binary := hg.binaryFrom
  unary := hg.nestedUnary
  elementValue := hg.elementValueHere
  type := hg.nestedType
  block := hg.nestedBlock
  stmt := hg.stmtHere
  ifThen := hg.ifThenHere

/-- Every level of the grammar answers regular trees. -/
theorem level_regular (budget n : Nat) : (level budget n).Regular := by
  induction n with
  | zero => exact bottom_regular budget
  | succ n ih => exact ih.next

end Grammar

end HandlerSplit.Parse
