import HandlerSplit.Proofs.Parse.Nesting.Expr
/-!
# The nesting of what statements hold

A block takes a level, so that there is one level less of room for what its statements hold than
around it, and a statement may be one level of nesting itself. The statement of a header holds an
expression, and so takes no more than the room there is. The clauses of a switch or select statement
and the statement behind a label are read at the level of the statement they belong to: there is
room for them as for the statement itself, which therefore may not count.
-/

namespace HandlerSplit.Parse

open Event (Under Deepens)

/-! ## The parts of phrases -/

/-- A simple statement without labels, or a range clause. -/
def Simple.Shallow (k : Nat) : Simple → Prop
  | .plain kind => Under k kind.inside
  | .range key value _ x => Event.Shallow k (optExprEvents key) ∧
      Event.Shallow k (optExprEvents value) ∧ Event.Shallow k x.inside

/-- A simple statement that may have a label. -/
def Simple.Fits (k : Nat) : Simple → Prop
  | .plain kind => kind.Fits k
  | .range _ _ _ _ => True

/-- The header of a loop. -/
def LoopHeader.Shallow (k : Nat) : LoopHeader → Prop
  | .clauses init cond post => Event.Shallow k (optStmtEvents init) ∧
      Event.Shallow k (optExprEvents cond) ∧ Event.Shallow k (optStmtEvents post)
  | .range key value _ x => Event.Shallow k (optExprEvents key) ∧
      Event.Shallow k (optExprEvents value) ∧ Event.Shallow k x.inside

/-- The statement of a header clause, if there is one. -/
def HeaderUnder (k : Nat) (o : Option Stmt) : Prop :=
  ∀ s ∈ o, Under k s.kind.inside

/-- The statement of a header takes no more than the room there is. -/
theorem HeaderUnder.shallow {k : Nat} {o : Option Stmt} (h : HeaderUnder k o) :
    Event.Shallow k (optStmtEvents o) := by
  cases o with
  | none => exact Deepens.nil
  | some s =>
    obtain ⟨kind, d⟩ := s
    exact (h _ rfl).aroundStmt _

namespace Grammar.Shallow

variable {g : Grammar} (hg : g.Shallow) (x : Context)

include hg

/-! ## Declarations -/

omit hg in
/-- An import holds no statements. -/
theorem importSpec : AnswersIn x (fun k => Event.Shallow x.room k.events) Grammar.importSpec := by
  refine .after fun name => .after fun kind => ?_
  split
  · exact .after fun _ => .pure Deepens.nil
  · exact .unexpected _

/-- The values of a declaration may hold statements, in function literals. -/
theorem valueSpec : AnswersIn x (fun k => Event.Shallow x.room k.events) g.valueSpec := by
  refine .after fun names => .bind (P := fun t => Event.Shallow x.room (optExprEvents t))
    (.after fun kind => ?_) fun t ht => .after fun assign => ?_
  · split
    iterate 4 exact .pure Deepens.nil
    · exact .bind (hg.nestedType x) fun t ht => .pure (ht.aroundExpr t).shallow
  · have hnames := (Deepens.names names).append ht
    split
    · exact .after fun _ => .bind (hg.exprs x) fun vs hvs => .pure (hnames.append hvs.1.shallow)
    · exact .pure (hnames.append Deepens.nil)

theorem typeSpec : AnswersIn x (fun k => Event.Shallow x.room k.events) g.typeSpec := by
  refine .after fun name => .after fun aliased => ?_
  have named : AnswersIn x (fun k => Event.Shallow x.room k.events)
      (do return SpecKind.type name aliased (← g.nestedType)) :=
    .bind (hg.nestedType x) fun t ht => .pure ((ht.aroundExpr t).shallow.cons_name name)
  split
  · exact .after fun _ => named
  · exact named

theorem spec (keyword : GenKeyword) :
    AnswersIn x (fun k => Event.Shallow x.room k.events) (g.spec keyword) := by
  cases keyword with
  | «import» => exact importSpec x
  | const => exact hg.valueSpec x
  | var => exact hg.valueSpec x
  | type => exact hg.typeSpec x

/-- The entries of a group stand at the level of their declaration. -/
theorem specGroup (keyword : GenKeyword) :
    AnswersIn x (fun r => Event.Shallow x.room (specEvents r.1)) (g.specGroup keyword) := by
  refine .after fun t => .after fun _ => .after fun comment => ?_
  refine .bind (P := fun ss => ∀ s ∈ ss, Event.Shallow x.room s.kind.events)
    (.entries (.after fun kind => ?_) _) fun specs hspecs => .after fun b => .after fun _ =>
      .pure (Deepens.specs hspecs)
  split
  · exact .pure trivial
  · exact .rejectAt _ _
  · exact .after fun _ => .pure trivial
  · refine .after fun d => .bind (hg.spec x keyword) fun kind hkind => ?_
    exact .after fun _ => .after fun trailing => .pure hkind

theorem genDecl : AnswersIn x (fun d => Event.Shallow x.room d.events) g.genDecl := by
  refine .after fun kind => ?_
  split
  · exact .unexpected _
  · rename_i keyword _
    refine .after fun _ => .after fun group => ?_
    split
    · exact .bind (hg.specGroup x keyword) fun r hr => .pure hr
    · refine .bind (hg.spec x keyword) fun kind hkind => .pure ?_
      exact Deepens.specs (List.forall_mem_singleton.mpr hkind)

/-! ## Simple statements -/

/-- What a label stands before is read at its own level, and the label may not count. -/
theorem labeled (label : String) : AnswersIn x (StmtKind.Fits x.room) (g.labeled label) := by
  have behind {s : Stmt} (hs : Event.Shallow (x.room + 1) s.events) :
      (StmtKind.labeled label s).Fits x.room :=
    StmtKind.fits_of_isLoose (hs.cons_name label) rfl
  have hempty : (StmtKind.labeled label (.plain .empty)).Fits x.room :=
    behind ((StmtKind.fits_of_shallow Deepens.nil : StmtKind.empty.Fits x.room) _)
  refine .after fun kind => ?_
  split
  · exact .pure hempty
  · exact .pure hempty
  · exact .after fun d => .bind (hg.stmt x) fun kind hkind => .pure (behind (hkind d))

/-- Both sides of an assignment stand at its level. -/
theorem assignment (rangeOk : Bool) {lhs : List Expr} (hlhs : Under x.room (exprEvents lhs))
    (hvars : ∀ e ∈ lhs, Under x.room e.inside) (op : AssignOp) :
    AnswersIn x (Simple.Shallow x.room) (g.assignment rangeOk lhs op) := by
  have hplain : AnswersIn x (Simple.Shallow x.room)
      (do return .plain (.assign lhs op (← g.exprs))) :=
    .bind (hg.exprs x) fun rhs hrhs => .pure (hlhs.append hrhs.1)
  have hvar (i : Nat) : Event.Shallow x.room (optExprEvents lhs[i]?) :=
    Deepens.optExpr fun e he => (hvars e (List.mem_of_getElem? he)).shallow
  refine .after fun _ => .after fun range => ?_
  split
  · split
    · exact .reject _
    · exact .after fun _ => .bind (hg.expr x) fun e he => .pure ⟨hvar 0, hvar 1, he.shallow⟩
  · exact hplain

theorem exprStmt {e : Expr} (he : Under x.room e.inside) :
    AnswersIn x (Simple.Shallow x.room) (g.exprStmt e) := by
  have hbase := he.aroundExpr e
  refine .after fun kind => ?_
  split
  · exact .after fun _ => .bind (hg.expr x) fun y hy => .pure (hbase.append (hy.aroundExpr y))
  · exact .after fun _ => .pure hbase
  · exact .after fun _ => .pure hbase
  · exact .pure hbase

/-- A simple statement fits, and without labels it is no deeper than there is room for its parts. -/
theorem simple (rangeOk labelOk : Bool) :
    AnswersIn x (fun s => s.Fits x.room ∧ (labelOk = false → s.Shallow x.room))
      (g.simple rangeOk labelOk) := by
  have unlabeled {p : Parser Simple} (h : AnswersIn x (Simple.Shallow x.room) p) :
      AnswersIn x (fun s => s.Fits x.room ∧ (labelOk = false → s.Shallow x.room)) p := by
    refine h.weaken fun s hs => ⟨?_, fun _ => hs⟩
    cases s with
    | plain kind => exact StmtKind.fits_of_shallow (Under.shallow hs)
    | range => trivial
  have rest : AnswersIn x (fun s => s.Fits x.room ∧ (labelOk = false → s.Shallow x.room))
      (g.exprsStmt rangeOk labelOk) := by
    refine .bind (hg.exprs x) fun lhs hlhs => .after fun kind => ?_
    split
    · exact unlabeled (hg.assignment x rangeOk hlhs.1 hlhs.2 _)
    · rename_i e _
      have he := hlhs.2 e (List.mem_singleton_self e)
      refine .after fun colon => ?_
      split
      · rename_i hlabel
        obtain ⟨rfl, -⟩ := Bool.and_eq_true_iff.mp hlabel
        cases e with
        | ident label =>
          exact .after fun _ => .bind (hg.labeled x label) fun kind hkind => .pure ⟨hkind, nofun⟩
        | _ => exact .reject _
      · exact unlabeled (hg.exprStmt x he)
    · exact .unexpected _
  refine .after fun range => ?_
  split
  · refine .after fun _ => .bind (hg.expr x) fun e he => .pure ⟨trivial, fun _ => ?_⟩
    exact ⟨Deepens.nil, Deepens.nil, he.shallow⟩
  · exact rest

/-- A statement of a header holds expressions of its level. -/
theorem headerStmt (rangeOk : Bool) :
    AnswersIn x (fun s => ∀ t ∈ s, Simple.Shallow x.room t) (g.headerStmt rangeOk) := by
  refine .after fun kind => ?_
  split
  · exact .pure nofun
  · exact .pure nofun
  · refine .bind (hg.simple x rangeOk false) fun s hs => .pure ?_
    rintro _ ⟨⟩
    exact hs.2 rfl

omit hg in
/-- What has been read in a header keeps its level as a statement. -/
theorem toStmt {s : Simple} (hs : s.Shallow x.room) :
    AnswersIn x (fun t => Under x.room t.kind.inside) s.toStmt := by
  cases s with
  | plain kind => exact .pure hs
  | range => exact .reject _

omit hg in
theorem clauseStmt {s : Option Simple} (hs : ∀ t ∈ s, Simple.Shallow x.room t) :
    AnswersIn x (HeaderUnder x.room) (Grammar.clauseStmt s) := by
  cases s with
  | none => exact .pure nofun
  | some s =>
    refine .bind (toStmt x (hs s rfl)) fun t ht => .pure ?_
    rintro _ ⟨⟩
    exact ht

/-! ## Blocks -/

/-- A statement of a list may take one level more than what is inside it. -/
theorem stmts : AnswersIn x (fun ss => Event.Shallow (x.room + 1) (stmtEvents ss)) g.stmts := by
  refine AnswersIn.weaken (P := fun ss => ∀ s ∈ ss, Event.Shallow (x.room + 1) s.events)
    (.entries (.after fun kind => ?_) _) fun ss => Deepens.stmts
  split
  · exact .pure trivial
  · split
    · exact .after fun _ => .pure trivial
    · refine .after fun d => .bind (hg.stmt x) fun kind hkind => .after fun next => ?_
      have hend : AnswersIn x (Turn.All fun s => Event.Shallow (x.room + 1) s.events)
          (stmtEnd kind d) :=
        .after fun trailing => .pure (hkind _)
      split
      · exact hend
      · exact hend
      · exact hend
      · exact .after fun _ => hend

/-- A block holds its statements, each with a level of its own. -/
theorem blockInner :
    AnswersIn x (fun b => Event.Shallow (x.room + 1) b.events) g.blockInner := by
  refine .after fun t => .after fun _ => .after fun comment => .bind (hg.stmts x) fun ss hss => ?_
  refine .after fun kind => ?_
  split
  · exact .after fun t => .after fun b => .after fun _ => .pure hss
  · exact .rejectAt _ _
  · exact .unexpected _

/-- A block takes a level. -/
theorem nestedBlock : AnswersIn x (fun b => Event.Shallow x.room b.events) g.nestedBlock := by
  refine AnswersIn.weaken (.nested_room (P := fun k (b : Block) => Event.Shallow (k + 1) b.events)
    hg.blockInner) ?_
  rintro b ⟨k, hk, hb⟩
  exact hk ▸ hb

/-! ## Control statements -/

/-- The statement and the condition of a header stay within the room there is. -/
theorem ifHeader :
    AnswersIn x (fun r : Option Stmt × Expr => Event.Shallow x.room (optStmtEvents r.1) ∧
      Event.Shallow x.room r.2.events) g.ifHeader := by
  refine .after fun brace => ?_
  split
  · exact .reject _
  · refine .bind (hg.headerStmt x false) fun first hfirst => .after fun semicolon => ?_
    split
    · refine .after fun _ => .bind (clauseStmt x hfirst) fun init hinit => ?_
      exact .bind (hg.expr x) fun e he => .pure ⟨hinit.shallow, (he.aroundExpr e).shallow⟩
    · split
      · exact .pure ⟨Deepens.nil, Under.shallow (hfirst _ rfl)⟩
      · exact .reject _

/-- Behind an `else`, an `if` or a block stays within the room there is. -/
theorem otherwise : AnswersIn x (fun e => Event.Shallow x.room e.events) g.otherwise := by
  refine .after fun word => ?_
  split
  · refine .after fun _ => .after fun kind => ?_
    split
    · refine .bind (hg.ifThen x) fun r hr => .pure ?_
      exact ((hr.1.append hr.2.1).append hr.2.2.1).append hr.2.2.2
    · exact .bind (hg.nestedBlock x) fun b hb => .pure hb
    · exact .unexpected _
  · exact .pure Deepens.nil

theorem ifThenHere : AnswersIn x (ifShallow x.room) g.ifThenHere := by
  refine .after fun _ => .bind (.inHeader (hg.ifHeader _)) fun r hr => ?_
  exact .bind (hg.nestedBlock x) fun b hb => .bind (hg.otherwise x) fun e he =>
    .pure ⟨hr.1, hr.2, hb, he⟩

theorem loopClauses {first : Option Simple} (hfirst : ∀ t ∈ first, Simple.Shallow x.room t) :
    AnswersIn x (LoopHeader.Shallow x.room) (g.loopClauses first) := by
  refine .bind (clauseStmt x hfirst) fun init hinit => ?_
  refine .bind (P := fun c => Event.Shallow x.room (optExprEvents c)) (.after fun semicolon => ?_)
    fun cond hcond => .after fun _ => .bind (hg.headerStmt x false) fun s hs =>
      .bind (clauseStmt x hs) fun post hpost => .pure ⟨hinit.shallow, hcond, hpost.shallow⟩
  split
  · exact .pure Deepens.nil
  · exact .bind (hg.expr x) fun e he => .pure (he.aroundExpr e).shallow

theorem loopHeader : AnswersIn x (LoopHeader.Shallow x.room) g.loopHeader := by
  refine .bind (hg.headerStmt x true) fun s hs => ?_
  split
  · exact .pure (hs _ rfl)
  · refine .after fun semicolon => ?_
    split
    · exact .after fun _ => hg.loopClauses x hs
    · split
      · exact .pure ⟨Deepens.nil, Deepens.nil, Deepens.nil⟩
      · exact .pure ⟨Deepens.nil, Under.shallow (hs _ rfl), Deepens.nil⟩
      · exact .reject _

theorem loop : AnswersIn x (StmtKind.Fits x.room) g.loop := by
  refine .after fun _ => .bind (.inHeader (hg.loopHeader _)) fun header hheader => ?_
  refine .bind (hg.nestedBlock x) fun b hb => ?_
  cases header with
  | clauses init cond post =>
    obtain ⟨hinit, hcond, hpost⟩ := hheader
    exact .pure (StmtKind.fits_of_shallow (((hinit.append hcond).append hpost).append hb))
  | range key value define e =>
    obtain ⟨hkey, hvalue, he⟩ := hheader
    exact .pure (StmtKind.fits_of_shallow
      (((hkey.append hvalue).append (he.aroundExpr e)).append hb))

/-- The clauses of a switch stand at the level of its own statements. -/
theorem clauses (phrase : Opened) {head : Parser ClauseHead}
    (h : AnswersIn x (fun r => Event.Shallow (x.room + 1) r.events) head) :
    AnswersIn x (fun r : Span × List Clause × Enclosure =>
      Event.Shallow (x.room + 1) (clauseEvents r.2.1)) (g.clauses phrase head) := by
  refine .after fun t => .after fun _ => .after fun comment => ?_
  refine .bind (P := fun cs : List Clause => ∀ c ∈ cs, Event.Shallow (x.room + 1) c.head.events ∧
      Event.Shallow (x.room + 1) (stmtEvents c.body))
    (.entries (.after fun kind => ?_) _) fun cs hcs => .after fun b => .after fun _ =>
      .pure (Deepens.clauses hcs)
  split
  · exact .pure trivial
  · refine .after fun d => .bind (P := fun r => Event.Shallow (x.room + 1) r.events) ?_
      fun head hhead => .after fun _ => .after fun trailing => .bind (hg.stmts x) fun ss hss =>
        .pure ⟨hhead, hss⟩
    split
    · exact .after fun _ => h
    · exact .after fun _ => .pure Deepens.nil
    · exact .rejectAt _ _
    · exact .unexpected _

theorem switchHeader :
    AnswersIn x (fun r : Option Stmt × Option Stmt => HeaderUnder x.room r.1 ∧
      HeaderUnder x.room r.2) g.switchHeader := by
  refine .after fun brace => ?_
  split
  · exact .pure ⟨nofun, nofun⟩
  · refine .bind (hg.headerStmt x false) fun first hfirst => .after fun semicolon => ?_
    split
    · refine .after fun _ => .bind (clauseStmt x hfirst) fun init hinit => ?_
      refine .bind (hg.headerStmt x false) fun s hs => .bind (clauseStmt x hs) fun tag htag => ?_
      exact .pure ⟨hinit, htag⟩
    · exact .bind (clauseStmt x hfirst) fun tag htag => .pure ⟨nofun, htag⟩

theorem switch : AnswersIn x (StmtKind.Fits x.room) g.switch := by
  refine .after fun _ => .bind (.inHeader (hg.switchHeader _)) fun r hr => ?_
  obtain ⟨init, tag⟩ := r
  obtain ⟨hinit, htag⟩ := hr
  have hstart : Event.Shallow (x.room + 1) (optStmtEvents init) :=
    hinit.shallow.mono (Nat.le_succ _)
  refine .bind (hg.clauses x _ (.bind (hg.exprs x) fun es hes =>
    .pure (hes.1.shallow.mono (Nat.le_succ _)))) fun r hcs => ?_
  cases tag with
  | none => exact .pure (StmtKind.fits_of_isLoose ((hstart.append Deepens.nil).append hcs) rfl)
  | some guard =>
    have hguard := htag.shallow.mono (Nat.le_succ _)
    obtain ⟨kind, d⟩ := guard
    dsimp only
    split
    · exact .pure (StmtKind.fits_of_isLoose ((hstart.append hguard).append hcs) rfl)
    · cases kind with
      | expr e =>
        have he := (Under.shallow (htag _ rfl)).mono (Nat.le_succ _)
        exact .pure (StmtKind.fits_of_isLoose ((hstart.append he).append hcs) rfl)
      | _ => exact .rejectAt _ _

theorem select : AnswersIn x (StmtKind.Fits x.room) g.select := by
  refine .after fun _ => .bind (hg.clauses x _ ?_) fun r hcs =>
    .pure (StmtKind.fits_of_isLoose hcs rfl)
  refine .bind (hg.simple x false false) fun s hs => ?_
  refine .bind (toStmt x (hs.2 rfl)) fun t ht => .pure ?_
  obtain ⟨kind, d⟩ := t
  exact (ht.aroundStmt _).mono (Nat.le_succ _)

/-- A statement fits if it counts as one level, or may not count at all. -/
theorem stmtHere : AnswersIn x (StmtKind.Fits x.room) g.stmtHere := by
  have decl : AnswersIn x (StmtKind.Fits x.room) (do return .decl (← g.genDecl)) :=
    .bind (hg.genDecl x) fun d hd => .pure (StmtKind.fits_of_shallow hd)
  have branch (kind : BranchKind) : AnswersIn x (StmtKind.Fits x.room) (Grammar.branch kind) :=
    .after fun _ => .after fun label => .pure (StmtKind.fits_of_shallow (Deepens.names _))
  refine .after fun kind => ?_
  split
  iterate 3 exact decl
  · refine .after fun _ => .after fun kind => ?_
    split
    · exact .pure (StmtKind.fits_of_shallow Deepens.nil)
    · exact .pure (StmtKind.fits_of_shallow Deepens.nil)
    · exact .bind (hg.exprs x) fun es hes => .pure (StmtKind.fits_of_shallow hes.1.shallow)
  iterate 3 exact branch _
  · exact .after fun _ => .pure (StmtKind.fits_of_shallow Deepens.nil)
  · exact .bind (hg.nestedBlock x) fun b hb => .pure (StmtKind.fits_of_shallow hb)
  · refine .bind (hg.ifThenHere x) fun r hr => .pure (StmtKind.fits_of_shallow ?_)
    exact ((hr.1.append hr.2.1).append hr.2.2.1).append hr.2.2.2
  · exact hg.loop x
  · exact hg.switch x
  · exact hg.select x
  iterate 2
    · refine .after fun _ => .bind (hg.expr x) fun e he => .pure (StmtKind.fits_of_shallow ?_)
      exact (he.aroundExpr e).shallow
  · refine .bind (hg.simple x false true) fun s hs => ?_
    cases s with
    | plain kind => exact .pure hs.1
    | range => exact .reject _

end Grammar.Shallow

/-! ## The levels -/

namespace Grammar

/-- The bottom answers nothing. -/
theorem bottom_shallow (budget : Nat) : (bottom budget).Shallow where
  binary _ _ := .reject _
  unary _ := .reject _
  elementValue _ := .reject _
  type _ := .reject _
  block _ := .reject _
  stmt _ := .reject _
  ifThen _ := .reject _

/-- A level built from one whose phrases hold no more than there is room for is such a level. -/
theorem Shallow.next {g : Grammar} (hg : g.Shallow) : g.next.Shallow where
  binary := hg.binaryFrom
  unary := hg.nestedUnary
  elementValue := hg.elementValueHere
  type := hg.nestedType
  block := hg.nestedBlock
  stmt := hg.stmtHere
  ifThen := hg.ifThenHere

/-- Every level of the grammar keeps to the room of the context. -/
theorem level_shallow (budget n : Nat) : (level budget n).Shallow := by
  induction n with
  | zero => exact bottom_shallow budget
  | succ n ih => exact ih.next

end Grammar

end HandlerSplit.Parse
