import HandlerSplit.Proofs.Parse.Built.Expr
/-!
# How the parser builds statements

The clauses of a header are read directly in it, so their expressions are covered, and the statement
is built with the header it has read. Bodies, and the clauses behind the braces, are read at the
level of brackets of the statement, and may hold anything.
-/

namespace HandlerSplit.Parse

open Event (AllBuilt Nodes)

/-! ## The parts of phrases -/

/-- A statement without labels, read in a text. Directly in a header its expressions are covered. -/
structure BuiltSimple (ts : List TokenKind) (x : Context) (kind : StmtKind) : Prop extends
    BuiltStmt ts kind where
  isSimple : kind.isSimple = true
  covered : x.exprLevel < 0 → ∀ y ∈ kind.exprs, y.Covered

/-- A simple statement without labels, or a range clause. -/
def Simple.Built (ts : List TokenKind) (x : Context) : Simple → Prop
  | .plain kind => BuiltSimple ts x kind
  | .range key value _ e =>
    (∀ y ∈ key, BuiltExpr ts x y) ∧ (∀ y ∈ value, BuiltExpr ts x y) ∧ BuiltExpr ts x e

/-- A simple statement that may have a label. -/
def Simple.BuiltLabeled (ts : List TokenKind) : Simple → Prop
  | .plain kind => BuiltStmt ts kind
  | .range _ _ _ _ => True

/-- The header of a loop. -/
def LoopHeader.Built (ts : List TokenKind) : LoopHeader → Prop
  | .clauses init cond post => BuiltClause ts init ∧
      (AllBuilt ts (optExprEvents cond) ∧ ∀ y ∈ cond, y.Covered) ∧ BuiltClause ts post
  | .range key value _ e => (∀ y ∈ key, AllBuilt ts y.events ∧ y.Covered) ∧
      (∀ y ∈ value, AllBuilt ts y.events ∧ y.Covered) ∧ AllBuilt ts e.events ∧ e.Covered

/-- A statement that is simple holds its expressions and nothing else. -/
theorem BuiltSimple.of_exprs {ts : List TokenKind} {x : Context} {kind : StmtKind}
    (hsimple : kind.isSimple = true) (h : ∀ y ∈ kind.exprs, BuiltExpr ts x y) :
    BuiltSimple ts x kind := by
  have hcovered : x.exprLevel < 0 → ∀ y ∈ kind.exprs, y.Covered :=
    fun hlevel y hy => (h y hy).covered hlevel
  cases kind with
  | expr e => exact ⟨⟨(h e (List.mem_singleton_self e)).all, trivial⟩, rfl, hcovered⟩
  | incDec e up => exact ⟨⟨(h e (List.mem_singleton_self e)).all, trivial⟩, rfl, hcovered⟩
  | assign lhs op rhs =>
    obtain ⟨hlhs, hrhs⟩ := List.forall_mem_append.mp h
    exact ⟨⟨(Nodes.exprs fun y hy => (hlhs y hy).all).append
      (.exprs fun y hy => (hrhs y hy).all), trivial⟩, rfl, hcovered⟩
  | send chan value =>
    obtain ⟨hchan, hvalue⟩ := List.forall_mem_cons.mp h
    exact ⟨⟨Nodes.append hchan.all (hvalue value (List.mem_singleton_self value)).all, trivial⟩,
      rfl, hcovered⟩
  | _ => cases hsimple

/-- The parts of an `if` statement, put together. -/
theorem BuiltIf.all {ts : List TokenKind} {init : Option Stmt} {cond : Expr} {body : Block}
    {rest : Else} (h : BuiltIf ts (init, cond, body, rest)) :
    AllBuilt ts (Else.elseIf init cond body rest).events :=
  ((h.init.all.append h.cond.1).append h.body).append h.otherwise.1

/-- The headers of an `if` behind an `else` are covered. -/
theorem BuiltIf.headers {ts : List TokenKind} {init : Option Stmt} {cond : Expr} {body : Block}
    {rest : Else} (h : BuiltIf ts (init, cond, body, rest)) :
    (Else.elseIf init cond body rest).HeadersCovered :=
  ⟨h.init.covered, h.cond.2, h.otherwise.2⟩

/-- A clause that is missing is covered. -/
theorem BuiltClause.none {ts : List TokenKind} : BuiltClause ts none :=
  ⟨Nodes.nil, nofun⟩

/-- A simple statement that is read in a header is a covered clause of it. -/
theorem BuiltSimple.clause {ts : List TokenKind} {x : Context} {s : Stmt}
    (h : BuiltSimple ts x s.kind) (hlevel : x.exprLevel < 0) : BuiltClause ts (some s) := by
  obtain ⟨kind, d⟩ := s
  refine ⟨h.events d, ?_⟩
  rintro _ ⟨⟩
  exact ⟨h.isSimple, h.covered hlevel⟩

namespace Moves

instance importName : Moves Grammar.importName := by
  refine of_answers fun ts x => .after fun kind => ?_
  split
  · exact .after fun _ => .pure trivial
  · exact .after fun _ => .pure trivial
  · exact .pure trivial

instance idents (g : Grammar) : Moves g.idents :=
  of_answers fun _ _ => .after fun _ => .after fun _ => .pure trivial

instance branchLabel : Moves Grammar.branchLabel := by
  refine of_answers fun ts x => .after fun kind => ?_
  split
  · exact .after fun _ => .pure trivial
  · exact .pure trivial

end Moves

namespace Grammar.Built

variable {g : Grammar} (hg : g.Built) (ts : List TokenKind) (x : Context)

include hg

/-! ## Declarations -/

omit hg in
theorem importSpec : AnswersAt ts x (fun k => AllBuilt ts k.events) Grammar.importSpec := by
  refine .after fun name => .after fun kind => ?_
  split
  · exact .after fun _ => .pure Nodes.nil
  · exact .unexpected _

/-- A type and values, each in the context of the declaration. -/
theorem valueSpec : AnswersAt ts x (fun k => AllBuilt ts k.events) g.valueSpec := by
  refine .after fun names => .bind (P := fun t => AllBuilt ts (optExprEvents t))
    (.after fun kind => ?_) fun t ht => .after fun assign => ?_
  · split
    iterate 4 exact .pure Nodes.nil
    · exact .bind (hg.nestedType ts x) fun t ht => .pure ht.all
  · have hnames := (Nodes.names names).append ht
    split
    · exact .after fun _ => .bind (hg.exprs ts x) fun vs hvs =>
        .pure (hnames.append (.exprs fun v hv => (hvs v hv).all))
    · exact .pure (hnames.append Nodes.nil)

theorem typeSpec : AnswersAt ts x (fun k => AllBuilt ts k.events) g.typeSpec := by
  refine .after fun name => .after fun aliased => ?_
  have named : AnswersAt ts x (fun k => AllBuilt ts k.events)
      (do return SpecKind.type name aliased (← g.nestedType)) :=
    .bind (hg.nestedType ts x) fun t ht => .pure (Nodes.cons_name ht.all name)
  split
  · exact .after fun _ => named
  · exact named

theorem spec (keyword : GenKeyword) :
    AnswersAt ts x (fun k => AllBuilt ts k.events) (g.spec keyword) := by
  cases keyword with
  | «import» => exact importSpec ts x
  | const => exact hg.valueSpec ts x
  | var => exact hg.valueSpec ts x
  | type => exact hg.typeSpec ts x

/-- The entries of a group, between parentheses. -/
theorem specGroup (keyword : GenKeyword) :
    AnswersAt ts x (fun r => AllBuilt ts (specEvents r.1)) (g.specGroup keyword) := by
  refine .after fun t => .after fun _ => .after fun comment => ?_
  refine .bind (P := fun ss => ∀ s ∈ ss, AllBuilt ts s.kind.events)
    (.entries (.after fun kind => ?_) _) fun specs hspecs => .after fun b => .after fun _ =>
      .pure (Nodes.specs hspecs)
  split
  · exact .pure trivial
  · exact .rejectAt _ _
  · exact .after fun _ => .pure trivial
  · refine .after fun d => .bind (hg.spec ts x keyword) fun kind hkind => ?_
    exact .after fun _ => .after fun trailing => .pure hkind

/-- A declaration holds the nodes of its entries. -/
theorem genDecl : AnswersAt ts x (fun d => AllBuilt ts d.events) g.genDecl := by
  refine .after fun kind => ?_
  split
  · exact .unexpected _
  · rename_i keyword _
    refine .after fun _ => .after fun group => ?_
    split
    · exact .bind (hg.specGroup ts x keyword) fun r hr => .pure hr
    · refine .bind (hg.spec ts x keyword) fun kind hkind => .pure ?_
      exact Nodes.specs (List.forall_mem_singleton.mpr hkind)

/-! ## Simple statements -/

/-- What a label stands before is built as any statement. -/
theorem labeled (label : String) : AnswersAt ts x (BuiltStmt ts) (g.labeled label) := by
  have behind {s : Stmt} (hs : AllBuilt ts s.events) : BuiltStmt ts (.labeled label s) :=
    ⟨hs.cons_name label, trivial⟩
  have hkind : BuiltStmt ts .empty := ⟨Nodes.nil, trivial⟩
  have hempty : AllBuilt ts (Stmt.events (.plain .empty)) := hkind.events _
  refine .after fun kind => ?_
  split
  · exact .pure (behind hempty)
  · exact .pure (behind hempty)
  · exact .after fun d => .bind (hg.stmt ts x) fun kind hkind => .pure (behind (hkind.events d))

/-- Both sides of an assignment are read in the context of the statement. -/
theorem assignment (rangeOk : Bool) {lhs : List Expr} (hlhs : ∀ e ∈ lhs, BuiltExpr ts x e)
    (op : AssignOp) : AnswersAt ts x (Simple.Built ts x) (g.assignment rangeOk lhs op) := by
  have hplain : AnswersAt ts x (Simple.Built ts x)
      (do return .plain (.assign lhs op (← g.exprs))) :=
    .bind (hg.exprs ts x) fun rhs hrhs =>
      .pure (BuiltSimple.of_exprs rfl (List.forall_mem_append.mpr ⟨hlhs, hrhs⟩))
  have hvar (i : Nat) : ∀ e ∈ lhs[i]?, BuiltExpr ts x e :=
    fun e he => hlhs e (List.mem_of_getElem? he)
  refine .after fun _ => .after fun range => ?_
  split
  · split
    · exact .reject _
    · exact .after fun _ => .bind (hg.expr ts x) fun e he => .pure ⟨hvar 0, hvar 1, he⟩
  · exact hplain

theorem exprStmt {e : Expr} (he : BuiltExpr ts x e) :
    AnswersAt ts x (Simple.Built ts x) (g.exprStmt e) := by
  have hbase : ∀ y ∈ [e], BuiltExpr ts x y := List.forall_mem_singleton.mpr he
  refine .after fun kind => ?_
  split
  · refine .after fun _ => .bind (hg.expr ts x) fun y hy => .pure (BuiltSimple.of_exprs rfl ?_)
    exact List.forall_mem_cons.mpr ⟨he, List.forall_mem_singleton.mpr hy⟩
  · exact .after fun _ => .pure (BuiltSimple.of_exprs rfl hbase)
  · exact .after fun _ => .pure (BuiltSimple.of_exprs rfl hbase)
  · exact .pure (BuiltSimple.of_exprs rfl hbase)

/-- A simple statement is built with the headers it has; without labels it has none. -/
theorem simple (rangeOk labelOk : Bool) :
    AnswersAt ts x (fun s => s.BuiltLabeled ts ∧ (labelOk = false → s.Built ts x))
      (g.simple rangeOk labelOk) := by
  have unlabeled {p : Parser Simple} (h : AnswersAt ts x (Simple.Built ts x) p) :
      AnswersAt ts x (fun s => s.BuiltLabeled ts ∧ (labelOk = false → s.Built ts x)) p := by
    refine h.weaken fun s hs => ⟨?_, fun _ => hs⟩
    cases s with
    | plain kind => exact BuiltSimple.toBuiltStmt hs
    | range => trivial
  have rest : AnswersAt ts x (fun s => s.BuiltLabeled ts ∧ (labelOk = false → s.Built ts x))
      (g.exprsStmt rangeOk labelOk) := by
    refine .bind (hg.exprs ts x) fun lhs hlhs => .after fun kind => ?_
    split
    · exact unlabeled (hg.assignment ts x rangeOk hlhs _)
    · rename_i e _
      have he := hlhs e (List.mem_singleton_self e)
      refine .after fun colon => ?_
      split
      · rename_i hlabel
        obtain ⟨rfl, -⟩ := Bool.and_eq_true_iff.mp hlabel
        cases e with
        | ident label =>
          exact .after fun _ => .bind (hg.labeled ts x label) fun kind hkind =>
            .pure ⟨hkind, nofun⟩
        | _ => exact .reject _
      · exact unlabeled (hg.exprStmt ts x he)
    · exact .unexpected _
  refine .after fun range => ?_
  split
  · exact .after fun _ => .bind (hg.expr ts x) fun e he =>
      .pure ⟨trivial, fun _ => ⟨nofun, nofun, he⟩⟩
  · exact rest

/-- The statement in a header may be missing. -/
theorem headerStmt (rangeOk : Bool) :
    AnswersAt ts x (fun s => ∀ t ∈ s, Simple.Built ts x t) (g.headerStmt rangeOk) := by
  refine .after fun kind => ?_
  split
  · exact .pure nofun
  · exact .pure nofun
  · refine .bind (hg.simple ts x rangeOk false) fun s hs => .pure ?_
    rintro _ ⟨⟩
    exact hs.2 rfl

omit hg in
/-- A range clause outside of a loop header is rejected. -/
theorem toStmt {s : Simple} (hs : s.Built ts x) :
    AnswersAt ts x (fun t => BuiltSimple ts x t.kind) s.toStmt := by
  cases s with
  | plain kind => exact .pure hs
  | range => exact .reject _

/-! ## Blocks -/

/-- The nodes of statements in order. -/
theorem stmts : AnswersAt ts x (fun ss => AllBuilt ts (stmtEvents ss)) g.stmts := by
  refine AnswersAt.weaken (P := fun ss => ∀ s ∈ ss, AllBuilt ts s.events)
    (.entries (.after fun kind => ?_) _) fun ss => Nodes.stmts
  split
  · exact .pure trivial
  · split
    · exact .after fun _ => .pure trivial
    · refine .after fun d => .bind (hg.stmt ts x) fun kind hkind => .after fun next => ?_
      have hend : AnswersAt ts x (Turn.All fun s => AllBuilt ts s.events) (stmtEnd kind d) :=
        .after fun trailing => .pure (hkind.events _)
      split
      · exact hend
      · exact hend
      · exact hend
      · exact .after fun _ => hend

/-- A block holds the nodes of its statements. -/
theorem blockInner : AnswersAt ts x (fun b => AllBuilt ts b.events) g.blockInner := by
  refine .after fun t => .after fun _ => .after fun comment => .bind (hg.stmts ts x) fun ss hss => ?_
  refine .after fun kind => ?_
  split
  · exact .after fun t => .after fun b => .after fun _ => .pure hss
  · exact .rejectAt _ _
  · exact .unexpected _

theorem nestedBlock : AnswersAt ts x (fun b => AllBuilt ts b.events) g.nestedBlock :=
  .nested (hg.blockInner ts _)

/-! ## Headers -/

section

variable (hlevel : x.exprLevel < 0)

include hlevel

omit hg in
/-- A clause of a header is covered, or missing. -/
theorem clauseStmt {s : Option Simple} (hs : ∀ t ∈ s, Simple.Built ts x t) :
    AnswersAt ts x (BuiltClause ts) (Grammar.clauseStmt s) := by
  cases s with
  | none => exact .pure .none
  | some s => exact .bind (toStmt ts x (hs s rfl)) fun t ht => .pure (ht.clause hlevel)

/-- The condition of an `if` is covered, since it is read in a header. -/
theorem ifHeader :
    AnswersAt ts x (fun r : Option Stmt × Expr => BuiltClause ts r.1 ∧ AllBuilt ts r.2.events ∧
      r.2.Covered) g.ifHeader := by
  refine .after fun brace => ?_
  split
  · exact .reject _
  · refine .bind (hg.headerStmt ts x false) fun first hfirst => .after fun semicolon => ?_
    split
    · refine .after fun _ => .bind (clauseStmt ts x hlevel hfirst) fun init hinit => ?_
      exact .bind (hg.expr ts x) fun e he => .pure ⟨hinit, he.all, he.covered hlevel⟩
    · split
      · rename_i cond
        have hcond : BuiltSimple ts x (.expr cond) := hfirst _ rfl
        exact .pure ⟨.none, hcond.inside, hcond.covered hlevel _ (List.mem_singleton_self cond)⟩
      · exact .reject _

/-- The condition and the last statement of a loop are covered. -/
theorem loopClauses {first : Option Simple} (hfirst : ∀ t ∈ first, Simple.Built ts x t) :
    AnswersAt ts x (LoopHeader.Built ts) (g.loopClauses first) := by
  refine .bind (clauseStmt ts x hlevel hfirst) fun init hinit => ?_
  refine .bind (P := fun c => AllBuilt ts (optExprEvents c) ∧ ∀ y ∈ c, y.Covered)
    (.after fun semicolon => ?_) fun cond hcond => .after fun _ =>
      .bind (hg.headerStmt ts x false) fun s hs => .bind (clauseStmt ts x hlevel hs) fun post hpost =>
        .pure ⟨hinit, hcond, hpost⟩
  split
  · exact .pure ⟨Nodes.nil, nofun⟩
  · refine .bind (hg.expr ts x) fun e he => .pure ⟨he.all, ?_⟩
    rintro _ ⟨⟩
    exact he.covered hlevel

theorem loopHeader : AnswersAt ts x (LoopHeader.Built ts) g.loopHeader := by
  refine .bind (hg.headerStmt ts x true) fun s hs => ?_
  split
  · obtain ⟨hkey, hvalue, he⟩ := hs _ rfl
    exact .pure ⟨fun y hy => ⟨(hkey y hy).all, (hkey y hy).covered hlevel⟩,
      fun y hy => ⟨(hvalue y hy).all, (hvalue y hy).covered hlevel⟩, he.all, he.covered hlevel⟩
  · refine .after fun semicolon => ?_
    split
    · exact .after fun _ => hg.loopClauses ts x hlevel hs
    · split
      · exact .pure ⟨.none, ⟨Nodes.nil, nofun⟩, .none⟩
      · rename_i cond _
        have hcond : BuiltSimple ts x (.expr cond) := hs _ rfl
        refine .pure ⟨.none, ⟨hcond.inside, ?_⟩, .none⟩
        rintro _ ⟨⟩
        exact hcond.covered hlevel _ (List.mem_singleton_self cond)
      · exact .reject _

/-- The statement of a switch and its tag are covered. -/
theorem switchHeader :
    AnswersAt ts x (fun r : Option Stmt × Option Stmt => BuiltClause ts r.1 ∧ BuiltClause ts r.2)
      g.switchHeader := by
  refine .after fun brace => ?_
  split
  · exact .pure ⟨.none, .none⟩
  · refine .bind (hg.headerStmt ts x false) fun first hfirst => .after fun semicolon => ?_
    split
    · refine .after fun _ => .bind (clauseStmt ts x hlevel hfirst) fun init hinit => ?_
      refine .bind (hg.headerStmt ts x false) fun s hs => ?_
      exact .bind (clauseStmt ts x hlevel hs) fun tag htag => .pure ⟨hinit, htag⟩
    · exact .bind (clauseStmt ts x hlevel hfirst) fun tag htag => .pure ⟨.none, htag⟩

end

/-! ## Control statements -/

/-- What follows an `else` has covered headers. -/
theorem otherwise :
    AnswersAt ts x (fun e => AllBuilt ts e.events ∧ e.HeadersCovered) g.otherwise := by
  refine .after fun word => ?_
  split
  · refine .after fun _ => .after fun kind => ?_
    split
    · exact .bind (hg.ifThen ts x) fun _ hr => .pure ⟨hr.all, hr.headers⟩
    · exact .bind (hg.nestedBlock ts x) fun b hb => .pure ⟨hb, trivial⟩
    · exact .unexpected _
  · exact .pure ⟨Nodes.nil, trivial⟩

theorem ifThenHere : AnswersAt ts x (BuiltIf ts) g.ifThenHere := by
  refine .after fun _ => .bind (.inHeader (hg.ifHeader ts _ (show (-1 : Int) < 0 by decide)))
    fun r hr => ?_
  exact .bind (hg.nestedBlock ts x) fun b hb => .bind (hg.otherwise ts x) fun e he =>
    .pure ⟨hr.1, hr.2, hb, he⟩

theorem loop : AnswersAt ts x (BuiltStmt ts) g.loop := by
  refine .after fun _ => .bind (.inHeader (hg.loopHeader ts _ (show (-1 : Int) < 0 by decide)))
    fun header hheader => ?_
  refine .bind (hg.nestedBlock ts x) fun b hb => ?_
  cases header with
  | clauses init cond post =>
    obtain ⟨hinit, hcond, hpost⟩ := hheader
    exact .pure ⟨((hinit.all.append hcond.1).append hpost.all).append hb,
      hinit.covered, hcond.2, hpost.covered⟩
  | range key value define e =>
    obtain ⟨hkey, hvalue, he⟩ := hheader
    exact .pure ⟨(((Nodes.optExpr fun y hy => (hkey y hy).1).append
      (.optExpr fun y hy => (hvalue y hy).1)).append he.1).append hb,
      fun y hy => (hkey y hy).2, fun y hy => (hvalue y hy).2, he.2⟩

/-- What clauses hold is read behind the brace, and may be anything. -/
theorem clauses (phrase : Opened) {head : Parser ClauseHead}
    (h : AnswersAt ts x (fun r => AllBuilt ts r.events) head) :
    AnswersAt ts x (fun r : Span × List Clause × Enclosure => AllBuilt ts (clauseEvents r.2.1))
      (g.clauses phrase head) := by
  refine .after fun t => .after fun _ => .after fun comment => ?_
  refine .bind (P := fun cs : List Clause => ∀ c ∈ cs, AllBuilt ts c.head.events ∧
      AllBuilt ts (stmtEvents c.body))
    (.entries (.after fun kind => ?_) _) fun cs hcs => .after fun b => .after fun _ =>
      .pure (Nodes.clauses hcs)
  split
  · exact .pure trivial
  · refine .after fun d => .bind (P := fun r => AllBuilt ts r.events) ?_
      fun head hhead => .after fun _ => .after fun trailing => .bind (hg.stmts ts x) fun ss hss =>
        .pure ⟨hhead, hss⟩
    split
    · exact .after fun _ => h
    · exact .after fun _ => .pure Nodes.nil
    · exact .rejectAt _ _
    · exact .unexpected _

theorem switch : AnswersAt ts x (BuiltStmt ts) g.switch := by
  refine .after fun _ => .bind (.inHeader (hg.switchHeader ts _ (show (-1 : Int) < 0 by decide)))
    fun r hr => ?_
  obtain ⟨init, tag⟩ := r
  obtain ⟨hinit, htag⟩ := hr
  refine .bind (hg.clauses ts x _ (.bind (hg.exprs ts x) fun es hes =>
    .pure (Nodes.exprs fun e he => (hes e he).all))) fun r hcs => ?_
  cases tag with
  | none => exact .pure ⟨(hinit.all.append Nodes.nil).append hcs, hinit.covered, nofun⟩
  | some guard =>
    have hguard := htag.covered guard rfl
    dsimp only
    split
    · exact .pure ⟨(hinit.all.append htag.all).append hcs, hinit.covered, hguard⟩
    · obtain ⟨kind, d⟩ := guard
      cases kind with
      | expr e =>
        have he : AllBuilt ts e.events := fun event hevent =>
          htag.all event (List.mem_cons_of_mem _ (List.mem_append_left _ hevent))
        refine .pure ⟨(hinit.all.append he).append hcs, hinit.covered, ?_⟩
        rintro _ ⟨⟩
        exact hguard.exprs _ (List.mem_singleton_self _)
      | _ => exact .rejectAt _ _

theorem select : AnswersAt ts x (BuiltStmt ts) g.select := by
  refine .after fun _ => .bind (hg.clauses ts x _ ?_) fun r hcs => .pure ⟨hcs, trivial⟩
  refine .bind (hg.simple ts x false false) fun s hs => ?_
  refine .bind (toStmt ts x (hs.2 rfl)) fun t ht => .pure ?_
  obtain ⟨kind, d⟩ := t
  exact ht.events d

/-- The forms of statements, told apart by their first token. -/
theorem stmtHere : AnswersAt ts x (BuiltStmt ts) g.stmtHere := by
  have decl : AnswersAt ts x (BuiltStmt ts) (do return .decl (← g.genDecl)) :=
    .bind (hg.genDecl ts x) fun d hd => .pure ⟨hd, trivial⟩
  have branch (kind : BranchKind) : AnswersAt ts x (BuiltStmt ts) (Grammar.branch kind) :=
    .after fun _ => .after fun label => .pure ⟨Nodes.names _, trivial⟩
  refine .after fun kind => ?_
  split
  iterate 3 exact decl
  · refine .after fun _ => .after fun kind => ?_
    split
    · exact .pure ⟨Nodes.nil, trivial⟩
    · exact .pure ⟨Nodes.nil, trivial⟩
    · exact .bind (hg.exprs ts x) fun es hes =>
        .pure ⟨Nodes.exprs fun e he => (hes e he).all, trivial⟩
  iterate 3 exact branch _
  · exact .after fun _ => .pure ⟨Nodes.nil, trivial⟩
  · exact .bind (hg.nestedBlock ts x) fun b hb => .pure ⟨hb, trivial⟩
  · exact .bind (hg.ifThenHere ts x) fun _ hr => .pure ⟨hr.all, hr.headers⟩
  · exact hg.loop ts x
  · exact hg.switch ts x
  · exact hg.select ts x
  iterate 2 exact .after fun _ => .bind (hg.expr ts x) fun e he => .pure ⟨he.all, trivial⟩
  · refine .bind (hg.simple ts x false true) fun s hs => ?_
    cases s with
    | plain kind => exact .pure hs.1
    | range => exact .reject _

end Grammar.Built

/-! ## The levels -/

namespace Grammar

/-- The bottom answers nothing. -/
theorem bottom_built (budget : Nat) : (bottom budget).Built where
  level := ⟨0, rfl⟩
  binary _ _ _ := .reject _
  stops _ _ _ _ hrun := by cases hrun
  unary _ _ := .reject _
  elementValue _ _ := .reject _
  type _ _ := .reject _
  block _ _ := .reject _
  stmt _ _ := .reject _
  ifThen _ _ := .reject _

/-- A level built from one whose phrases are built so is such a level. -/
theorem Built.next {g : Grammar} (hg : g.Built) : g.next.Built where
  level := by
    obtain ⟨n, hn⟩ := hg.level
    exact ⟨n + 1, congrArg Grammar.next hn⟩
  binary := hg.binaryFrom
  stops _ _ _ _ hrun := Built.binaryFrom_stops hrun
  unary := hg.nestedUnary
  elementValue := hg.elementValueHere
  type := hg.nestedType
  block := hg.nestedBlock
  stmt := hg.stmtHere
  ifThen := hg.ifThenHere

/-- Every level of the grammar builds what it answers as it should. -/
theorem level_built (budget n : Nat) : (level budget n).Built := by
  induction n with
  | zero => exact bottom_built budget
  | succ n ih => exact ih.next

end Grammar

end HandlerSplit.Parse
