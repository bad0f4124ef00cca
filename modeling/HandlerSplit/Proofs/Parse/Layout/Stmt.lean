import HandlerSplit.Parse.Stmt
import HandlerSplit.Proofs.Parse.Layout.Expr
/-!
# Layout and statements

Statements and declarations are read without regard to layout. With them a level of the grammar
hands the property to the next, so every level has it.
-/

namespace HandlerSplit.Parse

/-! ## Phrases without layout -/

/-- A simple statement without layout. -/
def Simple.bare : Simple → Simple
  | .plain kind => .plain kind.bare
  | .range key value define x => .range (key.map Expr.bare) (value.map Expr.bare) define x.bare

/-- The header of a loop without layout. -/
def LoopHeader.bare : LoopHeader → LoopHeader
  | .clauses init cond post =>
    .clauses (init.map Stmt.bare) (cond.map Expr.bare) (post.map Stmt.bare)
  | .range key value define x => .range (key.map Expr.bare) (value.map Expr.bare) define x.bare

/-- The entries of a declaration without layout. -/
def bareGroupSpecs (r : List Spec × Enclosure) : List Spec :=
  r.1.map Spec.bare

/-- The clauses of a switch without layout. -/
def bareSwitch (r : Span × List Clause × Enclosure) : List Clause :=
  r.2.1.map Clause.bare

/-- A name has no layout. -/
theorem eq_ident_of_bare {name : String} {x : Expr} (h : (Expr.ident name).bare = x.bare) :
    x = .ident name := by
  cases x <;> simp only [Expr.bare, reduceCtorEq, Expr.ident.injEq] at h
  rw [h]

/-- Whether an expression is a type guard does not depend on layout. -/
theorem isTypeGuard_bare (x : Expr) : isTypeGuard x.bare = isTypeGuard x := by
  cases x with
  | typeAssert x type => cases type <;> rfl
  | _ => rfl

theorem isTypeSwitchGuard_bare (kind : StmtKind) :
    isTypeSwitchGuard kind.bare = isTypeSwitchGuard kind := by
  cases kind with
  | expr x => exact isTypeGuard_bare x
  | assign lhs op rhs =>
    cases op with
    | define =>
      rcases rhs with _ | ⟨x, _ | ⟨y, rhs⟩⟩
      · rfl
      · exact isTypeGuard_bare x
      · rfl
    | _ => rfl
  | _ => rfl

/-- What is an expression statement without layout is one. -/
theorem eq_expr_of_bare {x : Expr} {kind : StmtKind} (h : (StmtKind.expr x).bare = kind.bare) :
    ∃ x', kind = .expr x' ∧ x.bare = x'.bare := by
  cases kind <;> simp only [StmtKind.bare, reduceCtorEq, StmtKind.expr.injEq] at h
  exact ⟨_, rfl, h⟩

/-- What is an expression in a header without layout is one. -/
theorem eq_header_expr_of_bare {x : Expr} {s : Option Simple}
    (h : (some (Simple.plain (.expr x))).map Simple.bare = s.map Simple.bare) :
    ∃ x', s = some (.plain (.expr x')) ∧ x.bare = x'.bare := by
  rcases s with _ | s
  · cases h
  · cases s with
    | plain kind =>
      obtain ⟨x', rfl, hx⟩ := eq_expr_of_bare (Simple.plain.inj (Option.some.inj h))
      exact ⟨x', rfl, hx⟩
    | range => cases h

/-- A range clause among the clauses of a header is rejected in both runs. -/
theorem Simple.toStmt_blind {s s' : Simple} (h : s.bare = s'.bare) :
    Agree Stmt.bare s.toStmt s'.toStmt := by
  cases s <;> cases s' <;>
    simp only [Simple.bare, reduceCtorEq, Simple.plain.injEq, Simple.range.injEq] at h
  · refine .pure ?_
    simp only [Stmt.plain, Stmt.bare, h]
  · exact .reject _

namespace Grammar.LayoutBlind

variable {g : Grammar} (hg : g.LayoutBlind)

/-! ## Declarations inside and outside of functions -/

theorem importName : Blind id importName := by
  refine .peekKind fun kind => ?_
  split
  · exact .next .advance (.pure rfl)
  · exact .next .advance (.pure rfl)
  · exact .pure rfl

theorem importSpec : Blind SpecKind.bare importSpec := by
  refine .same importName fun name => .peekKind fun kind => ?_
  split
  · exact .next .advance (.pure rfl)
  · exact .unexpected _

theorem branchLabel : Blind id branchLabel := by
  refine .peekKind fun kind => ?_
  split
  · exact .next .advance (.pure rfl)
  · exact .pure rfl

theorem branch (kind : BranchKind) : Blind StmtKind.bare (branch kind) :=
  .next .advance (.same branchLabel fun _ => .pure rfl)

theorem clauseStmt {s s' : Option Simple} (h : s.map Simple.bare = s'.map Simple.bare) :
    Agree (Option.map Stmt.bare) (clauseStmt s) (clauseStmt s') := by
  cases s <;> cases s' <;>
    simp only [Option.map_some, Option.map_none, reduceCtorEq, Option.some.injEq] at h
  · exact .pure rfl
  · exact .bind (Simple.toStmt_blind h) fun _ _ h => .pure (congrArg some h)

/-- Which comments stand around a statement is layout. -/
theorem stmtEnd {kind kind' : StmtKind} (h : kind.bare = kind'.bare) (decs decs' : Decorations) :
    Agree (Turn.map Stmt.bare) (stmtEnd kind decs) (stmtEnd kind' decs') := by
  refine .bind .claimTrailing fun _ _ _ => .pure ?_
  simp only [Turn.map, Stmt.bare, h]

include hg

theorem valueSpec : Blind SpecKind.bare g.valueSpec := by
  refine .same idents fun names => ?_
  refine .bind (e := Option.map Expr.bare) (.peekKind fun kind => ?_)
    fun type type' htype => .atPunct fun b => ?_
  · split
    · exact .pure rfl
    · exact .pure rfl
    · exact .pure rfl
    · exact .pure rfl
    · exact .bind hg.nestedType fun _ _ h => .pure (congrArg some h)
  · split
    · refine .next .advance (.bind hg.exprs fun xs xs' hxs => .pure ?_)
      simp only [SpecKind.bare, bareOptExpr_eq_map, bareExprs_eq_map, htype, hxs]
    · refine .pure ?_
      simp only [SpecKind.bare, bareOptExpr_eq_map, htype]

theorem typeSpec : Blind SpecKind.bare g.typeSpec := by
  refine .same .expectIdent fun name => .atPunct fun isAlias => ?_
  have type : Blind SpecKind.bare (do return .type name isAlias (← g.nestedType)) := by
    refine .bind hg.nestedType fun x x' hx => .pure ?_
    simp only [SpecKind.bare, hx]
  split
  · exact .next .advance type
  · exact type

theorem spec (keyword : GenKeyword) : Blind SpecKind.bare (g.spec keyword) := by
  cases keyword with
  | «import» => exact importSpec
  | const => exact hg.valueSpec
  | var => exact hg.valueSpec
  | type => exact hg.typeSpec

theorem specGroup (keyword : GenKeyword) : Blind bareGroupSpecs (g.specGroup keyword) := by
  refine .peek fun t t' _ => .next .advance (.bind .claimTrailing fun c c' _ => ?_)
  refine .bind (.entries (e := Spec.bare) (.peekKind fun kind => ?_) _)
    fun specs specs' hspecs => .bind (.closeEnclosure c c') fun _ _ _ =>
      .next (.expectPunct _) (.pure hspecs)
  split
  · exact .pure rfl
  · exact .rejectAt _ _ _
  · exact .next .advance (.pure rfl)
  · refine .bind .startDecorations fun _ _ _ => .bind (hg.spec keyword) fun k k' hk => ?_
    refine .next .expectTerminator (.bind .claimTrailing fun _ _ _ => .pure ?_)
    simp only [Turn.map, Spec.bare, hk]

/-- A single declaration, or a group in parentheses. -/
theorem genDecl : Blind GenDecl.bare g.genDecl := by
  refine .peekKind fun kind => ?_
  split
  · exact .unexpected _
  · refine .next .advance (.atPunct fun b => ?_)
    split
    · refine .bind (hg.specGroup _) fun specs specs' hspecs => .pure ?_
      simp only [GenDecl.bare, bareSpecs_eq_map, ← bareGroupSpecs.eq_1, hspecs, Option.map_some]
    · refine .bind (hg.spec _) fun k k' hk => .pure ?_
      simp only [GenDecl.bare, bareSpecs, hk, Option.map_none]

/-! ## Simple statements -/

/-- What a label stands before is told by kinds alone. -/
theorem labeled (label : String) : Blind StmtKind.bare (g.labeled label) := by
  refine .peekKind fun kind => ?_
  split
  · exact .pure rfl
  · exact .pure rfl
  · refine .bind .startDecorations fun _ _ _ => .bind hg.stmt fun k k' hk => .pure ?_
    simp only [StmtKind.bare, Stmt.bare, hk]

/-- The left sides of an assignment may differ in layout. -/
theorem assignment (rangeOk : Bool) (op : AssignOp) {lhs lhs' : List Expr}
    (h : lhs.map Expr.bare = lhs'.map Expr.bare) :
    Agree Simple.bare (g.assignment rangeOk lhs op) (g.assignment rangeOk lhs' op) := by
  have hlength : lhs.length = lhs'.length := by
    simpa only [List.length_map] using congrArg List.length h
  have hget : ∀ i : Nat, lhs[i]?.map Expr.bare = lhs'[i]?.map Expr.bare := by
    intro i
    rw [← List.getElem?_map, h, List.getElem?_map]
  have plain : Agree Simple.bare (do return .plain (.assign lhs op (← g.exprs)))
      (do return .plain (.assign lhs' op (← g.exprs))) := by
    refine .bind hg.exprs fun xs xs' hxs => .pure ?_
    simp only [Simple.bare, StmtKind.bare, bareExprs_eq_map, h, hxs]
  refine .next .advance (.at? fun b => ?_)
  rw [hlength]
  split
  · split
    · exact .reject _
    · refine .next .advance (.bind hg.expr fun x x' hx => .pure ?_)
      simp only [Simple.bare, hget, hx]
  · exact plain

theorem exprStmt {x x' : Expr} (h : x.bare = x'.bare) :
    Agree Simple.bare (g.exprStmt x) (g.exprStmt x') := by
  refine .peekKind fun kind => ?_
  split
  · refine .next .advance (.bind hg.expr fun y y' hy => .pure ?_)
    simp only [Simple.bare, StmtKind.bare, h, hy]
  · exact .next .advance (.pure (by simp only [Simple.bare, StmtKind.bare, h]))
  · exact .next .advance (.pure (by simp only [Simple.bare, StmtKind.bare, h]))
  · exact .pure (by simp only [Simple.bare, StmtKind.bare, h])

/-- How a statement goes on behind an expression does not depend on the layout of it. -/
theorem afterExpr (labelOk : Bool) {x x' : Expr} (h : x.bare = x'.bare) :
    Agree Simple.bare (g.afterExpr labelOk x) (g.afterExpr labelOk x') := by
  refine .atPunct fun b => ?_
  by_cases hlabel : (labelOk && b) = true
  · rw [if_pos hlabel, if_pos hlabel]
    split
    · obtain rfl := eq_ident_of_bare h
      refine .next .advance (.bind (hg.labeled _) fun k k' hk => .pure ?_)
      simp only [Simple.bare, hk]
    · rename_i hx
      split
      · exact (hx _ (eq_ident_of_bare h.symm)).elim
      · exact .reject _
  · rw [if_neg hlabel, if_neg hlabel]
    exact hg.exprStmt h

theorem exprsStmt (rangeOk labelOk : Bool) :
    Blind Simple.bare (g.exprsStmt rangeOk labelOk) := by
  refine .bind hg.exprs fun xs xs' hxs => .peekKind fun kind => ?_
  cases assignOp? kind with
  | some op => exact hg.assignment _ op hxs
  | none =>
    rcases xs with _ | ⟨x, _ | ⟨y, xs⟩⟩ <;> rcases xs' with _ | ⟨x', _ | ⟨y', xs'⟩⟩ <;>
      simp only [List.map_nil, List.map_cons, reduceCtorEq, List.cons.injEq, and_false,
        and_true] at hxs
    · exact .unexpected _
    · exact hg.afterExpr _ hxs
    · exact .unexpected _

theorem simple (rangeOk labelOk : Bool) : Blind Simple.bare (g.simple rangeOk labelOk) := by
  refine .at? fun b => ?_
  split
  · refine .next .advance (.bind hg.expr fun x x' hx => .pure ?_)
    simp only [Simple.bare, Option.map_none, hx]
  · exact hg.exprsStmt rangeOk labelOk

/-- The statement in a header may be missing. -/
theorem headerStmt (rangeOk : Bool) :
    Blind (Option.map Simple.bare) (g.headerStmt rangeOk) := by
  refine .peekKind fun kind => ?_
  split
  · exact .pure rfl
  · exact .pure rfl
  · exact .bind (hg.simple _ _) fun _ _ h => .pure (congrArg some h)

/-! ## Blocks -/

/-- Statements up to the brace or the next clause. -/
theorem stmts : Blind (List.map Stmt.bare) g.stmts := by
  refine .entries (.peekKind fun kind => ?_) _
  split
  · exact .pure rfl
  · split
    · exact .next .advance (.pure rfl)
    · refine .bind .startDecorations fun d d' _ => .bind hg.stmt fun k k' hk => ?_
      refine .peekKind fun kind => ?_
      split
      · exact stmtEnd hk d d'
      · exact stmtEnd hk d d'
      · exact stmtEnd hk d d'
      · exact .next .expectTerminator (stmtEnd hk d d')

theorem blockInner : Blind Block.bare g.blockInner := by
  refine .peek fun t t' _ => .next (.expectPunct _) (.bind .claimTrailing fun c c' _ => ?_)
  refine .bind hg.stmts fun ss ss' hss => .peekKind fun kind => ?_
  split
  · refine .peek fun _ _ _ => .bind (.closeEnclosure c c') fun _ _ _ => .next .advance (.pure ?_)
    simp only [Block.bare, bareStmts_eq_map, hss]
  · exact .rejectAt _ _ _
  · exact .unexpected _

theorem nestedBlock : Blind Block.bare g.nestedBlock :=
  .nested hg.blockInner

/-! ## Control statements -/

/-- The header of an `if`, which must have a condition. -/
theorem ifHeader : Blind (Prod.map (Option.map Stmt.bare) Expr.bare) g.ifHeader := by
  refine .atPunct fun b => ?_
  split
  · exact .reject _
  · refine .bind (hg.headerStmt _) fun s s' hs => .atSemicolon fun b => ?_
    cases b with
    | true =>
      refine .next .advance (.bind (clauseStmt hs) fun init init' hinit => ?_)
      refine .bind hg.expr fun x x' hx => .pure ?_
      simp only [Prod.map, hinit, hx]
    | false =>
      rw [if_neg Bool.false_ne_true, if_neg Bool.false_ne_true]
      split
      · obtain ⟨x', rfl, hx⟩ := eq_header_expr_of_bare hs
        exact .pure (congrArg (Prod.mk none) hx)
      · rename_i hexpr
        split
        · obtain ⟨x, rfl, -⟩ := eq_header_expr_of_bare hs.symm
          exact absurd rfl (hexpr x)
        · exact .reject _

/-- What follows an `if`. -/
theorem otherwise : Blind Else.bare g.otherwise := by
  refine .at? fun b => ?_
  split
  · refine .next .advance (.peekKind fun kind => ?_)
    split
    · refine .bind hg.ifThen fun r r' hr => .pure ?_
      obtain ⟨init, cond, body, otherwise⟩ := r
      obtain ⟨init', cond', body', otherwise'⟩ := r'
      simp only [bareIf, Prod.mk.injEq] at hr
      obtain ⟨hinit, hcond, hbody, hotherwise⟩ := hr
      simp only [Else.bare, bareOptStmt_eq_map, hinit, hcond, hbody, hotherwise]
    · refine .bind hg.nestedBlock fun b b' hb => .pure ?_
      simp only [Else.bare, hb]
    · exact .unexpected _
  · exact .pure rfl

theorem ifThenHere : Blind bareIf g.ifThenHere := by
  refine .next (.expectKeyword _) (.bind (.inHeader hg.ifHeader) fun r r' hr => ?_)
  refine .bind hg.nestedBlock fun b b' hb => .bind hg.otherwise fun e e' he => .pure ?_
  obtain ⟨hinit, hcond⟩ := Prod.mk.inj hr
  simp only [bareIf, hinit, hcond, hb, he]

/-- The clauses behind the first of a loop. -/
theorem loopClauses {first first' : Option Simple}
    (h : first.map Simple.bare = first'.map Simple.bare) :
    Agree LoopHeader.bare (g.loopClauses first) (g.loopClauses first') := by
  refine .bind (clauseStmt h) fun init init' hinit => ?_
  refine .bind (e := Option.map Expr.bare) (.atSemicolon fun b => ?_) fun cond cond' hcond => ?_
  · split
    · exact .pure rfl
    · exact .bind hg.expr fun _ _ h => .pure (congrArg some h)
  · refine .next .expectTerminator (.bind (hg.headerStmt _) fun s s' hs => ?_)
    refine .bind (clauseStmt hs) fun post post' hpost => .pure ?_
    simp only [LoopHeader.bare, hinit, hcond, hpost]

theorem loopHeader : Blind LoopHeader.bare g.loopHeader := by
  refine .bind (hg.headerStmt _) fun s s' hs => ?_
  rcases s with _ | s <;> rcases s' with _ | s' <;>
    simp only [Option.map_some, Option.map_none, reduceCtorEq, Option.some.injEq] at hs
  · refine .atSemicolon fun b => ?_
    split
    · exact .next .advance (hg.loopClauses rfl)
    · exact .pure rfl
  · cases s with
    | plain kind =>
      cases s' with
      | plain kind' =>
        refine .atSemicolon fun b => ?_
        split
        · exact .next .advance (hg.loopClauses (congrArg some hs))
        · have hkind := Simple.plain.inj hs
          cases kind with
          | expr x =>
            obtain ⟨x', rfl, hx⟩ := eq_expr_of_bare hkind
            refine .pure ?_
            simp only [LoopHeader.bare, Option.map_some, Option.map_none, hx]
          | _ =>
            cases kind' with
            | expr x' => cases hkind
            | _ => exact .reject _
      | range => cases hs
    | range =>
      cases s' with
      | plain => cases hs
      | range =>
        simp only [Simple.bare, Simple.range.injEq] at hs
        exact .pure (by simp only [LoopHeader.bare, hs])

theorem loop : Blind StmtKind.bare g.loop := by
  refine .next (.expectKeyword _) (.bind (.inHeader hg.loopHeader) fun h h' hh => ?_)
  refine .bind hg.nestedBlock fun b b' hb => ?_
  cases h <;> cases h' <;>
    simp only [LoopHeader.bare, reduceCtorEq, LoopHeader.clauses.injEq, LoopHeader.range.injEq]
      at hh
  · refine .pure ?_
    simp only [StmtKind.bare, bareOptStmt_eq_map, bareOptExpr_eq_map, hh, hb]
  · refine .pure ?_
    simp only [StmtKind.bare, bareOptExpr_eq_map, hh, hb]

/-- Clauses in braces, from the way their heads are read. -/
theorem clauses (phrase : Opened) {head : Parser ClauseHead} (h : Blind ClauseHead.bare head) :
    Blind bareSwitch (g.clauses phrase head) := by
  refine .peek fun t t' _ => .next (.expectPunct _) (.bind .claimTrailing fun c c' _ => ?_)
  refine .bind (.entries (e := Clause.bare) (.peekKind fun kind => ?_) _)
    fun cs cs' hcs => .bind (.closeEnclosure c c') fun _ _ _ =>
      .next (.expectPunct _) (.pure hcs)
  split
  · exact .pure rfl
  · refine .bind .startDecorations fun d d' _ => ?_
    refine .bind (e := ClauseHead.bare) ?_ fun h h' hh => ?_
    · split
      · exact .next .advance h
      · exact .next .advance (.pure rfl)
      · exact .rejectAt _ _ _
      · exact .unexpected _
    · refine .next (.expectPunct _) (.bind .claimTrailing fun _ _ _ => ?_)
      refine .bind hg.stmts fun ss ss' hss => .pure ?_
      simp only [Turn.map, Clause.bare, hh, hss]

/-- The statement of a switch and its tag. -/
theorem switchHeader :
    Blind (Prod.map (Option.map Stmt.bare) (Option.map Stmt.bare)) g.switchHeader := by
  refine .atPunct fun b => ?_
  split
  · exact .pure rfl
  · refine .bind (hg.headerStmt _) fun s s' hs => .atSemicolon fun b => ?_
    split
    · refine .next .advance (.bind (clauseStmt hs) fun init init' hinit => ?_)
      refine .bind (hg.headerStmt _) fun t t' ht => .bind (clauseStmt ht) fun tag tag' htag => ?_
      exact .pure (by simp only [Prod.map, hinit, htag])
    · refine .bind (clauseStmt hs) fun tag tag' htag => .pure ?_
      simp only [Prod.map, Option.map_none, htag]

theorem switch : Blind StmtKind.bare g.switch := by
  refine .next (.expectKeyword _) (.bind (.inHeader hg.switchHeader) fun r r' hr => ?_)
  obtain ⟨init, tag⟩ := r
  obtain ⟨init', tag'⟩ := r'
  obtain ⟨hinit, htag⟩ := Prod.mk.inj hr
  refine .bind (hg.clauses _ ?_) fun cs cs' hcs => ?_
  · refine .bind hg.exprs fun xs xs' hxs => .pure ?_
    simp only [ClauseHead.bare, bareExprs_eq_map, hxs]
  rcases tag with _ | ⟨kind, d⟩ <;> rcases tag' with _ | ⟨kind', d'⟩ <;>
    simp only [Option.map_some, Option.map_none, reduceCtorEq, Option.some.injEq, Stmt.bare,
      Stmt.mk.injEq, and_true] at htag
  · refine .pure ?_
    simp only [StmtKind.bare, bareOptStmt_eq_map, bareClauses_eq_map, ← bareSwitch.eq_1, hinit, hcs]
  · have hguard : isTypeSwitchGuard kind = isTypeSwitchGuard kind' := by
      rw [← isTypeSwitchGuard_bare, htag, isTypeSwitchGuard_bare]
    simp only [hguard]
    split
    · refine .pure ?_
      simp only [StmtKind.bare, bareOptStmt_eq_map, bareClauses_eq_map, Stmt.bare, htag, hinit,
        ← bareSwitch.eq_1, hcs]
    · split
      · obtain ⟨x', rfl, hx⟩ := eq_expr_of_bare htag
        refine .pure ?_
        simp only [StmtKind.bare, bareOptStmt_eq_map, bareClauses_eq_map, bareOptExpr, hx, hinit,
          ← bareSwitch.eq_1, hcs]
      · rename_i hkind
        split
        · obtain ⟨x, rfl, -⟩ := eq_expr_of_bare htag.symm
          exact absurd rfl (hkind x)
        · exact .rejectAt _ _ _

theorem select : Blind StmtKind.bare g.select := by
  refine .next (.expectKeyword _) (.bind (hg.clauses _ ?_) fun cs cs' hcs => .pure ?_)
  · refine .bind (hg.simple _ _) fun s s' hs => .bind (Simple.toStmt_blind hs) fun t t' ht => ?_
    exact .pure (by simp only [ClauseHead.bare, ht])
  · simp only [StmtKind.bare, bareClauses_eq_map, ← bareSwitch.eq_1, hcs]

/-- The forms of statements, told apart by the kind of their first token. -/
theorem stmtHere : Blind StmtKind.bare g.stmtHere := by
  refine .peekKind fun kind => ?_
  split
  iterate 3 refine .bind hg.genDecl fun d d' hd => .pure ?_; simp only [StmtKind.bare, hd]
  · refine .next .advance (.peekKind fun kind => ?_)
    split
    · exact .pure rfl
    · exact .pure rfl
    · refine .bind hg.exprs fun xs xs' hxs => .pure ?_
      simp only [StmtKind.bare, bareExprs_eq_map, hxs]
  · exact branch _
  · exact branch _
  · exact branch _
  · exact .next .advance (.pure rfl)
  · refine .bind hg.nestedBlock fun b b' hb => .pure ?_
    simp only [StmtKind.bare, hb]
  · refine .bind hg.ifThenHere fun r r' hr => .pure ?_
    simp only [bareIf, Prod.mk.injEq] at hr
    obtain ⟨hinit, hcond, hbody, hotherwise⟩ := hr
    simp only [StmtKind.bare, bareOptStmt_eq_map, hinit, hcond, hbody, hotherwise]
  · exact hg.loop
  · exact hg.switch
  · exact hg.select
  · refine .next .advance (.bind hg.expr fun x x' hx => .pure ?_)
    simp only [StmtKind.bare, hx]
  · refine .next .advance (.bind hg.expr fun x x' hx => .pure ?_)
    simp only [StmtKind.bare, hx]
  · refine .bind (hg.simple _ _) fun s s' hs => ?_
    cases s <;> cases s' <;>
      simp only [Simple.bare, reduceCtorEq, Simple.plain.injEq, Simple.range.injEq] at hs
    · exact .pure hs
    · exact .reject _

end Grammar.LayoutBlind

/-! ## The levels -/

namespace Grammar

/-- The bottom rejects everything. -/
theorem bottom_layoutBlind (budget : Nat) : (bottom budget).LayoutBlind where
  binary _ := .reject _
  unary := .reject _
  elementValue := .reject _
  type := .reject _
  block := .reject _
  stmt := .reject _
  ifThen := .reject _

/-- A level built from one that is blind to layout is so too. -/
theorem LayoutBlind.next {g : Grammar} (hg : g.LayoutBlind) : g.next.LayoutBlind where
  binary := hg.binaryFrom
  unary := hg.nestedUnary
  elementValue := hg.elementValueHere
  type := hg.nestedType
  block := hg.nestedBlock
  stmt := hg.stmtHere
  ifThen := hg.ifThenHere

/-- Every level of the grammar reads without regard to layout. -/
theorem level_layoutBlind (budget n : Nat) : (level budget n).LayoutBlind := by
  induction n with
  | zero => exact bottom_layoutBlind budget
  | succ n ih => exact ih.next

end Grammar

end HandlerSplit.Parse
