import HandlerSplit.Proofs.Parse.Canonical.Simple
import HandlerSplit.Proofs.Tree.Scripts
/-!
# Reading headers

The clauses between a control keyword and the brace of the body are read one by one, up to that
brace (`Yields.ifHeader`, `Yields.loopHeader`, `Yields.rangeHeader`, `Yields.switchHeader`).
-/

namespace HandlerSplit.Parse

open Script (line)

variable {g : Grammar} {ctx : Context} {rest : Script}

/-! ## Clauses -/

/-- A statement of a header, of which the expressions are read. -/
structure InnerClause (g : Grammar) (ctx : Context) (s : Stmt) : Prop where
  decs : s.decs = .plain
  simple : s.kind.Simple
  exprs : ∀ x ∈ s.kind.exprs, Inner g ctx x
  turns : s.kind.exprs.length ≤ g.budget

/-- A condition is a clause that is an expression. -/
theorem Inner.clause {x : Expr} (h : Inner g ctx x) (hn : 0 < g.budget) :
    InnerClause g ctx (.plain (.expr x)) :=
  ⟨rfl, .expr x, List.forall_mem_singleton.mpr h, hn⟩

/-- The tokens behind a clause. -/
def endsClause : TokenKind → Bool
  | .semicolon _ | .punct .lbrace => true
  | _ => false

/-- What ends a clause of a header ends the statement in it. -/
theorem endsSimple_of_endsClause {k : TokenKind} (hk : endsClause k = true)
    (hlevel : ctx.exprLevel < 0) : endsSimple ctx.exprLevel k = true := by
  cases k with
  | semicolon => rfl
  | punct mark =>
    cases mark with
    | lbrace => exact decide_eq_true hlevel
    | _ => cases hk
  | _ => cases hk

/-- What starts an expression ends no clause. -/
theorem endsClause_of_startsExpr {k : TokenKind} (hk : startsExpr k = true) :
    endsClause k = false := by
  cases k with
  | punct mark =>
    cases mark with
    | lbrace => cases hk
    | _ => rfl
  | semicolon => cases hk
  | _ => rfl

/-- A clause that is not empty. -/
theorem Yields.headerStmt {k : TokenKind} (hk : endsClause k = false) {s : Script} {rangeOk : Bool}
    {semi : Bool} {a : Simple} {v : View}
    (h : Yields (g.simple rangeOk false) (Script.view (.token k :: s) semi 0 ctx) a v) :
    Yields (g.headerStmt rangeOk) (Script.view (.token k :: s) semi 0 ctx) (some a) v := by
  refine .peekToken ?_
  split
  · cases hk
  · cases hk
  · exact .bind h .pure

/-- A clause up to the semicolon or brace behind it. -/
theorem Yields.clause (rest : Script) {s : Option Stmt} (h : ∀ t ∈ s, InnerClause g ctx t)
    (hlevel : ctx.exprLevel < 0) (rangeOk : Bool) {k : TokenKind} (hk : endsClause k = true)
    (semi : Bool) :
    Yields (g.headerStmt rangeOk)
      (Script.view (line ((clauseSpelling s).getD []) ++ .token k :: rest) semi 0 ctx)
      (s.map fun t => .plain t.kind) (Script.view (.token k :: rest) true 0 ctx) := by
  cases s with
  | none =>
    refine .peekToken ?_
    cases k with
    | semicolon => exact .pure
    | punct mark =>
      cases mark with
      | lbrace => exact .pure
      | _ => cases hk
    | _ => cases hk
  | some t =>
    obtain ⟨-, hsimple, hexprs, hturns⟩ := h t rfl
    have hread := Parses.simple hsimple hexprs hturns rangeOk false semi 0 (.token k :: rest)
      (endsSimple_of_endsClause hk hlevel)
    obtain ⟨k', ks, hks, hk'⟩ := startsExpr_simple hsimple fun x hx => (hexprs x hx).starts
    show Yields _ (Script.view (line t.kind.spelling ++ _) semi 0 ctx) _ _
    rw [hks] at hread ⊢
    exact .headerStmt (endsClause_of_startsExpr hk') hread

/-- A clause as a statement. -/
theorem Yields.clauseStmt {s : Option Stmt} (h : ∀ t ∈ s, InnerClause g ctx t) {v : View} :
    Yields (Grammar.clauseStmt (s.map fun t => .plain t.kind)) v s v := by
  cases s with
  | none => exact .pure
  | some t =>
    have hdecs := (h t rfl).decs
    obtain ⟨kind, d⟩ := t
    obtain rfl : d = .plain := hdecs
    exact .bind .pure .pure

/-- A clause that is not empty does not start with the brace of the body. -/
theorem Yields.notAtBrace {β : Type} {s : Stmt} (h : InnerClause g ctx s) {k : Bool → Parser β}
    {b : β} {v : View}
    (hk : Yields (k false) (Script.view (line s.kind.spelling ++ rest) false 0 ctx) b v) :
    Yields (atPunct .lbrace >>= k) (Script.view (line s.kind.spelling ++ rest) false 0 ctx) b v := by
  obtain ⟨k', ks, hks, hk'⟩ := startsExpr_simple h.simple fun x hx => (h.exprs x hx).starts
  rw [hks] at hk ⊢
  refine .atNe ?_ hk
  rintro rfl
  cases hk'

/-! ## Headers -/

section

variable (rest) (hlevel : ctx.exprLevel < 0)

include hlevel

/-- The header of an `if` statement. -/
theorem Yields.ifHeader (hn : 0 < g.budget) {init : Option Stmt} {cond : Expr}
    (hinit : ∀ s ∈ init, InnerClause g ctx s) (hcond : Inner g ctx cond) :
    Yields g.ifHeader (Script.view (line (headerSpelling false (clauseSpelling init)
      (some cond.spelling) none) ++ .token (.punct .lbrace) :: rest) false 0 ctx) (init, cond)
      (Script.view (.token (.punct .lbrace) :: rest) true 0 ctx) := by
  cases init with
  | none =>
    have hclause := hcond.clause hn
    have hread := Yields.clause rest (s := some _) (by rintro _ ⟨⟩; exact hclause) hlevel
      false (k := .punct .lbrace) rfl false
    exact .notAtBrace hclause (.bind hread (.atSemicolon .pure))
  | some s =>
    have hinit' := Yields.clause (line cond.spelling ++ .token (.punct .lbrace) :: rest) hinit hlevel
      false (k := .semicolon false) rfl false
    have hread := hcond.parses false 0 (.token (.punct .lbrace) :: rest)
      (endsExprs_of_endsSimple (endsSimple_of_endsClause rfl hlevel)).1
    have hspelling : line (headerSpelling false (clauseSpelling (some s)) (some cond.spelling) none) ++
        .token (.punct .lbrace) :: rest = line s.kind.spelling ++ .token (.semicolon false) ::
          (line cond.spelling ++ .token (.punct .lbrace) :: rest) := by
      simp [headerSpelling, clauseSpelling]
    rw [hspelling]
    exact .notAtBrace (hinit s rfl) (.bind hinit' (.atSemicolon (.next (.bind (.clauseStmt hinit)
      (.bind hread .pure)))))

/-- The clauses of a loop behind its first semicolon. -/
theorem Yields.loopClauses {init post : Option Stmt} {cond : Option Expr}
    (hinit : ∀ s ∈ init, InnerClause g ctx s) (hcond : ∀ x ∈ cond, Inner g ctx x)
    (hpost : ∀ s ∈ post, InnerClause g ctx s) :
    Yields (g.loopClauses (init.map fun s => .plain s.kind))
      (Script.view (line ((cond.map Expr.spelling).getD []) ++ .token (.semicolon false) ::
        (line ((clauseSpelling post).getD []) ++ .token (.punct .lbrace) :: rest)) false 0 ctx)
      (.clauses init cond post) (Script.view (.token (.punct .lbrace) :: rest) true 0 ctx) := by
  have hlast := Yields.clause rest hpost hlevel false (k := .punct .lbrace) rfl false
  have hposts : Yields (do
      Parse.expectTerminator
      let post ← Grammar.clauseStmt (← g.headerStmt false)
      return .clauses init cond post : Parser LoopHeader)
      (Script.view (.token (.semicolon false) ::
        (line ((clauseSpelling post).getD []) ++ .token (.punct .lbrace) :: rest)) true 0 ctx)
      (.clauses init cond post) (Script.view (.token (.punct .lbrace) :: rest) true 0 ctx) :=
    .expectSemicolon (.bind hlast (.bind (.clauseStmt hpost) .pure))
  refine .bind (.clauseStmt hinit) ?_
  cases cond with
  | none => exact .bind (.atSemicolon .pure) hposts
  | some x =>
    have hx := hcond x rfl
    obtain ⟨k, ks, hks, hk⟩ := hx.starts
    have hread := hx.parses false 0 (.token (.semicolon false) ::
      (line ((clauseSpelling post).getD []) ++ .token (.punct .lbrace) :: rest)) rfl
    show Yields _ (Script.view (line x.spelling ++ _) false 0 ctx) _ _
    rw [hks] at hread ⊢
    have hsemicolon : k.isSemicolon = false := by
      cases k with
      | semicolon => cases hk
      | _ => rfl
    refine .bind (.atSemicolon ?_) hposts
    show Yields (if k.isSemicolon = true then _ else _) _ _ _
    rw [hsemicolon, if_neg Bool.false_ne_true]
    exact .bind hread .pure

/-- The header of a loop with clauses. -/
theorem Yields.loopHeader (hn : 0 < g.budget) {init post : Option Stmt} {cond : Option Expr}
    (hinit : ∀ s ∈ init, InnerClause g ctx s) (hcond : ∀ x ∈ cond, Inner g ctx x)
    (hpost : ∀ s ∈ post, InnerClause g ctx s) :
    Yields g.loopHeader (Script.view (line (headerSpelling true (clauseSpelling init)
      (cond.map Expr.spelling) (clauseSpelling post)) ++ .token (.punct .lbrace) :: rest) false 0 ctx)
      (.clauses init cond post) (Script.view (.token (.punct .lbrace) :: rest) true 0 ctx) := by
  by_cases hplain : ((clauseSpelling init).isNone && (clauseSpelling post).isNone) = true
  · -- a condition by itself, or nothing
    obtain ⟨rfl, rfl⟩ : init = none ∧ post = none := by
      cases init <;> cases post <;> first | exact ⟨rfl, rfl⟩ | cases hplain
    cases cond with
    | none => exact .bind (.peekToken .pure) (.atSemicolon .pure)
    | some x =>
      have hclause := (hcond x rfl).clause hn
      have hread := Yields.clause rest (s := some _) (by rintro _ ⟨⟩; exact hclause) hlevel
        true (k := .punct .lbrace) rfl false
      exact .bind hread (.atSemicolon .pure)
  · have hfirst := Yields.clause (line ((cond.map Expr.spelling).getD []) ++
        .token (.semicolon false) :: (line ((clauseSpelling post).getD []) ++
          .token (.punct .lbrace) :: rest)) hinit hlevel true (k := .semicolon false) rfl false
    have hclauses := Yields.loopClauses rest hlevel hinit hcond hpost
    rw [headerSpelling, if_neg hplain, if_pos rfl]
    simp only [Script.line_append, Script.line_cons, List.append_assoc, List.cons_append,
      List.nil_append]
    refine .bind hfirst ?_
    cases init <;> exact .atSemicolon (.next hclauses)

/-- The header of a switch on values. -/
theorem Yields.switchHeader (hn : 0 < g.budget) {init : Option Stmt} {tag : Option Expr}
    (hinit : ∀ s ∈ init, InnerClause g ctx s) (htag : ∀ x ∈ tag, Inner g ctx x) :
    Yields g.switchHeader (Script.view (line (headerSpelling false (clauseSpelling init)
      (tag.map Expr.spelling) none) ++ .token (.punct .lbrace) :: rest) false 0 ctx)
      (init, tag.map fun x => .plain (.expr x)) (Script.view (.token (.punct .lbrace) :: rest) true 0 ctx) := by
  have hclauses : ∀ s ∈ tag.map fun x => Stmt.plain (.expr x), InnerClause g ctx s := by
    cases tag with
    | none => exact nofun
    | some x =>
      rintro _ ⟨⟩
      exact (htag x rfl).clause hn
  have hspelling : tag.map Expr.spelling = clauseSpelling (tag.map fun x => .plain (.expr x)) := by
    cases tag <;> rfl
  have hlast := Yields.clause rest hclauses hlevel false (k := .punct .lbrace) rfl false
  rw [hspelling]
  cases init with
  | none =>
    cases tag with
    | none => exact .atTrue rfl .pure
    | some x =>
      exact .notAtBrace (hclauses _ rfl) (.bind hlast (.atSemicolon (.bind (.clauseStmt hclauses) .pure)))
  | some s =>
    have hinit' := Yields.clause
      (line ((clauseSpelling (tag.map fun x => .plain (.expr x))).getD []) ++
        .token (.punct .lbrace) :: rest) hinit hlevel false (k := .semicolon false) rfl false
    have hheader (c : Option (List TokenKind)) :
        line (headerSpelling false (clauseSpelling (some s)) c none) ++ .token (.punct .lbrace) :: rest =
          line s.kind.spelling ++ .token (.semicolon false) ::
            (line (c.getD []) ++ .token (.punct .lbrace) :: rest) := by
      simp [headerSpelling, clauseSpelling]
    rw [hheader]
    exact .notAtBrace (hinit s rfl) (.bind hinit' (.atSemicolon (.next (.bind (.clauseStmt hinit)
      (.bind hlast (.bind (.clauseStmt hclauses) .pure))))))

/-- A range clause behind its variables. -/
theorem Yields.rangeOf {x : Expr} (hx : Inner g ctx x) {lhs : List Expr}
    (hlhs : lhs.length ≤ 2) (define : Bool) :
    Yields (g.assignment true lhs (if define then .define else .assign))
      (Script.view (.token (.punct (if define then .define else .assign)) :: .token (.keyword .range) ::
        (line x.spelling ++ .token (.punct .lbrace) :: rest)) true 0 ctx)
      (.range lhs[0]? lhs[1]? define x) (Script.view (.token (.punct .lbrace) :: rest) true 0 ctx) := by
  have hread := hx.parses false 0 (.token (.punct .lbrace) :: rest)
    (endsExprs_of_endsSimple (endsSimple_of_endsClause rfl hlevel)).1
  have htwo : ¬lhs.length > 2 := Nat.not_lt.mpr hlhs
  cases define with
  | false =>
    refine .next (.atTrue rfl ?_)
    show Yields (if lhs.length > 2 then _ else _) _ _ _
    rw [if_neg htwo]
    exact .next (.bind hread .pure)
  | true =>
    refine .next (.atTrue rfl ?_)
    show Yields (if lhs.length > 2 then _ else _) _ _ _
    rw [if_neg htwo]
    exact .next (.bind hread .pure)

/-- The header of a loop over a range. -/
theorem Yields.rangeHeader {key value : Option Expr} (hkey : ∀ y ∈ key, Inner g ctx y)
    (hvalue : ∀ y ∈ value, Inner g ctx y) (hvars : value.isSome = true → key.isSome = true)
    {define : Bool} (hdefine : define = true → key.isSome = true) {x : Expr} (hx : Inner g ctx x)
    (hbudget : 2 ≤ g.budget) :
    Yields g.loopHeader (Script.view (line (varsSpelling key value define ++ [.keyword .range] ++
      x.spelling) ++ .token (.punct .lbrace) :: rest) false 0 ctx) (.range key value define x)
      (Script.view (.token (.punct .lbrace) :: rest) true 0 ctx) := by
  cases key with
  | none =>
    have hread := hx.parses false 0 (.token (.punct .lbrace) :: rest)
      (endsExprs_of_endsSimple (endsSimple_of_endsClause rfl hlevel)).1
    cases value with
    | some => cases hvars rfl
    | none =>
      cases define with
      | true => cases hdefine rfl
      | false => exact .bind (.headerStmt rfl (.atTrue rfl (.next (.bind hread .pure)))) .pure
  | some k =>
    have hlhs : ∀ y ∈ k :: value.toList, Inner g ctx y := by
      refine List.forall_mem_cons.mpr ⟨hkey k rfl, fun y hy => hvalue y (Option.mem_toList.mp hy)⟩
    have hlength : (k :: value.toList).length ≤ 2 := by
      cases value <;> simp
    have hget : (k :: value.toList)[0]? = some k ∧ (k :: value.toList)[1]? = value := by
      cases value <;> exact ⟨rfl, rfl⟩
    have hrange := Yields.rangeOf rest hlevel hx hlength define
    rw [hget.1, hget.2] at hrange
    have hexprs := Parses.exprs (List.cons_ne_nil k value.toList) hlhs (Nat.le_trans hlength hbudget)
      false 0 (.token (.punct (if define then .define else .assign)) :: .token (.keyword .range) ::
        (line x.spelling ++ .token (.punct .lbrace) :: rest)) (by cases define <;> exact ⟨rfl, nofun⟩)
    have hspelling : line (varsSpelling (some k) value define ++ [.keyword .range] ++ x.spelling) ++
        .token (.punct .lbrace) :: rest =
          line (separated ((k :: value.toList).map Expr.spelling)) ++
            .token (.punct (if define then .define else .assign)) :: .token (.keyword .range) ::
              (line x.spelling ++ .token (.punct .lbrace) :: rest) := by
      simp [varsSpelling, rangeOpWords]
    obtain ⟨t, ts, hts, ht⟩ := (hkey k rfl).starts
    have hstmt : Yields (g.exprsStmt true false) (Script.view (line (separated
        ((k :: value.toList).map Expr.spelling)) ++
          .token (.punct (if define then .define else .assign)) :: .token (.keyword .range) ::
            (line x.spelling ++ .token (.punct .lbrace) :: rest)) false 0 ctx)
        (.range (some k) value define x) (Script.view (.token (.punct .lbrace) :: rest) true 0 ctx) := by
      refine .bind hexprs (.peekToken ?_)
      cases define <;> exact hrange
    rw [hspelling]
    rw [separated_cons, hts] at hstmt ⊢
    exact .bind (.headerStmt (endsClause_of_startsExpr ht) (.simpleOf ht hstmt)) .pure

end

end HandlerSplit.Parse
