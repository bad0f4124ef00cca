import HandlerSplit.Proofs.Parse.Canonical.Expr
import HandlerSplit.Proofs.Tree.CanonicalFile
/-!
# Reading simple statements

Expressions with commas between them, and the statements that may stand in a header, are read up to
the semicolon or the brace that ends them (`Parses.simple`).
-/

namespace HandlerSplit.Parse

open Script (line)

variable {g : Grammar} {ctx : Context} {rest : Script}

/-! ## Expressions with commas -/

/-- The tokens behind a list of expressions. -/
def endsExprs (exprLevel : Int) (k : TokenKind) : Prop :=
  continuesExpr 1 exprLevel k = false ∧ k ≠ .punct .comma

/-- The expressions behind the first, each with a comma before it. -/
theorem Yields.afterCommas {xs : List Expr} (h : ∀ x ∈ xs, Inner g ctx x) (hn : xs.length < g.budget)
    (hrest : endsExprs ctx.exprLevel (rest.first true)) :
    Yields (g.afterCommas g.expr)
      (Script.view (line (xs.flatMap fun x => .punct .comma :: x.spelling) ++ rest) true 0 ctx) xs
      (rest.view true 0 ctx) := by
  rw [Grammar.afterCommas, Grammar.entries]
  generalize g.budget = n at hn
  obtain ⟨n, rfl⟩ := Nat.exists_eq_succ_of_ne_zero (Nat.ne_of_gt (Nat.zero_lt_of_lt hn))
  induction xs generalizing n with
  | nil => exact .stop (.atNe hrest.2 .pure)
  | cons x xs ih =>
    obtain ⟨hx, hxs⟩ := List.forall_mem_cons.mp h
    obtain ⟨n, rfl⟩ := Nat.exists_eq_succ_of_ne_zero
      (Nat.ne_of_gt (Nat.zero_lt_of_lt (Nat.lt_of_succ_lt_succ hn)))
    have hfollow : continuesExpr 1 ctx.exprLevel
        (Script.first true (line (xs.flatMap fun x => .punct .comma :: x.spelling) ++ rest)) =
          false := by
      cases xs with
      | nil => exact hrest.1
      | cons => rfl
    have hread := hx.parses false 0 _ hfollow
    rw [List.flatMap_cons, List.cons_append, Script.line_cons, Script.line_append, List.cons_append,
      List.append_assoc]
    exact .more (.atTrue rfl (.next (.bind hread .pure))) (ih hxs n (Nat.lt_of_succ_lt_succ hn))

/-- Behind the first expression of a list each one stands behind a comma. -/
theorem separated_cons (x : Expr) (xs : List Expr) :
    separated ((x :: xs).map Expr.spelling) =
      x.spelling ++ xs.flatMap fun x => .punct .comma :: x.spelling := by
  induction xs generalizing x with
  | nil => simp
  | cons y xs ih =>
    rw [List.map_cons, List.map_cons, separated_cons_cons, ← List.map_cons, ih, List.flatMap_cons]
    rfl

/-- Expressions with commas between them. -/
theorem Parses.exprs {xs : List Expr} (hne : xs ≠ []) (h : ∀ x ∈ xs, Inner g ctx x)
    (hn : xs.length ≤ g.budget) :
    Parses g.exprs (line (separated (xs.map Expr.spelling))) xs ctx (endsExprs ctx.exprLevel) := by
  intro semi gap rest hrest
  obtain ⟨x, xs, rfl⟩ := List.exists_cons_of_ne_nil hne
  obtain ⟨hx, hxs⟩ := List.forall_mem_cons.mp h
  have hfollow : continuesExpr 1 ctx.exprLevel
      (Script.first true (line (xs.flatMap fun x => .punct .comma :: x.spelling) ++ rest)) =
        false := by
    cases xs with
    | nil => exact hrest.1
    | cons => rfl
  rw [separated_cons, Script.line_append, List.append_assoc]
  exact .bind (hx.parses semi gap _ hfollow) (.bind (.afterCommas hxs hn hrest) .pure)

/-! ## Simple statements -/

/-- The tokens behind a simple statement. In a header the brace of the body is one of them. -/
def endsSimple (exprLevel : Int) : TokenKind → Bool
  | .semicolon _ => true
  | .punct .lbrace => decide (exprLevel < 0)
  | _ => false

/-- What ends a simple statement ends its expressions. -/
theorem endsExprs_of_endsSimple {exprLevel : Int} {k : TokenKind} (h : endsSimple exprLevel k = true) :
    endsExprs exprLevel k := by
  cases k with
  | semicolon => exact ⟨rfl, nofun⟩
  | punct mark =>
    cases mark with
    | lbrace => exact ⟨decide_eq_false (Int.not_le.mpr (of_decide_eq_true h)), nofun⟩
    | _ => cases h
  | _ => cases h

/-- A statement that starts with a single expression. -/
theorem Yields.exprsStmt {x : Expr} (hx : Inner g ctx x) (hn : 0 < g.budget) (rangeOk labelOk : Bool)
    {a : Simple} {v : View} (hfollow : endsExprs ctx.exprLevel (rest.first true))
    (hop : assignOp? (rest.first true) = none)
    (h : Yields (g.afterExpr labelOk x) (rest.view true 0 ctx) a v) (semi : Bool) (gap : Nat) :
    Yields (g.exprsStmt rangeOk labelOk) (Script.view (line x.spelling ++ rest) semi gap ctx) a v := by
  have hread := Parses.exprs (List.cons_ne_nil x []) (List.forall_mem_singleton.mpr hx) hn semi gap
    rest hfollow
  rw [List.map_singleton, separated_singleton] at hread
  refine .bind hread (.peekKind ?_)
  rw [hop]
  exact h

/-- An expression that is a statement. -/
theorem Yields.exprStmt (x : Expr) (labelOk : Bool)
    (hrest : endsSimple ctx.exprLevel (rest.first true) = true) :
    Yields (g.afterExpr labelOk x) (rest.view true 0 ctx) (.plain (.expr x)) (rest.view true 0 ctx) := by
  have hcolon : rest.first true ≠ .punct .colon := by
    intro h
    rw [h] at hrest
    cases hrest
  refine .atNe hcolon ?_
  rw [Bool.and_false, if_neg Bool.false_ne_true]
  refine .peekKind ?_
  generalize rest.first true = k at hrest
  split
  · cases hrest
  · cases hrest
  · cases hrest
  · exact .pure

/-- An assignment to `lhs`, from its operator on. -/
theorem Yields.assignment (rangeOk : Bool) (lhs : List Expr) (op : AssignOp) {rhs : List Expr}
    (hne : rhs ≠ []) (h : ∀ x ∈ rhs, Inner g ctx x) (hn : rhs.length ≤ g.budget)
    (hrest : endsSimple ctx.exprLevel (rest.first true) = true) :
    Yields (g.assignment rangeOk lhs op)
      (Script.view (.token op.kind :: (line (separated (rhs.map Expr.spelling)) ++ rest)) true 0 ctx)
      (.plain (.assign lhs op rhs)) (rest.view true 0 ctx) := by
  have hsemi : op.kind.endsStatement = false := by
    cases op <;> rfl
  have hread := Parses.exprs hne h hn false 0 rest (endsExprs_of_endsSimple hrest)
  obtain ⟨x, xs, rfl⟩ := List.exists_cons_of_ne_nil hne
  obtain ⟨k, ks, hks, hk⟩ := (h x List.mem_cons_self).starts
  have hrange : Script.first false (line (separated ((x :: xs).map Expr.spelling)) ++ rest) ≠
      .keyword .range := by
    rw [separated_cons, hks]
    rintro rfl
    cases hk
  refine .next ?_
  rw [hsemi]
  refine .atNe hrange ?_
  rw [Bool.and_false, if_neg Bool.false_ne_true]
  exact .bind hread .pure

/-- A simple statement that starts with an expression is no range clause. -/
theorem Yields.simpleOf {k : TokenKind} (hk : startsExpr k = true) {s : Script} {rangeOk labelOk : Bool}
    {semi : Bool} {gap : Nat} {a : Simple} {v : View}
    (h : Yields (g.exprsStmt rangeOk labelOk) (Script.view (.token k :: s) semi gap ctx) a v) :
    Yields (g.simple rangeOk labelOk) (Script.view (.token k :: s) semi gap ctx) a v := by
  refine .atNe ?_ ?_
  · rintro rfl
    cases hk
  · rw [Bool.and_false, if_neg Bool.false_ne_true]
    exact h

/-- An expression alone, up to what ends it. -/
theorem Yields.exprOf {x : Expr} (hx : Inner g ctx x) (hn : 0 < g.budget) (rangeOk labelOk : Bool)
    (semi : Bool) (gap : Nat) (hrest : endsSimple ctx.exprLevel (rest.first true) = true) :
    Yields (g.exprsStmt rangeOk labelOk)
      (Script.view (line (StmtKind.expr x).spelling ++ rest) semi gap ctx) (.plain (.expr x))
      (rest.view true 0 ctx) := by
  have hop : assignOp? (rest.first true) = none := by
    generalize rest.first true = k at hrest
    cases k with
    | punct mark =>
      cases mark with
      | lbrace => rfl
      | _ => cases hrest
    | semicolon => rfl
    | _ => cases hrest
  exact .exprsStmt hx hn rangeOk labelOk (endsExprs_of_endsSimple hrest) hop
    (.exprStmt x labelOk hrest) semi gap

/-- An assignment or definition. -/
theorem Yields.assign {lhs rhs : List Expr} {op : AssignOp} (hlhs : lhs ≠ [])
    (hrhs : rhs ≠ []) (hl : ∀ x ∈ lhs, Inner g ctx x) (hr : ∀ x ∈ rhs, Inner g ctx x)
    (hn : lhs.length + rhs.length ≤ g.budget) (rangeOk labelOk : Bool) (semi : Bool) (gap : Nat)
    (hrest : endsSimple ctx.exprLevel (rest.first true) = true) :
    Yields (g.exprsStmt rangeOk labelOk)
      (Script.view (line (StmtKind.assign lhs op rhs).spelling ++ rest) semi gap ctx)
      (.plain (.assign lhs op rhs)) (rest.view true 0 ctx) := by
  have hsign : endsExprs ctx.exprLevel op.kind ∧ assignOp? op.kind = some op := by
    cases op <;> exact ⟨⟨rfl, nofun⟩, rfl⟩
  have hleft := Parses.exprs hlhs hl (by omega) semi gap
    (.token op.kind :: (line (separated (rhs.map Expr.spelling)) ++ rest)) hsign.1
  have hright := Yields.assignment rangeOk lhs op hrhs hr (by omega) hrest
  simp only [StmtKind.spelling, Script.line_append, Script.line_cons,
    List.append_assoc, List.cons_append, List.nil_append]
  refine .bind hleft (.peekToken ?_)
  rw [hsign.2]
  exact hright

/-- An increment or decrement is read as it is spelled. -/
theorem Yields.incDec {x : Expr} (up : Bool) (hx : Inner g ctx x) (hn : 0 < g.budget)
    (rangeOk labelOk : Bool) (semi : Bool) (gap : Nat) :
    Yields (g.exprsStmt rangeOk labelOk)
      (Script.view (line (StmtKind.incDec x up).spelling ++ rest) semi gap ctx)
      (.plain (.incDec x up)) (rest.view true 0 ctx) := by
  simp only [StmtKind.spelling, Script.line_append, Script.line_cons, Script.line_nil,
    List.append_assoc, List.cons_append, List.nil_append]
  refine .exprsStmt hx hn rangeOk labelOk ?_ ?_ (.atFalse ?_ ?_) semi gap
  · cases up <;> exact ⟨rfl, nofun⟩
  · cases up <;> rfl
  · cases up <;> rfl
  · rw [Bool.and_false]
    cases up <;> exact .peekToken (.next .pure)

/-- A send statement is read as it is spelled. -/
theorem Yields.send {chan value : Expr} (hchan : Inner g ctx chan) (hvalue : Inner g ctx value)
    (hn : 0 < g.budget) (rangeOk labelOk : Bool) (semi : Bool) (gap : Nat)
    (hrest : endsSimple ctx.exprLevel (rest.first true) = true) :
    Yields (g.exprsStmt rangeOk labelOk)
      (Script.view (line (StmtKind.send chan value).spelling ++ rest) semi gap ctx)
      (.plain (.send chan value)) (rest.view true 0 ctx) := by
  have hread := hvalue.parses false 0 rest (endsExprs_of_endsSimple hrest).1
  simp only [StmtKind.spelling, Script.line_append, Script.line_cons,
    List.append_assoc, List.cons_append, List.nil_append]
  refine .exprsStmt hchan hn rangeOk labelOk ?_ rfl (.atFalse rfl ?_) semi gap
  · exact ⟨rfl, nofun⟩
  · rw [Bool.and_false]
    exact .peekToken (.next (.bind hread .pure))

/-- A simple statement, up to what ends it. -/
theorem Parses.simple {kind : StmtKind} (hkind : kind.Simple) (h : ∀ x ∈ kind.exprs, Inner g ctx x)
    (hn : kind.exprs.length ≤ g.budget) (rangeOk labelOk : Bool) :
    Parses (g.simple rangeOk labelOk) (line kind.spelling) (.plain kind) ctx
      (endsSimple ctx.exprLevel · = true) := by
  intro semi gap rest hrest
  have hexprs : Yields (g.exprsStmt rangeOk labelOk)
      (Script.view (line kind.spelling ++ rest) semi gap ctx) (.plain kind)
      (rest.view true 0 ctx) := by
    cases hkind with
    | expr x => exact .exprOf (h x (List.mem_singleton_self x)) hn _ _ _ _ hrest
    | assign hlhs _ hrhs =>
      obtain ⟨hl, hr⟩ := List.forall_mem_append.mp h
      exact .assign hlhs hrhs hl hr (by rwa [← List.length_append]) _ _ _ _ hrest
    | incDec x up => exact .incDec up (h x (List.mem_singleton_self x)) hn _ _ _ _
    | send chan value =>
      obtain ⟨hchan, hvalue⟩ := List.forall_mem_cons.mp h
      exact .send hchan (List.forall_mem_singleton.mp hvalue)
        (Nat.lt_of_lt_of_le Nat.zero_lt_two hn) _ _ _ _ hrest
  obtain ⟨k, ks, hks, hk⟩ := startsExpr_simple hkind fun x hx => (h x hx).starts
  rw [hks] at hexprs ⊢
  exact .simpleOf hk hexprs

end HandlerSplit.Parse
