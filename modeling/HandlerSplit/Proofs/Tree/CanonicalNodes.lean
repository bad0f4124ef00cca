import HandlerSplit.Proofs.Tree.CanonicalFile
import HandlerSplit.Proofs.Tree.Nodes
/-!
# The statements of a canonical tree

No statement stands in a canonical expression. Every statement that reading meets in a canonical
statement is canonical itself, and is not nested more deeply (`StmtKind.Canonical.nodes`).
-/

namespace HandlerSplit

open Event (Nodes)

/-! ## Expressions -/

section

variable {Q : Stmt → Prop}

/-- The type name of a composite literal has no statements. -/
theorem Expr.nodes_of_isTypeName {x : Expr} (h : x.isTypeName = true) :
    Nodes (fun _ => True) Q x.events := by
  cases x with
  | ident n => exact (Nodes.names [n]).aroundExpr trivial
  | selector y n =>
    cases y with
    | ident p =>
      exact (((Nodes.names [p]).aroundExpr trivial).append (.names [n])).aroundExpr trivial
    | _ => cases h
  | _ => cases h

/-- An element has no statements if its parts have none. -/
theorem Expr.nodes_of_parts {x : Expr} (h : ∀ y ∈ x.parts, Nodes (fun _ => True) Q y.events) :
    Nodes (fun _ => True) Q x.events := by
  cases x with
  | keyValue k v =>
    obtain ⟨hk, hv⟩ := List.forall_mem_cons.mp h
    exact (hk.append (hv v List.mem_cons_self)).aroundExpr trivial
  | _ => exact h _ List.mem_cons_self

/-- A canonical expression has no statements. -/
theorem Expr.Canonical.nodes {x : Expr} (h : x.Canonical) : Nodes (fun _ => True) Q x.events := by
  induction h with
  | @ident n => exact (Nodes.names [n]).aroundExpr trivial
  | int | string => exact Nodes.nil.aroundExpr trivial
  | paren _ _ ih => exact ih.aroundExpr trivial
  | @selector _ n _ _ _ _ ih => exact (ih.append (.names [n])).aroundExpr trivial
  | index _ _ _ ih ihkey => exact (ih.append ihkey).aroundExpr trivial
  | slice _ _ _ _ _ _ ih ihlow ihhigh ihmax =>
    exact (((ih.append (.optExpr ihlow)).append (.optExpr ihhigh)).append
      (.optExpr ihmax)).aroundExpr trivial
  | call _ _ _ _ ih ihargs => exact (ih.append (.elements ihargs)).aroundExpr trivial
  | composite htype _ _ ih =>
    exact ((nodes_of_isTypeName htype).append
      (.elements fun e he => nodes_of_parts (ih e he))).aroundExpr trivial
  | unary _ _ ih => exact ih.aroundExpr trivial
  | star _ _ ih => exact ih.aroundExpr trivial
  | binary _ _ _ _ ihx ihy => exact (ihx.append ihy).aroundExpr trivial

end

/-! ## Statements -/

/-- A canonical statement with a bound on its nesting. -/
structure Stmt.CanonicalWithin (n : Nat) (t : Stmt) : Prop where
  canonical : t.kind.Canonical
  nesting : t.kind.nesting ≤ n

variable {n : Nat}

/-- The statements that reading meets are canonical, with a bound on their nesting. -/
abbrev Event.CanonicalWithin (n : Nat) (es : List Event) : Prop :=
  Nodes (fun _ => True) (Stmt.CanonicalWithin n) es

/-- Canonical expressions hold canonical nodes. -/
theorem canonicalWithin_exprs {xs : List Expr} (h : ∀ x ∈ xs, x.Canonical) :
    Event.CanonicalWithin n (exprEvents xs) :=
  .exprs fun x hx => (h x hx).nodes

/-- An expression that may be missing holds canonical nodes. -/
theorem canonicalWithin_optExpr {P : Expr → Prop} {x : Option Expr}
    (hcanonical : ∀ y, P y → y.Canonical) (h : ∀ y ∈ x, P y) :
    Event.CanonicalWithin n (optExprEvents x) :=
  .optExpr fun y hy => (hcanonical y (h y hy)).nodes

/-- What is inside a simple statement are its expressions. -/
theorem StmtKind.Simple.inside_eq {k : StmtKind} (h : k.Simple) :
    k.inside = exprEvents k.exprs := by
  have happend (xs ys : List Expr) : exprEvents (xs ++ ys) = exprEvents xs ++ exprEvents ys := by
    induction xs with
    | nil => rfl
    | cons x xs ih => rw [List.cons_append, exprEvents, ih, exprEvents, List.append_assoc]
  cases h with
  | expr x => exact (List.append_nil _).symm
  | @assign lhs _ rhs => exact (happend lhs rhs).symm
  | incDec x => exact (List.append_nil _).symm
  | send c v => exact congrArg (c.events ++ ·) (List.append_nil v.events).symm

/-- A statement that is canonical, as one of what reading meets. -/
theorem canonicalWithin_stmt {t : Stmt} (h : t.kind.Canonical) (hnesting : t.kind.nesting ≤ n)
    (hinside : Event.CanonicalWithin n t.kind.inside) : Event.CanonicalWithin n t.events := by
  obtain ⟨k, d⟩ := t
  exact Nodes.aroundStmt hinside ⟨h, hnesting⟩

/-- The statement of a header. -/
theorem canonicalWithin_headerStmt {t : Option Stmt} (h : ∀ t' ∈ t, t'.CanonicalHeader)
    (hnesting : clauseNesting t ≤ n) : Event.CanonicalWithin n (optStmtEvents t) := by
  cases t with
  | none => exact .nil
  | some t =>
    obtain ⟨-, hsimple, hexprs⟩ := h t rfl
    have hcanonical : ∀ x ∈ t.kind.exprs, x.Canonical := fun x hx => (hexprs x hx).canonical
    refine canonicalWithin_stmt (.simple hsimple hcanonical) ?_ ?_
    · rw [hsimple.nesting_eq]
      exact hnesting
    · rw [hsimple.inside_eq]
      exact canonicalWithin_exprs hcanonical

/-- The statements of a body. -/
theorem canonicalWithin_stmts {ss : List Stmt} (hss : ∀ t ∈ ss, t.kind.Canonical)
    (hnesting : stmtsNesting ss ≤ n)
    (ih : ∀ t ∈ ss, ∀ {n}, t.kind.nesting ≤ n → Event.CanonicalWithin n t.kind.inside) :
    Event.CanonicalWithin n (stmtEvents ss) := by
  refine .stmts fun t ht => ?_
  have hle := Nat.le_trans (nesting_le_of_mem_stmts ht) hnesting
  exact canonicalWithin_stmt (hss t ht) hle (ih t ht hle)

/-- The head of a clause holds canonical nodes. -/
theorem canonicalWithin_head {head : ClauseHead} (h : head.Canonical) :
    Event.CanonicalWithin n head.events := by
  cases h with
  | default => exact .nil
  | values _ hxs => exact canonicalWithin_exprs hxs

/-- Every statement in a canonical statement is canonical and not nested more deeply. -/
theorem StmtKind.Canonical.nodes {k : StmtKind} (h : k.Canonical) (hnesting : k.nesting ≤ n) :
    Event.CanonicalWithin n k.inside := by
  induction h generalizing n with
  | simple hkind hexprs =>
    rw [hkind.inside_eq]
    exact canonicalWithin_exprs hexprs
  | returns hvalues => exact canonicalWithin_exprs hvalues
  | branch => exact .names _
  | go hcall => exact hcall.nodes
  | defer hcall => exact hcall.nodes
  | @block ss _ hss ih =>
    have hbody : stmtsNesting ss + 1 ≤ n := hnesting
    exact canonicalWithin_stmts hss (by omega) ih
  | @ifThen init cond ss otherwise hinit hcond _ hss _ ih ihelse =>
    have hle : max (max (clauseNesting init) cond.nesting)
      (max (stmtsNesting ss + 1) otherwise.nesting) ≤ n := hnesting
    refine (((canonicalWithin_headerStmt hinit (by omega)).append hcond.canonical.nodes).append
      (canonicalWithin_stmts hss (by omega) ih)).append ?_
    have helse : otherwise.nesting ≤ n := by omega
    cases otherwise with
    | none => exact .nil
    | elseIf => exact ihelse _ rfl helse
    | block => exact ihelse _ rfl helse
  | @forLoop init cond post ss hinit hcond hpost _ hss ih =>
    have hle : max (max (clauseNesting init) (max (optNesting cond) (clauseNesting post)))
      (stmtsNesting ss + 1) ≤ n := hnesting
    exact (((canonicalWithin_headerStmt hinit (by omega)).append
      (canonicalWithin_optExpr (fun _ h => h.canonical) hcond)).append
        (canonicalWithin_headerStmt hpost (by omega))).append
          (canonicalWithin_stmts hss (by omega) ih)
  | @rangeLoop key value _ x ss hkey hvalue _ _ hx _ hss ih =>
    have hle : max (max (optNesting key) (max (optNesting value) x.nesting))
      (stmtsNesting ss + 1) ≤ n := hnesting
    exact (((canonicalWithin_optExpr (fun _ h => h.canonical) hkey).append
      (canonicalWithin_optExpr (fun _ h => h.canonical) hvalue)).append hx.canonical.nodes).append
        (canonicalWithin_stmts hss (by omega) ih)
  | @switch init tag cs hinit htag _ hheads _ hss ih =>
    have hle : max (max (clauseNesting init) (optNesting tag)) (clausesNesting cs) ≤ n := hnesting
    refine ((canonicalWithin_headerStmt hinit (by omega)).append
      (canonicalWithin_optExpr (fun _ h => h.canonical) htag)).append (.clauses fun c hc => ?_)
    have hclause := nesting_le_of_mem_clauses hc
    exact ⟨canonicalWithin_head (hheads c hc),
      canonicalWithin_stmts (hss c hc) (by omega) (ih c hc)⟩
  | @labeled label t _ _ ht ih =>
    obtain ⟨k, d⟩ := t
    have hle : k.nesting ≤ n := Nat.le_trans (Nat.le_max_right 1 _) hnesting
    exact (canonicalWithin_stmt ht hle (ih hle)).cons_name label

end HandlerSplit
