import HandlerSplit.Tree.Events
/-!
# Nesting of statements

Statements are nested as deep as reading a tree has entered and not left them. Of the statements
that a predicate picks, the events of a part of a tree enter some, at most so many at a time, and
leave them all (`Event.Deepens`). The nesting of all statements is no greater than the nesting of
those that are picked and the nesting of the others together.

A statement is *loose* if statements stand in it that no block and no brackets enclose: those of
the clauses of a switch or select statement, and the one behind a label.
-/

namespace HandlerSplit

/-- Statements in which others stand without a block around them. -/
def StmtKind.isLoose : StmtKind → Bool
  | .switch _ _ _ _ | .typeSwitch _ _ _ _ | .select _ _ | .labeled _ _ => true
  | _ => false

/-- Statements in which others stand without a block around them. -/
def Stmt.isLoose (s : Stmt) : Bool :=
  s.kind.isLoose

namespace Event

/-- Whether a statement that `p` picks is entered or left. -/
def ofPicked (p : Stmt → Bool) : Event → Bool
  | enterStmt s | leaveStmt s => p s
  | _ => false

/-- The greatest nesting of the statements that `p` picks. -/
def nestingOf (p : Stmt → Bool) (es : List Event) : Nat :=
  maxNesting (es.filter (ofPicked p))

/-! ## Two kinds of statements -/

/-- What is entered is picked or not, so that of all statements no more are entered than of the two
kinds together, now and at most. -/
theorem foldl_nest_le (p : Stmt → Bool) (es : List Event) {now most now' most' now'' most'' : Nat}
    (hnow : now ≤ now' + now'') (hmost : most ≤ most' + most'') (h' : now' ≤ most')
    (h'' : now'' ≤ most'') :
    (es.foldl nest (now, most)).2 ≤ ((es.filter (ofPicked p)).foldl nest (now', most')).2 +
      ((es.filter (ofPicked fun s => !p s)).foldl nest (now'', most'')).2 := by
  induction es generalizing now most now' most' now'' most'' with
  | nil => exact hmost
  | cons e es ih =>
    cases e with
    | enterStmt s =>
      cases hs : p s <;> simp [ofPicked, hs, nest] <;>
        exact ih (by omega) (by omega) (by omega) (by omega)
    | leaveStmt s =>
      cases hs : p s <;> simp [ofPicked, hs, nest] <;>
        exact ih (by omega) (by omega) (by omega) (by omega)
    | _ => exact ih hnow hmost h' h''

/-- The nesting of all statements is no greater than that of two kinds together. -/
theorem maxNesting_le_add (p : Stmt → Bool) (es : List Event) :
    maxNesting es ≤ nestingOf p es + nestingOf (fun s => !p s) es :=
  foldl_nest_le p es (Nat.le_refl _) (Nat.le_refl _) (Nat.le_refl _) (Nat.le_refl _)

/-! ## Parts of trees -/

/-- Of the statements that `p` picks, the events enter at most `k` at a time, and leave them all. -/
def Deepens (p : Stmt → Bool) (k : Nat) (es : List Event) : Prop :=
  ∀ now most : Nat, ∃ most', (es.filter (ofPicked p)).foldl nest (now, most) = (now, most') ∧
    most' ≤ max most (now + k)

namespace Deepens

variable {p : Stmt → Bool} {k l : Nat} {es es' : List Event}

theorem nestingOf_le (h : Deepens p k es) : nestingOf p es ≤ k := by
  obtain ⟨most, hrun, hmost⟩ := h 0 0
  rw [nestingOf, maxNesting, hrun]
  omega

theorem mono (h : Deepens p k es) (hkl : k ≤ l) : Deepens p l es := by
  intro now most
  obtain ⟨most', hrun, hmost⟩ := h now most
  exact ⟨most', hrun, by omega⟩

theorem nil : Deepens p k [] :=
  fun _ most => ⟨most, rfl, Nat.le_max_left _ _⟩

theorem append (h : Deepens p k es) (h' : Deepens p k es') : Deepens p k (es ++ es') := by
  intro now most
  obtain ⟨most', hrun, hmost⟩ := h now most
  obtain ⟨most'', hrun', hmost'⟩ := h' now most'
  refine ⟨most'', ?_, by omega⟩
  rw [List.filter_append, List.foldl_append, hrun, hrun']

/-- Names are no statements. -/
theorem cons_name (h : Deepens p k es) (n : String) : Deepens p k (.name n :: es) :=
  h

theorem names (ns : List String) : Deepens p k (nameEvents ns) := by
  induction ns with
  | nil => exact nil
  | cons n ns ih => exact ih.cons_name n

/-- Expressions are no statements. -/
theorem aroundExpr (h : Deepens p k es) (x : Expr) : Deepens p k (aroundExpr x es) := by
  intro now most
  obtain ⟨most', hrun, hmost⟩ := h now most
  refine ⟨most', ?_, hmost⟩
  show ((es ++ [Event.leaveExpr x]).filter _).foldl nest _ = _
  rw [List.filter_append, List.foldl_append, hrun]
  rfl

/-- A statement that is not picked. -/
theorem aroundStmt_of_not {s : Stmt} (h : Deepens p k es) (hs : p s = false) :
    Deepens p k (aroundStmt s es) := by
  intro now most
  obtain ⟨most', hrun, hmost⟩ := h now most
  refine ⟨most', ?_, hmost⟩
  rw [HandlerSplit.aroundStmt, List.cons_append, List.filter_cons_of_neg (by simp [ofPicked, hs]),
    List.filter_append, List.foldl_append, hrun, List.filter_cons_of_neg (by simp [ofPicked, hs])]
  rfl

/-- A statement is one more, picked or not. -/
theorem aroundStmt (h : Deepens p k es) (s : Stmt) : Deepens p (k + 1) (aroundStmt s es) := by
  cases hs : p s with
  | false => exact (h.aroundStmt_of_not hs).mono (Nat.le_succ k)
  | true =>
    intro now most
    obtain ⟨most', hrun, hmost⟩ := h (now + 1) (max most (now + 1))
    refine ⟨most', ?_, by omega⟩
    rw [HandlerSplit.aroundStmt, List.cons_append, List.filter_cons_of_pos (by simp [ofPicked, hs]),
      List.filter_append, List.foldl_cons, List.foldl_append, nest, hrun,
      List.filter_cons_of_pos (by simp [ofPicked, hs])]
    rfl

/-! ### Lists of parts -/

theorem exprs {xs : List Expr} (h : ∀ x ∈ xs, Deepens p k x.inside) :
    Deepens p k (exprEvents xs) := by
  induction xs with
  | nil => exact nil
  | cons x xs ih =>
    obtain ⟨hx, hxs⟩ := List.forall_mem_cons.mp h
    exact (hx.aroundExpr x).append (ih hxs)

theorem optExpr {o : Option Expr} (h : ∀ x ∈ o, Deepens p k x.inside) :
    Deepens p k (optExprEvents o) := by
  cases o with
  | none => exact nil
  | some x => exact (h x rfl).aroundExpr x

theorem elements {ds : List Element} (h : ∀ d ∈ ds, Deepens p k d.expr.inside) :
    Deepens p k (elementEvents ds) := by
  induction ds with
  | nil => exact nil
  | cons d ds ih =>
    obtain ⟨hd, hds⟩ := List.forall_mem_cons.mp h
    obtain ⟨x, decs⟩ := d
    exact (hd.aroundExpr x).append (ih hds)

theorem fields {fs : List Field} (h : ∀ f ∈ fs, Deepens p k f.type.inside) :
    Deepens p k (fieldEvents fs) := by
  induction fs with
  | nil => exact nil
  | cons f fs ih =>
    obtain ⟨hf, hfs⟩ := List.forall_mem_cons.mp h
    obtain ⟨ns, x, tag, decs⟩ := f
    exact ((names ns).append (hf.aroundExpr x)).append (ih hfs)

theorem stmts {ss : List Stmt} (h : ∀ s ∈ ss, Deepens p k s.events) :
    Deepens p k (stmtEvents ss) := by
  induction ss with
  | nil => exact nil
  | cons s ss ih =>
    obtain ⟨hs, hss⟩ := List.forall_mem_cons.mp h
    exact hs.append (ih hss)

theorem clauses {cs : List Clause}
    (h : ∀ c ∈ cs, Deepens p k c.head.events ∧ Deepens p k (stmtEvents c.body)) :
    Deepens p k (clauseEvents cs) := by
  induction cs with
  | nil => exact nil
  | cons c cs ih =>
    obtain ⟨⟨hhead, hbody⟩, hcs⟩ := List.forall_mem_cons.mp h
    obtain ⟨head, body, decs⟩ := c
    exact (hhead.append hbody).append (ih hcs)

theorem specs {ss : List Spec} (h : ∀ s ∈ ss, Deepens p k s.kind.events) :
    Deepens p k (specEvents ss) := by
  induction ss with
  | nil => exact nil
  | cons s ss ih =>
    obtain ⟨hs, hss⟩ := List.forall_mem_cons.mp h
    obtain ⟨kind, decs⟩ := s
    exact hs.append (ih hss)

end Deepens

end Event

end HandlerSplit
