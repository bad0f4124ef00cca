import HandlerSplit.Proofs.Tree.Traversal
/-!
# Skipping parts of a tree

Reading enters the statements and expressions of a tree, its nodes, one after another, which numbers
them. A rewriter that changes nothing and keeps out of some of the nodes, told by their numbers, is
offered what reading meets, without what is strictly inside the nodes it keeps out of
(`SourceFile.rewrite_skipper`).
-/

namespace HandlerSplit

namespace Event

/-! ## What is left of a reading -/

/-- Whether a statement or expression is entered. -/
def entersNode : Event → Bool
  | enterStmt _ | enterExpr _ => true
  | _ => false

/-- Whether a statement or expression is left. -/
def leavesNode : Event → Bool
  | leaveStmt _ | leaveExpr _ => true
  | _ => false

/-- How many statements and expressions are entered. -/
def nodes (es : List Event) : Nat :=
  es.countP entersNode

/-- What is entered and what is named in a reading, without what is strictly inside a node to skip.
Nodes are numbered in the order in which they are entered, the next one by `n`; `opened` are the
numbers of those that have been entered and not left. -/
def unskipped (skips : Nat → Bool) : List Nat → Nat → List Event → List Event
  | _, _, [] => []
  | opened, n, e :: es =>
    let kept := if opened.any skips then [] else [e]
    match e with
    | enterStmt _ | enterExpr _ => kept ++ unskipped skips (n :: opened) (n + 1) es
    | leaveStmt _ | leaveExpr _ => unskipped skips opened.tail n es
    | name _ => kept ++ unskipped skips opened n es

variable {skips : Nat → Bool} {opened : List Nat} {n : Nat} {e : Event}

theorem entersNode_of_leavesNode (he : e.leavesNode = true) : e.entersNode = false := by
  cases e <;> first | rfl | cases he

theorem unskipped_enter (he : e.entersNode = true) (es : List Event) :
    unskipped skips opened n (e :: es) =
      (if opened.any skips then [] else [e]) ++ unskipped skips (n :: opened) (n + 1) es := by
  cases e <;> first | rfl | cases he

theorem unskipped_leave (he : e.leavesNode = true) (es : List Event) :
    unskipped skips opened n (e :: es) = unskipped skips opened.tail n es := by
  cases e <;> first | rfl | cases he

theorem nodes_append (es es' : List Event) : nodes (es ++ es') = nodes es + nodes es' :=
  List.countP_append

/-- If there is nothing to skip, everything that is entered and named is left. -/
theorem unskipped_nothing (opened : List Nat) (n : Nat) (es : List Event) :
    unskipped (fun _ => false) opened n es = es.filter (! ·.leavesNode) := by
  have hnone (ns : List Nat) : ns.any (fun _ => false) = false := List.any_eq_false.mpr nofun
  induction es generalizing opened n with
  | nil => rfl
  | cons e es ih =>
    cases e <;> rw [unskipped, ih] <;> simp [hnone, leavesNode]

/-- The events of a part of a tree. What is entered is left again, so that reading goes on after
them as it would without them, and nothing of them is left inside a node to skip. -/
structure Closed (skips : Nat → Bool) (es : List Event) : Prop where
  append : ∀ opened n rest, unskipped skips opened n (es ++ rest) =
    unskipped skips opened n es ++ unskipped skips opened (n + nodes es) rest
  hidden : ∀ opened n, opened.any skips = true → unskipped skips opened n es = []

namespace Closed

theorem nil : Closed skips [] :=
  ⟨fun _ _ _ => rfl, fun _ _ _ => rfl⟩

theorem join {es es' : List Event} (h : Closed skips es) (h' : Closed skips es') :
    Closed skips (es ++ es') where
  append opened n rest := by
    rw [List.append_assoc, h.append, h'.append, h.append, nodes_append, Nat.add_assoc,
      List.append_assoc]
  hidden opened n hany := by rw [h.append, h.hidden _ _ hany, h'.hidden _ _ hany, List.append_nil]

theorem name (m : String) : Closed skips [.name m] where
  append opened n rest := by simp [unskipped, nodes, entersNode]
  hidden opened n hany := by simp [unskipped, hany]

/-- What is left of a node that is read, and of what follows. -/
theorem unskipped_around_append {es : List Event} {enter leave : Event} (h : Closed skips es)
    (henter : enter.entersNode = true) (hleave : leave.leavesNode = true) (opened : List Nat)
    (n : Nat) (rest : List Event) : unskipped skips opened n (enter :: es ++ [leave] ++ rest) =
      (if opened.any skips then [] else [enter]) ++ unskipped skips (n :: opened) (n + 1) es ++
        unskipped skips opened (n + 1 + nodes es) rest := by
  rw [List.append_assoc, List.cons_append, unskipped_enter henter, h.append, List.singleton_append,
    unskipped_leave hleave, List.append_assoc]
  rfl

/-- What is left of a node that is read. -/
theorem unskipped_around {es : List Event} {enter leave : Event} (h : Closed skips es)
    (henter : enter.entersNode = true) (hleave : leave.leavesNode = true) (opened : List Nat)
    (n : Nat) : unskipped skips opened n (enter :: es ++ [leave]) =
      (if opened.any skips then [] else [enter]) ++ unskipped skips (n :: opened) (n + 1) es := by
  have hall := h.unskipped_around_append henter hleave opened n []
  rwa [List.append_nil, unskipped, List.append_nil] at hall

/-- What is left of a node that is not inside one to skip. -/
theorem unskipped_around_of_none {es : List Event} {enter leave : Event} (h : Closed skips es)
    (henter : enter.entersNode = true) (hleave : leave.leavesNode = true)
    (hnone : opened.any skips = false) : unskipped skips opened n (enter :: es ++ [leave]) =
      enter :: if skips n then [] else unskipped skips (n :: opened) (n + 1) es := by
  rw [h.unskipped_around henter hleave, hnone, if_neg Bool.false_ne_true]
  split
  case isTrue hskip =>
    have hinside : (n :: opened).any skips = true := by rw [List.any_cons, hskip, Bool.true_or]
    rw [h.hidden _ _ hinside]
    rfl
  case isFalse => rfl

theorem nodes_around (es : List Event) {enter leave : Event} (henter : enter.entersNode = true)
    (hleave : leave.leavesNode = true) : nodes (enter :: es ++ [leave]) = nodes es + 1 := by
  rw [nodes_append, nodes, List.countP_cons_of_pos henter, nodes, List.countP_singleton,
    entersNode_of_leavesNode hleave]
  rfl

/-- What is entered and left around a closed part. -/
theorem around {es : List Event} {enter leave : Event} (h : Closed skips es)
    (henter : enter.entersNode = true) (hleave : leave.leavesNode = true) :
    Closed skips (enter :: es ++ [leave]) := by
  refine ⟨fun opened n rest => ?_, fun opened n hany => ?_⟩
  · rw [h.unskipped_around_append henter hleave, h.unskipped_around henter hleave,
      nodes_around es henter hleave, Nat.add_assoc n 1, Nat.add_comm 1]
  · have hinside : (n :: opened).any skips = true := by rw [List.any_cons, hany, Bool.or_true]
    rw [h.unskipped_around henter hleave, if_pos hany, h.hidden _ _ hinside]
    rfl

end Closed

end Event

/-! ## The rewriter that skips -/

open Event (nodes unskipped Closed)

/-- What a rewriter has met: how many nodes reading had entered before it goes on, and what the
rewriter was offered. -/
structure Met where
  nodes : Nat
  calls : List Event

/-- One more offer, after which reading has entered `n` more nodes. -/
def Met.offer (met : Met) (e : Event) (n : Nat) : Met :=
  ⟨met.nodes + n, met.calls ++ [e]⟩

/-- The rewriter that changes nothing, and does not enter the nodes whose numbers are to be
skipped. -/
def skipper (skips : Nat → Bool) : Rewriter Met where
  onStmt s := fun met =>
    if skips met.nodes then (.put s, met.offer (.enterStmt s) (nodes s.events))
    else (.enter, met.offer (.enterStmt s) 1)
  onExpr x := fun met =>
    if skips met.nodes then (.put x, met.offer (.enterExpr x) (nodes x.events))
    else (.enter, met.offer (.enterExpr x) 1)
  onName n := fun met => (n, met.offer (.name n) 0)

/-- The rewriter that skips leaves `a` as it is, and is offered what is left of the reading `es` of
it. -/
structure Skipped {α : Type} (skips : Nat → Bool) (m : Rewriting α) (a : α) (es : List Event) : Prop
    extends Closed skips es where
  run_eq : ∀ opened met, opened.any skips = false → (m Met (skipper skips)).run met =
    (a, ⟨met.nodes + nodes es, met.calls ++ unskipped skips opened met.nodes es⟩)

namespace Skipped

variable {skips : Nat → Bool} {α β γ : Type} {m : Rewriting α} {n : Rewriting β} {a : α} {b : β}
  {es es' : List Event}

theorem pure (a : α) : Skipped skips (fun _ _ => Pure.pure a) a [] where
  toClosed := .nil
  run_eq opened met hnone := by
    rw [unskipped, List.append_nil]
    rfl

theorem map₂ (hm : Skipped skips m a es) (hn : Skipped skips n b es') (g : α → β → γ) :
    Skipped skips (fun σ r => do return g (← m σ r) (← n σ r)) (g a b) (es ++ es') where
  toClosed := hm.join hn.toClosed
  run_eq opened met hnone := by
    show (fun q : α × Met => (fun q' : β × Met => (g q.1 q'.1, q'.2))
      ((n Met (skipper skips)).run q.2)) ((m Met (skipper skips)).run met) = _
    rw [hm.run_eq opened met hnone]
    show (fun q : β × Met => (g a q.1, q.2)) ((n Met (skipper skips)).run _) = _
    rw [hn.run_eq opened _ hnone, hm.append, Event.nodes_append, ← Nat.add_assoc,
      ← List.append_assoc]

theorem name (l : String) : Skipped skips (fun _ r => r.onName l) l [.name l] where
  toClosed := .name l
  run_eq opened met hnone := by
    rw [unskipped, hnone]
    rfl

/-- A node is offered, and then what is inside it, unless it is to be skipped. -/
theorem node {enter leave : Event} (h : Closed skips es) (henter : enter.entersNode = true)
    (hleave : leave.leavesNode = true)
    (hput : ∀ met, skips met.nodes = true → (m Met (skipper skips)).run met =
      (a, met.offer enter (nodes (enter :: es ++ [leave]))))
    (hinside : ∀ opened met, skips met.nodes = false → opened.any skips = false →
      (m Met (skipper skips)).run met =
        (a, ⟨met.nodes + 1 + nodes es,
          met.calls ++ [enter] ++ unskipped skips opened (met.nodes + 1) es⟩)) :
    Skipped skips m a (enter :: es ++ [leave]) where
  toClosed := h.around henter hleave
  run_eq opened met hnone := by
    rw [h.unskipped_around_of_none henter hleave hnone]
    cases hskip : skips met.nodes with
    | true => rw [hput met hskip, if_pos rfl, Met.offer]
    | false =>
      have hopened : (met.nodes :: opened).any skips = false := by
        rw [List.any_cons, hskip, hnone, Bool.or_false]
      rw [hinside _ met hskip hopened, if_neg Bool.false_ne_true, Closed.nodes_around es henter hleave,
        List.append_assoc, Nat.add_assoc, Nat.add_comm 1]
      rfl

theorem expr {x : Expr} (h : Skipped skips (fun _ r => x.rewriteInside r) x x.inside) :
    Skipped skips (fun _ r => offerExpr r x (x.rewriteInside r)) x (aroundExpr x x.inside) := by
  refine .node h.toClosed rfl rfl (fun met hskip => ?_) fun opened met hskip hnone => ?_
  · have hput : ((skipper skips).onExpr x).run met = _ := if_pos hskip
    exact run_offerExpr_of_put hput
  · have henter : ((skipper skips).onExpr x).run met = _ := if_neg (Bool.eq_false_iff.mp hskip)
    exact (run_offerExpr_of_enter henter).trans (h.run_eq opened _ hnone)

theorem stmt {k : StmtKind} {d : Decorations}
    (h : Skipped skips (fun _ r => k.rewriteInside r) k k.inside) :
    Skipped skips (fun _ r => Stmt.rewrite r ⟨k, d⟩) ⟨k, d⟩ (Stmt.events ⟨k, d⟩) := by
  refine .node h.toClosed rfl rfl (fun met hskip => ?_) fun opened met hskip hnone => ?_
  · have hput : ((skipper skips).onStmt ⟨k, d⟩).run met = _ := if_pos hskip
    exact run_offerStmt_of_put hput
  · have henter : ((skipper skips).onStmt ⟨k, d⟩).run met = _ :=
      if_neg (Bool.eq_false_iff.mp hskip)
    exact (run_offerStmt_of_enter henter).trans
      (congrArg (fun q : StmtKind × Met => (Stmt.mk q.1 d, q.2)) (h.run_eq opened _ hnone))

end Skipped

theorem skipped_traversal (skips : Nat → Bool) :
    Traversal fun _ A a => Skipped skips (fun _ r => A.rewrite r a) a (A.events a) where
  still h := by
    rw [h.events, h.rewriting]
    exact .pure _
  pair ha hb := ha.map₂ hb Prod.mk
  make {_ _ _ _ g _} h ha := by
    rw [h.events, h.rewriting]
    simpa using ha.map₂ (.pure ()) fun a _ => g a
  name l := .name l
  expr h := h.expr
  stmt h := h.stmt

/-- The rewriter that changes nothing and skips some nodes is offered what reading a source file
meets, but nothing strictly inside those nodes, and the file stays as it is. -/
theorem SourceFile.rewrite_skipper (file : SourceFile) (skips : Nat → Bool) :
    (file.rewrite (skipper skips)).run ⟨0, []⟩ =
      (file, ⟨nodes file.events, unskipped skips [] 0 file.events⟩) := by
  have hrun := (file.traversed (skipped_traversal skips)).run_eq [] ⟨0, []⟩ rfl
  rwa [Nat.zero_add, List.nil_append] at hrun

end HandlerSplit
