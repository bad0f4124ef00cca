import HandlerSplit.Proofs.Tree.Traversal
import Mathlib.Tactic.Choose
/-!
# Picked expressions

A predicate picks expressions of a tree; none of them holds another. A rewriter that changes nothing
but what is picked sees the tree as a list: the picked expressions in the order in which reading
meets them, in a frame that stays (`InFrame`). The frame is one for all such rewriters, so what they
do is told by their runs on a list.

`Block.fill` puts given expressions for the first of the picked ones.
-/

namespace HandlerSplit

/-! ## What is picked -/

namespace Event

/-- The expression an event enters. -/
def expr? : Event → Option Expr
  | enterExpr x => some x
  | _ => none

/-- The expressions entered that are picked, in order. -/
def picked (p : Expr → Bool) (es : List Event) : List Expr :=
  (es.filterMap expr?).filter p

variable (p : Expr → Bool)

@[simp] theorem picked_append (es es' : List Event) :
    picked p (es ++ es') = picked p es ++ picked p es' := by
  simp [picked]

@[simp] theorem picked_aroundStmt (s : Stmt) (es : List Event) :
    picked p (aroundStmt s es) = picked p es := by
  show picked p (es ++ [.leaveStmt s]) = picked p es
  simp [picked, expr?]

theorem picked_aroundExpr (x : Expr) (es : List Event) :
    picked p (aroundExpr x es) = if p x then x :: picked p es else picked p es := by
  show picked p ([.enterExpr x] ++ (es ++ [.leaveExpr x])) = _
  by_cases h : p x <;> simp [picked, expr?, h]

end Event

/-! ## Rewriters that change what is picked -/

variable {σ : Type} {p : Expr → Bool}

/-- Changes the picked expressions by `act` and nothing else. An expression that is not picked
may be left alone instead of entered, where that makes no difference. -/
structure Rewriter.ActsOn (r : Rewriter σ) (p : Expr → Bool) (act : Expr → StateM σ Expr) :
    Prop where
  stmt : ∀ s, r.onStmt s = pure .enter
  name : ∀ n, r.onName n = pure n
  picked : ∀ x inside, p x → offerExpr r x inside = act x
  other : ∀ x (frame : List Expr → Expr) picks, ¬p x → frame picks = x → (∀ y ∈ picks, p y) →
    offerExpr r x (frame <$> picks.mapM act) = frame <$> picks.mapM act

/-- Acts on the picked expressions and enters the others. -/
def Rewriter.onPicked (p : Expr → Bool) (act : Expr → StateM σ Expr) : Rewriter σ :=
  { Rewriter.idle with
    onExpr := fun x => do
      if p x then return .put (← act x)
      return .enter }

theorem Rewriter.actsOn_onPicked (act : Expr → StateM σ Expr) :
    (Rewriter.onPicked p act).ActsOn p act where
  stmt _ := rfl
  name _ := rfl
  picked x inside h := by
    simp [offerExpr, onPicked, h]
  other x frame picks h _ _ := by
    simp [offerExpr, onPicked, h]

/-! ## Frames -/

/-- A rewriting of `a` whose picked expressions stand in a frame. -/
def InFrame {α : Type} (p : Expr → Bool) (m : Rewriting α) (a : α) (picks : List Expr) : Prop :=
  (∀ x ∈ picks, p x) ∧ ∃ frame : List Expr → α, frame picks = a ∧
    ∀ (σ : Type) (r : Rewriter σ) (act : Expr → StateM σ Expr), r.ActsOn p act →
      m σ r = frame <$> picks.mapM act

theorem length_mapM (act : Expr → StateM σ Expr) (xs : List Expr) (s : σ) :
    ((xs.mapM act).run s).1.length = xs.length := by
  induction xs generalizing s with
  | nil => rfl
  | cons x xs ih =>
    rw [List.mapM_cons]
    exact congrArg (· + 1) (ih _)

/-- What follows a run on a list may count on the length of its answer. -/
theorem mapM_bind_congr {β : Type} {act : Expr → StateM σ Expr} {xs : List Expr}
    {f g : List Expr → StateM σ β} (h : ∀ zs, zs.length = xs.length → f zs = g zs) :
    xs.mapM act >>= f = xs.mapM act >>= g := by
  funext s
  show f ((xs.mapM act).run s).1 _ = g ((xs.mapM act).run s).1 _
  rw [h _ (length_mapM act xs s)]

namespace InFrame

variable {α β : Type} {xs ys : List Expr} {a : α}

theorem pure (a : α) : InFrame p (fun _ _ => Pure.pure a) a [] :=
  ⟨by simp, fun _ => a, rfl, fun _ _ _ _ => rfl⟩

theorem bind {m : Rewriting α} {k : (σ : Type) → Rewriter σ → α → StateM σ β} {g : α → β}
    (hm : InFrame p m a xs)
    (hk : ∀ a, InFrame p (fun σ r => k σ r a) (g a) ys) :
    InFrame p (fun σ r => m σ r >>= k σ r) (g a) (xs ++ ys) := by
  obtain ⟨hxs, frame, ha, hframe⟩ := hm
  choose hys next hg hnext using hk
  refine ⟨List.forall_mem_append.2 ⟨hxs, hys a⟩,
    fun zs => next (frame (zs.take xs.length)) (zs.drop xs.length), ?_, fun σ r act hr => ?_⟩
  · simp only [List.take_left, List.drop_left, ha, hg]
  · calc m σ r >>= k σ r
        = xs.mapM act >>= fun zs => next (frame zs) <$> ys.mapM act := by
          rw [hframe σ r act hr, bind_map_left]
          exact congrArg _ (funext fun zs => hnext (frame zs) σ r act hr)
      _ = xs.mapM act >>= fun zs => ys.mapM act >>= fun zs' => Pure.pure
            (next (frame ((zs ++ zs').take xs.length)) ((zs ++ zs').drop xs.length)) := by
          -- The list is cut where the answers of the first part end.
          refine mapM_bind_congr fun zs hlen => ?_
          simp only [← hlen, List.take_left, List.drop_left, map_eq_pure_bind]
      _ = _ := by
          rw [List.mapM_append, map_eq_pure_bind]
          simp only [bind_assoc, pure_bind]

theorem map {m : Rewriting α} (hm : InFrame p m a xs) (g : α → β) :
    InFrame p (fun σ r => do return g (← m σ r)) (g a) xs := by
  simpa using hm.bind fun a => InFrame.pure (g a)

/-- Two parts after one another. -/
theorem map₂ {γ : Type} {m : Rewriting α} {n : Rewriting β} {b : β} (hm : InFrame p m a xs)
    (hn : InFrame p n b ys) (g : α → β → γ) :
    InFrame p (fun σ r => do return g (← m σ r) (← n σ r)) (g a b) (xs ++ ys) :=
  hm.bind fun a => by simpa using hn.bind fun b => InFrame.pure (g a b)

/-- A name stays. -/
theorem name (n : String) : InFrame p (fun _ r => r.onName n) n [] :=
  ⟨by simp, fun _ => n, rfl, fun _ _ _ hr => hr.name n⟩

/-- An expression is picked, or what is inside it has a frame. -/
theorem offered (hp : ∀ x, p x → Event.picked p x.inside = []) {x : Expr}
    (h : InFrame p (fun _ r => x.rewriteInside r) x (Event.picked p x.inside)) :
    InFrame p (fun _ r => offerExpr r x (x.rewriteInside r)) x
      (Event.picked p (aroundExpr x x.inside)) := by
  rw [Event.picked_aroundExpr]
  split
  case isTrue hx =>
    rw [hp x hx]
    refine ⟨by simpa using hx, fun zs => zs.headD x, rfl, fun σ r act hr => ?_⟩
    simp [hr.picked x _ hx]
  case isFalse hx =>
    obtain ⟨hpicks, frame, hframe, hrun⟩ := h
    refine ⟨hpicks, frame, hframe, fun σ r act hr => ?_⟩
    show offerExpr r x (x.rewriteInside r) = _
    rw [show x.rewriteInside r = _ from hrun σ r act hr]
    exact hr.other x frame _ hx hframe hpicks

/-- A statement is entered. -/
theorem entered {k : StmtKind} {d : Decorations}
    (h : InFrame p (fun _ r => k.rewriteInside r) k (Event.picked p k.inside)) :
    InFrame p (fun _ r => Stmt.rewrite r ⟨k, d⟩) ⟨k, d⟩
      (Event.picked p (Stmt.events ⟨k, d⟩)) := by
  obtain ⟨hpicks, frame, hframe, hrun⟩ := h
  rw [Stmt.events, Event.picked_aroundStmt]
  refine ⟨hpicks, fun zs => ⟨frame zs, d⟩, congrArg (Stmt.mk · d) hframe, fun σ r act hr => ?_⟩
  show offerStmt r ⟨k, d⟩ (k.rewriteInside r) = _
  rw [show k.rewriteInside r = _ from hrun σ r act hr, offerStmt, hr.stmt]
  simp

end InFrame

/-- Every part of a tree has a frame, if nothing that is picked holds anything that is. -/
theorem inFrame_traversal (hp : ∀ x, p x → Event.picked p x.inside = []) :
    Traversal fun _ A a => InFrame p (fun _ r => A.rewrite r a) a (Event.picked p (A.events a)) where
  still h := by
    rw [h.events, h.rewriting]
    exact .pure _
  pair ha hb := by
    rw [Part.pair, Event.picked_append]
    exact ha.map₂ hb Prod.mk
  make {_ _ _ _ g _} h ha := by
    rw [h.events, h.rewriting]
    exact ha.map g
  name n := .name n
  expr h := h.offered hp
  stmt h := h.entered

theorem Block.inFrame (hp : ∀ x, p x → Event.picked p x.inside = []) (b : Block) :
    InFrame p (fun _ r => b.rewrite r) b (Event.picked p b.events) :=
  b.traversed (inFrame_traversal hp)

/-! ## Filling the frame of a block -/

/-- Answers the next of the expressions given, as long as there are any. -/
def takeNext (x : Expr) : StateM (List Expr) Expr := do
  match ← get with
  | [] => return x
  | y :: ys =>
    set ys
    return y

/-- The block with the given expressions in the places of the picked ones, in order. -/
def Block.fill (b : Block) (p : Expr → Bool) (ys : List Expr) : Block :=
  ((b.rewrite (.onPicked p takeNext)).run ys).1

theorem mapM_takeNext {xs ys : List Expr} (h : ys.length = xs.length) :
    (xs.mapM takeNext).run ys = (ys, []) := by
  induction xs generalizing ys with
  | nil => rw [List.length_eq_zero_iff.1 h]; rfl
  | cons x xs ih =>
    obtain _ | ⟨y, ys⟩ := ys
    · cases h
    rw [List.mapM_cons]
    show (fun q : List Expr × List Expr => (y :: q.1, q.2)) ((xs.mapM takeNext).run ys) = _
    rw [ih (Nat.succ.inj h)]

/-- A rewriter that acts on picked expressions fills their places with what its run on them
answers. -/
theorem Block.rewrite_eq_fill (hp : ∀ x, p x → Event.picked p x.inside = []) {r : Rewriter σ}
    {act : Expr → StateM σ Expr} (hr : r.ActsOn p act) (b : Block) (s : σ) :
    (b.rewrite r).run s =
      (fun q : List Expr × σ => (b.fill p q.1, q.2))
        (((Event.picked p b.events).mapM act).run s) := by
  obtain ⟨-, frame, -, hframe⟩ := b.inFrame hp
  have hfill : ∀ ys, ys.length = (Event.picked p b.events).length → b.fill p ys = frame ys := by
    intro ys hlen
    rw [Block.fill, show b.rewrite (.onPicked p takeNext) = _ from
      hframe _ _ takeNext (Rewriter.actsOn_onPicked takeNext)]
    show frame (((Event.picked p b.events).mapM takeNext).run ys).1 = frame ys
    rw [mapM_takeNext hlen]
  rw [show b.rewrite r = _ from hframe σ r act hr, StateT.run_map]
  show (frame (((Event.picked p b.events).mapM act).run s).1, _) = (b.fill p _, _)
  rw [hfill _ (length_mapM act _ s)]

/-- A block is the frame around its own picked expressions. -/
theorem Block.fill_picked (hp : ∀ x, p x → Event.picked p x.inside = []) (b : Block) :
    b.fill p (Event.picked p b.events) = b := by
  obtain ⟨-, frame, hb, hframe⟩ := b.inFrame hp
  rw [Block.fill, show b.rewrite (.onPicked p takeNext) = _ from
    hframe _ _ takeNext (Rewriter.actsOn_onPicked takeNext)]
  show frame (((Event.picked p b.events).mapM takeNext).run _).1 = b
  rw [mapM_takeNext rfl, hb]

/-! ## Filling as substitution -/

/-- The substitution of the picked expressions. -/
def Substitution.ofPicked (p : Expr → Bool) (g : Expr → Expr) : Substitution where
  expr x := if p x then some (g x) else none

theorem onPicked_traversal (g : Expr → Expr) :
    Traversal fun _ A a => A.rewrite (.onPicked p fun x => pure (g x) : Rewriter σ) a =
      pure (A.subst (.ofPicked p g) a) where
  still h := by rw [h.rewrite, h.subst]
  pair ha hb := by simp only [Part.pair, ha, hb, pure_bind]
  make h ha := by simp only [h.rewrite, h.subst, ha, pure_bind]
  name _ := rfl
  expr {x} h := by
    show offerExpr _ x (x.rewriteInside _) = pure (substExpr _ x (x.substInside _))
    rw [show x.rewriteInside _ = pure (x.substInside _) from h]
    by_cases hx : p x <;>
      simp [offerExpr, Rewriter.onPicked, substExpr, Substitution.ofPicked, hx]
  stmt {k d} h := by
    show offerStmt _ ⟨k, d⟩ (k.rewriteInside _) = pure ⟨k.substInside _, d⟩
    rw [show k.rewriteInside _ = _ from h]
    rfl

/-- What depends on the picked expressions alone is filled in by substitution. -/
theorem Block.fill_map (hp : ∀ x, p x → Event.picked p x.inside = []) (g : Expr → Expr)
    (b : Block) : b.fill p ((Event.picked p b.events).map g) = b.subst (.ofPicked p g) := by
  have hfill := b.rewrite_eq_fill hp (Rewriter.actsOn_onPicked fun x => pure (g x)) ()
  rw [List.mapM_pure, show b.rewrite _ = _ from b.traversed (onPicked_traversal g)] at hfill
  exact (congrArg Prod.fst hfill).symm

end HandlerSplit
