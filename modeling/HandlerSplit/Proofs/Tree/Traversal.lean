import HandlerSplit.Proofs.Tree.Substitution
import HandlerSplit.Tree.Events
import HandlerSplit.Tree.Rewrite
/-!
# Going through a tree

Reading a tree, rewriting it and substituting in it go through its parts in one order. So what holds
of the events, the rewriting and the substitution of every part of a tree holds by one induction
over trees: it is enough that it is kept where parts stand after one another, where a node is made
of its parts, at a name, around an expression and around a statement (`Traversal`).
-/

namespace HandlerSplit

/-! ## What is offered -/

section

variable {σ : Type} {r : Rewriter σ} {s s' : σ}

/-- An expression that is replaced is not entered. -/
theorem run_offerExpr_of_put {x y : Expr} {inside : StateM σ Expr}
    (h : (r.onExpr x).run s = (.put y, s')) : (offerExpr r x inside).run s = (y, s') := by
  rw [offerExpr, StateT.run_bind, h]
  rfl

/-- An expression that is entered is what comes of its inside. -/
theorem run_offerExpr_of_enter {x : Expr} {inside : StateM σ Expr}
    (h : (r.onExpr x).run s = (.enter, s')) : (offerExpr r x inside).run s = inside.run s' := by
  rw [offerExpr, StateT.run_bind, h]
  rfl

/-- A statement that is replaced is not entered. -/
theorem run_offerStmt_of_put {t u : Stmt} {inside : StateM σ StmtKind}
    (h : (r.onStmt t).run s = (.put u, s')) : (offerStmt r t inside).run s = (u, s') := by
  rw [offerStmt, StateT.run_bind, h]
  rfl

/-- A statement that is entered keeps its comments. -/
theorem run_offerStmt_of_enter {t : Stmt} {inside : StateM σ StmtKind}
    (h : (r.onStmt t).run s = (.enter, s')) :
    (offerStmt r t inside).run s =
      (fun q : StmtKind × σ => ({ t with kind := q.1 }, q.2)) (inside.run s') := by
  rw [offerStmt, StateT.run_bind, h]
  rfl

end

/-! ## Parts -/

/-- A way to rewrite a part of a tree, with any rewriter. -/
abbrev Rewriting (α : Type) : Type 1 :=
  (σ : Type) → Rewriter σ → StateM σ α

/-- A sort of parts of trees, with the three ways to go through a part. -/
structure Part (α : Type) : Type 1 where
  events : α → List Event
  rewrite : {σ : Type} → Rewriter σ → α → StateM σ α
  subst : Substitution → α → α

namespace Part

variable {α β γ : Type}

/-- Two parts after one another. -/
def pair (A : Part α) (B : Part β) : Part (α × β) where
  events p := A.events p.1 ++ B.events p.2
  rewrite r p := do return (← A.rewrite r p.1, ← B.rewrite r p.2)
  subst s p := (A.subst s p.1, B.subst s p.2)

/-- Names. -/
def name : Part String where
  events n := [.name n]
  rewrite r n := r.onName n
  subst s n := s.name n

/-- Expressions, from the inside. -/
def insideExpr : Part Expr :=
  ⟨Expr.inside, Expr.rewriteInside, Expr.substInside⟩

/-- Expressions. -/
def expr : Part Expr where
  events x := aroundExpr x x.inside
  rewrite r x := offerExpr r x (x.rewriteInside r)
  subst s x := substExpr s x (x.substInside s)

/-- Statements, from the inside. -/
def insideStmt : Part StmtKind :=
  ⟨StmtKind.inside, StmtKind.rewriteInside, StmtKind.substInside⟩

/-- Statements. -/
def stmt : Part Stmt :=
  ⟨Stmt.events, Stmt.rewrite, Stmt.subst⟩

/-- Blocks. -/
def block : Part Block :=
  ⟨Block.events, Block.rewrite, Block.subst⟩

/-- Source files. -/
def file : Part SourceFile :=
  ⟨SourceFile.events, SourceFile.rewrite, SourceFile.subst⟩

/-- A part in which there is nothing to go through. -/
structure Still (A : Part α) (a : α) : Prop where
  events : A.events a = []
  rewrite : ∀ {σ : Type} (r : Rewriter σ), A.rewrite r a = pure a
  subst : ∀ s, A.subst s a = a

/-- `g` makes parts of one sort of those of another, and adds nothing to go through. -/
structure Makes (A : Part α) (B : Part β) (g : α → β) : Prop where
  events : ∀ a, B.events (g a) = A.events a
  rewrite : ∀ {σ : Type} (r : Rewriter σ) a, B.rewrite r (g a) = (do return g (← A.rewrite r a))
  subst : ∀ s a, B.subst s (g a) = g (A.subst s a)

/-- Two parts are rewritten one after another. -/
theorem run_pair {σ : Type} {A : Part α} {B : Part β} {r : Rewriter σ} {a a' : α} {b b' : β}
    {s s' s'' : σ} (ha : (A.rewrite r a).run s = (a', s')) (hb : (B.rewrite r b).run s' = (b', s'')) :
    ((A.pair B).rewrite r (a, b)).run s = ((a', b'), s'') := by
  show (fun p : α × σ => (fun q : β × σ => ((p.1, q.1), q.2)) ((B.rewrite r b).run p.2))
    ((A.rewrite r a).run s) = _
  rw [ha]
  show (fun q : β × σ => ((a', q.1), q.2)) ((B.rewrite r b).run s') = _
  rw [hb]

/-- A node is rewritten as its parts are. -/
theorem Makes.run {σ : Type} {A : Part α} {B : Part β} {g : α → β} (h : A.Makes B g)
    {r : Rewriter σ} {a a' : α} {s s' : σ} (ha : (A.rewrite r a).run s = (a', s')) :
    (B.rewrite r (g a)).run s = (g a', s') := by
  rw [h.rewrite]
  exact congrArg (fun p : α × σ => (g p.1, p.2)) ha

/-- A part without nodes is rewritten as it is. -/
theorem Still.rewriting {A : Part α} {a : α} (h : A.Still a) :
    (fun _ r => A.rewrite r a : Rewriting α) = fun _ _ => pure a :=
  funext fun _ => funext h.rewrite

theorem Makes.rewriting {A : Part α} {B : Part β} {g : α → β} (h : A.Makes B g) (a : α) :
    (fun _ r => B.rewrite r (g a) : Rewriting β) = fun _ r => do return g (← A.rewrite r a) :=
  funext fun _ => funext fun r => h.rewrite r a

end Part

/-- What is kept in going through a tree. -/
structure Traversal (R : (α : Type) → Part α → α → Prop) : Prop where
  still : ∀ {α : Type} {A : Part α} {a : α}, A.Still a → R α A a
  pair : ∀ {α β : Type} {A : Part α} {B : Part β} {a : α} {b : β},
    R α A a → R β B b → R (α × β) (A.pair B) (a, b)
  make : ∀ {α β : Type} {A : Part α} {B : Part β} {g : α → β} {a : α},
    A.Makes B g → R α A a → R β B (g a)
  name : ∀ n, R String .name n
  expr : ∀ {x : Expr}, R Expr .insideExpr x → R Expr .expr x
  stmt : ∀ {k : StmtKind} {d : Decorations}, R StmtKind .insideStmt k → R Stmt .stmt ⟨k, d⟩

variable {R : (α : Type) → Part α → α → Prop}

namespace Traversal

variable {α β γ δ ε : Type} {A : Part α} {B : Part β} {C : Part γ} {D : Part δ} {E : Part ε}
  {a : α} {b : β} {c : γ} {d : δ} (hR : Traversal R)

include hR

/-- A node without parts. -/
theorem leaf (events : A.events a = [] := by rfl)
    (rewrite : ∀ {σ : Type} (r : Rewriter σ), A.rewrite r a = pure a := by intros; rfl)
    (subst : ∀ s, A.subst s a = a := by intros; rfl) : R _ A a :=
  hR.still ⟨events, rewrite, subst⟩

/-- A node with one part. -/
theorem map (ha : R _ A a) (g : α → β)
    (events : ∀ a, B.events (g a) = A.events a := by intros; rfl)
    (rewrite : ∀ {σ : Type} (r : Rewriter σ) a,
      B.rewrite r (g a) = (do return g (← A.rewrite r a)) := by intros; rfl)
    (subst : ∀ s a, B.subst s (g a) = g (A.subst s a) := by intros; rfl) : R _ B (g a) :=
  hR.make ⟨events, rewrite, subst⟩ ha

/-- A node with two parts. -/
theorem map₂ (ha : R _ A a) (hb : R _ B b) (g : α → β → γ)
    (events : ∀ a b, C.events (g a b) = A.events a ++ B.events b := by intros; rfl)
    (rewrite : ∀ {σ : Type} (r : Rewriter σ) a b,
      C.rewrite r (g a b) = (do return g (← A.rewrite r a) (← B.rewrite r b)) := by intros; rfl)
    (subst : ∀ s a b, C.subst s (g a b) = g (A.subst s a) (B.subst s b) := by intros; rfl) :
    R _ C (g a b) :=
  hR.make (g := fun p => g p.1 p.2)
    ⟨fun p => events p.1 p.2, fun r p => by simp [rewrite, Part.pair], fun s p => subst s p.1 p.2⟩
    (hR.pair ha hb)

/-- A node with three parts. -/
theorem map₃ (ha : R _ A a) (hb : R _ B b) (hc : R _ C c) (g : α → β → γ → δ)
    (events : ∀ a b c, D.events (g a b c) = A.events a ++ B.events b ++ C.events c := by
      intros; rfl)
    (rewrite : ∀ {σ : Type} (r : Rewriter σ) a b c, D.rewrite r (g a b c) =
      (do return g (← A.rewrite r a) (← B.rewrite r b) (← C.rewrite r c)) := by intros; rfl)
    (subst : ∀ s a b c, D.subst s (g a b c) = g (A.subst s a) (B.subst s b) (C.subst s c) := by
      intros; rfl) : R _ D (g a b c) :=
  hR.make (g := fun p => g p.1.1 p.1.2 p.2)
    ⟨fun p => events p.1.1 p.1.2 p.2, fun r p => by simp [rewrite, Part.pair],
      fun s p => subst s p.1.1 p.1.2 p.2⟩
    (hR.pair (hR.pair ha hb) hc)

/-- A node with four parts. -/
theorem map₄ (ha : R _ A a) (hb : R _ B b) (hc : R _ C c) (hd : R _ D d)
    (g : α → β → γ → δ → ε)
    (events : ∀ a b c d,
      E.events (g a b c d) = A.events a ++ B.events b ++ C.events c ++ D.events d := by intros; rfl)
    (rewrite : ∀ {σ : Type} (r : Rewriter σ) a b c d, E.rewrite r (g a b c d) =
      (do return g (← A.rewrite r a) (← B.rewrite r b) (← C.rewrite r c) (← D.rewrite r d)) := by
        intros; rfl)
    (subst : ∀ s a b c d,
      E.subst s (g a b c d) = g (A.subst s a) (B.subst s b) (C.subst s c) (D.subst s d) := by
        intros; rfl) : R _ E (g a b c d) :=
  hR.make (g := fun p => g p.1.1.1 p.1.1.2 p.1.2 p.2)
    ⟨fun p => events p.1.1.1 p.1.1.2 p.1.2 p.2, fun r p => by simp [rewrite, Part.pair],
      fun s p => subst s p.1.1.1 p.1.1.2 p.1.2 p.2⟩
    (hR.pair (hR.pair (hR.pair ha hb) hc) hd)

end Traversal

/-! ## Every part of a tree -/

section Trees

variable (hR : Traversal R)

include hR

theorem traversed_names (ns : List String) :
    R _ ⟨nameEvents, rewriteNames, fun s => List.map s.name⟩ ns := by
  induction ns with
  | nil => exact hR.leaf
  | cons n ns ih => exact hR.map₂ (hR.name n) ih List.cons

theorem traversed_label (l : Option String) :
    R _ ⟨fun l => nameEvents l.toList, rewriteLabel, fun s => Option.map s.name⟩ l := by
  cases l with
  | none => exact hR.leaf
  | some n => exact hR.map (hR.name n) some

mutual

/-- What a traversal keeps holds inside every expression. -/
theorem Expr.traversed_inside (x : Expr) :
    R _ .insideExpr x := by
  cases x with
  | ident n => exact hR.map (hR.name n) Expr.ident
  | literal kind text => exact hR.leaf
  | composite t es b =>
    exact hR.map₂ (traversed_optExpr t) (traversed_elements es) (Expr.composite · · b)
  | funcLit s b =>
    exact hR.map₂ s.traversed b.traversed Expr.funcLit
  | paren x => exact hR.map (hR.expr x.traversed_inside) Expr.paren
  | selector x n =>
    exact hR.map₂ (hR.expr x.traversed_inside) (hR.name n) Expr.selector
  | index x k =>
    exact hR.map₂ (hR.expr x.traversed_inside) (hR.expr k.traversed_inside) Expr.index
  | slice x l h m =>
    exact hR.map₄ (hR.expr x.traversed_inside) (traversed_optExpr l) (traversed_optExpr h)
      (traversed_optExpr m) Expr.slice
  | typeAssert x t =>
    exact hR.map₂ (hR.expr x.traversed_inside) (traversed_optExpr t) Expr.typeAssert
  | call f as v b =>
    exact hR.map₂ (hR.expr f.traversed_inside) (traversed_elements as) (Expr.call · · v b)
  | star x => exact hR.map (hR.expr x.traversed_inside) Expr.star
  | unary o x => exact hR.map (hR.expr x.traversed_inside) (Expr.unary o)
  | binary x o y b =>
    exact hR.map₂ (hR.expr x.traversed_inside) (hR.expr y.traversed_inside) (Expr.binary · o · b)
  | keyValue k v =>
    exact hR.map₂ (hR.expr k.traversed_inside) (hR.expr v.traversed_inside) Expr.keyValue
  | arrayType l x =>
    exact hR.map₂ (traversed_optExpr l) (hR.expr x.traversed_inside) Expr.arrayType
  | mapType k v =>
    exact hR.map₂ (hR.expr k.traversed_inside) (hR.expr v.traversed_inside) Expr.mapType
  | chanType d x => exact hR.map (hR.expr x.traversed_inside) (Expr.chanType d)
  | funcType s => exact hR.map s.traversed Expr.funcType
  | structType fs => exact hR.map fs.traversed Expr.structType
  | interfaceType fs => exact hR.map fs.traversed Expr.interfaceType
  | ellipsis x => exact hR.map (traversed_optExpr x) Expr.ellipsis
termination_by structural x

theorem traversed_optExpr (x : Option Expr) :
    R _ ⟨optExprEvents, rewriteOptExpr, substOptExpr⟩ x := by
  cases x with
  | none => exact hR.leaf
  | some x => exact hR.map (hR.expr x.traversed_inside) some
termination_by structural x

theorem traversed_exprs (xs : List Expr) :
    R _ ⟨exprEvents, rewriteExprs, substExprs⟩ xs := by
  cases xs with
  | nil => exact hR.leaf
  | cons x xs =>
    exact hR.map₂ (hR.expr x.traversed_inside) (traversed_exprs xs) List.cons
termination_by structural xs

theorem traversed_elements (es : List Element) :
    R _ ⟨elementEvents, rewriteElements, substElements⟩ es := by
  cases es with
  | nil => exact hR.leaf
  | cons e es =>
    obtain ⟨x, d⟩ := e
    exact hR.map₂ (hR.expr x.traversed_inside) (traversed_elements es) (Element.mk · d :: ·)
termination_by structural es

theorem traversed_fields (fs : List Field) :
    R _ ⟨fieldEvents, rewriteFields, substFields⟩ fs := by
  cases fs with
  | nil => exact hR.leaf
  | cons f fs =>
    obtain ⟨ns, x, t, d⟩ := f
    exact hR.map₃ (traversed_names hR ns) (hR.expr x.traversed_inside) (traversed_fields fs)
      (Field.mk · · t d :: ·)
termination_by structural fs

theorem FieldList.traversed (fs : FieldList) :
    R _ ⟨FieldList.events, FieldList.rewrite, FieldList.subst⟩ fs := by
  obtain ⟨fs, e⟩ := fs
  exact hR.map (traversed_fields fs) (FieldList.mk · e)
termination_by structural fs

theorem traversed_results (rs : Option FieldList) :
    R _ ⟨resultEvents, rewriteResults, substResults⟩ rs := by
  cases rs with
  | none => exact hR.leaf
  | some fs => exact hR.map fs.traversed some
termination_by structural rs

theorem Signature.traversed (s : Signature) :
    R _ ⟨Signature.events, Signature.rewrite, Signature.subst⟩ s := by
  obtain ⟨ps, rs⟩ := s
  exact hR.map₂ ps.traversed (traversed_results rs) Signature.mk
termination_by structural s

/-- What a traversal keeps holds of every block. -/
theorem Block.traversed (b : Block) :
    R _ .block b := by
  obtain ⟨ss, e, o⟩ := b
  exact hR.map (traversed_stmts ss) (Block.mk · e o)
termination_by structural b

theorem traversed_stmts (ss : List Stmt) :
    R _ ⟨stmtEvents, rewriteStmts, substStmts⟩ ss := by
  cases ss with
  | nil => exact hR.leaf
  | cons s ss =>
    exact hR.map₂ s.traversed (traversed_stmts ss) List.cons
termination_by structural ss

/-- What a traversal keeps holds of every statement. -/
theorem Stmt.traversed (s : Stmt) : R _ .stmt s := by
  obtain ⟨k, d⟩ := s
  exact hR.stmt k.traversed_inside
termination_by structural s

theorem traversed_optStmt (s : Option Stmt) :
    R _ ⟨optStmtEvents, rewriteOptStmt, substOptStmt⟩ s := by
  cases s with
  | none => exact hR.leaf
  | some s => exact hR.map s.traversed some
termination_by structural s

/-- What a traversal keeps holds inside every statement. -/
theorem StmtKind.traversed_inside (k : StmtKind) :
    R _ .insideStmt k := by
  cases k with
  | expr x => exact hR.map (hR.expr x.traversed_inside) StmtKind.expr
  | assign lhs o rhs =>
    exact hR.map₂ (traversed_exprs lhs) (traversed_exprs rhs) (StmtKind.assign · o ·)
  | incDec x u => exact hR.map (hR.expr x.traversed_inside) (StmtKind.incDec · u)
  | send c v =>
    exact hR.map₂ (hR.expr c.traversed_inside) (hR.expr v.traversed_inside) StmtKind.send
  | decl d => exact hR.map d.traversed StmtKind.decl
  | returns vs => exact hR.map (traversed_exprs vs) StmtKind.returns
  | branch k l => exact hR.map (traversed_label hR l) (StmtKind.branch k)
  | block b => exact hR.map b.traversed StmtKind.block
  | ifThen i c b e =>
    exact hR.map₄ (traversed_optStmt i) (hR.expr c.traversed_inside) b.traversed e.traversed
      StmtKind.ifThen
  | forLoop i c q b =>
    exact hR.map₄ (traversed_optStmt i) (traversed_optExpr c) (traversed_optStmt q) b.traversed
      StmtKind.forLoop
  | rangeLoop k v d x b =>
    exact hR.map₄ (traversed_optExpr k) (traversed_optExpr v) (hR.expr x.traversed_inside)
      b.traversed (StmtKind.rangeLoop · · d · ·)
  | switch i t cs e =>
    exact hR.map₃ (traversed_optStmt i) (traversed_optExpr t) (traversed_clauses cs)
      (StmtKind.switch · · · e)
  | typeSwitch i g cs e =>
    exact hR.map₃ (traversed_optStmt i) g.traversed (traversed_clauses cs)
      (StmtKind.typeSwitch · · · e)
  | select cs e => exact hR.map (traversed_clauses cs) (StmtKind.select · e)
  | go x => exact hR.map (hR.expr x.traversed_inside) StmtKind.go
  | defer x => exact hR.map (hR.expr x.traversed_inside) StmtKind.defer
  | labeled l s => exact hR.map₂ (hR.name l) s.traversed StmtKind.labeled
  | empty => exact hR.leaf
termination_by structural k

theorem Else.traversed (e : Else) :
    R _ ⟨Else.events, Else.rewrite, Else.subst⟩ e := by
  cases e with
  | none => exact hR.leaf
  | elseIf i c b e =>
    exact hR.map₄ (traversed_optStmt i) (hR.expr c.traversed_inside) b.traversed e.traversed
      Else.elseIf
  | block b => exact hR.map b.traversed Else.block
termination_by structural e

theorem traversed_clauses (cs : List Clause) :
    R _ ⟨clauseEvents, rewriteClauses, substClauses⟩ cs := by
  cases cs with
  | nil => exact hR.leaf
  | cons c cs =>
    obtain ⟨h, b, d⟩ := c
    exact hR.map₃ h.traversed (traversed_stmts b) (traversed_clauses cs) (Clause.mk · · d :: ·)
termination_by structural cs

theorem ClauseHead.traversed (h : ClauseHead) :
    R _ ⟨ClauseHead.events, ClauseHead.rewrite, ClauseHead.subst⟩ h := by
  cases h with
  | default => exact hR.leaf
  | values xs => exact hR.map (traversed_exprs xs) ClauseHead.values
  | comm s => exact hR.map s.traversed ClauseHead.comm
termination_by structural h

theorem GenDecl.traversed (d : GenDecl) :
    R _ ⟨GenDecl.events, GenDecl.rewrite, GenDecl.subst⟩ d := by
  obtain ⟨k, ss, g⟩ := d
  exact hR.map (traversed_specs ss) (GenDecl.mk k · g)
termination_by structural d

theorem traversed_specs (ss : List Spec) :
    R _ ⟨specEvents, rewriteSpecs, substSpecs⟩ ss := by
  cases ss with
  | nil => exact hR.leaf
  | cons s ss =>
    obtain ⟨k, d⟩ := s
    exact hR.map₂ k.traversed (traversed_specs ss) (Spec.mk · d :: ·)
termination_by structural ss

theorem SpecKind.traversed (k : SpecKind) :
    R _ ⟨SpecKind.events, SpecKind.rewrite, SpecKind.subst⟩ k := by
  cases k with
  | importPath n path => exact hR.leaf
  | value ns t vs =>
    exact hR.map₃ (traversed_names hR ns) (traversed_optExpr t) (traversed_exprs vs) SpecKind.value
  | type n a x => exact hR.map₂ (hR.name n) (hR.expr x.traversed_inside) (SpecKind.type · a ·)
termination_by structural k

end

theorem FuncDecl.traversed (f : FuncDecl) :
    R _ ⟨FuncDecl.events, FuncDecl.rewrite, FuncDecl.subst⟩ f := by
  obtain ⟨recv, name, signature, body⟩ := f
  have hhead := (hR.pair (hR.pair (traversed_results hR recv) (hR.name name))
    (signature.traversed hR))
  cases body with
  | none =>
    refine hR.map hhead (fun p => FuncDecl.mk p.1.1 p.1.2 p.2 none) (fun p => ?_) (fun r p => ?_)
    · simp [Part.pair, Part.name, FuncDecl.events]
    · simp [Part.pair, Part.name, FuncDecl.rewrite]
  | some body =>
    refine hR.map₂ hhead (body.traversed hR) (fun p b => FuncDecl.mk p.1.1 p.1.2 p.2 (some b))
      (fun p b => ?_) (fun r p b => ?_)
    · simp [Part.pair, Part.name, Part.block, FuncDecl.events]
    · simp [Part.pair, Part.name, Part.block, FuncDecl.rewrite]

theorem Decl.traversed (d : Decl) : R _ ⟨Decl.events, Decl.rewrite, Decl.subst⟩ d := by
  obtain ⟨kind, decs⟩ := d
  cases kind with
  | func f => exact hR.map (f.traversed hR) fun f => Decl.mk (.func f) decs
  | gen g => exact hR.map (g.traversed hR) fun g => Decl.mk (.gen g) decs

/-- What a traversal keeps holds of the declarations of every file. -/
theorem traversed_decls (ds : List Decl) :
    R _ ⟨List.flatMap Decl.events, rewriteDecls, fun s => List.map (·.subst s)⟩ ds := by
  induction ds with
  | nil => exact hR.leaf
  | cons d ds ih => exact hR.map₂ (d.traversed hR) ih List.cons

/-- A source file is rewritten in the order in which it is read. -/
theorem SourceFile.traversed (file : SourceFile) :
    R _ .file file :=
  hR.map (traversed_decls hR file.decls) fun decls => { file with decls }

end Trees

end HandlerSplit
