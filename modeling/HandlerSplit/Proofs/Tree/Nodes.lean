import HandlerSplit.Proofs.Tree.Traversal
/-!
# The nodes of a tree

What holds of all expressions and statements of a tree holds of those of its parts, and is put
together from them (`Event.Nodes`). A tree that holds a node holds the parts of the node as well
(`SourceFile.complete`).
-/

namespace HandlerSplit

namespace Event

/-- What holds of an event if `P` holds of the expressions that are entered and `Q` of the
statements. -/
def Holds (P : Expr → Prop) (Q : Stmt → Prop) : Event → Prop
  | enterExpr x => P x
  | enterStmt s => Q s
  | _ => True

/-- `P` holds of all expressions and `Q` of all statements. -/
def Nodes (P : Expr → Prop) (Q : Stmt → Prop) (es : List Event) : Prop :=
  ∀ e ∈ es, e.Holds P Q

namespace Nodes

variable {P P' : Expr → Prop} {Q Q' : Stmt → Prop} {es es' : List Event}

theorem nil : Nodes P Q [] :=
  List.forall_mem_nil _

theorem append (h : Nodes P Q es) (h' : Nodes P Q es') : Nodes P Q (es ++ es') :=
  List.forall_mem_append.mpr ⟨h, h'⟩

theorem cons_name (h : Nodes P Q es) (n : String) : Nodes P Q (.name n :: es) :=
  List.forall_mem_cons.mpr ⟨trivial, h⟩

theorem names (ns : List String) : Nodes P Q (nameEvents ns) := by
  induction ns with
  | nil => exact nil
  | cons n ns ih => exact ih.cons_name n

theorem aroundExpr (h : Nodes P Q es) {x : Expr} (hx : P x) : Nodes P Q (aroundExpr x es) :=
  List.forall_mem_cons.mpr ⟨hx, h.append (List.forall_mem_singleton.mpr trivial)⟩

theorem aroundStmt (h : Nodes P Q es) {s : Stmt} (hs : Q s) : Nodes P Q (aroundStmt s es) :=
  List.forall_mem_cons.mpr ⟨hs, h.append (List.forall_mem_singleton.mpr trivial)⟩

/-- An expression is one of its nodes. -/
theorem head {x : Expr} (h : Nodes P Q x.events) : P x :=
  h _ List.mem_cons_self

theorem subset (h : Nodes P Q es) (hsub : es' ⊆ es) : Nodes P Q es' :=
  fun e he => h e (hsub he)

theorem imp (h : Nodes P Q es) (hP : ∀ x, P x → P' x) (hQ : ∀ s, Q s → Q' s) : Nodes P' Q' es := by
  intro e he
  have he := h e he
  cases e with
  | enterExpr x => exact hP x he
  | enterStmt s => exact hQ s he
  | _ => trivial

/-! ### Lists of parts -/

theorem exprs {xs : List Expr} (h : ∀ x ∈ xs, Nodes P Q x.events) : Nodes P Q (exprEvents xs) := by
  induction xs with
  | nil => exact nil
  | cons x xs ih =>
    obtain ⟨hx, hxs⟩ := List.forall_mem_cons.mp h
    exact hx.append (ih hxs)

theorem optExpr {o : Option Expr} (h : ∀ x ∈ o, Nodes P Q x.events) :
    Nodes P Q (optExprEvents o) := by
  cases o with
  | none => exact nil
  | some x => exact h x rfl

theorem elements {ds : List Element} (h : ∀ d ∈ ds, Nodes P Q d.expr.events) :
    Nodes P Q (elementEvents ds) := by
  induction ds with
  | nil => exact nil
  | cons d ds ih =>
    obtain ⟨hd, hds⟩ := List.forall_mem_cons.mp h
    obtain ⟨x, decs⟩ := d
    exact append hd (ih hds)

theorem fields {fs : List Field} (h : ∀ f ∈ fs, Nodes P Q f.type.events) :
    Nodes P Q (fieldEvents fs) := by
  induction fs with
  | nil => exact nil
  | cons f fs ih =>
    obtain ⟨hf, hfs⟩ := List.forall_mem_cons.mp h
    obtain ⟨ns, x, tag, decs⟩ := f
    exact ((names ns).append hf).append (ih hfs)

theorem stmts {ss : List Stmt} (h : ∀ s ∈ ss, Nodes P Q s.events) : Nodes P Q (stmtEvents ss) := by
  induction ss with
  | nil => exact nil
  | cons s ss ih =>
    obtain ⟨hs, hss⟩ := List.forall_mem_cons.mp h
    exact hs.append (ih hss)

theorem clauses {cs : List Clause}
    (h : ∀ c ∈ cs, Nodes P Q c.head.events ∧ Nodes P Q (stmtEvents c.body)) :
    Nodes P Q (clauseEvents cs) := by
  induction cs with
  | nil => exact nil
  | cons c cs ih =>
    obtain ⟨⟨hhead, hbody⟩, hcs⟩ := List.forall_mem_cons.mp h
    obtain ⟨head, body, decs⟩ := c
    exact (append hhead hbody).append (ih hcs)

theorem specs {ss : List Spec} (h : ∀ s ∈ ss, Nodes P Q s.kind.events) :
    Nodes P Q (specEvents ss) := by
  induction ss with
  | nil => exact nil
  | cons s ss ih =>
    obtain ⟨hs, hss⟩ := List.forall_mem_cons.mp h
    obtain ⟨kind, decs⟩ := s
    exact append hs (ih hss)

end Nodes

/-- A statement that reading meets is entered. -/
theorem mem_of_mem_stmts {es : List Event} {s : Stmt} (h : s ∈ stmts es) : enterStmt s ∈ es := by
  obtain ⟨e, he, hentered⟩ := List.mem_filterMap.mp h
  cases e with
  | enterStmt t =>
    obtain rfl := Option.some.inj hentered
    exact he
  | _ => cases hentered

/-- What holds of all statements that are entered holds of those that reading meets. -/
theorem Nodes.of_mem_stmts {P : Expr → Prop} {Q : Stmt → Prop} {es : List Event}
    (h : Nodes P Q es) {s : Stmt} (hs : s ∈ Event.stmts es) : Q s :=
  h _ (mem_of_mem_stmts hs)

/-! ## Parts of nodes -/

/-- What is met between entering and leaving. -/
theorem inside_subset (e e' : Event) (es : List Event) : es ⊆ e :: es ++ [e'] := by
  intro f hf
  simp [hf]

/-- With a node, all that is met in reading the node is met. -/
def Complete (es : List Event) : Prop :=
  Nodes (fun x => x.events ⊆ es) (fun s => s.events ⊆ es) es

namespace Complete

variable {es es' : List Event}

/-- Complete events, as a part of others. -/
theorem within (h : Complete es) (hsub : es ⊆ es') :
    Nodes (fun x => x.events ⊆ es') (fun s => s.events ⊆ es') es :=
  h.imp (fun _ hx => List.Subset.trans hx hsub) fun _ hs => List.Subset.trans hs hsub

protected theorem append (h : Complete es) (h' : Complete es') : Complete (es ++ es') :=
  Nodes.append (h.within (List.subset_append_left es es'))
    (h'.within (List.subset_append_right es es'))

end Complete

theorem complete_traversal : Traversal fun _ A a => Complete (A.events a) where
  still h := by rw [h.events]; exact Nodes.nil
  pair ha hb := ha.append hb
  make h ha := by rw [h.events]; exact ha
  name n := Nodes.names [n]
  expr {x} h := (h.within (inside_subset _ _ _)).aroundExpr (List.Subset.refl x.events)
  stmt {k d} h :=
    (h.within (inside_subset _ _ _)).aroundStmt (List.Subset.refl (Stmt.events ⟨k, d⟩))

end Event

theorem SourceFile.complete (file : SourceFile) : Event.Complete file.events :=
  file.traversed Event.complete_traversal

end HandlerSplit
