import HandlerSplit.Parse.Stmt
import HandlerSplit.Proofs.Parse.Restoring
import HandlerSplit.Proofs.Tree.Nesting
/-!
# The nesting of what types hold

The room of a context is how many levels deeper phrases may still be nested. What is read in a
context holds no deeper nesting of statements than there is room, loose statements aside
(`Event.Shallow`). An expression or type takes a level for itself, so there is room for it, and one
level less for what it holds (`Event.Under`). The levels of the grammar hand this on.
-/

namespace HandlerSplit

namespace Event

/-- Statements that are not loose are nested at most `k` deep. -/
def Shallow (k : Nat) (es : List Event) : Prop :=
  Deepens (fun s => !s.isLoose) k es

/-- Statements that are not loose are nested less than `k` deep. -/
def Under (k : Nat) (es : List Event) : Prop :=
  ∃ l, k = l + 1 ∧ Shallow l es

namespace Under

variable {k : Nat} {es es' : List Event}

/-- What is nested under a level is no deeper than the level. -/
theorem shallow (h : Under k es) : Shallow k es := by
  obtain ⟨l, rfl, h⟩ := h
  exact h.mono (Nat.le_succ l)

/-- Events that follow one another are nested as the deeper of them. -/
theorem append (h : Under k es) (h' : Under k es') : Under k (es ++ es') := by
  obtain ⟨l, rfl, h⟩ := h
  obtain ⟨l', hl, h'⟩ := h'
  obtain rfl := Nat.succ.inj hl
  exact ⟨l, rfl, Deepens.append h h'⟩

/-- Around an expression nothing is nested deeper than inside it. -/
theorem aroundExpr (h : Under k es) (x : Expr) : Under k (aroundExpr x es) := by
  obtain ⟨l, rfl, h⟩ := h
  exact ⟨l, rfl, Deepens.aroundExpr h x⟩

/-- A statement takes the level that what is inside it leaves. -/
theorem aroundStmt (h : Under k es) (s : Stmt) : Shallow k (aroundStmt s es) := by
  obtain ⟨l, rfl, h⟩ := h
  exact Deepens.aroundStmt h s

theorem exprs {xs : List Expr} (hne : xs ≠ []) (h : ∀ x ∈ xs, Under k x.inside) :
    Under k (exprEvents xs) := by
  obtain ⟨x, hx⟩ := List.exists_mem_of_ne_nil xs hne
  obtain ⟨l, rfl, -⟩ := h x hx
  refine ⟨l, rfl, Deepens.exprs fun y hy => ?_⟩
  obtain ⟨l', hl, hy⟩ := h y hy
  exact Nat.succ.inj hl ▸ hy

end Under

end Event

/-! ## Statements -/

/-- A statement that takes one level more than there is room for its parts, whatever its layout. -/
def StmtKind.Fits (k : Nat) (kind : StmtKind) : Prop :=
  ∀ d, Event.Shallow (k + 1) (Stmt.events ⟨kind, d⟩)

namespace StmtKind

variable {k : Nat} {kind : StmtKind}

/-- A statement for whose parts there is room. -/
theorem fits_of_shallow (h : Event.Shallow k kind.inside) : kind.Fits k :=
  fun _ => h.aroundStmt _

/-- A loose statement does not count itself. -/
theorem fits_of_isLoose (h : Event.Shallow (k + 1) kind.inside) (hloose : kind.isLoose = true) :
    kind.Fits k :=
  fun d => h.aroundStmt_of_not (s := ⟨kind, d⟩) (by rw [Stmt.isLoose, hloose]; rfl)

end StmtKind

namespace Parse

open Event (Shallow Under Deepens)

/-- How many levels deeper phrases may be nested. -/
def Context.room (x : Context) : Nat :=
  maxNesting - x.depth

/-- What is read one level deeper has one level less of room. -/
theorem AnswersIn.nested_room {x : Context} {α : Type} {P : Nat → α → Prop} {p : Parser α}
    (h : ∀ y : Context, AnswersIn y (P y.room) p) :
    AnswersIn x (fun a => ∃ k, x.room = k + 1 ∧ P k a) (Parse.nested p) := by
  refine .nested fun hdepth => (h _).weaken fun a ha => ⟨_, ?_, ha⟩
  show maxNesting - x.depth = maxNesting - (x.depth + 1) + 1
  omega

/-! ## Levels of the grammar -/

/-- The room the parts of an `if` statement take. -/
def ifShallow (k : Nat) (r : Option Stmt × Expr × Block × Else) : Prop :=
  Shallow k (optStmtEvents r.1) ∧ Shallow k r.2.1.events ∧ Shallow k r.2.2.1.events ∧
    Shallow k r.2.2.2.events

/-- A level of the grammar whose phrases hold no more than there is room for. -/
structure Grammar.Shallow (g : Grammar) : Prop where
  binary (x : Context) (strength : Nat) :
    AnswersIn x (fun e => Under x.room e.inside) (g.binary strength)
  unary (x : Context) : AnswersIn x (fun e => Under x.room e.inside) g.unary
  elementValue (x : Context) : AnswersIn x (fun e => Under x.room e.inside) g.elementValue
  type (x : Context) : AnswersIn x (fun e => Under x.room e.inside) g.type
  block (x : Context) : AnswersIn x (fun b => Event.Shallow x.room b.events) g.block
  stmt (x : Context) : AnswersIn x (StmtKind.Fits x.room) g.stmt
  ifThen (x : Context) : AnswersIn x (ifShallow x.room) g.ifThen

/-! ## The parts of phrases -/

/-- An entry of a parameter list. -/
def ParamItem.Shallow (k : Nat) (item : ParamItem) : Prop :=
  ∀ x ∈ item.type, Event.Shallow k x.inside

/-- Grouping parameters nests nothing deeper. -/
theorem shallow_of_groupParams {k : Nat} {items : List ParamItem} {fields : List Field}
    (h : ∀ item ∈ items, item.Shallow k) (hok : groupParams items = .ok fields) :
    Shallow k (fieldEvents fields) := by
  refine Deepens.fields fun f hf => ?_
  obtain ⟨-, ⟨item, hitem, htype⟩ | ⟨name, htype⟩⟩ := fromItem_of_groupParams hok f hf
  · exact h item hitem _ htype
  · exact htype ▸ Deepens.nil.cons_name name

namespace Grammar.Shallow

variable {α : Type} {g : Grammar}

/-- Whatever holds of each phrase holds of all behind commas. -/
theorem afterCommas {x : Context} {P : α → Prop} {item : Parser α} (h : AnswersIn x P item) :
    AnswersIn x (fun as => ∀ a ∈ as, P a) (g.afterCommas item) := by
  refine .entries (.after fun comma => ?_) _
  split
  · exact .after fun _ => .bind h fun a ha => .pure ha
  · exact .pure trivial

/-- The members of a struct or interface, of which `entry` reads one. -/
theorem fieldBlock (phrase : Opened) {x : Context} {k : Nat} {entry : Parser Field}
    (h : AnswersIn x (fun f => Event.Shallow k f.type.inside) entry) :
    AnswersIn x (fun fs => Event.Shallow k fs.events) (g.fieldBlock phrase entry) := by
  refine .after fun t => .after fun _ => .after fun comment => ?_
  refine .bind (P := fun fs : List Field => ∀ f ∈ fs, Event.Shallow k f.type.inside)
    (.entries (.after fun kind => ?_) _) fun fs hfs => .after fun b => .after fun _ =>
      .pure (Deepens.fields hfs)
  split
  · exact .pure trivial
  · exact .rejectAt _ _
  · exact .after fun _ => .pure trivial
  · exact .after fun d => .bind h fun f hf => .after fun _ => .after fun trailing => .pure hf

/-- A name, and a name selected from it. -/
theorem shallow_selector (k : Nat) (name member : String) :
    Event.Shallow k (Expr.selector (.ident name) member).inside :=
  (Deepens.aroundExpr (Deepens.names [name]) _).append (Deepens.names [member])

variable (hg : g.Shallow) (x : Context)

include hg

/-- An expression takes a level for itself, and has one less for what it holds. -/
theorem expr : AnswersIn x (fun e => Under x.room e.inside) g.expr :=
  hg.binary x 1

/-- Expressions, at least one. -/
theorem exprs :
    AnswersIn x (fun es => Under x.room (exprEvents es) ∧ ∀ e ∈ es, Under x.room e.inside)
      g.exprs := by
  refine .bind (hg.expr x) fun e he => .bind (afterCommas (hg.expr x)) fun es hes => .pure ?_
  have hall : ∀ y ∈ e :: es, Under x.room y.inside := List.forall_mem_cons.mpr ⟨he, hes⟩
  exact ⟨Under.exprs (List.cons_ne_nil e es) hall, hall⟩

/-! ## Types -/

/-- The dots of a variadic parameter take no level. -/
theorem paramType : AnswersIn x (fun e => Event.Shallow x.room e.inside) g.paramType := by
  refine .after fun dots => ?_
  split
  · exact .after fun _ => .bind (hg.type x) fun e he => .pure (he.aroundExpr e).shallow
  · exact (hg.type x).weaken fun e he => he.shallow

theorem paramItem (decs : Decorations) :
    AnswersIn x (ParamItem.Shallow x.room) (g.paramItem decs) := by
  have typed (name : Option String) {e : Expr} (he : Event.Shallow x.room e.inside) :
      ParamItem.Shallow x.room ⟨name, some e, decs⟩ := by
    rintro _ ⟨⟩
    exact he
  have untyped (name : String) : ParamItem.Shallow x.room ⟨some name, none, decs⟩ := by
    rintro _ ⟨⟩
  refine .after fun kind => ?_
  split
  · rename_i name
    refine .after fun _ => .after fun kind => ?_
    split
    · exact .after fun _ => .after fun member => .pure (typed _ (shallow_selector _ name member))
    · exact .pure (untyped name)
    · exact .pure (untyped name)
    · exact .bind (hg.paramType x) fun e he => .pure (typed _ he)
  · exact .bind (hg.paramType x) fun e he => .pure (typed _ he)

theorem paramTurn (opening : Span) :
    AnswersIn x (Turn.All (ParamItem.Shallow x.room)) (g.paramTurn opening) := by
  refine .after fun kind => ?_
  split
  · exact .pure trivial
  · exact .rejectAt _ _
  · refine .after fun d => .bind (hg.paramItem x d) fun item hitem => .after fun comma => ?_
    split
    · exact .after fun _ => .after fun trailing => .pure hitem
    · exact .pure hitem

/-- Parameters hold no deeper nesting than there is room. -/
theorem params : AnswersIn x (fun fs => Event.Shallow x.room fs.events) g.params := by
  refine .after fun t => .after fun _ => .after fun comment => ?_
  refine .bind (.entries (hg.paramTurn x _) _) fun items hitems => .after fun b => .after fun _ => ?_
  split
  · rename_i fields hok
    exact .pure (shallow_of_groupParams hitems hok)
  · exact .reject _

theorem results : AnswersIn x (fun rs => Event.Shallow x.room (resultEvents rs)) g.results := by
  refine .after fun kind => ?_
  split
  · exact .bind (hg.params x) fun fs hfs => .pure hfs
  · split
    · refine .bind (hg.type x) fun e he => .pure (Deepens.fields ?_)
      exact List.forall_mem_singleton.mpr he.shallow
    · exact .pure Deepens.nil

theorem signature : AnswersIn x (fun s => Event.Shallow x.room s.events) g.signature :=
  .bind (hg.params x) fun _ hps => .bind (hg.results x) fun _ hrs => .pure (hps.append hrs)

theorem structField :
    AnswersIn x (fun f : List String × Expr => Event.Shallow x.room f.2.inside) g.structField := by
  refine .after fun kind => ?_
  split
  · rename_i name
    refine .after fun _ => .after fun kind => ?_
    split
    · exact .after fun _ => .after fun member => .pure (shallow_selector _ name member)
    · exact .pure (Deepens.names [name])
    · exact .pure (Deepens.names [name])
    · exact .pure (Deepens.names [name])
    · exact .after fun others => .bind (hg.type x) fun e he => .pure he.shallow
  · exact .after fun _ => .bind (hg.type x) fun e he => .pure (he.aroundExpr e).shallow

theorem taggedField : AnswersIn x (fun f => Event.Shallow x.room f.type.inside) g.taggedField := by
  refine .bind (hg.structField x) fun f hf => .after fun kind => ?_
  split
  · exact .after fun _ => .pure hf
  · exact .pure hf

/-- The signature of a method holds no deeper nesting than there is room. -/
theorem interfaceEntry :
    AnswersIn x (fun f => Event.Shallow x.room f.type.inside) g.interfaceEntry := by
  refine .after fun name => .after fun kind => ?_
  split
  · exact .bind (hg.signature x) fun s hs => .pure hs
  · exact .after fun _ => .after fun member => .pure (shallow_selector _ name member)
  · exact .pure (Deepens.names [name])

/-- The length of an array may hold statements, in function literals. -/
theorem arrayType : AnswersIn x (fun e => Event.Shallow x.room e.inside) g.arrayType := by
  refine .after fun _ => .bind (P := fun len => Event.Shallow x.room (optExprEvents len))
    (.after fun kind => ?_) fun len hlen => .after fun _ => .bind (hg.type x) fun e he =>
      .pure (hlen.append (he.aroundExpr e).shallow)
  split
  · exact .pure Deepens.nil
  · exact .after fun _ => .pure (Deepens.aroundExpr Deepens.nil _)
  · exact .bind (.bracketed (hg.expr _)) fun e he => .pure (he.aroundExpr e).shallow

theorem mapType : AnswersIn x (fun e => Event.Shallow x.room e.inside) g.mapType := by
  refine .after fun _ => .after fun _ => .bind (hg.type x) fun k hk => .after fun _ => ?_
  exact .bind (hg.type x) fun v hv => .pure ((hk.aroundExpr k).append (hv.aroundExpr v)).shallow

/-- What a type holds has all the room there is. -/
theorem typeInner : AnswersIn x (fun e => Event.Shallow x.room e.inside) g.typeInner := by
  refine .after fun kind => ?_
  split
  · rename_i name
    refine .after fun _ => .after fun point => ?_
    split
    · exact .after fun _ => .after fun member => .pure (shallow_selector _ name member)
    · exact .pure (Deepens.names [name])
  · exact .after fun _ => .bind (hg.type x) fun e he => .after fun _ =>
      .pure (he.aroundExpr e).shallow
  · exact hg.arrayType x
  · exact .after fun _ => .bind (fieldBlock _ (hg.taggedField x)) fun fs hfs => .pure hfs
  · exact .after fun _ => .bind (fieldBlock _ (hg.interfaceEntry x)) fun fs hfs => .pure hfs
  · exact hg.mapType x
  · exact .after fun dir => .bind (hg.type x) fun e he => .pure (he.aroundExpr e).shallow
  · exact .after fun dir => .bind (hg.type x) fun e he => .pure (he.aroundExpr e).shallow
  · exact .after fun _ => .bind (hg.signature x) fun s hs => .pure hs
  · exact .after fun _ => .bind (hg.type x) fun e he => .pure (he.aroundExpr e).shallow
  · exact .unexpected _

/-- A type takes the level that `nested` gives it. -/
theorem nestedType : AnswersIn x (fun e => Under x.room e.inside) g.nestedType :=
  .nested_room (P := fun k (e : Expr) => Event.Shallow k e.inside) hg.typeInner

end Grammar.Shallow

end Parse

end HandlerSplit
