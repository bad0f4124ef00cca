import HandlerSplit.Parse.Stmt
import HandlerSplit.Proofs.Parse.Arguments
import HandlerSplit.Proofs.Tree.Canonical
import HandlerSplit.Proofs.Tree.Headers
import HandlerSplit.Proofs.Tree.Nodes
/-!
# How the parser builds types

Whatever the parser builds a node of, it makes sure that operators and operands are grouped
(`Expr.Grouped`), that types hold no composite literals outside of brackets, that the arguments of a
call are those between its parentheses in the text, and that the headers of control statements are
covered (`Event.AllBuilt`). The levels of the grammar hand this on for all nodes of what they read.
Here are parameter lists, field lists and types.
-/

namespace HandlerSplit

/-! ## Operands that need no parentheses -/

namespace Expr

/-- Whatever binary operator the expression is, it binds at least as strongly as given. -/
def Binds (strength : Nat) (x : Expr) : Prop :=
  ∀ op ∈ x.binaryOp?, strength ≤ op.precedence

/-- The parts of the expression stand in it without parentheses: an operand of a binary operator
does not bind weaker than the operator, no binary expression is the operand of a unary operator, and
what is selected from, indexed, called or given a literal body is an operand. The printer adds no
parentheses around operands, but for a function type that is called, so it can write a tree as it is
only if the nodes are grouped. -/
def Grouped : Expr → Prop
  | binary x op y _ => x.Binds op.precedence ∧ y.Binds (op.precedence + 1)
  | unary _ x | star x => x.binaryOp? = none
  | selector x _ | index x _ | slice x _ _ _ | typeAssert x _ | call x _ _ _
  | composite (some x) _ _ => x.isOperand = true
  | _ => True

variable {x : Expr}

/-- An operand is no binary expression. -/
theorem binaryOp?_of_isOperand (h : x.isOperand = true) : x.binaryOp? = none := by
  cases x with
  | binary => cases h
  | _ => rfl

/-- What has no operator binds as strongly as any. -/
theorem binds_of_not_binary (h : x.binaryOp? = none) (strength : Nat) : x.Binds strength := by
  rw [Binds, h]
  exact nofun

end Expr

/-! ## Nodes -/

/-- The arguments of a call stand between parentheses in the text, with `...` behind those that
`spreads` marks. -/
def Parse.Written (ts : List TokenKind) (args : List Element) (spreads : List Bool) : Prop :=
  ∃ budget n items ks, .punct .lparen :: (ks ++ [.punct .rparen]) <:+: ts ∧
    ArgumentList items spreads ks ∧
    List.Forall₂ (fun a item => (Grammar.level budget n).ReadsAs item a.expr) args items

/-- If the expression is a call, its arguments stand in the text, and it is variadic if `...` stands
behind any of them. -/
def Expr.CalledIn (ts : List TokenKind) : Expr → Prop
  | .call _ args variadic _ => ∃ spreads, Parse.Written ts args spreads ∧ variadic = spreads.any id
  | _ => True

/-- What the parser makes sure of when it builds an expression. -/
structure Expr.Built (ts : List TokenKind) (x : Expr) : Prop where
  grouped : x.Grouped
  typed : x.Typed
  called : x.CalledIn ts

/-- The parser makes sure of this at all nodes. -/
abbrev Event.AllBuilt (ts : List TokenKind) : List Event → Prop :=
  Nodes (Expr.Built ts) fun s => s.kind.HeadersCovered

namespace Parse

open Event (AllBuilt Nodes)

/-! ## Phrases -/

/-- An expression read in a text. Directly in a header it is covered. -/
structure BuiltExpr (ts : List TokenKind) (x : Context) (e : Expr) : Prop where
  all : AllBuilt ts e.events
  covered : x.exprLevel < 0 → e.Covered

/-- A type read in a text. -/
structure BuiltType (ts : List TokenKind) (t : Expr) : Prop where
  all : AllBuilt ts t.events
  closed : t.openTypes = []
  plain : t.binaryOp? = none

/-- Fields read in a text. -/
structure BuiltFields (ts : List TokenKind) (es : List Event) (open_ : List Expr) : Prop where
  all : AllBuilt ts es
  closed : open_ = []

/-- A statement read in a text. -/
structure BuiltStmt (ts : List TokenKind) (kind : StmtKind) : Prop where
  inside : AllBuilt ts kind.inside
  headers : kind.HeadersCovered

/-- The nodes of a statement are its own and those inside it. -/
theorem BuiltStmt.events {ts : List TokenKind} {kind : StmtKind} (h : BuiltStmt ts kind)
    (decs : Decorations) : AllBuilt ts (Stmt.events ⟨kind, decs⟩) :=
  h.inside.aroundStmt h.headers

/-- A statement read in a header, if the clause is not empty. -/
structure BuiltClause (ts : List TokenKind) (s : Option Stmt) : Prop where
  all : AllBuilt ts (optStmtEvents s)
  covered : ∀ t ∈ s, t.kind.Covered

/-- The parts of an `if` statement read in a text. -/
structure BuiltIf (ts : List TokenKind) (r : Option Stmt × Expr × Block × Else) : Prop where
  init : BuiltClause ts r.1
  cond : AllBuilt ts r.2.1.events ∧ r.2.1.Covered
  body : AllBuilt ts r.2.2.1.events
  otherwise : AllBuilt ts r.2.2.2.events ∧ r.2.2.2.HeadersCovered

/-- A level of the grammar that builds its phrases so. An expression whose operators bind at least
as strongly as given ends before an operator that binds weaker. -/
structure Grammar.Built (g : Grammar) : Prop where
  level : ∃ n, g = Grammar.level g.budget n
  binary (ts : List TokenKind) (x : Context) (strength : Nat) :
    AnswersAt ts x (fun e => BuiltExpr ts x e ∧ e.Binds strength) (g.binary strength)
  stops (strength : Nat) (c : Cursor) (e : Expr) (c' : Cursor) :
    (g.binary strength).run c = (.ok e, c') →
      ∀ op, c'.current.kind = .op op → op.precedence < strength
  unary (ts : List TokenKind) (x : Context) :
    AnswersAt ts x (fun e => BuiltExpr ts x e ∧ e.binaryOp? = none) g.unary
  elementValue (ts : List TokenKind) (x : Context) :
    AnswersAt ts x (fun e => AllBuilt ts e.events) g.elementValue
  type (ts : List TokenKind) (x : Context) : AnswersAt ts x (BuiltType ts) g.type
  block (ts : List TokenKind) (x : Context) : AnswersAt ts x (fun b => AllBuilt ts b.events) g.block
  stmt (ts : List TokenKind) (x : Context) : AnswersAt ts x (BuiltStmt ts) g.stmt
  ifThen (ts : List TokenKind) (x : Context) : AnswersAt ts x (BuiltIf ts) g.ifThen

/-! ## The parts of phrases -/

/-- An entry of a parameter list. -/
def ParamItem.Built (ts : List TokenKind) (item : ParamItem) : Prop :=
  ∀ t ∈ item.type, BuiltType ts t

/-- A name is a type that is read in any text. -/
theorem builtType_ident (ts : List TokenKind) (name : String) : BuiltType ts (.ident name) :=
  ⟨(Nodes.names [name]).aroundExpr ⟨trivial, trivial, trivial⟩, rfl, rfl⟩

/-- A name selected from a package. -/
theorem builtType_selector (ts : List TokenKind) (name member : String) :
    BuiltType ts (.selector (.ident name) member) :=
  ⟨((builtType_ident ts name).all.append (Nodes.names [member])).aroundExpr
    ⟨rfl, trivial, trivial⟩, rfl, rfl⟩

/-- Fields hold the nodes of their types. -/
theorem BuiltFields.of_types {ts : List TokenKind} {fs : List Field}
    (h : ∀ f ∈ fs, BuiltType ts f.type) : BuiltFields ts (fieldEvents fs) (fieldOpenTypes fs) :=
  ⟨.fields fun f hf => (h f hf).all, fieldOpenTypes_eq_nil.mpr fun f hf => (h f hf).closed⟩

/-- Grouping parameters adds no nodes. -/
theorem built_of_groupParams {ts : List TokenKind} {items : List ParamItem} {fields : List Field}
    (h : ∀ item ∈ items, item.Built ts) (hok : groupParams items = .ok fields) :
    BuiltFields ts (fieldEvents fields) (fieldOpenTypes fields) := by
  refine .of_types fun f hf => ?_
  obtain ⟨-, ⟨item, hitem, htype⟩ | ⟨name, htype⟩⟩ := fromItem_of_groupParams hok f hf
  · exact h item hitem _ htype
  · exact htype ▸ builtType_ident ts name

namespace Moves

variable {α : Type} (g : Grammar)

instance chanDir : Moves Parse.chanDir := by
  refine of_answers fun ts x => .after fun recv => ?_
  split
  · exact .after fun _ => .after fun _ => .pure trivial
  · refine .after fun _ => .after fun send => ?_
    split
    · exact .after fun _ => .pure trivial
    · exact .pure trivial

instance afterCommas {item : Parser α} [Moves item] : Moves (g.afterCommas item) := by
  refine of_answers fun ts x =>
    (AnswersAt.entries (P := fun _ => True) (.after fun comma => ?_) _).weaken fun _ _ => trivial
  split
  · exact .after fun _ => .after fun _ => .pure trivial
  · exact .pure trivial

end Moves

namespace Grammar.Built

variable {α : Type} {g : Grammar} {ts : List TokenKind}

/-- Whatever holds of each phrase holds of all behind commas. -/
theorem afterCommas {x : Context} {P : α → Prop} {item : Parser α} (h : AnswersAt ts x P item) :
    AnswersAt ts x (fun as => ∀ a ∈ as, P a) (g.afterCommas item) := by
  refine .entries (.after fun comma => ?_) _
  split
  · exact .after fun _ => .bind h fun a ha => .pure ha
  · exact .pure trivial

/-- The members of a struct or interface, of which `entry` reads one. -/
theorem fieldBlock (phrase : Opened) {x : Context} {entry : Parser Field}
    (h : AnswersAt ts x (fun f => BuiltType ts f.type) entry) :
    AnswersAt ts x (fun fs => BuiltFields ts fs.events fs.openTypes) (g.fieldBlock phrase entry) := by
  refine .after fun t => .after fun _ => .after fun comment => ?_
  refine .bind (P := fun fs : List Field => ∀ f ∈ fs, BuiltType ts f.type)
    (.entries (.after fun kind => ?_) _) fun fs hfs => .after fun b => .after fun _ =>
      .pure (.of_types hfs)
  split
  · exact .pure trivial
  · exact .rejectAt _ _
  · exact .after fun _ => .pure trivial
  · exact .after fun d => .bind h fun f hf => .after fun _ => .after fun trailing => .pure hf

variable (hg : g.Built) (ts) (x : Context)

include hg

theorem expr : AnswersAt ts x (BuiltExpr ts x) g.expr :=
  (hg.binary ts x 1).weaken fun _ he => he.1

/-- Expressions, at least one. -/
theorem exprs : AnswersAt ts x (fun es => ∀ e ∈ es, BuiltExpr ts x e) g.exprs :=
  .bind (hg.expr ts x) fun _ he => .bind (afterCommas (hg.expr ts x)) fun _ hes =>
    .pure (List.forall_mem_cons.mpr ⟨he, hes⟩)

/-- An expression moves on in the text. -/
theorem moves : Moves g.expr :=
  .of_answers fun ts x => (hg.expr ts x).weaken fun _ _ => trivial

/-! ## Types -/

/-- A type, with the dots of a variadic parameter or without. -/
theorem paramType : AnswersAt ts x (BuiltType ts) g.paramType := by
  refine .after fun dots => ?_
  split
  · exact .after fun _ => .bind (hg.type ts x) fun t ht =>
      .pure ⟨Nodes.aroundExpr ht.all ⟨trivial, ht.closed, trivial⟩, ht.closed, rfl⟩
  · exact hg.type ts x

theorem paramItem (decs : Decorations) :
    AnswersAt ts x (ParamItem.Built ts) (g.paramItem decs) := by
  have typed (name : Option String) {t : Expr} (ht : BuiltType ts t) :
      ParamItem.Built ts ⟨name, some t, decs⟩ := by
    rintro _ ⟨⟩
    exact ht
  have untyped (name : String) : ParamItem.Built ts ⟨some name, none, decs⟩ := by
    rintro _ ⟨⟩
  refine .after fun kind => ?_
  split
  · rename_i name
    refine .after fun _ => .after fun kind => ?_
    split
    · exact .after fun _ => .after fun member => .pure (typed _ (builtType_selector ts name member))
    · exact .pure (untyped name)
    · exact .pure (untyped name)
    · exact .bind (hg.paramType ts x) fun t ht => .pure (typed _ ht)
  · exact .bind (hg.paramType ts x) fun t ht => .pure (typed _ ht)

theorem paramTurn (opening : Span) :
    AnswersAt ts x (Turn.All (ParamItem.Built ts)) (g.paramTurn opening) := by
  refine .after fun kind => ?_
  split
  · exact .pure trivial
  · exact .rejectAt _ _
  · refine .after fun d => .bind (hg.paramItem ts x d) fun item hitem => .after fun comma => ?_
    split
    · exact .after fun _ => .after fun trailing => .pure hitem
    · exact .pure hitem

/-- The fields of a parameter list have types that are read in the text. -/
theorem params : AnswersAt ts x (fun fs => BuiltFields ts fs.events fs.openTypes) g.params := by
  refine .after fun t => .after fun _ => .after fun comment => ?_
  refine .bind (.entries (hg.paramTurn ts x _) _) fun items hitems => .after fun b =>
    .after fun _ => ?_
  split
  · rename_i fields hok
    exact .pure (built_of_groupParams hitems hok)
  · exact .reject _

/-- Results in parentheses, or a lone type. -/
theorem results :
    AnswersAt ts x (fun rs => BuiltFields ts (resultEvents rs) (resultOpenTypes rs)) g.results := by
  refine .after fun kind => ?_
  split
  · exact .bind (hg.params ts x) fun fs hfs => .pure hfs
  · split
    · refine .bind (hg.type ts x) fun t ht => .pure (BuiltFields.of_types ?_)
      exact List.forall_mem_singleton.mpr ht
    · exact .pure ⟨Nodes.nil, rfl⟩

/-- Parameters and results. -/
theorem signature : AnswersAt ts x (fun s => BuiltFields ts s.events s.openTypes) g.signature :=
  .bind (hg.params ts x) fun _ hps => .bind (hg.results ts x) fun _ hrs =>
    .pure ⟨hps.all.append hrs.all, List.append_eq_nil_iff.mpr ⟨hps.closed, hrs.closed⟩⟩

/-- A function type with its parameters and results. -/
theorem funcType : AnswersAt ts x (BuiltType ts) (do return .funcType (← g.signature)) :=
  .bind (hg.signature ts x) fun _ hs =>
    .pure ⟨Nodes.aroundExpr hs.all ⟨trivial, hs.closed, trivial⟩, hs.closed, rfl⟩

/-- A pointer type behind its star. -/
theorem pointerType : AnswersAt ts x (BuiltType ts) (do return .star (← g.type)) :=
  .bind (hg.type ts x) fun _ ht =>
    .pure ⟨Nodes.aroundExpr ht.all ⟨ht.plain, trivial, trivial⟩, ht.closed, rfl⟩

/-- A channel type behind its direction. -/
theorem chanType (dir : ChanDir) :
    AnswersAt ts x (BuiltType ts) (do return .chanType dir (← g.type)) :=
  .bind (hg.type ts x) fun _ ht =>
    .pure ⟨Nodes.aroundExpr ht.all ⟨trivial, ht.closed, trivial⟩, ht.closed, rfl⟩

theorem structField :
    AnswersAt ts x (fun f : List String × Expr => BuiltType ts f.2) g.structField := by
  refine .after fun kind => ?_
  split
  · rename_i name
    refine .after fun _ => .after fun kind => ?_
    split
    · exact .after fun _ => .after fun member => .pure (builtType_selector ts name member)
    · exact .pure (builtType_ident ts name)
    · exact .pure (builtType_ident ts name)
    · exact .pure (builtType_ident ts name)
    · exact .after fun others => .bind (hg.type ts x) fun t ht => .pure ht
  · refine .after fun _ => .bind (hg.type ts x) fun t ht => .pure ?_
    exact ⟨Nodes.aroundExpr ht.all ⟨ht.plain, trivial, trivial⟩, ht.closed, rfl⟩

theorem taggedField : AnswersAt ts x (fun f => BuiltType ts f.type) g.taggedField := by
  refine .bind (hg.structField ts x) fun f hf => .after fun kind => ?_
  split
  · exact .after fun _ => .pure hf
  · exact .pure hf

/-- A method has a function type, an embedded interface its name. -/
theorem interfaceEntry : AnswersAt ts x (fun f => BuiltType ts f.type) g.interfaceEntry := by
  refine .after fun name => .after fun kind => ?_
  split
  · refine .bind (hg.signature ts x) fun s hs => .pure ?_
    exact ⟨Nodes.aroundExpr hs.all ⟨trivial, hs.closed, trivial⟩, hs.closed, rfl⟩
  · exact .after fun _ => .after fun member => .pure (builtType_selector ts name member)
  · exact .pure (builtType_ident ts name)

/-- The length stands between brackets, and may hold literals. -/
theorem arrayType : AnswersAt ts x (BuiltType ts) g.arrayType := by
  refine .after fun _ => .bind (P := fun len => AllBuilt ts (optExprEvents len))
    (.after fun kind => ?_) fun len hlen => .after fun _ => .bind (hg.type ts x) fun t ht =>
      .pure ⟨Nodes.aroundExpr (hlen.append ht.all) ⟨trivial, ht.closed, trivial⟩, ht.closed, rfl⟩
  split
  · exact .pure Nodes.nil
  · exact .after fun _ => .pure (Nodes.nil.aroundExpr ⟨trivial, rfl, trivial⟩)
  · exact .bind (.bracketed (hg.expr ts _)) fun e he => .pure he.all

theorem mapType : AnswersAt ts x (BuiltType ts) g.mapType := by
  refine .after fun _ => .after fun _ => .bind (hg.type ts x) fun k hk => .after fun _ => ?_
  exact .bind (hg.type ts x) fun v hv =>
    .pure ⟨Nodes.aroundExpr (hk.all.append hv.all) ⟨trivial, ⟨hk.closed, hv.closed⟩, trivial⟩,
      List.append_eq_nil_iff.mpr ⟨hk.closed, hv.closed⟩, rfl⟩

/-- The forms of types, told apart by their first token. -/
theorem typeInner : AnswersAt ts x (BuiltType ts) g.typeInner := by
  refine .after fun kind => ?_
  split
  · rename_i name
    refine .after fun _ => .after fun point => ?_
    split
    · exact .after fun _ => .after fun member => .pure (builtType_selector ts name member)
    · exact .pure (builtType_ident ts name)
  · exact .after fun _ => .bind (hg.type ts x) fun t ht => .after fun _ =>
      .pure ⟨Nodes.aroundExpr ht.all ⟨trivial, trivial, trivial⟩, rfl, rfl⟩
  · exact hg.arrayType ts x
  · exact .after fun _ => .bind (fieldBlock _ (hg.taggedField ts x)) fun fs hfs =>
      .pure ⟨Nodes.aroundExpr hfs.all ⟨trivial, hfs.closed, trivial⟩, hfs.closed, rfl⟩
  · exact .after fun _ => .bind (fieldBlock _ (hg.interfaceEntry ts x)) fun fs hfs =>
      .pure ⟨Nodes.aroundExpr hfs.all ⟨trivial, hfs.closed, trivial⟩, hfs.closed, rfl⟩
  · exact hg.mapType ts x
  · exact .after fun dir => hg.chanType ts x dir
  · exact .after fun dir => hg.chanType ts x dir
  · exact .after fun _ => hg.funcType ts x
  · exact .after fun _ => hg.pointerType ts x
  · exact .unexpected _

/-- A type holds no literals outside of brackets. -/
theorem nestedType : AnswersAt ts x (BuiltType ts) g.nestedType :=
  .nested (hg.typeInner ts _)

end Grammar.Built

end Parse

end HandlerSplit
