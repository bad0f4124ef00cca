import HandlerSplit.Parse.Stmt
import HandlerSplit.Proofs.Parse.Steps
import HandlerSplit.Proofs.Tree.Regular
/-!
# Types are read regular

Every phrase of the grammar answers a regular tree, whatever the cursor it starts at. The levels
hand the property on: a phrase of the next level puts together what the phrases of the level
below answer. Here are parameter lists, field lists and types.
-/

namespace HandlerSplit.Parse

/-! ## The parts of phrases -/

/-- An entry of a parameter list with a regular type, if it has one. -/
def ParamItem.Regular (item : ParamItem) : Prop :=
  ∀ x ∈ item.type, x.Regular

/-- The parts of an `if` statement, if they are regular. -/
def ifRegular (r : Option Stmt × Expr × Block × Else) : Prop :=
  headerRegular r.1 ∧ r.2.1.Regular ∧ r.2.2.1.Regular ∧ r.2.2.2.Regular

/-- The fields of a list are regular if the types of its entries are. -/
theorem regular_of_groupParams {items : List ParamItem} {fields : List Field}
    (h : ∀ item ∈ items, item.Regular) (hok : groupParams items = .ok fields) :
    ∀ f ∈ fields, f.Regular false := by
  intro f hf
  obtain ⟨htag, ⟨item, hitem, htype⟩ | ⟨name, htype⟩⟩ := fromItem_of_groupParams hok f hf
  · exact ⟨.inl htag, h item hitem _ htype⟩
  · exact ⟨.inl htag, htype ▸ trivial⟩

/-! ## Levels of the grammar -/

/-- A statement that is regular and not empty. -/
def StmtKind.Present (kind : StmtKind) : Prop :=
  kind.isEmpty = false ∧ kind.Regular

/-- A level of the grammar whose phrases answer regular trees. -/
structure Grammar.Regular (g : Grammar) : Prop where
  binary (strength : Nat) : Answers Expr.Regular (g.binary strength)
  unary : Answers Expr.Regular g.unary
  elementValue : Answers Expr.Regular g.elementValue
  type : Answers Expr.Regular g.type
  block : Answers Block.Regular g.block
  stmt : Answers StmtKind.Present g.stmt
  ifThen : Answers ifRegular g.ifThen

namespace Grammar.Regular

variable {α : Type} {g : Grammar}

/-- Whatever holds of each phrase holds of all behind commas. -/
theorem afterCommas {P : α → Prop} {item : Parser α} (h : Answers P item) :
    Answers (fun xs => ∀ x ∈ xs, P x) (g.afterCommas item) := by
  refine .entries (.after fun comma => ?_) _
  split
  · exact .after fun _ => .bind h fun a ha => .pure ha
  · exact .pure trivial

/-- A list has at least one phrase. -/
theorem commaSeparated {P : α → Prop} {item : Parser α} (h : Answers P item) :
    Answers (fun xs => (∀ x ∈ xs, P x) ∧ xs ≠ []) (g.commaSeparated item) :=
  .bind h fun _ ha => .bind (afterCommas h) fun _ hs =>
    .pure ⟨List.forall_mem_cons.mpr ⟨ha, hs⟩, List.cons_ne_nil _ _⟩

/-- A list of names has at least one name. -/
theorem idents : Answers (· ≠ []) g.idents :=
  (commaSeparated (.unknown expectIdent)).weaken fun _ h => h.2

/-- The members of a struct or interface, of which `entry` reads one. -/
theorem fieldBlock (phrase : Opened) {tagged : Bool} {entry : Parser Field}
    (h : Answers (Field.Regular tagged) entry) :
    Answers (FieldList.Regular tagged) (g.fieldBlock phrase entry) := by
  refine .after fun t => .after fun _ => .after fun comment => ?_
  refine .bind (P := fun fs => ∀ f ∈ fs, f.Regular tagged) (.entries (.after fun kind => ?_) _)
    fun fs hfs => .after fun b => .after fun _ => .pure (fieldsRegular_iff.mpr hfs)
  split
  · exact .pure trivial
  · exact .rejectAt _ _
  · exact .after fun _ => .pure trivial
  · exact .after fun d => .bind h fun f hf => .after fun _ => .after fun trailing => .pure hf

variable (hg : g.Regular)

include hg

theorem expr : Answers Expr.Regular g.expr :=
  hg.binary 1

/-- A list of expressions has at least one, and all are regular. -/
theorem exprs : Answers (fun xs => exprsRegular xs ∧ xs ≠ []) g.exprs :=
  (commaSeparated hg.expr).weaken fun _ h => h.imp_left exprsRegular_iff.mpr

/-! ## Types -/

theorem paramType : Answers Expr.Regular g.paramType := by
  refine .after fun dots => ?_
  split
  · exact .after fun _ => .bind hg.type fun x hx => .pure hx
  · exact hg.type

/-- An entry of a parameter list has a regular type, if it has one. -/
theorem paramItem (decs : Decorations) : Answers ParamItem.Regular (g.paramItem decs) := by
  have typed (name : Option String) {x : Expr} (hx : x.Regular) :
      ParamItem.Regular ⟨name, some x, decs⟩ := by
    intro y hy
    cases hy
    exact hx
  have untyped (name : String) : ParamItem.Regular ⟨some name, none, decs⟩ := by
    intro y hy
    cases hy
  refine .after fun kind => ?_
  split
  · refine .after fun _ => .after fun kind => ?_
    split
    · exact .after fun _ => .after fun member => .pure (typed _ trivial)
    · exact .pure (untyped _)
    · exact .pure (untyped _)
    · exact .bind hg.paramType fun x hx => .pure (typed _ hx)
  · exact .bind hg.paramType fun x hx => .pure (typed _ hx)

theorem paramTurn (opening : Span) :
    Answers (Turn.All ParamItem.Regular) (g.paramTurn opening) := by
  refine .after fun kind => ?_
  split
  · exact .pure trivial
  · exact .rejectAt _ _
  · refine .after fun d => .bind (hg.paramItem d) fun item hitem => .after fun comma => ?_
    split
    · exact .after fun _ => .after fun trailing => .pure hitem
    · exact .pure hitem

/-- Parameters have no tags. -/
theorem params : Answers (FieldList.Regular false) g.params := by
  refine .after fun t => .after fun _ => .after fun comment => ?_
  refine .bind (.entries (hg.paramTurn _) _) fun items hitems => .after fun b => .after fun _ => ?_
  split
  · rename_i fields hok
    exact .pure (fieldsRegular_iff.mpr (regular_of_groupParams hitems hok))
  · exact .reject _

/-- Results in parentheses, or a lone type without a name. -/
theorem results : Answers resultsRegular g.results := by
  refine .after fun kind => ?_
  split
  · exact .bind hg.params fun fs hfs => .pure hfs
  · split
    · exact .bind hg.type fun x hx => .pure ⟨⟨.inl rfl, hx⟩, trivial⟩
    · exact .pure trivial

/-- Regular parameters and results. -/
theorem signature : Answers Signature.Regular g.signature :=
  .bind hg.params fun _ hps => .bind hg.results fun _ hrs => .pure ⟨hps, hrs⟩

theorem structField : Answers (fun f : List String × Expr => f.2.Regular) g.structField := by
  refine .after fun kind => ?_
  split
  · refine .after fun _ => .after fun kind => ?_
    split
    · exact .after fun _ => .after fun _ => .pure trivial
    · exact .pure trivial
    · exact .pure trivial
    · exact .pure trivial
    · exact .after fun others => .bind hg.type fun x hx => .pure hx
  · exact .after fun _ => .bind hg.type fun x hx => .pure hx

/-- Only a field of a struct may have a tag. -/
theorem taggedField : Answers (Field.Regular true) g.taggedField := by
  refine .bind hg.structField fun f hf => .after fun kind => ?_
  split
  · exact .after fun _ => .pure ⟨.inr rfl, hf⟩
  · exact .pure ⟨.inl rfl, hf⟩

/-- An entry of an interface has no tag. -/
theorem interfaceEntry : Answers (Field.Regular false) g.interfaceEntry := by
  refine .after fun name => .after fun kind => ?_
  split
  · exact .bind hg.signature fun s hs => .pure ⟨.inl rfl, hs⟩
  · exact .after fun _ => .after fun _ => .pure ⟨.inl rfl, trivial⟩
  · exact .pure ⟨.inl rfl, trivial⟩

theorem arrayType : Answers Expr.Regular g.arrayType := by
  refine .after fun _ => .bind (P := optExprRegular) (.after fun kind => ?_) fun len hlen =>
    .after fun _ => .bind hg.type fun x hx => .pure ⟨hlen, hx⟩
  split
  · exact .pure trivial
  · exact .after fun _ => .pure trivial
  · exact .bind (.bracketed hg.expr) fun x hx => .pure hx

theorem mapType : Answers Expr.Regular g.mapType := by
  refine .after fun _ => .after fun _ => .bind hg.type fun k hk => .after fun _ => ?_
  exact .bind hg.type fun v hv => .pure ⟨hk, hv⟩

/-- The forms of types, told apart by their first token. -/
theorem typeInner : Answers Expr.Regular g.typeInner := by
  refine .after fun kind => ?_
  split
  · refine .after fun _ => .after fun point => ?_
    split
    · exact .after fun _ => .after fun _ => .pure trivial
    · exact .pure trivial
  · exact .after fun _ => .bind hg.type fun x hx => .after fun _ => .pure hx
  · exact hg.arrayType
  · exact .after fun _ => .bind (fieldBlock _ hg.taggedField) fun fs hfs => .pure hfs
  · exact .after fun _ => .bind (fieldBlock _ hg.interfaceEntry) fun fs hfs => .pure hfs
  · exact hg.mapType
  · exact .after fun dir => .bind hg.type fun x hx => .pure hx
  · exact .after fun dir => .bind hg.type fun x hx => .pure hx
  · exact .after fun _ => .bind hg.signature fun s hs => .pure hs
  · exact .after fun _ => .bind hg.type fun x hx => .pure hx
  · exact .unexpected _

theorem nestedType : Answers Expr.Regular g.nestedType :=
  .nested hg.typeInner

end Grammar.Regular

end HandlerSplit.Parse
