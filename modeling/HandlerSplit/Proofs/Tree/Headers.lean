import HandlerSplit.Proofs.Tree.Regular
import HandlerSplit.Proofs.Tree.Scripts
/-!
# Literals in headers

In the header of a control statement a brace behind a name opens the body. So a composite literal of
a named type may stand there only between brackets of its own. `Expr.openTypes` collects the types
of the composite literals that stand in an expression outside of brackets: outside of parentheses,
index and slice brackets, call arguments, the braces of other literals, array lengths and the bodies
of function literals. A header is covered if none of them may be a type name.
-/

namespace HandlerSplit

namespace Expr

/-- Whether the expression, without parentheses, may name a type: whether it is a name, a name
selected from a package, or an instance of a generic type. -/
def mayNameType (x : Expr) : Bool :=
  match x.unparen with
  | ident _ | selector _ _ | index _ _ => true
  | _ => false

end Expr

mutual

/-- The types of the composite literals of an expression that stand outside of brackets. -/
def Expr.openTypes : Expr → List Expr
  | .ident _ => []
  | .literal _ _ => []
  | .composite t _ _ => t.toList ++ optOpenTypes t
  | .funcLit s _ => s.openTypes
  | .paren _ => []
  | .selector x _ => x.openTypes
  | .index x _ => x.openTypes
  | .slice x _ _ _ => x.openTypes
  | .typeAssert x t => x.openTypes ++ optOpenTypes t
  | .call f _ _ _ => f.openTypes
  | .star x => x.openTypes
  | .unary _ x => x.openTypes
  | .binary x _ y _ => x.openTypes ++ y.openTypes
  | .keyValue k v => k.openTypes ++ v.openTypes
  | .arrayType _ x => x.openTypes
  | .mapType k v => k.openTypes ++ v.openTypes
  | .chanType _ x => x.openTypes
  | .funcType s => s.openTypes
  | .structType fs => fs.openTypes
  | .interfaceType fs => fs.openTypes
  | .ellipsis x => optOpenTypes x
termination_by structural x => x

/-- The same for an expression that may be missing. -/
def optOpenTypes : Option Expr → List Expr
  | none => []
  | some x => x.openTypes
termination_by structural x => x

/-- The same for the types of fields. -/
def fieldOpenTypes : List Field → List Expr
  | [] => []
  | ⟨_, x, _, _⟩ :: fs => x.openTypes ++ fieldOpenTypes fs
termination_by structural fs => fs

/-- The same for a field list. -/
def FieldList.openTypes : FieldList → List Expr
  | ⟨fs, _⟩ => fieldOpenTypes fs
termination_by structural fs => fs

/-- The same for results. -/
def resultOpenTypes : Option FieldList → List Expr
  | none => []
  | some fs => fs.openTypes
termination_by structural fs => fs

/-- The same for a signature. -/
def Signature.openTypes : Signature → List Expr
  | ⟨ps, rs⟩ => ps.openTypes ++ resultOpenTypes rs
termination_by structural s => s

end

theorem fieldOpenTypes_eq_nil {fs : List Field} :
    fieldOpenTypes fs = [] ↔ ∀ f ∈ fs, f.type.openTypes = [] := by
  induction fs with
  | nil => simp [fieldOpenTypes]
  | cons f fs ih =>
    obtain ⟨ns, x, tag, d⟩ := f
    rw [fieldOpenTypes, List.append_eq_nil_iff, ih, List.forall_mem_cons]

/-- The types in the expression hold no composite literal outside of brackets; nor does the type of
a composite literal that is no type name. -/
def Expr.Typed : Expr → Prop
  | .composite (some t) _ _ => t.mayNameType = false → t.openTypes = []
  | .funcLit s _ => s.openTypes = []
  | .funcType s => s.openTypes = []
  | .arrayType _ x => x.openTypes = []
  | .mapType k v => k.openTypes = [] ∧ v.openTypes = []
  | .chanType _ x => x.openTypes = []
  | .structType fs => fs.openTypes = []
  | .interfaceType fs => fs.openTypes = []
  | .typeAssert _ t => optOpenTypes t = []
  | .ellipsis t => optOpenTypes t = []
  | _ => True

/-! ## Headers -/

/-- Outside of brackets, the expression has no composite literal of a type that may be named. -/
def Expr.Covered (x : Expr) : Prop :=
  ∀ t ∈ x.openTypes, t.mayNameType = false

theorem Expr.covered_of_openTypes {x : Expr} (h : x.openTypes = []) : x.Covered := by
  rw [Covered, h]
  exact nofun

/-- A statement of a header whose expressions are covered. -/
structure StmtKind.Covered (kind : StmtKind) : Prop where
  isSimple : kind.isSimple = true
  exprs : ∀ x ∈ kind.exprs, x.Covered

/-- The headers of what follows `else`, up to the last `if`. -/
def Else.HeadersCovered : Else → Prop
  | .elseIf init cond _ otherwise =>
    (∀ s ∈ init, s.kind.Covered) ∧ cond.Covered ∧ otherwise.HeadersCovered
  | _ => True
termination_by structural e => e

/-- The header of a statement, if it has one, with the headers behind its `else`. -/
def StmtKind.HeadersCovered : StmtKind → Prop
  | .ifThen init cond _ otherwise =>
    (∀ s ∈ init, s.kind.Covered) ∧ cond.Covered ∧ otherwise.HeadersCovered
  | .forLoop init cond post _ =>
    (∀ s ∈ init, s.kind.Covered) ∧ (∀ x ∈ cond, x.Covered) ∧ ∀ s ∈ post, s.kind.Covered
  | .rangeLoop key value _ x _ => (∀ y ∈ key, y.Covered) ∧ (∀ y ∈ value, y.Covered) ∧ x.Covered
  | .switch init tag _ _ => (∀ s ∈ init, s.kind.Covered) ∧ ∀ x ∈ tag, x.Covered
  | .typeSwitch init guard _ _ => (∀ s ∈ init, s.kind.Covered) ∧ guard.kind.Covered
  | _ => True

end HandlerSplit
