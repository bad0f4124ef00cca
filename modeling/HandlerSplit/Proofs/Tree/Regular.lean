import HandlerSplit.Tree
import HandlerSplit.Tree.Build
/-!
# Regular trees

Some trees can be built and are never read from a text: a header statement with comments of its own,
a declaration without parentheses that has two entries, an import inside a function, an empty
statement in a block, an assignment of nothing. A tree is regular if it holds none of these. They
are what the printer has no place for.
-/

namespace HandlerSplit

/-! ## Statements and entries by themselves -/

/-- The statements that may stand in a header. -/
def StmtKind.isSimple : StmtKind → Bool
  | .expr _ | .assign _ _ _ | .incDec _ _ | .send _ _ => true
  | _ => false

/-- The empty statement. -/
def StmtKind.isEmpty : StmtKind → Bool
  | .empty => true
  | _ => false

/-- Whether an entry may stand in a declaration with the given keyword. -/
def SpecKind.fits (keyword : GenKeyword) : SpecKind → Bool
  | .importPath _ _ => keyword == .import
  | .value _ _ _ => keyword == .const || keyword == .var
  | .type _ _ _ => keyword == .type

/-- What trails a labeled statement trails its label, and the empty statement has no layout. -/
def labelsPlainly (kind : StmtKind) (decs : Decorations) : Prop :=
  decs.trailing = none ∧ (kind.isEmpty = true → decs = .plain)

/-! ## Trees -/

mutual

/-- An expression that is regular. -/
def Expr.Regular : Expr → Prop
  | .ident _ => True
  | .literal _ _ => True
  | .composite t es _ => optExprRegular t ∧ elementsRegular es
  | .funcLit s b => s.Regular ∧ b.Regular
  | .paren x => x.Regular
  | .selector x _ => x.Regular
  | .index x k => x.Regular ∧ k.Regular
  | .slice x l h m => x.Regular ∧ optExprRegular l ∧ optExprRegular h ∧ optExprRegular m
  | .typeAssert x t => x.Regular ∧ optExprRegular t
  | .call f as _ _ => f.Regular ∧ elementsRegular as
  | .star x => x.Regular
  | .unary _ x => x.Regular
  | .binary x _ y _ => x.Regular ∧ y.Regular
  | .keyValue k v => k.Regular ∧ v.Regular
  | .arrayType l x => optExprRegular l ∧ x.Regular
  | .mapType k v => k.Regular ∧ v.Regular
  | .chanType _ x => x.Regular
  | .funcType s => s.Regular
  | .structType fs => fs.Regular true
  | .interfaceType fs => fs.Regular false
  | .ellipsis x => optExprRegular x
termination_by structural x => x

/-- An expression that is missing or regular. -/
def optExprRegular : Option Expr → Prop
  | none => True
  | some x => x.Regular
termination_by structural x => x

/-- Expressions that are regular. -/
def exprsRegular : List Expr → Prop
  | [] => True
  | x :: xs => x.Regular ∧ exprsRegular xs
termination_by structural xs => xs

/-- Elements that are regular. -/
def elementsRegular : List Element → Prop
  | [] => True
  | ⟨x, _⟩ :: es => x.Regular ∧ elementsRegular es
termination_by structural es => es

/-- Fields that are regular, with tags only where `tagged` is set. -/
def fieldsRegular (tagged : Bool) : List Field → Prop
  | [] => True
  | ⟨_, x, tag, _⟩ :: fs =>
    ((tag = none ∨ tagged = true) ∧ x.Regular) ∧ fieldsRegular tagged fs
termination_by structural fs => fs

/-- A field list that is regular. -/
def FieldList.Regular (tagged : Bool) : FieldList → Prop
  | ⟨fs, _⟩ => fieldsRegular tagged fs
termination_by structural fs => fs

/-- Results that are missing or regular. -/
def resultsRegular : Option FieldList → Prop
  | none => True
  | some fs => fs.Regular false
termination_by structural fs => fs

/-- A signature that is regular. -/
def Signature.Regular : Signature → Prop
  | ⟨ps, rs⟩ => ps.Regular false ∧ resultsRegular rs
termination_by structural s => s

/-- A block that is regular. -/
def Block.Regular : Block → Prop
  | ⟨ss, _, _⟩ => stmtsRegular ss
termination_by structural b => b

/-- Statements that are regular. -/
def stmtsRegular : List Stmt → Prop
  | [] => True
  | s :: ss => s.Regular ∧ stmtsRegular ss
termination_by structural ss => ss

/-- A statement of a block that is regular: it is not empty. -/
def Stmt.Regular : Stmt → Prop
  | ⟨k, _⟩ => k.isEmpty = false ∧ k.Regular
termination_by structural s => s

/-- A statement of a header that is missing or regular. -/
def headerRegular : Option Stmt → Prop
  | none => True
  | some s => s.HeaderRegular
termination_by structural s => s

/-- A statement of a header that is regular: it is simple and has no layout. -/
def Stmt.HeaderRegular : Stmt → Prop
  | ⟨k, d⟩ => (k.isSimple = true ∧ d = .plain) ∧ k.Regular
termination_by structural s => s

/-- A labeled statement that is regular. -/
def Stmt.LabeledRegular : Stmt → Prop
  | ⟨k, d⟩ => labelsPlainly k d ∧ k.Regular
termination_by structural s => s

/-- A statement that is regular, its layout apart. -/
def StmtKind.Regular : StmtKind → Prop
  | .expr x => x.Regular
  | .assign l _ r => exprsRegular l ∧ exprsRegular r ∧ r ≠ []
  | .incDec x _ => x.Regular
  | .send c v => c.Regular ∧ v.Regular
  | .decl d => d.keyword ≠ .import ∧ d.Regular
  | .returns vs => exprsRegular vs
  | .branch _ _ => True
  | .block b => b.Regular
  | .ifThen i c b e => headerRegular i ∧ c.Regular ∧ b.Regular ∧ e.Regular
  | .forLoop i c p b => headerRegular i ∧ optExprRegular c ∧ headerRegular p ∧ b.Regular
  | .rangeLoop k v _ x b =>
    (v.isSome = true → k.isSome = true) ∧ optExprRegular k ∧ optExprRegular v ∧ x.Regular ∧
      b.Regular
  | .switch i t cs _ => headerRegular i ∧ optExprRegular t ∧ clausesRegular cs
  | .typeSwitch i g cs _ => headerRegular i ∧ g.HeaderRegular ∧ clausesRegular cs
  | .select cs _ => clausesRegular cs
  | .go x => x.Regular
  | .defer x => x.Regular
  | .labeled _ s => s.LabeledRegular
  | .empty => True
termination_by structural k => k

/-- What follows `else`, if it is regular. -/
def Else.Regular : Else → Prop
  | .none => True
  | .elseIf i c b e => headerRegular i ∧ c.Regular ∧ b.Regular ∧ e.Regular
  | .block b => b.Regular
termination_by structural e => e

/-- Clauses that are regular. -/
def clausesRegular : List Clause → Prop
  | [] => True
  | ⟨h, b, _⟩ :: cs => (h.Regular ∧ stmtsRegular b) ∧ clausesRegular cs
termination_by structural cs => cs

/-- What a clause is chosen by, if it is regular. -/
def ClauseHead.Regular : ClauseHead → Prop
  | .default => True
  | .values xs => exprsRegular xs
  | .comm s => s.HeaderRegular
termination_by structural h => h

/-- A declaration that is regular: without parentheses it has one entry, and the entry has no
layout of its own. -/
def GenDecl.Regular : GenDecl → Prop
  | ⟨k, ss, g⟩ => (g = none → ss.map (·.decs) = [.plain]) ∧ specsRegular k ss
termination_by structural d => d

/-- Entries of declarations that are regular. -/
def specsRegular (keyword : GenKeyword) : List Spec → Prop
  | [] => True
  | ⟨k, _⟩ :: ss => (k.fits keyword = true ∧ k.Regular) ∧ specsRegular keyword ss
termination_by structural ss => ss

/-- An entry of a declaration that is regular. -/
def SpecKind.Regular : SpecKind → Prop
  | .importPath _ _ => True
  | .value ns t vs => optExprRegular t ∧ exprsRegular vs ∧ ns ≠ []
  | .type _ _ x => x.Regular
termination_by structural k => k

end

/-- A function that is regular. -/
def FuncDecl.Regular (f : FuncDecl) : Prop :=
  resultsRegular f.recv ∧ f.signature.Regular ∧ ∀ b ∈ f.body, b.Regular

/-- A top-level declaration that is regular. -/
def DeclKind.Regular : DeclKind → Prop
  | .func f => f.Regular
  | .gen d => d.Regular

/-- A source file that is regular. -/
def SourceFile.Regular (file : SourceFile) : Prop :=
  ∀ d ∈ file.decls, d.kind.Regular

/-! ## Lists and optional parts -/

/-- A field that is regular. -/
def Field.Regular (tagged : Bool) (f : Field) : Prop :=
  (f.tag = none ∨ tagged = true) ∧ f.type.Regular

/-- A clause that is regular. -/
def Clause.Regular (c : Clause) : Prop :=
  c.head.Regular ∧ stmtsRegular c.body

/-- An entry of a declaration that is regular. -/
def Spec.Regular (keyword : GenKeyword) (s : Spec) : Prop :=
  s.kind.fits keyword = true ∧ s.kind.Regular

theorem optExprRegular_iff {x : Option Expr} : optExprRegular x ↔ ∀ y ∈ x, y.Regular := by
  cases x <;> simp [optExprRegular]

theorem exprsRegular_iff {xs : List Expr} : exprsRegular xs ↔ ∀ x ∈ xs, x.Regular := by
  induction xs with
  | nil => simp [exprsRegular]
  | cons x xs ih => rw [exprsRegular, ih, List.forall_mem_cons]

theorem elementsRegular_iff {es : List Element} :
    elementsRegular es ↔ ∀ e ∈ es, e.expr.Regular := by
  induction es with
  | nil => simp [elementsRegular]
  | cons e es ih =>
    obtain ⟨x, d⟩ := e
    rw [elementsRegular, ih, List.forall_mem_cons]

theorem fieldsRegular_iff {tagged : Bool} {fs : List Field} :
    fieldsRegular tagged fs ↔ ∀ f ∈ fs, f.Regular tagged := by
  induction fs with
  | nil => simp [fieldsRegular]
  | cons f fs ih =>
    obtain ⟨ns, x, tag, d⟩ := f
    rw [fieldsRegular, ih, List.forall_mem_cons]
    rfl

theorem stmtsRegular_iff {ss : List Stmt} : stmtsRegular ss ↔ ∀ s ∈ ss, s.Regular := by
  induction ss with
  | nil => simp [stmtsRegular]
  | cons s ss ih => rw [stmtsRegular, ih, List.forall_mem_cons]

theorem clausesRegular_iff {cs : List Clause} : clausesRegular cs ↔ ∀ c ∈ cs, c.Regular := by
  induction cs with
  | nil => simp [clausesRegular]
  | cons c cs ih =>
    obtain ⟨h, b, d⟩ := c
    rw [clausesRegular, ih, List.forall_mem_cons]
    rfl

theorem specsRegular_iff {keyword : GenKeyword} {ss : List Spec} :
    specsRegular keyword ss ↔ ∀ s ∈ ss, s.Regular keyword := by
  induction ss with
  | nil => simp [specsRegular]
  | cons s ss ih =>
    obtain ⟨k, d⟩ := s
    rw [specsRegular, ih, List.forall_mem_cons]
    rfl

end HandlerSplit
