import HandlerSplit.Tree
/-!
# Comments and names of a tree

`marks` goes through a tree in the order of its source and notes the comments and the names it
meets. A comment that leads a node stands before the node, one that trails it after the node,
and the comments of an enclosure stand next to its brackets. A parameter name is joined if it
shares the type of the name before it.
-/

namespace HandlerSplit

/-- A comment or a name. -/
inductive Mark where
  | comment (text : String)
  | name (n : String) (joined : Bool)
  deriving DecidableEq, Repr

/-! ## Layout records -/

/-- Comments, as marks. -/
def commentMarks (cs : List Comment) : List Mark :=
  cs.map fun c => .comment c.text

/-- What stands in a node, with the comments of the node around it. -/
def Decorations.around (d : Decorations) (inside : List Mark) : List Mark :=
  commentMarks d.leading ++ inside ++ commentMarks d.trailing.toList

/-- What stands in a bracketed list, with the comments next to the brackets. -/
def Enclosure.around (e : Enclosure) (inside : List Mark) : List Mark :=
  commentMarks e.openComment.toList ++ inside ++ commentMarks e.closeComments

theorem Decorations.around_of_trailing_none {d : Decorations} (h : d.trailing = none)
    (inside : List Mark) : d.around inside = commentMarks d.leading ++ inside := by
  rw [Decorations.around, h]
  exact List.append_nil _

@[simp] theorem Decorations.around_plain (inside : List Mark) :
    Decorations.plain.around inside = inside :=
  around_of_trailing_none rfl inside

@[simp] theorem Enclosure.around_plain (inside : List Mark) :
    Enclosure.plain.around inside = inside :=
  List.append_nil inside

/-- Names of which each is a mark by itself. -/
def nameMarks (ns : List String) : List Mark :=
  ns.map (.name · false)

/-- Names of one field, which are joined if `joined` is set. -/
def fieldNameMarks (joined : Bool) : List String → List Mark
  | [] => []
  | n :: ns => .name n false :: ns.map (.name · joined)

/-- The name before an import path; a point is no name. -/
def importNameMarks : Option String → List Mark
  | none => []
  | some n => if n = "." then [] else [.name n false]

/-! ## Trees -/

mutual

/-- The marks of an expression. -/
def Expr.marks : Expr → List Mark
  | .ident n => [.name n false]
  | .literal _ _ => []
  | .composite t es b => optExprMarks t ++ b.around (elementMarks es)
  | .funcLit s b => s.marks ++ b.marks
  | .paren x => x.marks
  | .selector x n => x.marks ++ [.name n false]
  | .index x k => x.marks ++ k.marks
  | .slice x l h m => x.marks ++ optExprMarks l ++ optExprMarks h ++ optExprMarks m
  | .typeAssert x t => x.marks ++ optExprMarks t
  | .call f as _ b => f.marks ++ b.around (elementMarks as)
  | .star x => x.marks
  | .unary _ x => x.marks
  | .binary x _ y _ => x.marks ++ y.marks
  | .keyValue k v => k.marks ++ v.marks
  | .arrayType l x => optExprMarks l ++ x.marks
  | .mapType k v => k.marks ++ v.marks
  | .chanType _ x => x.marks
  | .funcType s => s.marks
  | .structType fs => fs.marks false
  | .interfaceType fs => fs.marks false
  | .ellipsis x => optExprMarks x
termination_by structural x => x

/-- The marks of an expression that may be missing. -/
def optExprMarks : Option Expr → List Mark
  | none => []
  | some x => x.marks
termination_by structural x => x

/-- The marks of expressions. -/
def exprMarks : List Expr → List Mark
  | [] => []
  | x :: xs => x.marks ++ exprMarks xs
termination_by structural xs => xs

/-- The marks of elements. -/
def elementMarks : List Element → List Mark
  | [] => []
  | ⟨x, d⟩ :: es => d.around x.marks ++ elementMarks es
termination_by structural es => es

/-- The marks of fields, whose names are joined if `joined` is set. -/
def fieldMarks (joined : Bool) : List Field → List Mark
  | [] => []
  | ⟨ns, x, _, d⟩ :: fs =>
    d.around (fieldNameMarks joined ns ++ x.marks) ++ fieldMarks joined fs
termination_by structural fs => fs

/-- The marks of a field list. -/
def FieldList.marks (joined : Bool) : FieldList → List Mark
  | ⟨fs, e⟩ => e.around (fieldMarks joined fs)
termination_by structural fs => fs

/-- The marks of results. -/
def resultMarks : Option FieldList → List Mark
  | none => []
  | some fs => fs.marks true
termination_by structural fs => fs

/-- The marks of a signature. -/
def Signature.marks : Signature → List Mark
  | ⟨ps, rs⟩ => ps.marks true ++ resultMarks rs
termination_by structural s => s

/-- The marks of a block. -/
def Block.marks : Block → List Mark
  | ⟨ss, e, _⟩ => e.around (stmtMarks ss)
termination_by structural b => b

/-- The marks of statements. -/
def stmtMarks : List Stmt → List Mark
  | [] => []
  | s :: ss => s.marks ++ stmtMarks ss
termination_by structural ss => ss

/-- The marks of a statement. -/
def Stmt.marks : Stmt → List Mark
  | ⟨k, d⟩ => d.around k.marks
termination_by structural s => s

/-- The marks of a statement that may be missing. -/
def optStmtMarks : Option Stmt → List Mark
  | none => []
  | some s => s.marks
termination_by structural s => s

/-- The marks of what a statement does. -/
def StmtKind.marks : StmtKind → List Mark
  | .expr x => x.marks
  | .assign l _ r => exprMarks l ++ exprMarks r
  | .incDec x _ => x.marks
  | .send c v => c.marks ++ v.marks
  | .decl d => d.marks
  | .returns vs => exprMarks vs
  | .branch _ l => nameMarks l.toList
  | .block b => b.marks
  | .ifThen i c b e => optStmtMarks i ++ c.marks ++ b.marks ++ e.marks
  | .forLoop i c p b => optStmtMarks i ++ optExprMarks c ++ optStmtMarks p ++ b.marks
  | .rangeLoop k v _ x b => optExprMarks k ++ optExprMarks v ++ x.marks ++ b.marks
  | .switch i t cs b => optStmtMarks i ++ optExprMarks t ++ b.around (clauseMarks cs)
  | .typeSwitch i g cs b => optStmtMarks i ++ g.marks ++ b.around (clauseMarks cs)
  | .select cs b => b.around (clauseMarks cs)
  | .go x => x.marks
  | .defer x => x.marks
  | .labeled l s => .name l false :: s.marks
  | .empty => []
termination_by structural k => k

/-- The marks of what follows `else`. -/
def Else.marks : Else → List Mark
  | .none => []
  | .elseIf i c b e => optStmtMarks i ++ c.marks ++ b.marks ++ e.marks
  | .block b => b.marks
termination_by structural e => e

/-- The marks of clauses; the comment that trails a clause stands before its body. -/
def clauseMarks : List Clause → List Mark
  | [] => []
  | ⟨h, b, d⟩ :: cs => d.around h.marks ++ stmtMarks b ++ clauseMarks cs
termination_by structural cs => cs

/-- The marks of what a clause is chosen by. -/
def ClauseHead.marks : ClauseHead → List Mark
  | .default => []
  | .values xs => exprMarks xs
  | .comm s => s.marks
termination_by structural h => h

/-- The marks of a declaration. -/
def GenDecl.marks : GenDecl → List Mark
  | ⟨_, ss, none⟩ => specMarks ss
  | ⟨_, ss, some e⟩ => e.around (specMarks ss)
termination_by structural d => d

/-- The marks of entries of declarations. -/
def specMarks : List Spec → List Mark
  | [] => []
  | ⟨k, d⟩ :: ss => d.around k.marks ++ specMarks ss
termination_by structural ss => ss

/-- The marks of an entry of a declaration. -/
def SpecKind.marks : SpecKind → List Mark
  | .importPath n _ => importNameMarks n
  | .value ns t vs => nameMarks ns ++ optExprMarks t ++ exprMarks vs
  | .type n _ x => .name n false :: x.marks
termination_by structural k => k

end

attribute [simp] Expr.marks optExprMarks exprMarks elementMarks fieldMarks FieldList.marks
  resultMarks Signature.marks Block.marks stmtMarks Stmt.marks optStmtMarks StmtKind.marks
  Else.marks clauseMarks ClauseHead.marks GenDecl.marks specMarks SpecKind.marks

attribute [grind =] Decorations.around Enclosure.around Expr.marks optExprMarks exprMarks
  elementMarks fieldMarks FieldList.marks resultMarks Signature.marks Block.marks stmtMarks Stmt.marks
  optStmtMarks StmtKind.marks Else.marks clauseMarks ClauseHead.marks GenDecl.marks specMarks
  SpecKind.marks

@[grind =]
theorem GenDecl.marks_mk (keyword : GenKeyword) (specs : List Spec) (group : Option Enclosure) :
    (GenDecl.mk keyword specs group).marks =
      commentMarks (group.elim [] (·.openComment.toList)) ++ specMarks specs ++
        commentMarks (group.elim [] (·.closeComments)) := by
  cases group <;> simp [Enclosure.around, commentMarks]

/-- The marks of an element. -/
def Element.marks (e : Element) : List Mark :=
  e.decs.around e.expr.marks

/-- The marks of names and type of a field. -/
def Field.inner (joined : Bool) (f : Field) : List Mark :=
  fieldNameMarks joined f.names ++ f.type.marks

/-- The marks of a field. -/
def Field.marks (joined : Bool) (f : Field) : List Mark :=
  f.decs.around (f.inner joined)

/-- The marks of a clause. -/
def Clause.marks (c : Clause) : List Mark :=
  c.decs.around c.head.marks ++ stmtMarks c.body

/-- The marks of an entry of a declaration. -/
def Spec.marks (s : Spec) : List Mark :=
  s.decs.around s.kind.marks

/-- The marks of a function. -/
@[grind =]
def FuncDecl.marks (f : FuncDecl) : List Mark :=
  resultMarks f.recv ++ .name f.name false :: f.signature.marks ++
    f.body.toList.flatMap Block.marks

/-- The marks of a top-level declaration. -/
def DeclKind.marks : DeclKind → List Mark
  | .func f => f.marks
  | .gen d => d.marks

/-- The marks of a top-level declaration with its comments. -/
@[grind =]
def Decl.marks (d : Decl) : List Mark :=
  d.decs.around d.kind.marks

/-- The marks of a source file. -/
def SourceFile.marks (file : SourceFile) : List Mark :=
  file.packageDecs.around [.name file.package false] ++ file.decls.flatMap Decl.marks ++
    commentMarks file.trailingComments

/-! ## Lists and optional parts -/

@[simp] theorem optExprMarks_eq (x : Option Expr) :
    optExprMarks x = x.toList.flatMap Expr.marks := by
  cases x <;> simp [optExprMarks]

@[simp] theorem optStmtMarks_eq (s : Option Stmt) :
    optStmtMarks s = s.toList.flatMap Stmt.marks := by
  cases s <;> simp [optStmtMarks]

@[simp] theorem resultMarks_eq (fs : Option FieldList) :
    resultMarks fs = fs.toList.flatMap (FieldList.marks true) := by
  cases fs <;> simp [resultMarks]

@[simp] theorem exprMarks_eq (xs : List Expr) : exprMarks xs = xs.flatMap Expr.marks := by
  induction xs with
  | nil => rfl
  | cons x xs ih => rw [exprMarks, ih, List.flatMap_cons]

@[simp] theorem elementMarks_eq (es : List Element) :
    elementMarks es = es.flatMap Element.marks := by
  induction es with
  | nil => rfl
  | cons e es ih =>
    obtain ⟨x, d⟩ := e
    rw [elementMarks, ih, List.flatMap_cons]
    rfl

@[simp] theorem fieldMarks_eq (joined : Bool) (fs : List Field) :
    fieldMarks joined fs = fs.flatMap (Field.marks joined) := by
  induction fs with
  | nil => rfl
  | cons f fs ih =>
    obtain ⟨ns, x, t, d⟩ := f
    rw [fieldMarks, ih, List.flatMap_cons]
    rfl

@[simp] theorem stmtMarks_eq (ss : List Stmt) : stmtMarks ss = ss.flatMap Stmt.marks := by
  induction ss with
  | nil => rfl
  | cons s ss ih => rw [stmtMarks, ih, List.flatMap_cons]

@[simp] theorem clauseMarks_eq (cs : List Clause) :
    clauseMarks cs = cs.flatMap Clause.marks := by
  induction cs with
  | nil => rfl
  | cons c cs ih =>
    obtain ⟨h, b, d⟩ := c
    rw [clauseMarks, ih, List.flatMap_cons]
    rfl

@[simp] theorem specMarks_eq (ss : List Spec) : specMarks ss = ss.flatMap Spec.marks := by
  induction ss with
  | nil => rfl
  | cons s ss ih =>
    obtain ⟨k, d⟩ := s
    rw [specMarks, ih, List.flatMap_cons]
    rfl

end HandlerSplit
