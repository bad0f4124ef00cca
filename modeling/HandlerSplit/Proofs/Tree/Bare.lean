import HandlerSplit.Tree
/-!
# Trees without layout

`bare` forgets all that a tree remembers of the way its source was laid out: the decorations
of its nodes with their comments, the enclosures of its lists, whether a block stood on one
line, whether a line was broken after an operator, and the comments at the end of the file. Two
trees with the same bare tree are the same program.
-/

namespace HandlerSplit

mutual

/-- An expression without layout. -/
def Expr.bare : Expr → Expr
  | .ident n => .ident n
  | .literal k t => .literal k t
  | .composite t es _ => .composite (bareOptExpr t) (bareElements es) .plain
  | .funcLit s b => .funcLit s.bare b.bare
  | .paren x => .paren x.bare
  | .selector x n => .selector x.bare n
  | .index x k => .index x.bare k.bare
  | .slice x l h m => .slice x.bare (bareOptExpr l) (bareOptExpr h) (bareOptExpr m)
  | .typeAssert x t => .typeAssert x.bare (bareOptExpr t)
  | .call f as v _ => .call f.bare (bareElements as) v .plain
  | .star x => .star x.bare
  | .unary o x => .unary o x.bare
  | .binary x o y _ => .binary x.bare o y.bare false
  | .keyValue k v => .keyValue k.bare v.bare
  | .arrayType l x => .arrayType (bareOptExpr l) x.bare
  | .mapType k v => .mapType k.bare v.bare
  | .chanType d x => .chanType d x.bare
  | .funcType s => .funcType s.bare
  | .structType fs => .structType fs.bare
  | .interfaceType fs => .interfaceType fs.bare
  | .ellipsis x => .ellipsis (bareOptExpr x)
termination_by structural x => x

/-- An expression that may be missing. -/
def bareOptExpr : Option Expr → Option Expr
  | none => none
  | some x => some x.bare
termination_by structural x => x

/-- Expressions. -/
def bareExprs : List Expr → List Expr
  | [] => []
  | x :: xs => x.bare :: bareExprs xs
termination_by structural xs => xs

/-- Elements. -/
def bareElements : List Element → List Element
  | [] => []
  | ⟨x, _⟩ :: es => ⟨x.bare, .plain⟩ :: bareElements es
termination_by structural es => es

/-- Fields. -/
def bareFields : List Field → List Field
  | [] => []
  | ⟨ns, x, t, _⟩ :: fs => ⟨ns, x.bare, t, .plain⟩ :: bareFields fs
termination_by structural fs => fs

/-- A field list. -/
def FieldList.bare : FieldList → FieldList
  | ⟨fs, _⟩ => ⟨bareFields fs, .plain⟩
termination_by structural fs => fs

/-- Results. -/
def bareResults : Option FieldList → Option FieldList
  | none => none
  | some fs => some fs.bare
termination_by structural fs => fs

/-- A signature. -/
def Signature.bare : Signature → Signature
  | ⟨ps, rs⟩ => ⟨ps.bare, bareResults rs⟩
termination_by structural s => s

/-- A block. -/
def Block.bare : Block → Block
  | ⟨ss, _, _⟩ => ⟨bareStmts ss, .plain, false⟩
termination_by structural b => b

/-- Statements. -/
def bareStmts : List Stmt → List Stmt
  | [] => []
  | s :: ss => s.bare :: bareStmts ss
termination_by structural ss => ss

/-- A statement. -/
def Stmt.bare : Stmt → Stmt
  | ⟨k, _⟩ => ⟨k.bare, .plain⟩
termination_by structural s => s

/-- A statement that may be missing. -/
def bareOptStmt : Option Stmt → Option Stmt
  | none => none
  | some s => some s.bare
termination_by structural s => s

/-- What a statement does. -/
def StmtKind.bare : StmtKind → StmtKind
  | .expr x => .expr x.bare
  | .assign l o r => .assign (bareExprs l) o (bareExprs r)
  | .incDec x u => .incDec x.bare u
  | .send c v => .send c.bare v.bare
  | .decl d => .decl d.bare
  | .returns vs => .returns (bareExprs vs)
  | .branch k l => .branch k l
  | .block b => .block b.bare
  | .ifThen i c b e => .ifThen (bareOptStmt i) c.bare b.bare e.bare
  | .forLoop i c p b => .forLoop (bareOptStmt i) (bareOptExpr c) (bareOptStmt p) b.bare
  | .rangeLoop k v d x b => .rangeLoop (bareOptExpr k) (bareOptExpr v) d x.bare b.bare
  | .switch i t cs _ => .switch (bareOptStmt i) (bareOptExpr t) (bareClauses cs) .plain
  | .typeSwitch i g cs _ => .typeSwitch (bareOptStmt i) g.bare (bareClauses cs) .plain
  | .select cs _ => .select (bareClauses cs) .plain
  | .go x => .go x.bare
  | .defer x => .defer x.bare
  | .labeled l s => .labeled l s.bare
  | .empty => .empty
termination_by structural k => k

/-- What follows `else`. -/
def Else.bare : Else → Else
  | .none => .none
  | .elseIf i c b e => .elseIf (bareOptStmt i) c.bare b.bare e.bare
  | .block b => .block b.bare
termination_by structural e => e

/-- Clauses. -/
def bareClauses : List Clause → List Clause
  | [] => []
  | ⟨h, b, _⟩ :: cs => ⟨h.bare, bareStmts b, .plain⟩ :: bareClauses cs
termination_by structural cs => cs

/-- What a clause is chosen by. -/
def ClauseHead.bare : ClauseHead → ClauseHead
  | .default => .default
  | .values xs => .values (bareExprs xs)
  | .comm s => .comm s.bare
termination_by structural h => h

/-- A declaration; that it is a group is no layout. -/
def GenDecl.bare : GenDecl → GenDecl
  | ⟨k, ss, g⟩ => ⟨k, bareSpecs ss, g.map fun _ => .plain⟩
termination_by structural d => d

/-- Entries of declarations. -/
def bareSpecs : List Spec → List Spec
  | [] => []
  | ⟨k, _⟩ :: ss => ⟨k.bare, .plain⟩ :: bareSpecs ss
termination_by structural ss => ss

/-- An entry of a declaration. -/
def SpecKind.bare : SpecKind → SpecKind
  | .importPath n p => .importPath n p
  | .value ns t vs => .value ns (bareOptExpr t) (bareExprs vs)
  | .type n a x => .type n a x.bare
termination_by structural k => k

end

attribute [simp] Expr.bare bareOptExpr bareExprs bareElements bareFields FieldList.bare bareResults
  Signature.bare Block.bare bareStmts Stmt.bare bareOptStmt StmtKind.bare Else.bare bareClauses
  ClauseHead.bare GenDecl.bare bareSpecs SpecKind.bare

/-- An element without layout. -/
def Element.bare (e : Element) : Element :=
  ⟨e.expr.bare, .plain⟩

/-- A field without layout. -/
def Field.bare (f : Field) : Field :=
  ⟨f.names, f.type.bare, f.tag, .plain⟩

/-- A clause without layout. -/
def Clause.bare (c : Clause) : Clause :=
  ⟨c.head.bare, c.body.map Stmt.bare, .plain⟩

/-- An entry of a declaration without layout. -/
def Spec.bare (s : Spec) : Spec :=
  ⟨s.kind.bare, .plain⟩

/-- A function without layout. -/
def FuncDecl.bare (f : FuncDecl) : FuncDecl :=
  ⟨bareResults f.recv, f.name, f.signature.bare, f.body.map Block.bare⟩

/-- A top-level declaration without layout. -/
def DeclKind.bare : DeclKind → DeclKind
  | .func f => .func f.bare
  | .gen d => .gen d.bare

/-- A top-level declaration without layout. -/
def Decl.bare (d : Decl) : Decl :=
  ⟨d.kind.bare, .plain⟩

/-- A source file without layout and comments. -/
def SourceFile.bare (file : SourceFile) : SourceFile :=
  ⟨file.package, .plain, file.decls.map Decl.bare, []⟩

/-! ## Lists and optional parts

Inside a tree lists are gone through by functions of their own; outside they are maps. -/

@[simp] theorem bareOptExpr_eq_map (x : Option Expr) : bareOptExpr x = x.map Expr.bare := by
  cases x <;> rfl

@[simp] theorem bareResults_eq_map (fs : Option FieldList) :
    bareResults fs = fs.map FieldList.bare := by
  cases fs <;> rfl

@[simp] theorem bareOptStmt_eq_map (s : Option Stmt) : bareOptStmt s = s.map Stmt.bare := by
  cases s <;> rfl

@[simp] theorem bareExprs_eq_map (xs : List Expr) : bareExprs xs = xs.map Expr.bare := by
  induction xs with
  | nil => rfl
  | cons x xs ih => rw [bareExprs, ih, List.map_cons]

@[simp] theorem bareElements_eq_map (es : List Element) :
    bareElements es = es.map Element.bare := by
  induction es with
  | nil => rfl
  | cons e es ih =>
    obtain ⟨⟩ := e
    rw [List.map_cons, ← ih]
    rfl

@[simp] theorem bareFields_eq_map (fs : List Field) : bareFields fs = fs.map Field.bare := by
  induction fs with
  | nil => rfl
  | cons f fs ih =>
    obtain ⟨⟩ := f
    rw [List.map_cons, ← ih]
    rfl

@[simp] theorem bareStmts_eq_map (ss : List Stmt) : bareStmts ss = ss.map Stmt.bare := by
  induction ss with
  | nil => rfl
  | cons s ss ih => rw [bareStmts, ih, List.map_cons]

@[simp] theorem bareClauses_eq_map (cs : List Clause) :
    bareClauses cs = cs.map Clause.bare := by
  induction cs with
  | nil => rfl
  | cons c cs ih =>
    obtain ⟨⟩ := c
    rw [List.map_cons, ← ih, Clause.bare, ← bareStmts_eq_map]
    rfl

@[simp] theorem bareSpecs_eq_map (ss : List Spec) : bareSpecs ss = ss.map Spec.bare := by
  induction ss with
  | nil => rfl
  | cons s ss ih =>
    obtain ⟨⟩ := s
    rw [List.map_cons, ← ih]
    rfl

end HandlerSplit
