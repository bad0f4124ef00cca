import HandlerSplit.Tree
/-!
# Substitution in trees

A substitution says what stands for statements, for expressions and for names. In a tree it is
carried out from the outside to the inside: a statement or expression for which something is given
is replaced as a whole, and what is put there is not looked into; any other keeps its parts, with
the substitution in them. Everything that is neither replaced nor a name is copied, layout and
literals included, and so are the package name and the entries of imports.
-/

namespace HandlerSplit

/-- What stands for the statements, expressions and names of a tree. -/
structure Substitution where
  stmt : Stmt → Option Stmt := fun _ => none
  expr : Expr → Option Expr := fun _ => none
  name : String → String := id

section

variable (s : Substitution)

/-- What becomes of an expression, given what becomes of its parts. -/
def substExpr (x inside : Expr) : Expr :=
  (s.expr x).getD inside

mutual

/-- Substitution in the parts of an expression. -/
def Expr.substInside : Expr → Expr
  | .ident n => .ident (s.name n)
  | .literal k t => .literal k t
  | .composite t es b => .composite (substOptExpr t) (substElements es) b
  | .funcLit g b => .funcLit g.subst b.subst
  | .paren x => .paren (substExpr s x x.substInside)
  | .selector x n => .selector (substExpr s x x.substInside) (s.name n)
  | .index x k => .index (substExpr s x x.substInside) (substExpr s k k.substInside)
  | .slice x l h m =>
    .slice (substExpr s x x.substInside) (substOptExpr l) (substOptExpr h) (substOptExpr m)
  | .typeAssert x t => .typeAssert (substExpr s x x.substInside) (substOptExpr t)
  | .call f as v p => .call (substExpr s f f.substInside) (substElements as) v p
  | .star x => .star (substExpr s x x.substInside)
  | .unary o x => .unary o (substExpr s x x.substInside)
  | .binary x o y b => .binary (substExpr s x x.substInside) o (substExpr s y y.substInside) b
  | .keyValue k v => .keyValue (substExpr s k k.substInside) (substExpr s v v.substInside)
  | .arrayType l x => .arrayType (substOptExpr l) (substExpr s x x.substInside)
  | .mapType k v => .mapType (substExpr s k k.substInside) (substExpr s v v.substInside)
  | .chanType d x => .chanType d (substExpr s x x.substInside)
  | .funcType g => .funcType g.subst
  | .structType fs => .structType fs.subst
  | .interfaceType fs => .interfaceType fs.subst
  | .ellipsis x => .ellipsis (substOptExpr x)
termination_by structural x => x

/-- Substitution in an expression that may be missing. -/
def substOptExpr : Option Expr → Option Expr
  | none => none
  | some x => some (substExpr s x x.substInside)
termination_by structural x => x

/-- Substitution in expressions. -/
def substExprs : List Expr → List Expr
  | [] => []
  | x :: xs => substExpr s x x.substInside :: substExprs xs
termination_by structural xs => xs

/-- Substitution in elements. -/
def substElements : List Element → List Element
  | [] => []
  | ⟨x, d⟩ :: es => ⟨substExpr s x x.substInside, d⟩ :: substElements es
termination_by structural es => es

/-- Substitution in fields. -/
def substFields : List Field → List Field
  | [] => []
  | ⟨ns, x, t, d⟩ :: fs => ⟨ns.map s.name, substExpr s x x.substInside, t, d⟩ :: substFields fs
termination_by structural fs => fs

/-- Substitution in a field list. -/
def FieldList.subst : FieldList → FieldList
  | ⟨fs, e⟩ => ⟨substFields fs, e⟩
termination_by structural fs => fs

/-- Substitution in results. -/
def substResults : Option FieldList → Option FieldList
  | none => none
  | some fs => some fs.subst
termination_by structural fs => fs

/-- Substitution in a signature. -/
def Signature.subst : Signature → Signature
  | ⟨ps, rs⟩ => ⟨ps.subst, substResults rs⟩
termination_by structural g => g

/-- Substitution in a block. -/
def Block.subst : Block → Block
  | ⟨ss, e, o⟩ => ⟨substStmts ss, e, o⟩
termination_by structural b => b

/-- Substitution in statements. -/
def substStmts : List Stmt → List Stmt
  | [] => []
  | t :: ts => t.subst :: substStmts ts
termination_by structural ts => ts

/-- Substitution in a statement. -/
def Stmt.subst : Stmt → Stmt
  | ⟨k, d⟩ => (s.stmt ⟨k, d⟩).getD ⟨k.substInside, d⟩
termination_by structural t => t

/-- Substitution in a statement that may be missing. -/
def substOptStmt : Option Stmt → Option Stmt
  | none => none
  | some t => some t.subst
termination_by structural t => t

/-- Substitution in the parts of a statement. -/
def StmtKind.substInside : StmtKind → StmtKind
  | .expr x => .expr (substExpr s x x.substInside)
  | .assign lhs o rhs => .assign (substExprs lhs) o (substExprs rhs)
  | .incDec x u => .incDec (substExpr s x x.substInside) u
  | .send c v => .send (substExpr s c c.substInside) (substExpr s v v.substInside)
  | .decl d => .decl d.subst
  | .returns vs => .returns (substExprs vs)
  | .branch k l => .branch k (l.map s.name)
  | .block b => .block b.subst
  | .ifThen i c b e => .ifThen (substOptStmt i) (substExpr s c c.substInside) b.subst e.subst
  | .forLoop i c p b => .forLoop (substOptStmt i) (substOptExpr c) (substOptStmt p) b.subst
  | .rangeLoop k v d x b =>
    .rangeLoop (substOptExpr k) (substOptExpr v) d (substExpr s x x.substInside) b.subst
  | .switch i t cs e => .switch (substOptStmt i) (substOptExpr t) (substClauses cs) e
  | .typeSwitch i g cs e => .typeSwitch (substOptStmt i) g.subst (substClauses cs) e
  | .select cs e => .select (substClauses cs) e
  | .go x => .go (substExpr s x x.substInside)
  | .defer x => .defer (substExpr s x x.substInside)
  | .labeled l t => .labeled (s.name l) t.subst
  | .empty => .empty
termination_by structural k => k

/-- Substitution in what follows `else`. -/
def Else.subst : Else → Else
  | .none => .none
  | .elseIf i c b e => .elseIf (substOptStmt i) (substExpr s c c.substInside) b.subst e.subst
  | .block b => .block b.subst
termination_by structural e => e

/-- Substitution in clauses. -/
def substClauses : List Clause → List Clause
  | [] => []
  | ⟨h, b, d⟩ :: cs => ⟨h.subst, substStmts b, d⟩ :: substClauses cs
termination_by structural cs => cs

/-- Substitution in what a clause is chosen by. -/
def ClauseHead.subst : ClauseHead → ClauseHead
  | .default => .default
  | .values xs => .values (substExprs xs)
  | .comm t => .comm t.subst
termination_by structural h => h

/-- Substitution in a declaration. -/
def GenDecl.subst : GenDecl → GenDecl
  | ⟨k, es, g⟩ => ⟨k, substSpecs es, g⟩
termination_by structural d => d

/-- Substitution in entries of declarations. -/
def substSpecs : List Spec → List Spec
  | [] => []
  | ⟨k, d⟩ :: es => ⟨k.subst, d⟩ :: substSpecs es
termination_by structural es => es

/-- Substitution in an entry; imports stay. -/
def SpecKind.subst : SpecKind → SpecKind
  | .importPath n p => .importPath n p
  | .value ns t vs => .value (ns.map s.name) (substOptExpr t) (substExprs vs)
  | .type n a x => .type (s.name n) a (substExpr s x x.substInside)
termination_by structural k => k

end

/-- Substitution in an expression. -/
def Expr.subst (x : Expr) : Expr :=
  substExpr s x (x.substInside s)

/-- Substitution in a function. -/
def FuncDecl.subst (f : FuncDecl) : FuncDecl where
  recv := substResults s f.recv
  name := s.name f.name
  signature := f.signature.subst s
  body := f.body.map (·.subst s)

/-- Substitution in a top-level declaration. -/
def Decl.subst (d : Decl) : Decl where
  kind :=
    match d.kind with
    | .func f => .func (f.subst s)
    | .gen g => .gen (g.subst s)
  decs := d.decs

/-- Substitution in a source file. -/
def SourceFile.subst (file : SourceFile) : SourceFile :=
  { file with decls := file.decls.map (·.subst s) }

end

theorem substStmts_eq_map (s : Substitution) (ts : List Stmt) :
    substStmts s ts = ts.map (·.subst s) := by
  induction ts with
  | nil => rfl
  | cons t ts ih => rw [substStmts, ih, List.map_cons]

theorem substExprs_eq_map (s : Substitution) (xs : List Expr) :
    substExprs s xs = xs.map (·.subst s) := by
  induction xs with
  | nil => rfl
  | cons x xs ih =>
    rw [substExprs, ih, List.map_cons]
    rfl

theorem substOptExpr_eq_map (s : Substitution) (x : Option Expr) :
    substOptExpr s x = x.map (·.subst s) := by
  cases x <;> rfl

theorem substElements_eq_map (s : Substitution) (es : List Element) :
    substElements s es = es.map fun e => ⟨e.expr.subst s, e.decs⟩ := by
  induction es with
  | nil => rfl
  | cons e es ih =>
    obtain ⟨x, d⟩ := e
    rw [substElements, ih]
    rfl

theorem substClauses_eq_map (s : Substitution) (cs : List Clause) :
    substClauses s cs =
      cs.map fun c => ⟨c.head.subst s, c.body.map (·.subst s), c.decs⟩ := by
  induction cs with
  | nil => rfl
  | cons c cs ih =>
    obtain ⟨h, b, d⟩ := c
    rw [substClauses, ih, substStmts_eq_map]
    rfl

end HandlerSplit
