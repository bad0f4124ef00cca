import HandlerSplit.Tree
/-!
# Rewriting a tree

A rewriter is offered the statements, expressions and names of a tree in the order in which
they are read, outer before inner. It may have a statement or expression entered, or put
another in its place; what it puts there, the node itself included, is not entered.
-/

namespace HandlerSplit

/-- What a rewriter decides about a node. -/
inductive Visit (α : Type) where
  /-- The parts of the node are offered next. -/
  | enter
  /-- The given node stands here; its parts are not offered. -/
  | put (a : α)

/-- A way to rewrite trees, with a state of its own. -/
structure Rewriter (σ : Type) where
  onStmt : Stmt → StateM σ (Visit Stmt)
  onExpr : Expr → StateM σ (Visit Expr)
  onName : String → StateM σ String

/-- The rewriter that enters everything and changes nothing. -/
def Rewriter.idle {σ : Type} : Rewriter σ where
  onStmt _ := pure .enter
  onExpr _ := pure .enter
  onName n := pure n

section

variable {σ : Type} (r : Rewriter σ)

/-- Offers an expression, and rewrites it from the inside if it is entered. -/
def offerExpr (x : Expr) (inside : StateM σ Expr) : StateM σ Expr := do
  match ← r.onExpr x with
  | .enter => inside
  | .put y => return y

/-- Offers a statement, and rewrites it from the inside if it is entered. -/
def offerStmt (s : Stmt) (inside : StateM σ StmtKind) : StateM σ Stmt := do
  match ← r.onStmt s with
  | .enter => return { s with kind := ← inside }
  | .put t => return t

/-- Rewrites a name that may be missing. -/
def rewriteLabel : Option String → StateM σ (Option String)
  | none => return none
  | some n => return some (← r.onName n)

/-- Rewrites names. -/
def rewriteNames : List String → StateM σ (List String)
  | [] => return []
  | n :: ns => return (← r.onName n) :: (← rewriteNames ns)

mutual

/-- Rewrites the parts of an expression. -/
def Expr.rewriteInside : Expr → StateM σ Expr
  | .ident n => return .ident (← r.onName n)
  | .literal k t => return .literal k t
  | .composite t es b => return .composite (← rewriteOptExpr t) (← rewriteElements es) b
  | .funcLit s b => return .funcLit (← s.rewrite) (← b.rewrite)
  | .paren x => return .paren (← offerExpr r x x.rewriteInside)
  | .selector x n => return .selector (← offerExpr r x x.rewriteInside) (← r.onName n)
  | .index x k =>
    return .index (← offerExpr r x x.rewriteInside) (← offerExpr r k k.rewriteInside)
  | .slice x l h m =>
    return .slice (← offerExpr r x x.rewriteInside) (← rewriteOptExpr l) (← rewriteOptExpr h)
      (← rewriteOptExpr m)
  | .typeAssert x t =>
    return .typeAssert (← offerExpr r x x.rewriteInside) (← rewriteOptExpr t)
  | .call f as v p =>
    return .call (← offerExpr r f f.rewriteInside) (← rewriteElements as) v p
  | .star x => return .star (← offerExpr r x x.rewriteInside)
  | .unary o x => return .unary o (← offerExpr r x x.rewriteInside)
  | .binary x o y b =>
    return .binary (← offerExpr r x x.rewriteInside) o (← offerExpr r y y.rewriteInside) b
  | .keyValue k v =>
    return .keyValue (← offerExpr r k k.rewriteInside) (← offerExpr r v v.rewriteInside)
  | .arrayType l x => return .arrayType (← rewriteOptExpr l) (← offerExpr r x x.rewriteInside)
  | .mapType k v =>
    return .mapType (← offerExpr r k k.rewriteInside) (← offerExpr r v v.rewriteInside)
  | .chanType d x => return .chanType d (← offerExpr r x x.rewriteInside)
  | .funcType s => return .funcType (← s.rewrite)
  | .structType fs => return .structType (← fs.rewrite)
  | .interfaceType fs => return .interfaceType (← fs.rewrite)
  | .ellipsis x => return .ellipsis (← rewriteOptExpr x)
termination_by structural x => x

/-- Rewrites an expression that may be missing. -/
def rewriteOptExpr : Option Expr → StateM σ (Option Expr)
  | none => return none
  | some x => return some (← offerExpr r x x.rewriteInside)
termination_by structural x => x

/-- Rewrites expressions. -/
def rewriteExprs : List Expr → StateM σ (List Expr)
  | [] => return []
  | x :: xs => return (← offerExpr r x x.rewriteInside) :: (← rewriteExprs xs)
termination_by structural xs => xs

/-- Rewrites elements. -/
def rewriteElements : List Element → StateM σ (List Element)
  | [] => return []
  | ⟨x, d⟩ :: es => return ⟨← offerExpr r x x.rewriteInside, d⟩ :: (← rewriteElements es)
termination_by structural es => es

/-- Rewrites fields. -/
def rewriteFields : List Field → StateM σ (List Field)
  | [] => return []
  | ⟨ns, x, t, d⟩ :: fs =>
    return ⟨← rewriteNames r ns, ← offerExpr r x x.rewriteInside, t, d⟩ :: (← rewriteFields fs)
termination_by structural fs => fs

/-- Rewrites a field list. -/
def FieldList.rewrite : FieldList → StateM σ FieldList
  | ⟨fs, e⟩ => return ⟨← rewriteFields fs, e⟩
termination_by structural fs => fs

/-- Rewrites results. -/
def rewriteResults : Option FieldList → StateM σ (Option FieldList)
  | none => return none
  | some fs => return some (← fs.rewrite)
termination_by structural fs => fs

/-- Rewrites a signature. -/
def Signature.rewrite : Signature → StateM σ Signature
  | ⟨ps, rs⟩ => return ⟨← ps.rewrite, ← rewriteResults rs⟩
termination_by structural s => s

/-- Rewrites a block. -/
def Block.rewrite : Block → StateM σ Block
  | ⟨ss, e, o⟩ => return ⟨← rewriteStmts ss, e, o⟩
termination_by structural b => b

/-- Rewrites statements. -/
def rewriteStmts : List Stmt → StateM σ (List Stmt)
  | [] => return []
  | s :: ss => return (← s.rewrite) :: (← rewriteStmts ss)
termination_by structural ss => ss

/-- Rewrites a statement. -/
def Stmt.rewrite : Stmt → StateM σ Stmt
  | ⟨k, d⟩ => offerStmt r ⟨k, d⟩ k.rewriteInside
termination_by structural s => s

/-- Rewrites a statement that may be missing. -/
def rewriteOptStmt : Option Stmt → StateM σ (Option Stmt)
  | none => return none
  | some s => return some (← s.rewrite)
termination_by structural s => s

/-- Rewrites the parts of a statement. -/
def StmtKind.rewriteInside : StmtKind → StateM σ StmtKind
  | .expr x => return .expr (← offerExpr r x x.rewriteInside)
  | .assign lhs o rhs => return .assign (← rewriteExprs lhs) o (← rewriteExprs rhs)
  | .incDec x u => return .incDec (← offerExpr r x x.rewriteInside) u
  | .send c v => return .send (← offerExpr r c c.rewriteInside) (← offerExpr r v v.rewriteInside)
  | .decl d => return .decl (← d.rewrite)
  | .returns vs => return .returns (← rewriteExprs vs)
  | .branch k l => return .branch k (← rewriteLabel r l)
  | .block b => return .block (← b.rewrite)
  | .ifThen i c b e =>
    return .ifThen (← rewriteOptStmt i) (← offerExpr r c c.rewriteInside) (← b.rewrite)
      (← e.rewrite)
  | .forLoop i c p b =>
    return .forLoop (← rewriteOptStmt i) (← rewriteOptExpr c) (← rewriteOptStmt p) (← b.rewrite)
  | .rangeLoop k v d x b =>
    return .rangeLoop (← rewriteOptExpr k) (← rewriteOptExpr v) d
      (← offerExpr r x x.rewriteInside) (← b.rewrite)
  | .switch i t cs e =>
    return .switch (← rewriteOptStmt i) (← rewriteOptExpr t) (← rewriteClauses cs) e
  | .typeSwitch i g cs e =>
    return .typeSwitch (← rewriteOptStmt i) (← g.rewrite) (← rewriteClauses cs) e
  | .select cs e => return .select (← rewriteClauses cs) e
  | .go x => return .go (← offerExpr r x x.rewriteInside)
  | .defer x => return .defer (← offerExpr r x x.rewriteInside)
  | .labeled l s => return .labeled (← r.onName l) (← s.rewrite)
  | .empty => return .empty
termination_by structural k => k

/-- Rewrites what follows `else`. -/
def Else.rewrite : Else → StateM σ Else
  | .none => return .none
  | .elseIf i c b e =>
    return .elseIf (← rewriteOptStmt i) (← offerExpr r c c.rewriteInside) (← b.rewrite)
      (← e.rewrite)
  | .block b => return .block (← b.rewrite)
termination_by structural e => e

/-- Rewrites clauses. -/
def rewriteClauses : List Clause → StateM σ (List Clause)
  | [] => return []
  | ⟨h, b, d⟩ :: cs => return ⟨← h.rewrite, ← rewriteStmts b, d⟩ :: (← rewriteClauses cs)
termination_by structural cs => cs

/-- Rewrites what a clause is chosen by. -/
def ClauseHead.rewrite : ClauseHead → StateM σ ClauseHead
  | .default => return .default
  | .values xs => return .values (← rewriteExprs xs)
  | .comm s => return .comm (← s.rewrite)
termination_by structural h => h

/-- Rewrites a declaration. -/
def GenDecl.rewrite : GenDecl → StateM σ GenDecl
  | ⟨k, ss, g⟩ => return ⟨k, ← rewriteSpecs ss, g⟩
termination_by structural d => d

/-- Rewrites entries of declarations. -/
def rewriteSpecs : List Spec → StateM σ (List Spec)
  | [] => return []
  | ⟨k, d⟩ :: ss => return ⟨← k.rewrite, d⟩ :: (← rewriteSpecs ss)
termination_by structural ss => ss

/-- Rewrites an entry; imports stay. -/
def SpecKind.rewrite : SpecKind → StateM σ SpecKind
  | .importPath n p => return .importPath n p
  | .value ns t vs => return .value (← rewriteNames r ns) (← rewriteOptExpr t) (← rewriteExprs vs)
  | .type n a x => return .type (← r.onName n) a (← offerExpr r x x.rewriteInside)
termination_by structural k => k

end

/-- Rewrites a function: receiver, name, signature, body. -/
def FuncDecl.rewrite (f : FuncDecl) : StateM σ FuncDecl := do
  let recv ← rewriteResults r f.recv
  let name ← r.onName f.name
  let signature ← f.signature.rewrite r
  match f.body with
  | some body => return ⟨recv, name, signature, some (← body.rewrite r)⟩
  | none => return ⟨recv, name, signature, none⟩

/-- Rewrites a top-level declaration. -/
def Decl.rewrite (d : Decl) : StateM σ Decl := do
  match d.kind with
  | .func f => return ⟨.func (← f.rewrite r), d.decs⟩
  | .gen g => return ⟨.gen (← g.rewrite r), d.decs⟩

/-- Rewrites declarations. -/
def rewriteDecls : List Decl → StateM σ (List Decl)
  | [] => return []
  | d :: ds => return (← d.rewrite r) :: (← rewriteDecls ds)

/-- Rewrites a source file. -/
def SourceFile.rewrite (file : SourceFile) : StateM σ SourceFile :=
  return { file with decls := ← rewriteDecls r file.decls }

end

/-! ## Renaming -/

/-- Replaces a name wherever it occurs, whatever it refers to, and counts the replacements. -/
def renamer (old new : String) : Rewriter Nat :=
  { Rewriter.idle with
    onName := fun n => do
      if n == old then
        modify (· + 1)
        return new
      else return n }

/-- Renames throughout a block. -/
def Block.rename (b : Block) (old new : String) : Block × Nat :=
  (b.rewrite (renamer old new)).run 0

/-- Renames throughout a source file. -/
def SourceFile.rename (file : SourceFile) (old new : String) : SourceFile × Nat :=
  (file.rewrite (renamer old new)).run 0

end HandlerSplit
