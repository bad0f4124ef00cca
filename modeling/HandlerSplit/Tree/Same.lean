import HandlerSplit.Tree
/-!
# Equality of trees

Two trees are the same if they agree in structure, names, literals and layout.
-/

namespace HandlerSplit

mutual

/-- Equality of expressions. -/
def Expr.same : Expr → Expr → Bool
  | .ident n, .ident n' => n == n'
  | .literal k t, .literal k' t' => k == k' && t == t'
  | .composite t es b, .composite t' es' b' =>
    optExprSame t t' && elementsSame es es' && b == b'
  | .funcLit s b, .funcLit s' b' => s.same s' && b.same b'
  | .paren x, .paren x' => x.same x'
  | .selector x n, .selector x' n' => x.same x' && n == n'
  | .index x k, .index x' k' => x.same x' && k.same k'
  | .slice x l h m, .slice x' l' h' m' =>
    x.same x' && optExprSame l l' && optExprSame h h' && optExprSame m m'
  | .typeAssert x t, .typeAssert x' t' => x.same x' && optExprSame t t'
  | .call f as v p, .call f' as' v' p' =>
    f.same f' && elementsSame as as' && v == v' && p == p'
  | .star x, .star x' => x.same x'
  | .unary o x, .unary o' x' => o == o' && x.same x'
  | .binary x o y b, .binary x' o' y' b' => x.same x' && o == o' && y.same y' && b == b'
  | .keyValue k v, .keyValue k' v' => k.same k' && v.same v'
  | .arrayType l e, .arrayType l' e' => optExprSame l l' && e.same e'
  | .mapType k v, .mapType k' v' => k.same k' && v.same v'
  | .chanType d e, .chanType d' e' => d == d' && e.same e'
  | .funcType s, .funcType s' => s.same s'
  | .structType f, .structType f' => f.same f'
  | .interfaceType f, .interfaceType f' => f.same f'
  | .ellipsis e, .ellipsis e' => optExprSame e e'
  | _, _ => false
termination_by structural x => x

/-- Equality of expressions that may be missing. -/
def optExprSame : Option Expr → Option Expr → Bool
  | none, none => true
  | some x, some x' => x.same x'
  | _, _ => false
termination_by structural x => x

/-- Equality of lists of expressions. -/
def exprsSame : List Expr → List Expr → Bool
  | [], [] => true
  | x :: xs, x' :: xs' => x.same x' && exprsSame xs xs'
  | _, _ => false
termination_by structural xs => xs

/-- Equality of lists of elements. -/
def elementsSame : List Element → List Element → Bool
  | [], [] => true
  | ⟨x, d⟩ :: es, ⟨x', d'⟩ :: es' => x.same x' && d == d' && elementsSame es es'
  | _, _ => false
termination_by structural es => es

/-- Equality of fields. -/
def fieldsSame : List Field → List Field → Bool
  | [], [] => true
  | ⟨ns, x, t, d⟩ :: fs, ⟨ns', x', t', d'⟩ :: fs' =>
    ns == ns' && x.same x' && t == t' && d == d' && fieldsSame fs fs'
  | _, _ => false
termination_by structural fs => fs

/-- Equality of field lists. -/
def FieldList.same : FieldList → FieldList → Bool
  | ⟨fs, e⟩, ⟨fs', e'⟩ => fieldsSame fs fs' && e == e'
termination_by structural fs => fs

/-- Equality of results. -/
def resultsSame : Option FieldList → Option FieldList → Bool
  | none, none => true
  | some fs, some fs' => fs.same fs'
  | _, _ => false
termination_by structural fs => fs

/-- Equality of signatures. -/
def Signature.same : Signature → Signature → Bool
  | ⟨p, r⟩, ⟨p', r'⟩ => p.same p' && resultsSame r r'
termination_by structural s => s

/-- Equality of blocks. -/
def Block.same : Block → Block → Bool
  | ⟨ss, e, o⟩, ⟨ss', e', o'⟩ => stmtsSame ss ss' && e == e' && o == o'
termination_by structural b => b

/-- Equality of lists of statements. -/
def stmtsSame : List Stmt → List Stmt → Bool
  | [], [] => true
  | s :: ss, s' :: ss' => s.same s' && stmtsSame ss ss'
  | _, _ => false
termination_by structural ss => ss

/-- Equality of statements. -/
def Stmt.same : Stmt → Stmt → Bool
  | ⟨k, d⟩, ⟨k', d'⟩ => k.same k' && d == d'
termination_by structural s => s

/-- Equality of statements that may be missing. -/
def optStmtSame : Option Stmt → Option Stmt → Bool
  | none, none => true
  | some s, some s' => s.same s'
  | _, _ => false
termination_by structural s => s

/-- Equality of statements without their layout. -/
def StmtKind.same : StmtKind → StmtKind → Bool
  | .expr x, .expr x' => x.same x'
  | .assign l o r, .assign l' o' r' => exprsSame l l' && o == o' && exprsSame r r'
  | .incDec x u, .incDec x' u' => x.same x' && u == u'
  | .send c v, .send c' v' => c.same c' && v.same v'
  | .decl d, .decl d' => d.same d'
  | .returns vs, .returns vs' => exprsSame vs vs'
  | .branch k l, .branch k' l' => k == k' && l == l'
  | .block b, .block b' => b.same b'
  | .ifThen i c b e, .ifThen i' c' b' e' =>
    optStmtSame i i' && c.same c' && b.same b' && e.same e'
  | .forLoop i c p b, .forLoop i' c' p' b' =>
    optStmtSame i i' && optExprSame c c' && optStmtSame p p' && b.same b'
  | .rangeLoop k v d x b, .rangeLoop k' v' d' x' b' =>
    optExprSame k k' && optExprSame v v' && d == d' && x.same x' && b.same b'
  | .switch i t cs e, .switch i' t' cs' e' =>
    optStmtSame i i' && optExprSame t t' && clausesSame cs cs' && e == e'
  | .typeSwitch i g cs e, .typeSwitch i' g' cs' e' =>
    optStmtSame i i' && g.same g' && clausesSame cs cs' && e == e'
  | .select cs e, .select cs' e' => clausesSame cs cs' && e == e'
  | .go x, .go x' => x.same x'
  | .defer x, .defer x' => x.same x'
  | .labeled l s, .labeled l' s' => l == l' && s.same s'
  | .empty, .empty => true
  | _, _ => false
termination_by structural k => k

/-- Equality of what follows `else`. -/
def Else.same : Else → Else → Bool
  | .none, .none => true
  | .elseIf i c b e, .elseIf i' c' b' e' =>
    optStmtSame i i' && c.same c' && b.same b' && e.same e'
  | .block b, .block b' => b.same b'
  | _, _ => false
termination_by structural e => e

/-- Equality of clauses. -/
def clausesSame : List Clause → List Clause → Bool
  | [], [] => true
  | ⟨h, b, d⟩ :: cs, ⟨h', b', d'⟩ :: cs' =>
    h.same h' && stmtsSame b b' && d == d' && clausesSame cs cs'
  | _, _ => false
termination_by structural cs => cs

/-- Equality of what clauses are chosen by. -/
def ClauseHead.same : ClauseHead → ClauseHead → Bool
  | .default, .default => true
  | .values xs, .values xs' => exprsSame xs xs'
  | .comm s, .comm s' => s.same s'
  | _, _ => false
termination_by structural h => h

/-- Equality of declarations. -/
def GenDecl.same : GenDecl → GenDecl → Bool
  | ⟨k, ss, g⟩, ⟨k', ss', g'⟩ => k == k' && specsSame ss ss' && g == g'
termination_by structural d => d

/-- Equality of entries of declarations. -/
def specsSame : List Spec → List Spec → Bool
  | [], [] => true
  | ⟨k, d⟩ :: ss, ⟨k', d'⟩ :: ss' => k.same k' && d == d' && specsSame ss ss'
  | _, _ => false
termination_by structural ss => ss

/-- Equality of entries without their layout. -/
def SpecKind.same : SpecKind → SpecKind → Bool
  | .importPath n p, .importPath n' p' => n == n' && p == p'
  | .value ns t vs, .value ns' t' vs' => ns == ns' && optExprSame t t' && exprsSame vs vs'
  | .type n a t, .type n' a' t' => n == n' && a == a' && t.same t'
  | _, _ => false
termination_by structural k => k

end

/-- Equality of blocks that may be missing. -/
def optBlockSame : Option Block → Option Block → Bool
  | none, none => true
  | some b, some b' => b.same b'
  | _, _ => false

/-- Equality of functions. -/
def FuncDecl.same (f f' : FuncDecl) : Bool :=
  resultsSame f.recv f'.recv && f.name == f'.name && f.signature.same f'.signature &&
    optBlockSame f.body f'.body

/-- Equality of top-level declarations. -/
def Decl.same (d d' : Decl) : Bool :=
  d.decs == d'.decs &&
    match d.kind, d'.kind with
    | .func f, .func f' => f.same f'
    | .gen g, .gen g' => g.same g'
    | _, _ => false

/-- Equality of lists of declarations. -/
def declsSame : List Decl → List Decl → Bool
  | [], [] => true
  | d :: ds, d' :: ds' => d.same d' && declsSame ds ds'
  | _, _ => false

/-- Equality of source files. -/
def SourceFile.same (f f' : SourceFile) : Bool :=
  f.package == f'.package && f.packageDecs == f'.packageDecs && declsSame f.decls f'.decls &&
    f.trailingComments == f'.trailingComments

end HandlerSplit
