import HandlerSplit.Tree
/-!
# Reading a tree

Reading a tree in order gives a sequence of events: a statement or expression is entered,
what is inside it follows, and it is left; names occur in between. Names are identifiers,
selected names, field and parameter names, declared names, function names and labels. What
is asked about a tree is asked about its events.
-/

namespace HandlerSplit

/-- What is met while a tree is read. -/
inductive Event where
  | enterStmt (s : Stmt)
  | leaveStmt (s : Stmt)
  | enterExpr (x : Expr)
  | leaveExpr (x : Expr)
  | name (n : String)

/-- Events of names. -/
def nameEvents (ns : List String) : List Event :=
  ns.map .name

/-- The events of an expression, given those inside it. -/
def aroundExpr (x : Expr) (inside : List Event) : List Event :=
  .enterExpr x :: inside ++ [.leaveExpr x]

/-- The events of a statement, given those inside it. -/
def aroundStmt (s : Stmt) (inside : List Event) : List Event :=
  .enterStmt s :: inside ++ [.leaveStmt s]

mutual

/-- The events inside an expression. -/
def Expr.inside : Expr → List Event
  | .ident n => [.name n]
  | .literal _ _ => []
  | .composite t es _ => optExprEvents t ++ elementEvents es
  | .funcLit s b => s.events ++ b.events
  | .paren x => aroundExpr x x.inside
  | .selector x n => aroundExpr x x.inside ++ [.name n]
  | .index x k => aroundExpr x x.inside ++ aroundExpr k k.inside
  | .slice x l h m =>
    aroundExpr x x.inside ++ optExprEvents l ++ optExprEvents h ++ optExprEvents m
  | .typeAssert x t => aroundExpr x x.inside ++ optExprEvents t
  | .call f as _ _ => aroundExpr f f.inside ++ elementEvents as
  | .star x => aroundExpr x x.inside
  | .unary _ x => aroundExpr x x.inside
  | .binary x _ y _ => aroundExpr x x.inside ++ aroundExpr y y.inside
  | .keyValue k v => aroundExpr k k.inside ++ aroundExpr v v.inside
  | .arrayType l x => optExprEvents l ++ aroundExpr x x.inside
  | .mapType k v => aroundExpr k k.inside ++ aroundExpr v v.inside
  | .chanType _ x => aroundExpr x x.inside
  | .funcType s => s.events
  | .structType fs => fs.events
  | .interfaceType fs => fs.events
  | .ellipsis x => optExprEvents x
termination_by structural x => x

/-- The events of an expression that may be missing. -/
def optExprEvents : Option Expr → List Event
  | none => []
  | some x => aroundExpr x x.inside
termination_by structural x => x

/-- The events of expressions. -/
def exprEvents : List Expr → List Event
  | [] => []
  | x :: xs => aroundExpr x x.inside ++ exprEvents xs
termination_by structural xs => xs

/-- The events of elements. -/
def elementEvents : List Element → List Event
  | [] => []
  | ⟨x, _⟩ :: es => aroundExpr x x.inside ++ elementEvents es
termination_by structural es => es

/-- The events of fields: names before types. -/
def fieldEvents : List Field → List Event
  | [] => []
  | ⟨ns, x, _, _⟩ :: fs => nameEvents ns ++ aroundExpr x x.inside ++ fieldEvents fs
termination_by structural fs => fs

/-- The events of a field list. -/
def FieldList.events : FieldList → List Event
  | ⟨fs, _⟩ => fieldEvents fs
termination_by structural fs => fs

/-- The events of results. -/
def resultEvents : Option FieldList → List Event
  | none => []
  | some fs => fs.events
termination_by structural fs => fs

/-- The events of a signature. -/
def Signature.events : Signature → List Event
  | ⟨ps, rs⟩ => ps.events ++ resultEvents rs
termination_by structural s => s

/-- The events of a block. -/
def Block.events : Block → List Event
  | ⟨ss, _, _⟩ => stmtEvents ss
termination_by structural b => b

/-- The events of statements. -/
def stmtEvents : List Stmt → List Event
  | [] => []
  | s :: ss => s.events ++ stmtEvents ss
termination_by structural ss => ss

/-- The events of a statement. -/
def Stmt.events : Stmt → List Event
  | ⟨k, d⟩ => aroundStmt ⟨k, d⟩ k.inside
termination_by structural s => s

/-- The events of a statement that may be missing. -/
def optStmtEvents : Option Stmt → List Event
  | none => []
  | some s => s.events
termination_by structural s => s

/-- The events inside a statement. -/
def StmtKind.inside : StmtKind → List Event
  | .expr x => aroundExpr x x.inside
  | .assign l _ r => exprEvents l ++ exprEvents r
  | .incDec x _ => aroundExpr x x.inside
  | .send c v => aroundExpr c c.inside ++ aroundExpr v v.inside
  | .decl d => d.events
  | .returns vs => exprEvents vs
  | .branch _ l => nameEvents l.toList
  | .block b => b.events
  | .ifThen i c b e => optStmtEvents i ++ aroundExpr c c.inside ++ b.events ++ e.events
  | .forLoop i c p b => optStmtEvents i ++ optExprEvents c ++ optStmtEvents p ++ b.events
  | .rangeLoop k v _ x b =>
    optExprEvents k ++ optExprEvents v ++ aroundExpr x x.inside ++ b.events
  | .switch i t cs _ => optStmtEvents i ++ optExprEvents t ++ clauseEvents cs
  | .typeSwitch i g cs _ => optStmtEvents i ++ g.events ++ clauseEvents cs
  | .select cs _ => clauseEvents cs
  | .go x => aroundExpr x x.inside
  | .defer x => aroundExpr x x.inside
  | .labeled l s => .name l :: s.events
  | .empty => []
termination_by structural k => k

/-- The events of what follows `else`. -/
def Else.events : Else → List Event
  | .none => []
  | .elseIf i c b e => optStmtEvents i ++ aroundExpr c c.inside ++ b.events ++ e.events
  | .block b => b.events
termination_by structural e => e

/-- The events of clauses. -/
def clauseEvents : List Clause → List Event
  | [] => []
  | ⟨h, b, _⟩ :: cs => h.events ++ stmtEvents b ++ clauseEvents cs
termination_by structural cs => cs

/-- The events of what a clause is chosen by. -/
def ClauseHead.events : ClauseHead → List Event
  | .default => []
  | .values xs => exprEvents xs
  | .comm s => s.events
termination_by structural h => h

/-- The events of a declaration. -/
def GenDecl.events : GenDecl → List Event
  | ⟨_, ss, _⟩ => specEvents ss
termination_by structural d => d

/-- The events of entries of declarations. -/
def specEvents : List Spec → List Event
  | [] => []
  | ⟨k, _⟩ :: ss => k.events ++ specEvents ss
termination_by structural ss => ss

/-- The events of an entry; imports have none. -/
def SpecKind.events : SpecKind → List Event
  | .importPath _ _ => []
  | .value ns t vs => nameEvents ns ++ optExprEvents t ++ exprEvents vs
  | .type n _ x => .name n :: aroundExpr x x.inside
termination_by structural k => k

end

/-- The events of an expression. -/
def Expr.events (x : Expr) : List Event :=
  aroundExpr x x.inside

/-- The events of a function: receiver, name, signature, body. -/
def FuncDecl.events (f : FuncDecl) : List Event :=
  resultEvents f.recv ++ .name f.name :: f.signature.events ++
    (f.body.map Block.events).getD []

/-- The events of a top-level declaration. -/
def Decl.events (d : Decl) : List Event :=
  match d.kind with
  | .func f => f.events
  | .gen g => g.events

/-- The events of a source file. -/
def SourceFile.events (file : SourceFile) : List Event :=
  file.decls.flatMap Decl.events

/-! ## What events tell -/

namespace Event

/-- The name of a name event. -/
def name? : Event → Option String
  | name n => some n
  | _ => none

/-- The statement a statement event enters. -/
def entered? : Event → Option Stmt
  | enterStmt s => some s
  | _ => none

/-- The names in a sequence of events, in order. -/
def names (es : List Event) : List String :=
  es.filterMap name?

@[simp] theorem names_append (es es' : List Event) : names (es ++ es') = names es ++ names es' :=
  List.filterMap_append

@[simp] theorem names_cons_name (n : String) (es : List Event) :
    names (.name n :: es) = n :: names es := rfl

@[simp] theorem names_nil : names [] = [] := rfl

@[simp] theorem names_nameEvents (ns : List String) : names (nameEvents ns) = ns := by
  induction ns with
  | nil => rfl
  | cons n ns ih => exact congrArg (n :: ·) ih

@[simp] theorem names_aroundExpr (x : Expr) (es : List Event) :
    names (aroundExpr x es) = names es := by
  show names (es ++ [.leaveExpr x]) = names es
  rw [names_append]
  exact List.append_nil _

@[simp] theorem names_aroundStmt (s : Stmt) (es : List Event) :
    names (aroundStmt s es) = names es := by
  show names (es ++ [.leaveStmt s]) = names es
  rw [names_append]
  exact List.append_nil _

/-- The statements entered in a sequence of events, in order. -/
def stmts (es : List Event) : List Stmt :=
  es.filterMap entered?

/-- Current and greatest nesting of statements after one more event. -/
def nest (depth : Nat × Nat) : Event → Nat × Nat
  | enterStmt _ => (depth.1 + 1, max depth.2 (depth.1 + 1))
  | leaveStmt _ => (depth.1 - 1, depth.2)
  | _ => depth

/-- The greatest nesting of statements in a sequence of events. -/
def maxNesting (es : List Event) : Nat :=
  (es.foldl nest (0, 0)).2

end Event

/-- The names of a source file in order. -/
def SourceFile.names (file : SourceFile) : List String :=
  Event.names file.events

/-- The greatest nesting of statements in a function. -/
def FuncDecl.stmtDepth (f : FuncDecl) : Nat :=
  Event.maxNesting f.events

end HandlerSplit
