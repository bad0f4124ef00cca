import HandlerSplit.Tree
/-!
# Words of a tree

The words of a tree are the kinds of the tokens that it stands for, in the order of its source.
Comments belong to the layout of a tree. Semicolons, commas, parentheses and `...` are left out:
a tree is written with as many of them as its layout asks for.
-/

namespace HandlerSplit

/-- The tokens a tree stands for. -/
def TokenKind.isWord : TokenKind → Bool
  | .comment _ | .semicolon _ | .eof => false
  | .punct .comma | .punct .lparen | .punct .rparen | .punct .ellipsis => false
  | _ => true

/-- The words among tokens. -/
def wordsOf (tokens : List Token) : List TokenKind :=
  (tokens.map (·.kind)).filter (·.isWord)

/-! ## Operators and names -/

/-- The token of a unary operator. -/
def UnaryOp.kind : UnaryOp → TokenKind
  | pos => .op .add
  | neg => .op .sub
  | not => .punct .not
  | xor => .op .xor
  | addr => .op .and
  | recv => .punct .arrow
  | tilde => .punct .tilde

theorem UnaryOp.isWord_kind (op : UnaryOp) : op.kind.isWord = true := by
  cases op <;> rfl

/-- The token between the two sides of an assignment. -/
def AssignOp.kind : AssignOp → TokenKind
  | assign => .punct .assign
  | define => .punct .define
  | op o => .opAssign o

theorem AssignOp.isWord_kind (op : AssignOp) : op.kind.isWord = true := by
  cases op <;> rfl

/-- The tokens a channel type starts with. -/
def ChanDir.words : ChanDir → List TokenKind
  | both => [.keyword .chan]
  | send => [.keyword .chan, .punct .arrow]
  | recv => [.punct .arrow, .keyword .chan]

/-- Names, as words. -/
def nameWords (ns : List String) : List TokenKind :=
  ns.map .ident

/-- The tag of a struct field. -/
def tagWords (tag : Option String) : List TokenKind :=
  tag.toList.map (.literal .string)

/-- The name before an import path; a point is a word of its own. -/
def importNameWords : Option String → List TokenKind
  | none => []
  | some n => if n = "." then [.punct .period] else [.ident n]

/-- The sign between the variables of a range clause and `range`, if there are variables. -/
def rangeOpWords (hasVars define : Bool) : List TokenKind :=
  if hasVars then [.punct (if define then .define else .assign)] else []

/-- Whether a field is the method of an interface, which is written without `func`. -/
def isMethod : Bool → List String → Expr → Bool
  | true, [_], .funcType _ => true
  | _, _, _ => false

/-! ## Trees -/

mutual

/-- The words of an expression. -/
def Expr.words : Expr → List TokenKind
  | .ident n => [.ident n]
  | .literal k t => [.literal k t]
  | .composite t es _ => optExprWords t ++ [.punct .lbrace] ++ elementWords es ++ [.punct .rbrace]
  | .funcLit s b => [.keyword .func] ++ s.words ++ b.words
  | .paren x => x.words
  | .selector x n => x.words ++ [.punct .period] ++ [.ident n]
  | .index x k => x.words ++ [.punct .lbracket] ++ k.words ++ [.punct .rbracket]
  | .slice x l h m =>
    x.words ++ [.punct .lbracket] ++ (optExprWords l ++ [.punct .colon] ++ optExprWords h ++
      maxWords m) ++ [.punct .rbracket]
  | .typeAssert x none => x.words ++ [.punct .period] ++ [.keyword .type]
  | .typeAssert x (some t) => x.words ++ [.punct .period] ++ t.words
  | .call f as _ _ => f.words ++ elementWords as
  | .star x => [.op .mul] ++ x.words
  | .unary o x => [o.kind] ++ x.words
  | .binary x o y _ => x.words ++ [.op o] ++ y.words
  | .keyValue k v => k.words ++ [.punct .colon] ++ v.words
  | .arrayType l x => [.punct .lbracket] ++ optExprWords l ++ [.punct .rbracket] ++ x.words
  | .mapType k v =>
    [.keyword .map] ++ [.punct .lbracket] ++ k.words ++ [.punct .rbracket] ++ v.words
  | .chanType d x => d.words ++ x.words
  | .funcType s => [.keyword .func] ++ s.words
  | .structType fs => [.keyword .struct] ++ fs.memberWords false
  | .interfaceType fs => [.keyword .interface] ++ fs.memberWords true
  | .ellipsis x => optExprWords x
termination_by structural x => x

/-- The words of an expression that may be missing. -/
def optExprWords : Option Expr → List TokenKind
  | none => []
  | some x => x.words
termination_by structural x => x

/-- The words of the third bound of a slice, with the colon before it. -/
def maxWords : Option Expr → List TokenKind
  | none => []
  | some x => [.punct .colon] ++ x.words
termination_by structural x => x

/-- The words of expressions. -/
def exprWords : List Expr → List TokenKind
  | [] => []
  | x :: xs => x.words ++ exprWords xs
termination_by structural xs => xs

/-- The words of elements. -/
def elementWords : List Element → List TokenKind
  | [] => []
  | ⟨x, _⟩ :: es => x.words ++ elementWords es
termination_by structural es => es

/-- The words of fields, of an interface if `methods` is set. -/
def fieldWords (methods : Bool) : List Field → List TokenKind
  | [] => []
  | ⟨ns, x, tag, _⟩ :: fs =>
    (nameWords ns ++ (if isMethod methods ns x then x.words.tail else x.words) ++ tagWords tag) ++
      fieldWords methods fs
termination_by structural fs => fs

/-- The words of parameters or results. -/
def FieldList.words : FieldList → List TokenKind
  | ⟨fs, _⟩ => fieldWords false fs
termination_by structural fs => fs

/-- The words of the members of a struct or interface, with their braces. -/
def FieldList.memberWords (methods : Bool) : FieldList → List TokenKind
  | ⟨fs, _⟩ => [.punct .lbrace] ++ fieldWords methods fs ++ [.punct .rbrace]
termination_by structural fs => fs

/-- The words of results. -/
def resultWords : Option FieldList → List TokenKind
  | none => []
  | some fs => fs.words
termination_by structural fs => fs

/-- The words of a signature. -/
def Signature.words : Signature → List TokenKind
  | ⟨ps, rs⟩ => ps.words ++ resultWords rs
termination_by structural s => s

/-- The words of a block. -/
def Block.words : Block → List TokenKind
  | ⟨ss, _, _⟩ => [.punct .lbrace] ++ stmtWords ss ++ [.punct .rbrace]
termination_by structural b => b

/-- The words of statements. -/
def stmtWords : List Stmt → List TokenKind
  | [] => []
  | s :: ss => s.words ++ stmtWords ss
termination_by structural ss => ss

/-- The words of a statement. -/
def Stmt.words : Stmt → List TokenKind
  | ⟨k, _⟩ => k.words
termination_by structural s => s

/-- The words of a statement that may be missing. -/
def optStmtWords : Option Stmt → List TokenKind
  | none => []
  | some s => s.words
termination_by structural s => s

/-- The words of what a statement does. -/
def StmtKind.words : StmtKind → List TokenKind
  | .expr x => x.words
  | .assign l o r => exprWords l ++ [o.kind] ++ exprWords r
  | .incDec x up => x.words ++ [.punct (if up then .inc else .dec)]
  | .send c v => c.words ++ [.punct .arrow] ++ v.words
  | .decl d => d.words
  | .returns vs => [.keyword .return] ++ exprWords vs
  | .branch k l => [.keyword k.keyword] ++ nameWords l.toList
  | .block b => b.words
  | .ifThen i c b e => [.keyword .if] ++ (optStmtWords i ++ c.words) ++ b.words ++ e.words
  | .forLoop i c p b =>
    [.keyword .for] ++ (optStmtWords i ++ optExprWords c ++ optStmtWords p) ++ b.words
  | .rangeLoop k v d x b =>
    [.keyword .for] ++ (optExprWords k ++ optExprWords v ++ rangeOpWords k.isSome d ++
      [.keyword .range] ++ x.words) ++ b.words
  | .switch i t cs _ =>
    [.keyword .switch] ++ (optStmtWords i ++ optExprWords t) ++
      ([.punct .lbrace] ++ clauseWords cs ++ [.punct .rbrace])
  | .typeSwitch i g cs _ =>
    [.keyword .switch] ++ (optStmtWords i ++ g.words) ++
      ([.punct .lbrace] ++ clauseWords cs ++ [.punct .rbrace])
  | .select cs _ =>
    [.keyword .select] ++ ([.punct .lbrace] ++ clauseWords cs ++ [.punct .rbrace])
  | .go x => [.keyword .go] ++ x.words
  | .defer x => [.keyword .defer] ++ x.words
  | .labeled l s => [.ident l] ++ [.punct .colon] ++ s.words
  | .empty => []
termination_by structural k => k

/-- The words of what follows the body of an `if` statement. -/
def Else.words : Else → List TokenKind
  | .none => []
  | .elseIf i c b e =>
    [.keyword .else] ++ ([.keyword .if] ++ (optStmtWords i ++ c.words) ++ b.words ++ e.words)
  | .block b => [.keyword .else] ++ b.words
termination_by structural e => e

/-- The words of clauses. -/
def clauseWords : List Clause → List TokenKind
  | [] => []
  | ⟨h, b, _⟩ :: cs => (h.words ++ [.punct .colon] ++ stmtWords b) ++ clauseWords cs
termination_by structural cs => cs

/-- The words of what a clause is chosen by. -/
def ClauseHead.words : ClauseHead → List TokenKind
  | .default => [.keyword .default]
  | .values xs => [.keyword .case] ++ exprWords xs
  | .comm s => [.keyword .case] ++ s.words
termination_by structural h => h

/-- The words of a declaration. -/
def GenDecl.words : GenDecl → List TokenKind
  | ⟨k, ss, _⟩ => [.keyword k.keyword] ++ specWords ss
termination_by structural d => d

/-- The words of entries of declarations. -/
def specWords : List Spec → List TokenKind
  | [] => []
  | ⟨k, _⟩ :: ss => k.words ++ specWords ss
termination_by structural ss => ss

/-- The words of an entry of a declaration. -/
def SpecKind.words : SpecKind → List TokenKind
  | .importPath n p => importNameWords n ++ [.literal .string p]
  | .value ns t [] => nameWords ns ++ optExprWords t
  | .value ns t (v :: vs) =>
    nameWords ns ++ optExprWords t ++ [.punct .assign] ++ (v.words ++ exprWords vs)
  | .type n aliased x => [.ident n] ++ (if aliased then [.punct .assign] else []) ++ x.words
termination_by structural k => k

end

/-- The words of a function. -/
def FuncDecl.words (f : FuncDecl) : List TokenKind :=
  [.keyword .func] ++ resultWords f.recv ++ [.ident f.name] ++ f.signature.words ++
    f.body.toList.flatMap Block.words

/-- The words of a top-level declaration. -/
def DeclKind.words : DeclKind → List TokenKind
  | .func f => f.words
  | .gen d => d.words

/-- The words of a top-level declaration. -/
def Decl.words (d : Decl) : List TokenKind :=
  d.kind.words

/-- The words of a source file. -/
def SourceFile.words (file : SourceFile) : List TokenKind :=
  [.keyword .package] ++ [.ident file.package] ++ file.decls.flatMap Decl.words

attribute [grind =] nameWords tagWords importNameWords Expr.words optExprWords exprWords
  elementWords fieldWords FieldList.words FieldList.memberWords resultWords Signature.words
  Block.words stmtWords Stmt.words optStmtWords StmtKind.words Else.words clauseWords
  ClauseHead.words GenDecl.words specWords SpecKind.words FuncDecl.words Decl.words

@[grind =]
theorem maxWords_eq (x : Option Expr) :
    maxWords x = (if x.isSome then [.punct .colon] else []) ++ optExprWords x := by
  cases x <;> rfl

@[grind =]
theorem Expr.words_typeAssert (x : Expr) (t : Option Expr) :
    (Expr.typeAssert x t).words =
      x.words ++ [.punct .period] ++ optExprWords t ++ if t.isSome then [] else [.keyword .type] := by
  cases t <;> simp [Expr.words, optExprWords]

@[grind =]
theorem SpecKind.words_value (ns : List String) (t : Option Expr) (vs : List Expr) :
    (SpecKind.value ns t vs).words =
      nameWords ns ++ optExprWords t ++ (if vs.isEmpty then [] else [.punct .assign]) ++
        exprWords vs := by
  cases vs <;> simp [SpecKind.words, exprWords]

/-! ## Lists and optional parts -/

/-- The words of a field, of an interface if `methods` is set. -/
def Field.words (methods : Bool) (f : Field) : List TokenKind :=
  nameWords f.names ++
    (if isMethod methods f.names f.type then f.type.words.tail else f.type.words) ++
    tagWords f.tag

/-- The words of a clause. -/
def Clause.words (c : Clause) : List TokenKind :=
  c.head.words ++ [.punct .colon] ++ stmtWords c.body

theorem exprWords_eq (xs : List Expr) : exprWords xs = xs.flatMap Expr.words := by
  induction xs with
  | nil => rfl
  | cons x xs ih => rw [exprWords, ih, List.flatMap_cons]

theorem elementWords_eq (es : List Element) :
    elementWords es = es.flatMap fun e => e.expr.words := by
  induction es with
  | nil => rfl
  | cons e es ih =>
    obtain ⟨x, d⟩ := e
    rw [elementWords, ih, List.flatMap_cons]

theorem fieldWords_eq (methods : Bool) (fs : List Field) :
    fieldWords methods fs = fs.flatMap (Field.words methods) := by
  induction fs with
  | nil => rfl
  | cons f fs ih =>
    obtain ⟨ns, x, tag, d⟩ := f
    rw [fieldWords, ih, List.flatMap_cons]
    rfl

theorem stmtWords_eq (ss : List Stmt) : stmtWords ss = ss.flatMap Stmt.words := by
  induction ss with
  | nil => rfl
  | cons s ss ih => rw [stmtWords, ih, List.flatMap_cons]

theorem clauseWords_eq (cs : List Clause) : clauseWords cs = cs.flatMap Clause.words := by
  induction cs with
  | nil => rfl
  | cons c cs ih =>
    obtain ⟨h, b, d⟩ := c
    rw [clauseWords, ih, List.flatMap_cons]
    rfl

theorem specWords_eq (ss : List Spec) :
    specWords ss = ss.flatMap fun s => s.kind.words := by
  induction ss with
  | nil => rfl
  | cons s ss ih =>
    obtain ⟨k, d⟩ := s
    rw [specWords, ih, List.flatMap_cons]

end HandlerSplit
