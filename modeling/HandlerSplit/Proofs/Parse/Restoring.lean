import HandlerSplit.Parse.Source
import HandlerSplit.Proofs.Parse.Context
/-!
# Phrases restore the context

No phrase of the grammar changes the context it starts in, whether it is read or rejected. A phrase
of the next level is put together from steps, which leave the context, from phrases of the level
below, and from `nested`, `bracketed` and `inHeader`, which put back what they change
(`phrases_restore`).
-/

namespace HandlerSplit.Parse

variable {α β : Type}

/-! ## Putting parsers together -/

namespace Restores

variable {p : Parser α} {k : α → Parser β}

instance pure (a : α) : Restores (Pure.pure a : Parser α) :=
  ⟨fun _ => rfl⟩

/-- One after another, parsers restore the context if each does. -/
theorem bind (hp : Restores p) (hk : ∀ a, Restores (k a)) : Restores (p >>= k) :=
  of_answers fun x => .bind (hp.answers x) fun a _ => (hk a).answers x

/-- After a step. -/
theorem after [hp : Restores p] (hk : ∀ a, Restores (k a)) : Restores (p >>= k) :=
  hp.bind hk

instance seq [Restores p] [∀ a, Restores (k a)] : Restores (p >>= k) :=
  after inferInstance

/-- Both ways of a choice restore the context. -/
@[instance] theorem ite (c : Prop) [Decidable c] {q : Parser α} [Restores p] [Restores q] :
    Restores (if c then p else q) := by
  split <;> infer_instance

instance rejectAt (s : Span) (f : Fault) : Restores (Parse.rejectAt s f : Parser α) :=
  ⟨fun _ => rfl⟩

instance reject (f : Fault) : Restores (Parse.reject f : Parser α) :=
  ⟨fun _ => rfl⟩

instance unexpected (wanted : Wanted) : Restores (Parse.unexpected wanted : Parser α) :=
  of_answers fun _ => .unexpected wanted

instance nested [hp : Restores p] : Restores (Parse.nested p) :=
  of_answers fun _ => .nested fun _ => hp.answers _

instance bracketed [hp : Restores p] : Restores (Parse.bracketed p) :=
  of_answers fun _ => .bracketed (hp.answers _)

instance inHeader [hp : Restores p] : Restores (Parse.inHeader p) :=
  of_answers fun _ => .inHeader (hp.answers _)

/-- A loop restores the context if its turn does. -/
theorem entries {turn : Parser (Turn α)} (h : Restores turn) (n : Nat) :
    Restores (Parse.entries turn n) :=
  of_answers fun x => (AnswersIn.entries (P := fun _ => True) ((h.answers x).weaken fun t _ => by
    cases t <;> trivial) n).weaken fun _ _ => trivial

/-- What grows in turns restores the context if each turn does. -/
theorem growing {grow : α → Parser (Option α)} (h : ∀ a, Restores (grow a)) (n : Nat) (a : α) :
    Restores (Parse.growing grow n a) :=
  of_answers fun x => .growing (P := fun _ => True)
    (fun a _ => ((h a).answers x).weaken fun _ _ _ _ => trivial) n trivial

end Restores

/-! ## Levels of the grammar -/

/-- A level of the grammar whose phrases restore the context. -/
class Grammar.Restoring (g : Grammar) : Prop where
  binary (strength : Nat) : Restores (g.binary strength)
  unary : Restores g.unary
  elementValue : Restores g.elementValue
  type : Restores g.type
  block : Restores g.block
  stmt : Restores g.stmt
  ifThen : Restores g.ifThen

attribute [instance] Grammar.Restoring.binary Grammar.Restoring.unary
  Grammar.Restoring.elementValue Grammar.Restoring.type Grammar.Restoring.block
  Grammar.Restoring.stmt Grammar.Restoring.ifThen

namespace Restores

variable (g : Grammar)

/-! ## Lists -/

instance afterCommas {item : Parser α} [Restores item] : Restores (g.afterCommas item) :=
  entries seq _

instance commaSeparated {item : Parser α} [Restores item] : Restores (g.commaSeparated item) :=
  seq

instance idents : Restores g.idents :=
  commaSeparated g

variable [hg : g.Restoring]

instance expr : Restores g.expr :=
  hg.binary 1

instance exprs : Restores g.exprs :=
  commaSeparated g

/-! ## Types -/

omit hg in
instance chanDir : Restores Parse.chanDir :=
  seq

instance paramType : Restores g.paramType :=
  seq

/-- An entry of a parameter list is a name, a type, or both. -/
@[instance] theorem paramItem (decs : Decorations) : Restores (g.paramItem decs) := by
  refine after fun kind => ?_
  split
  · refine after fun _ => after fun kind => ?_
    split <;> infer_instance
  · infer_instance

@[instance] theorem paramTurn (opening : Span) : Restores (g.paramTurn opening) := by
  refine after fun kind => ?_
  split <;> infer_instance

/-- Parameters, grouped or rejected. -/
@[instance] theorem params : Restores g.params := by
  refine after fun t => after fun _ => after fun comment => bind (entries (paramTurn g _) _)
    fun items => after fun b => after fun _ => ?_
  split <;> infer_instance

instance results : Restores g.results :=
  seq

instance signature : Restores g.signature :=
  seq

omit hg in
/-- A block of fields is put together from its braces and its entries. -/
theorem fieldBlock (phrase : Opened) {entry : Parser Field} (h : Restores entry) :
    Restores (g.fieldBlock phrase entry) := by
  refine after fun t => after fun _ => after fun comment => bind (entries (after fun kind => ?_) _)
    fun fields => inferInstance
  split <;> infer_instance

/-- A field without a name is an embedded type. -/
@[instance] theorem structField : Restores g.structField := by
  refine after fun kind => ?_
  split
  · refine after fun _ => after fun kind => ?_
    split <;> infer_instance
  · infer_instance

@[instance] theorem taggedField : Restores g.taggedField := by
  refine after fun f => after fun kind => ?_
  split <;> infer_instance

/-- A name behind which no parenthesis opens is an embedded type. -/
@[instance] theorem interfaceEntry : Restores g.interfaceEntry := by
  refine after fun name => after fun kind => ?_
  split <;> infer_instance

/-- What stands between the brackets of an array type is bracketed. -/
@[instance] theorem arrayType : Restores g.arrayType := by
  refine after fun _ => bind (after fun kind => ?_) fun len => inferInstance
  split <;> infer_instance

instance mapType : Restores g.mapType :=
  seq

/-- The forms of types, told apart by their first token. -/
@[instance] theorem typeInner : Restores g.typeInner := by
  refine after fun kind => ?_
  split
  iterate 3 infer_instance
  · exact after fun _ => bind (fieldBlock g _ (taggedField g)) fun _ => inferInstance
  · exact after fun _ => bind (fieldBlock g _ (interfaceEntry g)) fun _ => inferInstance
  iterate 6 infer_instance

instance nestedType : Restores g.nestedType :=
  nested

/-! ## Expressions -/

omit hg in
instance elementTurn (decs : Decorations) (make : Decorations → α) :
    Restores (Grammar.elementTurn decs make) :=
  seq

/-- Arguments up to the closing parenthesis. -/
@[instance] theorem callArgs (opening : Span) : Restores (g.callArgs opening) := by
  refine after fun comment => bind (entries (after fun kind => ?_) _) fun args => inferInstance
  split <;> infer_instance

instance call (fn : Expr) : Restores (g.call fn) :=
  seq

instance element : Restores g.element :=
  seq

/-- Elements up to the closing brace. -/
@[instance] theorem elements (opening : Span) : Restores (g.elements opening) := by
  refine after fun comment => bind (entries (after fun kind => ?_) _) fun args => inferInstance
  split <;> infer_instance

instance composite (type : Option Expr) : Restores (g.composite type) :=
  seq

instance elementValueHere : Restores g.elementValueHere :=
  seq

@[instance] theorem bound : Restores g.bound := by
  refine after fun kind => ?_
  split <;> infer_instance

/-- The bounds of an index or slice, between colons. -/
@[instance] theorem bounds : Restores g.bounds := by
  refine after fun low => after fun colon => ?_
  split <;> infer_instance

/-- What stands between the brackets of an index is bracketed. -/
@[instance] theorem indexOrSlice (x : Expr) : Restores (g.indexOrSlice x) := by
  refine after fun _ => after fun b => after fun _ => ?_
  split
  · split <;> infer_instance
  · infer_instance

@[instance] theorem selectorOrAssertion (x : Expr) : Restores (g.selectorOrAssertion x) := by
  refine after fun kind => ?_
  split <;> infer_instance

/-- The forms of operands, told apart by their first token. -/
@[instance] theorem operand : Restores g.operand := by
  refine after fun kind => ?_
  split <;> infer_instance

/-- What follows an operand, a brace only where the context lets one open a literal. -/
@[instance] theorem postfixed (x : Expr) : Restores (g.postfixed x) := by
  refine after fun kind => ?_
  split <;> infer_instance

instance primary : Restores g.primary :=
  after fun _ => growing (postfixed g) _ _

/-- A unary operator with its operand, or an operand. -/
@[instance] theorem prefixed : Restores g.prefixed := by
  refine after fun kind => ?_
  split
  · infer_instance
  · infer_instance
  · split <;> infer_instance

instance nestedUnary : Restores g.nestedUnary :=
  nested

/-- An operator that is strong enough, with its right operand. -/
@[instance] theorem extended (strength : Nat) (x : Expr) : Restores (g.extended strength x) := by
  refine after fun kind => ?_
  split <;> infer_instance

instance binaryFrom (strength : Nat) : Restores (g.binaryFrom strength) :=
  after fun _ => growing (extended g strength) _ _

/-! ## Declarations -/

omit hg in
@[instance] theorem importName : Restores Grammar.importName := by
  refine after fun kind => ?_
  split <;> infer_instance

omit hg in
@[instance] theorem importSpec : Restores Grammar.importSpec := by
  refine after fun name => after fun kind => ?_
  split <;> infer_instance

@[instance] theorem valueSpec : Restores g.valueSpec := by
  refine after fun names => bind (after fun kind => ?_) fun type => inferInstance
  split <;> infer_instance

instance typeSpec : Restores g.typeSpec :=
  seq

instance spec (keyword : GenKeyword) : Restores (g.spec keyword) := by
  cases keyword <;> unfold Grammar.spec <;> infer_instance

/-- A group of declarations in parentheses. -/
@[instance] theorem specGroup (keyword : GenKeyword) : Restores (g.specGroup keyword) := by
  refine after fun t => after fun _ => after fun comment => bind (entries (after fun kind => ?_) _)
    fun specs => inferInstance
  split <;> infer_instance

@[instance] theorem genDecl : Restores g.genDecl := by
  refine after fun kind => ?_
  split <;> infer_instance

/-! ## Simple statements -/

/-- What a label stands before is a statement, or nothing. -/
@[instance] theorem labeled (label : String) : Restores (g.labeled label) := by
  refine after fun kind => ?_
  split <;> infer_instance

instance assignment (rangeOk : Bool) (lhs : List Expr) (op : AssignOp) :
    Restores (g.assignment rangeOk lhs op) :=
  seq

@[instance] theorem exprStmt (x : Expr) : Restores (g.exprStmt x) := by
  refine after fun kind => ?_
  split <;> infer_instance

/-- How a statement goes on behind its first expression. -/
@[instance] theorem afterExpr (labelOk : Bool) (x : Expr) : Restores (g.afterExpr labelOk x) := by
  refine after fun colon => ?_
  split
  · split <;> infer_instance
  · infer_instance

@[instance] theorem exprsStmt (rangeOk labelOk : Bool) : Restores (g.exprsStmt rangeOk labelOk) := by
  refine after fun lhs => after fun kind => ?_
  split <;> infer_instance

instance simple (rangeOk labelOk : Bool) : Restores (g.simple rangeOk labelOk) :=
  seq

/-- A statement in a header, which may be missing. -/
@[instance] theorem headerStmt (rangeOk : Bool) : Restores (g.headerStmt rangeOk) := by
  refine after fun kind => ?_
  split <;> infer_instance

omit hg in
instance toStmt (s : Simple) : Restores s.toStmt := by
  cases s <;> unfold Simple.toStmt <;> infer_instance

omit hg in
instance clauseStmt (first : Option Simple) : Restores (Grammar.clauseStmt first) := by
  cases first <;> unfold Grammar.clauseStmt <;> infer_instance

/-! ## Blocks -/

omit hg in
instance stmtEnd (kind : StmtKind) (decs : Decorations) : Restores (Grammar.stmtEnd kind decs) :=
  seq

/-- Statements up to the brace or the next clause. -/
@[instance] theorem stmts : Restores g.stmts := by
  refine entries (after fun kind => ?_) _
  split
  · infer_instance
  · split
    · infer_instance
    · refine after fun decs => after fun kind => after fun next => ?_
      split <;> infer_instance

/-- A block is put together from its braces and its statements. -/
@[instance] theorem blockInner : Restores g.blockInner := by
  refine after fun t => after fun _ => after fun comment => after fun ss => after fun kind => ?_
  split <;> infer_instance

instance nestedBlock : Restores g.nestedBlock :=
  nested

/-! ## Control statements -/

/-- The header of an `if`, with its condition. -/
@[instance] theorem ifHeader : Restores g.ifHeader := by
  refine after fun brace => ?_
  split
  · infer_instance
  · refine after fun first => after fun semicolon => ?_
    split
    · infer_instance
    · split <;> infer_instance

/-- Behind an `else` stands an `if` or a block. -/
@[instance] theorem otherwise : Restores g.otherwise := by
  refine after fun word => ?_
  split
  · refine after fun _ => after fun kind => ?_
    split <;> infer_instance
  · infer_instance

instance ifThenHere : Restores g.ifThenHere :=
  seq

instance loopClauses (first : Option Simple) : Restores (g.loopClauses first) :=
  seq

/-- The header of a loop: a range clause, or clauses between semicolons. -/
@[instance] theorem loopHeader : Restores g.loopHeader := by
  refine after fun first => ?_
  split
  · infer_instance
  · refine after fun semicolon => ?_
    split
    · infer_instance
    · split <;> infer_instance

@[instance] theorem loop : Restores g.loop := by
  refine after fun _ => after fun header => after fun body => ?_
  split <;> infer_instance

/-- Clauses in braces, from the way their heads are read. -/
theorem clauses (phrase : Opened) {head : Parser ClauseHead} (h : Restores head) :
    Restores (g.clauses phrase head) := by
  refine after fun t => after fun _ => after fun comment => bind (entries (after fun kind => ?_) _)
    fun cs => inferInstance
  split
  · infer_instance
  · refine after fun decs => bind ?_ fun head => inferInstance
    split <;> infer_instance

/-- The statement of a switch and its tag. -/
@[instance] theorem switchHeader : Restores g.switchHeader := by
  refine after fun brace => ?_
  split
  · infer_instance
  · refine after fun first => after fun semicolon => ?_
    split <;> infer_instance

@[instance] theorem switch : Restores g.switch := by
  refine after fun _ => after fun header => bind (clauses g _ inferInstance) fun r => ?_
  obtain ⟨init, _ | guard⟩ := header
  · exact pure _
  · dsimp only
    split
    · infer_instance
    · split <;> infer_instance

instance select : Restores g.select :=
  after fun _ => bind (clauses g _ inferInstance) fun _ => inferInstance

omit hg in
@[instance] theorem branchLabel : Restores Grammar.branchLabel := by
  refine after fun kind => ?_
  split <;> infer_instance

omit hg in
instance branch (kind : BranchKind) : Restores (Grammar.branch kind) :=
  seq

/-- The forms of statements, told apart by their first token. -/
@[instance] theorem stmtHere : Restores g.stmtHere := by
  refine after fun kind => ?_
  split
  iterate 3 infer_instance
  · refine after fun _ => after fun kind => ?_
    split <;> infer_instance
  iterate 11 infer_instance
  · refine after fun s => ?_
    split <;> infer_instance

/-! ## Source files -/

instance funcDecl : Restores g.funcDecl :=
  seq

/-- A function, or a declaration with its keyword. -/
@[instance] theorem declKind : Restores g.declKind := by
  refine after fun kind => ?_
  split <;> infer_instance

omit hg in
instance declEnd (kind : DeclKind) (decs : Decorations) : Restores (Grammar.declEnd kind decs) :=
  seq

@[instance] theorem decls : Restores g.decls := by
  refine entries (after fun kind => ?_) _
  split
  · infer_instance
  · split
    · infer_instance
    · refine after fun decs => after fun kind => after fun eof => ?_
      split <;> infer_instance

instance sourceFile : Restores g.sourceFile :=
  seq

omit hg in
instance alone {phrase : Parser α} [Restores phrase] : Restores (Parse.alone phrase) :=
  seq

end Restores

/-! ## The levels -/

namespace Grammar

instance restoring_bottom (budget : Nat) : (bottom budget).Restoring where
  binary _ := .reject _
  unary := .reject _
  elementValue := .reject _
  type := .reject _
  block := .reject _
  stmt := .reject _
  ifThen := .reject _

instance restoring_next (g : Grammar) [g.Restoring] : g.next.Restoring where
  binary := .binaryFrom g
  unary := .nestedUnary g
  elementValue := .elementValueHere g
  type := .nestedType g
  block := .nestedBlock g
  stmt := .stmtHere g
  ifThen := .ifThenHere g

/-- Every level of the grammar restores the context. -/
theorem restoring_level (budget n : Nat) : (level budget n).Restoring := by
  induction n with
  | zero => exact restoring_bottom budget
  | succ n ih => exact restoring_next _

/-- The phrases of a level of the grammar. -/
inductive IsPhrase (g : Grammar) : {α : Type} → Parser α → Prop
  | afterCommas {α : Type} {item : Parser α} (h : IsPhrase g item) : IsPhrase g (g.afterCommas item)
  | ident : IsPhrase g expectIdent
  | idents : IsPhrase g g.idents
  | expr : IsPhrase g g.expr
  | exprs : IsPhrase g g.exprs
  | chanDir : IsPhrase g chanDir
  | paramType : IsPhrase g g.paramType
  | paramItem (decs : Decorations) : IsPhrase g (g.paramItem decs)
  | paramTurn (opening : Span) : IsPhrase g (g.paramTurn opening)
  | params : IsPhrase g g.params
  | results : IsPhrase g g.results
  | signature : IsPhrase g g.signature
  | fieldBlock (phrase : Opened) {entry : Parser Field} (h : IsPhrase g entry) :
    IsPhrase g (g.fieldBlock phrase entry)
  | structField : IsPhrase g g.structField
  | taggedField : IsPhrase g g.taggedField
  | interfaceEntry : IsPhrase g g.interfaceEntry
  | arrayType : IsPhrase g g.arrayType
  | mapType : IsPhrase g g.mapType
  | typeInner : IsPhrase g g.typeInner
  | nestedType : IsPhrase g g.nestedType
  | callArgs (opening : Span) : IsPhrase g (g.callArgs opening)
  | call (fn : Expr) : IsPhrase g (g.call fn)
  | element : IsPhrase g g.element
  | elements (opening : Span) : IsPhrase g (g.elements opening)
  | composite (type : Option Expr) : IsPhrase g (g.composite type)
  | elementValueHere : IsPhrase g g.elementValueHere
  | bound : IsPhrase g g.bound
  | bounds : IsPhrase g g.bounds
  | indexOrSlice (x : Expr) : IsPhrase g (g.indexOrSlice x)
  | selectorOrAssertion (x : Expr) : IsPhrase g (g.selectorOrAssertion x)
  | operand : IsPhrase g g.operand
  | postfixed (x : Expr) : IsPhrase g (g.postfixed x)
  | primary : IsPhrase g g.primary
  | prefixed : IsPhrase g g.prefixed
  | nestedUnary : IsPhrase g g.nestedUnary
  | extended (strength : Nat) (x : Expr) : IsPhrase g (g.extended strength x)
  | binaryFrom (strength : Nat) : IsPhrase g (g.binaryFrom strength)
  | importName : IsPhrase g importName
  | importSpec : IsPhrase g importSpec
  | valueSpec : IsPhrase g g.valueSpec
  | typeSpec : IsPhrase g g.typeSpec
  | spec (keyword : GenKeyword) : IsPhrase g (g.spec keyword)
  | specGroup (keyword : GenKeyword) : IsPhrase g (g.specGroup keyword)
  | genDecl : IsPhrase g g.genDecl
  | labeled (label : String) : IsPhrase g (g.labeled label)
  | assignment (rangeOk : Bool) (lhs : List Expr) (op : AssignOp) :
    IsPhrase g (g.assignment rangeOk lhs op)
  | exprStmt (x : Expr) : IsPhrase g (g.exprStmt x)
  | afterExpr (labelOk : Bool) (x : Expr) : IsPhrase g (g.afterExpr labelOk x)
  | exprsStmt (rangeOk labelOk : Bool) : IsPhrase g (g.exprsStmt rangeOk labelOk)
  | simple (rangeOk labelOk : Bool) : IsPhrase g (g.simple rangeOk labelOk)
  | headerStmt (rangeOk : Bool) : IsPhrase g (g.headerStmt rangeOk)
  | clauseStmt (first : Option Simple) : IsPhrase g (clauseStmt first)
  | stmts : IsPhrase g g.stmts
  | blockInner : IsPhrase g g.blockInner
  | nestedBlock : IsPhrase g g.nestedBlock
  | ifHeader : IsPhrase g g.ifHeader
  | otherwise : IsPhrase g g.otherwise
  | ifThenHere : IsPhrase g g.ifThenHere
  | loopClauses (first : Option Simple) : IsPhrase g (g.loopClauses first)
  | loopHeader : IsPhrase g g.loopHeader
  | loop : IsPhrase g g.loop
  | valuesHead : IsPhrase g (do return ClauseHead.values (← g.exprs))
  | commHead : IsPhrase g (do return ClauseHead.comm (← (← g.simple false false).toStmt))
  | clauses (phrase : Opened) {head : Parser ClauseHead} (h : IsPhrase g head) :
    IsPhrase g (g.clauses phrase head)
  | switchHeader : IsPhrase g g.switchHeader
  | switch : IsPhrase g g.switch
  | select : IsPhrase g g.select
  | branchLabel : IsPhrase g branchLabel
  | branch (kind : BranchKind) : IsPhrase g (branch kind)
  | stmtHere : IsPhrase g g.stmtHere
  | funcDecl : IsPhrase g g.funcDecl
  | declKind : IsPhrase g g.declKind
  | decls : IsPhrase g g.decls
  | sourceFile : IsPhrase g g.sourceFile
  | alone {α : Type} {phrase : Parser α} (h : IsPhrase g phrase) : IsPhrase g (alone phrase)

/-- A phrase of a level that restores the context restores it. -/
theorem IsPhrase.restores {g : Grammar} [g.Restoring] {p : Parser α} (h : g.IsPhrase p) :
    Restores p := by
  induction h with
  | afterCommas _ ih => exact .afterCommas g
  | fieldBlock phrase _ ih => exact .fieldBlock g phrase ih
  | clauses phrase _ ih => exact .clauses g phrase ih
  | alone _ ih => exact .alone
  | _ => infer_instance

end Grammar

end HandlerSplit.Parse

namespace HandlerSplit

/-- Wherever a phrase of the grammar starts, and whether it is read or rejected, nesting and
brackets are afterwards what they were before. -/
theorem phrases_restore (budget n : Nat) {α : Type} {p : Parse.Parser α}
    (h : (Parse.Grammar.level budget n).IsPhrase p) (c : Parse.Cursor) :
    (p.run c).2.depth = c.depth ∧ (p.run c).2.exprLevel = c.exprLevel := by
  have hlevel := Parse.Grammar.restoring_level budget n
  exact Parse.Context.mk.inj (h.restores.context_run c)

/-- A text with seven phrases around it, inside two brackets. -/
def withinPhrases (text : String) : Parse.Cursor :=
  { Parse.Cursor.start (tokenize text.toList) with depth := 7, exprLevel := 2 }

/-- A loop that ends inside its header, within a call, an index and a composite, is rejected there ;
a loop with a body is read. Both restore the seven phrases and the two brackets. -/
theorem phrases_restore_loop :
    let loop := (Parse.Grammar.level 9 9).loop
    let unfinished := loop.run (withinPhrases "for i := range f(x[a\x7b")
    let finished := loop.run (withinPhrases "for range f(T\x7b\x7d) \x7b g() \x7d")
    (unfinished.1.toOption.isNone ∧ unfinished.2.depth = 7 ∧ unfinished.2.exprLevel = 2) ∧
      finished.1.toOption.isSome ∧ finished.2.depth = 7 ∧ finished.2.exprLevel = 2 := by
  have hrejected := phrases_restore 9 9 .loop (withinPhrases "for i := range f(x[a\x7b")
  have hread := phrases_restore 9 9 .loop (withinPhrases "for range f(T\x7b\x7d) \x7b g() \x7d")
  refine ⟨⟨?_, hrejected⟩, ?_, hread⟩
  · decide +kernel
  · decide +kernel

end HandlerSplit
