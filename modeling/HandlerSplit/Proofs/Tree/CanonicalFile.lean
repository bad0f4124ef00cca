import HandlerSplit.Proofs.Tree.Canonical
import HandlerSplit.Proofs.Tree.Scripts
import HandlerSplit.Tree.Build
/-!
# Canonical files

A file is canonical if it has no comments and holds functions only, whose statements stand line by
line in their bodies. What it remembers of its layout is where empty lines are. A header holds
simple statements and expressions whose braces cannot be taken for the body.
-/

namespace HandlerSplit

/-! ## Nesting -/

/-- The greatest nesting of expressions. -/
def exprsNesting : List Expr → Nat
  | [] => 0
  | x :: xs => max x.nesting (exprsNesting xs)

theorem nesting_le_of_mem_exprs {xs : List Expr} {x : Expr} (h : x ∈ xs) :
    x.nesting ≤ exprsNesting xs := by
  induction xs with
  | nil => cases h
  | cons y xs ih =>
    rcases List.mem_cons.mp h with rfl | h
    · exact Nat.le_max_left _ _
    · exact Nat.le_trans (ih h) (Nat.le_max_right _ _)

/-- The nesting of a statement of a header. -/
def clauseNesting (s : Option Stmt) : Nat :=
  s.elim 0 fun s => exprsNesting s.kind.exprs

/-- The nesting of what a clause is chosen by. -/
def ClauseHead.nesting : ClauseHead → Nat
  | .values xs => exprsNesting xs
  | _ => 0

mutual

/-- How many levels the parser goes down to read a block. -/
def Block.nesting : Block → Nat
  | ⟨ss, _, _⟩ => stmtsNesting ss + 1
termination_by structural b => b

/-- The greatest nesting of statements. -/
def stmtsNesting : List Stmt → Nat
  | [] => 0
  | s :: ss => max s.nesting (stmtsNesting ss)
termination_by structural ss => ss

/-- The nesting of a statement. -/
def Stmt.nesting : Stmt → Nat
  | ⟨k, _⟩ => k.nesting
termination_by structural s => s

/-- The nesting of what a statement does. Bodies are one level deeper than the statement, and what
follows `else` or a label is not. A label is read as an expression. -/
def StmtKind.nesting : StmtKind → Nat
  | .block b => b.nesting
  | .ifThen i c b e => max (max (clauseNesting i) c.nesting) (max b.nesting e.nesting)
  | .forLoop i c p b => max (max (clauseNesting i) (max (optNesting c) (clauseNesting p))) b.nesting
  | .rangeLoop k v _ x b => max (max (optNesting k) (max (optNesting v) x.nesting)) b.nesting
  | .switch i t cs _ => max (max (clauseNesting i) (optNesting t)) (clausesNesting cs)
  | .labeled _ ⟨k, _⟩ => max 1 k.nesting
  | k => exprsNesting k.exprs
termination_by structural k => k

/-- The nesting of what follows the body of an `if` statement. -/
def Else.nesting : Else → Nat
  | .none => 0
  | .elseIf i c b e => max (max (clauseNesting i) c.nesting) (max b.nesting e.nesting)
  | .block b => b.nesting
termination_by structural e => e

/-- The greatest nesting of clauses, which are on the level of their statement. -/
def clausesNesting : List Clause → Nat
  | [] => 0
  | ⟨h, b, _⟩ :: cs => max (max h.nesting (stmtsNesting b)) (clausesNesting cs)
termination_by structural cs => cs

end

theorem Else.nesting_eq (e : Else) : e.nesting = e.branch?.elim 0 StmtKind.nesting := by
  cases e <;> rfl

theorem nesting_le_of_mem_stmts {ss : List Stmt} {s : Stmt} (h : s ∈ ss) :
    s.kind.nesting ≤ stmtsNesting ss := by
  induction ss with
  | nil => cases h
  | cons s' ss ih =>
    obtain ⟨k, d⟩ := s'
    rcases List.mem_cons.mp h with rfl | h
    · exact Nat.le_max_left _ _
    · exact Nat.le_trans (ih h) (Nat.le_max_right _ _)

theorem nesting_le_of_mem_clauses {cs : List Clause} {c : Clause} (h : c ∈ cs) :
    c.head.nesting ≤ clausesNesting cs ∧ stmtsNesting c.body ≤ clausesNesting cs := by
  induction cs with
  | nil => cases h
  | cons c' cs ih =>
    obtain ⟨head, body, d⟩ := c'
    rw [clausesNesting]
    rcases List.mem_cons.mp h with rfl | h
    · show head.nesting ≤ _ ∧ stmtsNesting body ≤ _
      omega
    · have := ih h
      omega

/-- How many levels the parser goes down to read a function. -/
def FuncDecl.nesting (f : FuncDecl) : Nat :=
  max (max (f.recv.elim 0 FieldList.nesting) f.signature.nesting) (f.body.elim 0 Block.nesting)

/-- The nesting of a declaration. -/
def Decl.nesting (d : Decl) : Nat :=
  d.func?.elim 0 FuncDecl.nesting

/-- The greatest nesting of the declarations of a file. -/
def SourceFile.nesting (file : SourceFile) : Nat :=
  (file.decls.map Decl.nesting).foldr max 0

theorem SourceFile.nesting_le_of_mem {file : SourceFile} {d : Decl} (h : d ∈ file.decls) :
    d.nesting ≤ file.nesting := by
  rw [SourceFile.nesting]
  generalize file.decls = ds at h
  induction ds with
  | nil => cases h
  | cons d' ds ih =>
    rcases List.mem_cons.mp h with rfl | h
    · exact Nat.le_max_left _ _
    · exact Nat.le_trans (ih h) (Nat.le_max_right _ _)

/-! ## Layout -/

/-- The layout of a node on a line of its own, behind an empty line or not. -/
def Decorations.onLine (isBlank : Bool) : Decorations :=
  { blankBefore := isBlank, newlineBefore := true }

/-- The layout of nodes on lines of their own. No empty line stands before the first. -/
structure OwnLines (ds : List Decorations) : Prop where
  lines : ∀ d ∈ ds, d = .onLine d.blankBefore
  first : ∀ d ∈ ds.head?, d.blankBefore = false

/-! ## Statements without a body -/

/-- Whether an operator stands in assignments. Comparisons and logical operators do not. -/
def AssignOp.isGrammatical : AssignOp → Bool
  | .op o => 4 ≤ o.precedence
  | _ => true

/-- Whether a branch statement may have the given label, or none. -/
def BranchKind.allows : BranchKind → Option String → Bool
  | .goto, label => label.isSome
  | .fallthrough, label => label.isNone
  | _, _ => true

/-- The statements that may stand in a header. -/
inductive StmtKind.Simple : StmtKind → Prop
  | expr (x : Expr) : Simple (.expr x)
  | assign {lhs op rhs} (hlhs : lhs ≠ []) (hop : AssignOp.isGrammatical op = true) (hrhs : rhs ≠ []) :
    Simple (.assign lhs op rhs)
  | incDec (x : Expr) (up : Bool) : Simple (.incDec x up)
  | send (chan value : Expr) : Simple (.send chan value)

theorem startsExpr_simple {kind : StmtKind} (hkind : kind.Simple)
    (h : ∀ x ∈ kind.exprs, ∃ k ks, x.spelling = k :: ks ∧ startsExpr k = true) :
    ∃ k ks, kind.spelling = k :: ks ∧ startsExpr k = true := by
  cases hkind with
  | expr x => exact h x (List.mem_singleton_self x)
  | @assign lhs op rhs hlhs _ _ =>
    obtain ⟨x, xs, rfl⟩ := List.exists_cons_of_ne_nil hlhs
    have hx := h x List.mem_cons_self
    refine starts_append (starts_append ?_ _) _
    cases xs with
    | nil => exact starts_append hx []
    | cons y ys => exact starts_append hx _
  | incDec x up => exact starts_append (h x (List.mem_singleton_self x)) _
  | send chan value => exact starts_append (starts_append (h chan List.mem_cons_self) _) _

/-- A statement without a body stands on one line. -/
theorem script_of_simple {kind : StmtKind} (hkind : kind.Simple) :
    kind.script = Script.line kind.spelling := by
  cases hkind <;> rfl

/-- A simple statement is nested as its expressions are. -/
theorem StmtKind.Simple.nesting_eq {kind : StmtKind} (h : kind.Simple) :
    kind.nesting = exprsNesting kind.exprs := by
  cases h <;> rfl

/-- An expression in a header: the brace of a composite literal stands in brackets. -/
structure Expr.CanonicalHeader (x : Expr) : Prop where
  canonical : x.Canonical
  bare : Print.hasBareComposite x = false

/-- The condition of a header, the tag of a switch or the range of a loop. -/
structure Expr.CanonicalCondition (x : Expr) : Prop extends x.CanonicalHeader where
  paren : Print.isParen x = false

/-- A statement of a header. -/
structure Stmt.CanonicalHeader (s : Stmt) : Prop where
  decs : s.decs = .plain
  simple : s.kind.Simple
  exprs : ∀ x ∈ s.kind.exprs, x.CanonicalHeader

/-- What a clause of a switch on values is chosen by. -/
inductive ClauseHead.Canonical : ClauseHead → Prop
  | default : Canonical .default
  | values {xs} (hne : xs ≠ []) (hxs : ∀ x ∈ xs, Expr.Canonical x) : Canonical (.values xs)

/-! ## Statements -/

/-- A canonical statement. -/
inductive StmtKind.Canonical : StmtKind → Prop
  | simple {kind} (hkind : Simple kind) (hexprs : ∀ x ∈ kind.exprs, x.Canonical) : Canonical kind
  | returns {values} (hvalues : ∀ x ∈ values, Expr.Canonical x) : Canonical (.returns values)
  | branch {kind label} (hallows : BranchKind.allows kind label = true)
    (hlabel : ∀ l ∈ label, isName l = true) : Canonical (.branch kind label)
  | go {call} (hcall : Expr.Canonical call) : Canonical (.go call)
  | defer {call} (hcall : Expr.Canonical call) : Canonical (.defer call)
  | block {ss} (hlines : OwnLines (ss.map Stmt.decs)) (hss : ∀ s ∈ ss, Canonical s.kind) :
    Canonical (.block (.of ss))
  | ifThen {init cond ss otherwise} (hinit : ∀ s ∈ init, Stmt.CanonicalHeader s)
    (hcond : Expr.CanonicalCondition cond) (hlines : OwnLines (ss.map Stmt.decs))
    (hss : ∀ s ∈ ss, Canonical s.kind) (helse : ∀ k ∈ Else.branch? otherwise, Canonical k) :
    Canonical (.ifThen init cond (.of ss) otherwise)
  | forLoop {init cond post ss} (hinit : ∀ s ∈ init, Stmt.CanonicalHeader s)
    (hcond : ∀ x ∈ cond, Expr.CanonicalCondition x) (hpost : ∀ s ∈ post, Stmt.CanonicalHeader s)
    (hlines : OwnLines (ss.map Stmt.decs)) (hss : ∀ s ∈ ss, Canonical s.kind) :
    Canonical (.forLoop init cond post (.of ss))
  | rangeLoop {key value define x ss} (hkey : ∀ y ∈ key, Expr.CanonicalHeader y)
    (hvalue : ∀ y ∈ value, Expr.CanonicalHeader y) (hvars : value.isSome = true → key.isSome = true)
    (hdefine : define = true → key.isSome = true) (hx : Expr.CanonicalCondition x)
    (hlines : OwnLines (ss.map Stmt.decs)) (hss : ∀ s ∈ ss, Canonical s.kind) :
    Canonical (.rangeLoop key value define x (.of ss))
  | switch {init tag cs} (hinit : ∀ s ∈ init, Stmt.CanonicalHeader s)
    (htag : ∀ x ∈ tag, Expr.CanonicalCondition x) (hclauses : OwnLines (cs.map Clause.decs))
    (hheads : ∀ c ∈ cs, ClauseHead.Canonical c.head)
    (hlines : ∀ c ∈ cs, OwnLines (c.body.map Stmt.decs))
    (hss : ∀ c ∈ cs, ∀ s ∈ c.body, Canonical s.kind) :
    Canonical (.switch init tag cs .multiLine)
  | labeled {label s} (hlabel : isName label = true) (hdecs : Stmt.decs s = .ownLine)
    (hs : Canonical s.kind) : Canonical (.labeled label s)

/-! ## Files -/

/-- The receiver of a method, under one name. -/
structure FieldList.CanonicalReceiver (recv : FieldList) : Prop extends recv.Uniform where
  field : ∃ f, recv.fields = [f] ∧ f.names ≠ [] ∧ f.type.CanonicalType

/-- A canonical function. -/
structure FuncDecl.Canonical (f : FuncDecl) : Prop where
  recv : ∀ recv ∈ f.recv, recv.CanonicalReceiver
  name : isName f.name = true
  shaped : f.signature.Shaped
  types : ∀ t ∈ f.signature.types, t.CanonicalType
  body : ∃ b, f.body = some b ∧ (StmtKind.block b).Canonical

/-- A canonical file. -/
structure SourceFile.Canonical (file : SourceFile) : Prop where
  package : isName file.package = true
  packageDecs : file.packageDecs = .ownLine
  decls : ∀ d ∈ file.decls, ∃ f, d = .appended f ∧ f.Canonical
  trailingComments : file.trailingComments = []

end HandlerSplit
