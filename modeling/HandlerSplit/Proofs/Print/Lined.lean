import HandlerSplit.Proofs.Print.Labels
/-!
# Function bodies line by line

A statement of a body that is not kept on one line is printed on a line of its own, whether it
remembers one or not, and no empty line is printed in front of the first. So a file is printed as
one whose function bodies remember just that (`fileOutput_lined`).
-/

namespace HandlerSplit

/-- The layout of a node on a line of its own. The empty line in front of the first node is
forgotten, unless its comments stand before it. -/
def Decorations.lined (first : Bool) (d : Decorations) : Decorations :=
  { d with
    blankBefore := d.blankBefore && !(first && d.leading.isEmpty)
    newlineBefore := true }

/-- A statement on a line of its own. -/
def Stmt.lined (first : Bool) (t : Stmt) : Stmt :=
  { t with decs := t.decs.lined first }

/-- Statements on lines of their own. -/
def linedStmts : List Stmt → List Stmt
  | [] => []
  | t :: ts => t.lined true :: ts.map (·.lined false)

/-- A block whose statements have lines of their own. -/
def Block.lined (b : Block) : Block :=
  { b with stmts := linedStmts b.stmts }

/-- A function whose statements have lines of their own. -/
def FuncDecl.lined (f : FuncDecl) : FuncDecl :=
  { f with body := f.body.map Block.lined }

/-- A declaration in which the statements of a function have lines of their own. -/
def Decl.lined (d : Decl) : Decl :=
  match d.kind with
  | .func f => { d with kind := .func f.lined }
  | .gen _ => d

/-- A source file in which the statements of functions have lines of their own. -/
def SourceFile.lined (file : SourceFile) : SourceFile :=
  { file with decls := file.decls.map Decl.lined }

namespace Print

variable (style : Style)

/-! ## Statements -/

/-- The printed form of a statement on a line of its own. -/
def StmtText.lined (first : Bool) (t : StmtText) : StmtText :=
  { t with decs := t.decs.lined first }

/-- The comments around a statement have no effect on its text. -/
theorem kindText_decs (k : StmtKind) (indent : Nat) (d d' : Decorations) :
    kindText style k indent d' = { kindText style k indent d with decs := d' } := by
  cases k with
  | labeled label t =>
    rw [kindText, kindText, StmtText.labeled, StmtText.labeled]
    split <;> rfl
  | _ => rfl

/-- A statement on a line of its own is printed as it is elsewhere. -/
theorem stmtText_lined (first : Bool) (t : Stmt) (indent : Nat) :
    stmtText style (t.lined first) indent = (stmtText style t indent).lined first := by
  obtain ⟨k, d⟩ := t
  show kindText style k indent (d.lined first) =
    { kindText style k indent d with decs := (kindText style k indent d).decs.lined first }
  rw [kindText_decs style k indent d, decs_kindText]

theorem stmtTexts_eq_map (ts : List Stmt) (indent : Nat) :
    stmtTexts style ts indent = ts.map (stmtText style · indent) := by
  induction ts with
  | nil => rfl
  | cons t ts ih => rw [stmtTexts, ih, List.map_cons]

/-- Printed forms of statements on lines of their own. -/
def linedTexts : List StmtText → List StmtText
  | [] => []
  | t :: ts => t.lined true :: ts.map (·.lined false)

/-- Statements on lines of their own are printed as they are elsewhere. -/
theorem stmtTexts_linedStmts (ts : List Stmt) (indent : Nat) :
    stmtTexts style (linedStmts ts) indent = linedTexts (stmtTexts style ts indent) := by
  simp only [stmtTexts_eq_map]
  cases ts with
  | nil => rfl
  | cons t ts => simp [linedStmts, linedTexts, stmtText_lined]

/-- In front of a node on a line of its own stands what stood there before. -/
theorem leadingLines_lined (indent : Nat) (d : Decorations) {first first' : Bool}
    (h : first = true → first' = true) :
    leadingLines indent (d.lined first) first' = leadingLines indent d first' := by
  obtain ⟨blank, _, leading, _⟩ := d
  cases first with
  | false => cases blank <;> rfl
  | true =>
    rw [h rfl]
    cases blank <;> cases leading <;> rfl

theorem stmtLines_map_lined (indent : Nat) (first : Bool) (ts : List StmtText) :
    stmtLines indent first (ts.map (·.lined false)) = stmtLines indent first ts := by
  induction ts generalizing first with
  | nil => rfl
  | cons t ts ih =>
    simp only [List.map_cons, stmtLines, ih]
    rw [show (t.lined false).decs = t.decs.lined false from rfl,
      leadingLines_lined indent t.decs (absurd · Bool.false_ne_true)]
    rfl

/-- Statements that have been printed stand on lines of their own already. -/
theorem stmtLines_linedTexts (indent : Nat) (ts : List StmtText) :
    stmtLines indent true (linedTexts ts) = stmtLines indent true ts := by
  cases ts with
  | nil => rfl
  | cons t ts =>
    simp only [linedTexts, stmtLines, stmtLines_map_lined]
    rw [show (t.lined true).decs = t.decs.lined true from rfl,
      leadingLines_lined indent t.decs fun _ => rfl]
    rfl

/-! ## Functions and files -/

/-- Whether a body fits on one line does not depend on the lines its statements had. -/
theorem fitsOneLine_lined (b : Block) (header : Output) (ts : List StmtText) :
    fitsOneLine style b.lined header (linedTexts ts) = fitsOneLine style b header ts := by
  cases ts with
  | nil => rfl
  | cons t ts =>
    simp only [fitsOneLine, linedTexts, List.all_cons, List.all_map, List.length_cons,
      List.length_map, List.foldr_cons, List.foldr_map]
    rfl

/-- A body is printed as the one whose statements stand on lines of their own. -/
theorem bodyOutput_lined (b : Block) (indent : Nat) (header : Output) :
    bodyOutput style b.lined indent header (blockTexts style b.lined (indent + 1)) =
      bodyOutput style b indent header (blockTexts style b (indent + 1)) := by
  have htexts : blockTexts style b.lined (indent + 1) =
      linedTexts (blockTexts style b (indent + 1)) := by
    obtain ⟨ts, e, oneLine⟩ := b
    exact stmtTexts_linedStmts style ts (indent + 1)
  rw [htexts]
  generalize blockTexts style b (indent + 1) = ts
  have hempty : (linedTexts ts).isEmpty = ts.isEmpty := by cases ts <;> rfl
  have hjoined : (linedTexts ts).map (·.text) = ts.map (·.text) := by
    cases ts <;> simp [linedTexts, StmtText.lined]
  rw [bodyOutput, bodyOutput, fitsOneLine_lined, hempty, hjoined, blockOutput, blockOutput,
    stmtLines_linedTexts]
  rfl

/-- A declaration is printed as the one whose statements stand on lines of their own. -/
theorem declOutput_lined (d : Decl) : declOutput style d.lined = declOutput style d := by
  obtain ⟨kind, decs⟩ := d
  cases kind with
  | gen => rfl
  | func f =>
    obtain ⟨recv, name, signature, body⟩ := f
    cases body with
    | none => rfl
    | some b =>
      have hbody (header : Output) := bodyOutput_lined style b 0 header
      show _ ++ .space :: bodyOutput style b.lined 0 _ _ = _
      rw [hbody]
      rfl

theorem declLines_lined (last : Option Keyword) (ds : List Decl) :
    declLines style last (ds.map Decl.lined) = declLines style last ds := by
  induction ds generalizing last with
  | nil => rfl
  | cons d ds ih =>
    have hdecs : d.lined.decs = d.decs ∧ declKeyword d.lined = declKeyword d := by
      obtain ⟨kind, decs⟩ := d
      cases kind <;> exact ⟨rfl, rfl⟩
    simp only [List.map_cons, declLines, ih, declOutput_lined, hdecs.1, hdecs.2]

/-- A file is printed as the one in which the statements of its functions have lines of their
own. -/
theorem fileOutput_lined (file : SourceFile) :
    fileOutput style file.lined = fileOutput style file := by
  have hdecls : declLines style none file.lined.decls = declLines style none file.decls :=
    declLines_lined style none file.decls
  rw [fileOutput, hdecls]
  rfl

end Print

end HandlerSplit
