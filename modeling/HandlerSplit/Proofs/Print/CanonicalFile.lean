import HandlerSplit.Proofs.Print.Canonical
import HandlerSplit.Proofs.Print.Labels
import HandlerSplit.Proofs.Print.LineScript
import HandlerSplit.Proofs.Print.UncommentedFile
/-!
# Printing canonical files

A canonical statement is printed with its script, whatever the indentation and the style
(`spelled_of_canonicalStmt`). So is a canonical file (`script_fileOutput`).
-/

namespace HandlerSplit.Print

variable {style : Style}

/-! ## Statements without a body -/

/-- Canonical expressions are printed with commas between them. -/
theorem spells_exprs {xs : List Expr} (h : ∀ x ∈ xs, x.Canonical) {p : Place}
    (hp : p.inHeader = false) :
    Spells (Output.commaSeparated (exprOutputs style xs p)) (separated (xs.map Expr.spelling)) := by
  have houtputs : List.Forall₂ Spells (exprOutputs style xs p) (xs.map Expr.spelling) := by
    induction xs with
    | nil => exact .nil
    | cons x xs ih =>
      obtain ⟨hx, hxs⟩ := List.forall_mem_cons.mp h
      exact .cons ((spells_of_canonical hx).inside p hp) (ih hxs)
  exact .commaSeparated houtputs

/-- An assignment operator is printed as it is spelled. -/
theorem Spells.assignOp {op : AssignOp} (hop : op.isGrammatical = true) {o : Output}
    {ks : List TokenKind} (h : Spells o ks) : Spells (.word op.spelling :: o) (op.kind :: ks) := by
  have htext : op.kind.text = op.spelling := by
    cases op <;> rfl
  rw [← htext]
  exact .word ((settled_of_assignOp hop).plain _ (List.mem_singleton_self _)) h

/-- A semicolon is printed where a header has one. -/
theorem Spells.semicolon {o : Output} {ks : List TokenKind} (h : Spells o ks) :
    Spells (.word ";" :: o) (.semicolon false :: ks) :=
  .word plain_semicolon h

/-- A statement that may stand in a header is printed with its tokens. -/
theorem spells_of_simple (style : Style) {kind : StmtKind} (hkind : kind.Simple)
    (hexprs : ∀ x ∈ kind.exprs, x.Canonical) (indent : Nat) (decs : Decorations) :
    ∃ o, kindText style kind indent decs = .plain indent o decs ∧ Spells o kind.spelling := by
  cases hkind with
  | expr x =>
    have hx := @spells_of_canonical style _ (hexprs x (List.mem_singleton_self x))
    exact ⟨_, rfl, hx.inside (.atStart indent) rfl⟩
  | @assign lhs op rhs _ hop _ =>
    obtain ⟨hlhs, hrhs⟩ := List.forall_mem_append.mp hexprs
    have hop : Spells [.space, .word op.spelling, .space] [op.kind] :=
      (Spells.assignOp hop Spells.nil.space).space
    exact ⟨_, rfl, ((spells_exprs hlhs rfl).append hop).append (spells_exprs hrhs rfl)⟩
  | incDec x up =>
    have hx := @spells_of_canonical style _ (hexprs x (List.mem_singleton_self x))
    have hmark : Spells [.word (if up then "++" else "--")] [.punct (if up then .inc else .dec)] := by
      cases up with
      | false => exact .mark .dec .nil
      | true => exact .mark .inc .nil
    exact ⟨_, rfl, (hx.inside ⟨2, indent, false⟩ rfl).append hmark⟩
  | send chan value =>
    obtain ⟨hchan, hvalue⟩ := List.forall_mem_cons.mp hexprs
    have hc := @spells_of_canonical style _ hchan
    have hv := @spells_of_canonical style _ (List.forall_mem_singleton.mp hvalue)
    have harrow : Spells [.space, .word "<-", .space] [.punct .arrow] :=
      (Spells.mark .arrow Spells.nil.space).space
    exact ⟨_, rfl, ((hc.inside (.atStart indent) rfl).append harrow).append
      (hv.inside (.atStart indent) rfl)⟩

/-! ## Headers -/

/-- A part of a header, if it is there. -/
def OptSpells : Option Output → Option (List TokenKind) → Prop :=
  Option.Rel Spells

/-- What is missing is printed as nothing. -/
theorem OptSpells.getD {o : Option Output} {ks : Option (List TokenKind)} (h : OptSpells o ks) :
    Spells (o.getD []) (ks.getD []) := by
  cases h with
  | none => exact .nil
  | some h => exact h

/-- A part with a space behind it, if it is there. -/
theorem OptSpells.spaced {o : Option Output} {ks : Option (List TokenKind)} (h : OptSpells o ks) :
    Spells ((o.map fun x => x ++ [.space]).getD []) (ks.getD []) := by
  cases h with
  | none => exact .nil
  | some h => exact h.thenSpace true

/-- What stands between the keyword of a control statement and its brace. -/
theorem Spells.header (isLoop : Bool) {init cond post : Option Output}
    {i c p : Option (List TokenKind)} (hinit : OptSpells init i) (hcond : OptSpells cond c)
    (hpost : OptSpells post p) :
    Spells (headerOutput isLoop init cond post) (headerSpelling isLoop i c p) := by
  have hsemicolon : Spells [.word ";", .space] [.semicolon false] := .semicolon Spells.nil.space
  have hclauses : Spells
      (let start : Output := .space :: init.getD [] ++ [.word ";", .space]
      if isLoop then start ++ cond.getD [] ++ [.word ";", .space] ++
        (post.map fun p => p ++ [.space]).getD []
      else start ++ (cond.map fun c => c ++ [.space]).getD [])
      (i.getD [] ++ [.semicolon false] ++ c.getD [] ++
        if isLoop then [.semicolon false] ++ p.getD [] else []) := by
    have hstart := hinit.getD.space.append hsemicolon
    cases isLoop with
    | true =>
      exact (((hstart.append hcond.getD).append hsemicolon).append hpost.spaced).cast
        (List.append_assoc _ _ _)
    | false => exact (hstart.append hcond.spaced).cast (List.append_nil _).symm
  cases hinit with
  | some => exact hclauses
  | none =>
    cases hpost with
    | some => exact hclauses
    | none =>
      cases hcond with
      | none => exact Spells.nil.space
      | some hcond => exact hcond.space.thenSpace true

/-- A statement of a header is printed as it is spelled. -/
theorem spells_clause (style : Style) {s : Option Stmt} (h : ∀ t ∈ s, t.CanonicalHeader)
    (indent : Nat) :
    OptSpells (optStmtOutput style s indent) (clauseSpelling s) := by
  cases s with
  | none => exact .none
  | some s =>
    obtain ⟨-, hsimple, hexprs⟩ := h s rfl
    obtain ⟨kind, d⟩ := s
    obtain ⟨o, ho, hspells⟩ := spells_of_simple style hsimple
      (fun x hx => (hexprs x hx).canonical) indent d
    refine .some ?_
    show Spells (kindText style kind indent d).text _
    rw [ho]
    exact hspells

/-- A condition is printed as it is spelled, since it needs no parentheses. -/
theorem spells_condition (style : Style) {x : Option Expr} (h : ∀ y ∈ x, y.CanonicalCondition)
    (indent : Nat) :
    OptSpells (optExprOutput style x (.header indent)) (x.map Expr.spelling) := by
  cases x with
  | none => exact .none
  | some x =>
    obtain ⟨⟨hx, -⟩, hparen⟩ := h x rfl
    exact .some (spells_of_canonical hx _ fun h => absurd (hparen.symm.trans h) Bool.false_ne_true)

/-- The variables of a range clause with their sign. -/
def varsOutput (style : Style) (key value : Option Expr) (define : Bool) (indent : Nat) : Output :=
  match optExprOutput style key (.atStart indent) with
  | none => []
  | some key =>
    key ++ ((optExprOutput style value (.atStart indent)).map
        fun value => [Piece.word ",", .space] ++ value).getD [] ++
      [.space, .word (if define then ":=" else "="), .space]

/-- The variables of a range clause are printed before its operator. -/
theorem spells_vars (style : Style) {key value : Option Expr} (hkey : ∀ y ∈ key, y.CanonicalHeader)
    (hvalue : ∀ y ∈ value, y.CanonicalHeader) (hvars : value.isSome = true → key.isSome = true)
    (define : Bool) (indent : Nat) :
    Spells (varsOutput style key value define indent) (varsSpelling key value define) := by
  cases key with
  | none =>
    cases value with
    | none => exact .nil
    | some => cases hvars rfl
  | some key =>
    have hk := (@spells_of_canonical style _ (hkey key rfl).canonical).inside
      (.atStart indent) rfl
    have hsign : Spells [.space, .word (if define then ":=" else "="), .space]
        (rangeOpWords true define) := by
      cases define with
      | false => exact (Spells.mark .assign Spells.nil.space).space
      | true => exact (Spells.mark .define Spells.nil.space).space
    cases value with
    | none => exact (hk.append .nil).append hsign
    | some value =>
      have hv := (@spells_of_canonical style _ (hvalue value rfl).canonical).inside
        (.atStart indent) rfl
      exact ((hk.append (.mark .comma hv.space)).append hsign).cast
        (by simp [varsSpelling])

/-- The head of a clause is printed with its colon. -/
theorem spells_head (style : Style) {head : ClauseHead} (h : head.Canonical) (indent : Nat) :
    Spells (headOutput style head indent) (head.spelling ++ [.punct .colon]) := by
  cases h with
  | default => exact .keyword .default (.mark .colon .nil)
  | values _ hxs =>
    exact .keyword .case (((spells_exprs hxs rfl).append (.mark .colon .nil)).space)

/-! ## Statements line by line -/

/-- A statement that is printed with the script `s`, inside a line and on lines of its own. -/
structure StmtText.Spelled (t : StmtText) (s : Script) : Prop where
  isEmpty : t.isEmpty = false
  text : t.text.script = s
  lines : LinesSpell t.lines (s ++ [.lineBreak])
  start : startsRow t.lines = true

namespace StmtText.Spelled

variable {indent : Nat} {decs : Decorations}

/-- A statement that is the same inside a line and on its own. -/
theorem plain {o : Output} (hstart : ∃ k s', o.script = .token k :: s')
    (htrailing : decs.trailing = none) : (StmtText.plain indent o decs).Spelled o.script := by
  have hlines : (StmtText.plain indent o decs).lines = [.ofText indent o] := by
    show [Line.ofCells indent (withComment o (decs.trailing.or none))] = _
    rw [htrailing]
    rfl
  refine ⟨rfl, rfl, ?_, ?_⟩
  · rw [hlines]
    exact .single indent hstart
  · rw [hlines]
    rfl

/-- A statement with the line of its label before it. -/
theorem labeled {t : StmtText} {s : Script} (h : t.Spelled s) (hdecs : t.decs.leading = [])
    {label : String} (hlabel : isName label = true)
    (htrailing : decs.trailing = none) :
    (StmtText.labeled indent label t decs).Spelled
      (Script.line [.ident label, .punct .colon] ++ .lineBreak :: s) := by
  have hhead : Spells [.word label, .word ":"] [.ident label, .punct .colon] :=
    .name hlabel (.mark .colon .nil)
  have hlines := lines_labeled indent label decs h.isEmpty
  rw [hdecs, htrailing, StmtText.trailedBy_none] at hlines
  have hrow : LinesSpell (labelLine indent label none :: t.lines)
      (Output.script [.word label, .word ":"] ++ .lineBreak :: (s ++ [.lineBreak])) :=
    .row (indent - 1) (by rw [hhead]; exact ⟨_, _, rfl⟩) h.lines
  obtain ⟨hempty, htext⟩ : (StmtText.labeled indent label t decs).isEmpty = false ∧
      (StmtText.labeled indent label t decs).text =
        [.word label, .word ":"] ++ [.newline, .tabs indent] ++ t.text := by
    rw [StmtText.labeled, h.isEmpty]
    exact ⟨rfl, rfl⟩
  refine ⟨hempty, ?_, ?_, ?_⟩
  · rw [htext, Output.script_append, Output.script_append, hhead, h.text, List.append_assoc]
    rfl
  · rw [hlines, ← hhead, List.append_assoc]
    exact hrow
  · rw [hlines]
    rfl

end StmtText.Spelled

/-- Before a node without comments there is an empty line or nothing. -/
theorem leadingLines_onLine {d : Decorations} (h : d = .onLine d.blankBefore) {first : Bool}
    (hfirst : first = true → d.blankBefore = false) (indent : Nat) :
    leadingLines indent d first = if d.blankBefore then [.blank] else [] := by
  rw [h]
  cases first with
  | false =>
    show [] ++ (if d.blankBefore && true then [Line.blank] else []) = _
    rw [Bool.and_true]
    rfl
  | true =>
    rw [hfirst rfl]
    rfl

theorem startsRow_append {ls : List Line} (h : startsRow ls = true) (ls' : List Line) :
    startsRow (ls ++ ls') = true := by
  cases ls with
  | nil => cases h
  | cons l ls =>
    cases l with
    | row => rfl
    | _ => cases h

/-- Lines without an empty line before the first. -/
structure LinesSpellFrom (first : Bool) (ls : List Line) (s : Script) : Prop where
  lines : LinesSpell ls s
  start : first = true → ls = [] ∨ startsRow ls = true

namespace LinesSpellFrom

variable {first : Bool} {ls ls' : List Line} {s s' : Script}

theorem nil : LinesSpellFrom first [] [] :=
  ⟨.nil, fun _ => .inl rfl⟩

/-- Lines behind the empty line before them, if there is one, and further lines. -/
theorem cons {isBlank : Bool} (hfirst : first = true → isBlank = false) (hls : LinesSpell ls s)
    (hstart : startsRow ls = true) (hls' : LinesSpell ls' s') :
    LinesSpellFrom first ((if isBlank then [.blank] else []) ++ ls ++ ls')
      (Script.gap isBlank ++ s ++ s') where
  lines := (hls.gap hstart isBlank).append hls'
  start hf := by
    rw [hfirst hf]
    exact .inr (startsRow_append hstart ls')

/-- Lines in braces. -/
theorem braced (h : LinesSpellFrom true ls s) (hsound : ∀ l ∈ ls, CellsSound l.cells)
    (indent : Nat) :
    (Print.braced style "\x7b" "\x7d" .multiLine indent ls).script = Script.braced s := by
  have hlines : (renderLines style.align ls).script = s :=
    script_renderLines style.align h.lines hsound (h.start rfl)
  have hopen : Output.script [.word "\x7b"] = [.token (.punct .lbrace)] := Spells.mark .lbrace .nil
  have hclose : Output.script [.tabs indent, .word "\x7d"] = [.token (.punct .rbrace)] :=
    Spells.mark .rbrace .nil
  rw [Print.braced, Output.script_append, hclose, Output.script_append, hlines]
  show Output.script [.word "\x7b"] ++ [] ++ [.lineBreak] ++ s ++ _ = _
  rw [hopen]
  simp [Script.braced]

end LinesSpellFrom

/-- A statement that is printed with its script, whatever the indentation. -/
def SpelledStmt (style : Style) (kind : StmtKind) : Prop :=
  ∀ indent decs, decs.trailing = none → (kindText style kind indent decs).Spelled kind.script

variable {ss : List Stmt}

/-- Statements on lines of their own are printed line by line. -/
theorem spelled_stmts (hdecs : ∀ d ∈ ss.map Stmt.decs, d = .onLine d.blankBefore) (first : Bool)
    (hfirst : first = true → ∀ d ∈ (ss.map Stmt.decs).head?, d.blankBefore = false)
    (h : ∀ s ∈ ss, SpelledStmt style s.kind) (indent : Nat) :
    LinesSpellFrom first (stmtLines indent first (stmtTexts style ss indent)) (stmtsScript ss) := by
  induction ss generalizing first with
  | nil => exact .nil
  | cons s ss ih =>
    obtain ⟨hd, hds⟩ := List.forall_mem_cons.mp hdecs
    obtain ⟨hs, hss⟩ := List.forall_mem_cons.mp h
    obtain ⟨kind, d⟩ := s
    have htrailing : d.trailing = none := by
      rw [show d = .onLine d.blankBefore from hd]
      rfl
    have hkind := hs indent d htrailing
    have hblank : first = true → d.blankBefore = false := fun hf => hfirst hf d rfl
    rw [stmtTexts, stmtText, stmtLines_cons indent first hkind.isEmpty, decs_kindText,
      leadingLines_onLine hd hblank, stmtsScript, Stmt.script_eq]
    exact .cons hblank hkind.lines hkind.start (ih hds false Bool.noConfusion hss).lines

/-- The statements of a block are printed on the lines between its braces. -/
theorem spelled_block (style : Style) (hlines : OwnLines (ss.map Stmt.decs))
    (hss : ∀ s ∈ ss, s.kind.Canonical)
    (h : ∀ s ∈ ss, SpelledStmt style s.kind) (indent : Nat) :
    (blockOutput style (.of ss) indent (blockTexts style (.of ss) (indent + 1))).script =
      (Block.of ss).script := by
  have hspelled := spelled_stmts hlines.lines true (fun _ => hlines.first) h (indent + 1)
  have hprintable :=
    printable_stmts hlines hss fun s hs => printable_of_canonicalStmt (hss s hs)
  have hwritten := LinesWrite.stmts (stmts_print style ss hprintable.regular (indent + 1)) (indent + 1)
    true hprintable.genuine
  have hlines : blockOutput style (.of ss) indent (blockTexts style (.of ss) (indent + 1)) =
      Print.braced style "\x7b" "\x7d" .multiLine indent
        (stmtLines (indent + 1) true (stmtTexts style ss (indent + 1)) ++ []) := rfl
  rw [hlines, List.append_nil]
  exact hspelled.braced hwritten.sound indent

variable {cs : List Clause}

/-- Clauses on lines of their own are printed with their bodies below them. -/
theorem spelled_clauses (hdecs : ∀ d ∈ cs.map Clause.decs, d = .onLine d.blankBefore)
    (first : Bool) (hfirst : first = true → ∀ d ∈ (cs.map Clause.decs).head?, d.blankBefore = false)
    (hheads : ∀ c ∈ cs, c.head.Canonical) (hlines : ∀ c ∈ cs, OwnLines (c.body.map Stmt.decs))
    (h : ∀ c ∈ cs, ∀ s ∈ c.body, SpelledStmt style s.kind) (indent : Nat) :
    LinesSpellFrom first (clauseLines indent first (clauseTexts style cs indent))
      (clausesScript cs) := by
  induction cs generalizing first with
  | nil => exact .nil
  | cons c cs ih =>
    obtain ⟨hd, hds⟩ := List.forall_mem_cons.mp hdecs
    obtain ⟨hhead, hheads⟩ := List.forall_mem_cons.mp hheads
    obtain ⟨hbody, hbodies⟩ := List.forall_mem_cons.mp hlines
    obtain ⟨hc, hcs⟩ := List.forall_mem_cons.mp h
    have hspelled := spelled_stmts hbody.lines true (fun _ => hbody.first) hc (indent + 1)
    have hrest := ih hds false Bool.noConfusion hheads hbodies hcs
    obtain ⟨head, body, d⟩ := c
    have htrailing : d.trailing = none := by
      rw [show d = .onLine d.blankBefore from hd]
      rfl
    have hblank : first = true → d.blankBefore = false := fun hf => hfirst hf d rfl
    have hrow : LinesSpell (.ofText indent (headOutput style head indent) ::
        stmtLines (indent + 1) true (stmtTexts style body (indent + 1)))
        (Script.line (head.spelling ++ [.punct .colon]) ++ .lineBreak :: stmtsScript body) := by
      have hhead := spells_head style hhead indent
      rw [← hhead]
      refine .row indent ?_ hspelled.lines
      rw [hhead]
      cases head <;> exact ⟨_, _, rfl⟩
    rw [clauseTexts, clauseLines, leadingLines_onLine hd hblank, htrailing, clausesScript]
    exact .cons hblank hrow rfl hrest.lines

/-- The clauses of a switch are printed on the lines between its braces. -/
theorem spelled_switch (style : Style) (hclauses : OwnLines (cs.map Clause.decs))
    (hheads : ∀ c ∈ cs, c.head.Canonical)
    (hlines : ∀ c ∈ cs, OwnLines (c.body.map Stmt.decs))
    (hss : ∀ c ∈ cs, ∀ s ∈ c.body, s.kind.Canonical)
    (h : ∀ c ∈ cs, ∀ s ∈ c.body, SpelledStmt style s.kind) (indent : Nat) :
    (clausesOutput style .multiLine indent (clauseTexts style cs indent)).script =
      Script.braced (clausesScript cs) := by
  have hspelled := spelled_clauses hclauses.lines true (fun _ => hclauses.first) hheads hlines h indent
  have hprintable := printable_clauses hclauses hheads fun c hc =>
    printable_stmts (hlines c hc) (hss c hc) fun s hs =>
      printable_of_canonicalStmt (hss c hc s hs)
  have hwritten := LinesWrite.clauses (clauses_print style cs hprintable.regular indent) indent true
    hprintable.genuine
  have hlines : clausesOutput style .multiLine indent (clauseTexts style cs indent) =
      Print.braced style "\x7b" "\x7d" .multiLine indent
        (clauseLines indent true (clauseTexts style cs indent) ++ []) := rfl
  rw [hlines, List.append_nil]
  exact hspelled.braced hwritten.sound indent

/-- What follows an `if` is printed as the statement behind the `else`. -/
theorem script_elseOutput (e : Else) (indent : Nat) :
    (elseOutput style e indent).script =
      e.branch?.elim [] fun k => .token (.keyword .else) :: (kindText style k indent .plain).text.script := by
  have helse (o : Output) : Output.script (.space :: keywordPiece .else :: .space :: o) =
      .token (.keyword .else) :: o.script :=
    (Output.script_append [.space, keywordPiece .else, .space] o).trans
      (congrArg (· ++ o.script) (Spells.keyword .else Spells.nil.space : Spells _ _))
  cases e with
  | none => rfl
  | elseIf init cond body otherwise => exact helse _
  | block body => exact helse _

namespace SpelledStmt

/-- A statement that is printed as one text, which starts with a token. -/
theorem ofText {kind : StmtKind} (hstart : ∃ k s, kind.script = .token k :: s)
    (h : ∀ indent decs, ∃ o, kindText style kind indent decs = .plain indent o decs ∧
      o.script = kind.script) : SpelledStmt style kind := by
  intro indent decs htrailing
  obtain ⟨o, htext, hscript⟩ := h indent decs
  rw [htext, ← hscript]
  rw [← hscript] at hstart
  exact .plain hstart htrailing

/-- A simple statement is printed on its line. -/
theorem simple {kind : StmtKind} (hkind : kind.Simple) (hexprs : ∀ x ∈ kind.exprs, x.Canonical) :
    SpelledStmt style kind := by
  have hscript := script_of_simple hkind
  obtain ⟨k, ks, hks, -⟩ := startsExpr_simple hkind fun x hx => startsExpr_spelling (hexprs x hx)
  refine .ofText ⟨k, Script.line ks, ?_⟩ fun indent decs => ?_
  · rw [hscript, hks, Script.line_cons]
  · obtain ⟨o, ho, hspells⟩ := spells_of_simple style hkind hexprs indent decs
    exact ⟨o, ho, hspells.trans hscript.symm⟩

theorem returns {values : List Expr} (h : ∀ x ∈ values, x.Canonical) :
    SpelledStmt style (.returns values) := by
  refine .ofText ⟨_, _, rfl⟩ fun indent decs => ⟨_, rfl, ?_⟩
  have hspells := @spells_exprs style _ h (.atStart indent) rfl
  cases values with
  | nil => exact Spells.keyword .return .nil
  | cons x xs => exact Spells.keyword .return hspells.space

theorem branch {kind : BranchKind} {label : Option String} (h : ∀ l ∈ label, isName l = true) :
    SpelledStmt style (.branch kind label) := by
  refine .ofText ⟨_, _, rfl⟩ fun indent decs => ⟨_, rfl, ?_⟩
  cases label with
  | none => exact Spells.keyword kind.keyword .nil
  | some l => exact Spells.keyword kind.keyword (Spells.name (h l rfl) .nil).space

theorem go {call : Expr} (h : call.Canonical) : SpelledStmt style (.go call) := by
  refine .ofText ⟨_, _, rfl⟩ fun indent decs => ⟨_, rfl, ?_⟩
  exact Spells.keyword .go ((@spells_of_canonical style _ h).inside (.atStart indent) rfl).space

theorem defer {call : Expr} (h : call.Canonical) : SpelledStmt style (.defer call) := by
  refine .ofText ⟨_, _, rfl⟩ fun indent decs => ⟨_, rfl, ?_⟩
  exact Spells.keyword .defer ((@spells_of_canonical style _ h).inside (.atStart indent) rfl).space

theorem block (hlines : OwnLines (ss.map Stmt.decs)) (hss : ∀ s ∈ ss, s.kind.Canonical)
    (h : ∀ s ∈ ss, SpelledStmt style s.kind) : SpelledStmt style (.block (.of ss)) :=
  .ofText ⟨_, _, rfl⟩ fun indent _ => ⟨_, rfl, spelled_block style hlines hss h indent⟩

/-- An `if` is printed with its header, its block and what follows it. -/
theorem ifThen {init : Option Stmt} {cond : Expr} {otherwise : Else}
    (hinit : ∀ s ∈ init, s.CanonicalHeader) (hcond : cond.CanonicalCondition)
    (hlines : OwnLines (ss.map Stmt.decs)) (hss : ∀ s ∈ ss, s.kind.Canonical)
    (h : ∀ s ∈ ss, SpelledStmt style s.kind)
    (helse : ∀ kind ∈ otherwise.branch?, SpelledStmt style kind) :
    SpelledStmt style (.ifThen init cond (.of ss) otherwise) := by
  refine .ofText ⟨_, _, rfl⟩ fun indent decs => ⟨_, rfl, ?_⟩
  have hcond : ∀ x ∈ some cond, x.CanonicalCondition := by
    rintro _ ⟨⟩
    exact hcond
  have hheader := Spells.keyword .if (Spells.header false (spells_clause style hinit indent)
    (spells_condition style hcond indent) .none)
  have hbody := spelled_block style hlines hss h indent
  have htail : (elseOutput style otherwise indent).script = otherwise.script := by
    rw [script_elseOutput, Else.script_eq]
    cases hbranch : otherwise.branch? with
    | none => rfl
    | some k => exact congrArg (.token (.keyword .else) :: ·) (helse k hbranch indent .plain rfl).text
  exact (Output.script_append _ _).trans (congrArg₂ _ ((Output.script_append _ _).trans
    (congrArg₂ _ hheader hbody)) htail)

/-- A loop is printed with the semicolons its clauses need. -/
theorem forLoop {init : Option Stmt} {cond : Option Expr} {post : Option Stmt}
    (hinit : ∀ s ∈ init, s.CanonicalHeader) (hcond : ∀ x ∈ cond, x.CanonicalCondition)
    (hpost : ∀ s ∈ post, s.CanonicalHeader) (hlines : OwnLines (ss.map Stmt.decs))
    (hss : ∀ s ∈ ss, s.kind.Canonical) (h : ∀ s ∈ ss, SpelledStmt style s.kind) :
    SpelledStmt style (.forLoop init cond post (.of ss)) := by
  refine .ofText ⟨_, _, rfl⟩ fun indent decs => ⟨_, rfl, ?_⟩
  have hheader := Spells.keyword .for (Spells.header true (spells_clause style hinit indent)
    (spells_condition style hcond indent) (spells_clause style hpost indent))
  have hbody := spelled_block style hlines hss h indent
  exact (Output.script_append _ _).trans (congrArg₂ _ hheader hbody)

/-- A loop over a range is printed with its variables, if it has any. -/
theorem rangeLoop {key value : Option Expr} {define : Bool} {x : Expr}
    (hkey : ∀ y ∈ key, y.CanonicalHeader) (hvalue : ∀ y ∈ value, y.CanonicalHeader)
    (hvars : value.isSome = true → key.isSome = true) (hx : x.CanonicalCondition)
    (hlines : OwnLines (ss.map Stmt.decs)) (hss : ∀ s ∈ ss, s.kind.Canonical)
    (h : ∀ s ∈ ss, SpelledStmt style s.kind) :
    SpelledStmt style (.rangeLoop key value define x (.of ss)) := by
  refine .ofText ⟨_, _, rfl⟩ fun indent decs => ⟨_, rfl, ?_⟩
  have hvars := spells_vars style hkey hvalue hvars define indent
  have hrange := @spells_of_canonical style _ hx.canonical (.header indent) fun h =>
    absurd (hx.paren.symm.trans h) Bool.false_ne_true
  have hheader := ((((Spells.keyword .for Spells.nil.space).append hvars).append
    (.keyword .range Spells.nil.space)).append hrange).thenSpace true
  have hbody := spelled_block style hlines hss h indent
  exact (Output.script_append _ _).trans (congrArg₂ _ hheader hbody)

/-- A switch is printed with its header and its clauses. -/
theorem switch {init : Option Stmt} {tag : Option Expr} (hinit : ∀ s ∈ init, s.CanonicalHeader)
    (htag : ∀ x ∈ tag, x.CanonicalCondition) (hclauses : OwnLines (cs.map Clause.decs))
    (hheads : ∀ c ∈ cs, c.head.Canonical) (hlines : ∀ c ∈ cs, OwnLines (c.body.map Stmt.decs))
    (hss : ∀ c ∈ cs, ∀ s ∈ c.body, s.kind.Canonical)
    (h : ∀ c ∈ cs, ∀ s ∈ c.body, SpelledStmt style s.kind) :
    SpelledStmt style (.switch init tag cs .multiLine) := by
  refine .ofText ⟨_, _, rfl⟩ fun indent decs => ⟨_, rfl, ?_⟩
  have hheader := Spells.keyword .switch (Spells.header false (spells_clause style hinit indent)
    (spells_condition style htag indent) .none)
  have hbody := spelled_switch style hclauses hheads hlines hss h indent
  exact (Output.script_append _ _).trans (congrArg₂ _ hheader hbody)

theorem labeled {label : String} {s : Stmt} (hlabel : isName label = true)
    (hdecs : s.decs = .ownLine) (h : SpelledStmt style s.kind) :
    SpelledStmt style (.labeled label s) := by
  intro indent decs htrailing
  obtain ⟨kind, d⟩ := s
  obtain rfl : d = .ownLine := hdecs
  refine (h indent .ownLine rfl).labeled ?_ hlabel htrailing
  rw [decs_kindText]
  rfl

end SpelledStmt

/-- A canonical statement is printed with its script. -/
theorem spelled_of_canonicalStmt {kind : StmtKind} (h : kind.Canonical) : SpelledStmt style kind := by
  induction h with
  | simple hkind hexprs => exact SpelledStmt.simple hkind hexprs
  | returns hvalues => exact SpelledStmt.returns hvalues
  | branch _ hlabel => exact SpelledStmt.branch hlabel
  | go hcall => exact SpelledStmt.go hcall
  | defer hcall => exact SpelledStmt.defer hcall
  | block hlines hss ih => exact SpelledStmt.block hlines hss ih
  | ifThen hinit hcond hlines hss _ ih ihelse =>
    exact SpelledStmt.ifThen hinit hcond hlines hss ih ihelse
  | forLoop hinit hcond hpost hlines hss ih =>
    exact SpelledStmt.forLoop hinit hcond hpost hlines hss ih
  | rangeLoop hkey hvalue hvars _ hx hlines hss ih =>
    exact SpelledStmt.rangeLoop hkey hvalue hvars hx hlines hss ih
  | switch hinit htag hclauses hheads hlines hss ih =>
    exact SpelledStmt.switch hinit htag hclauses hheads hlines hss ih
  | labeled hlabel hdecs _ ih => exact SpelledStmt.labeled hlabel hdecs ih

/-! ## Files -/

/-- The receiver of a method is printed in parentheses. -/
theorem spells_receiver (style : Style) {recv : Option FieldList}
    (h : ∀ fs ∈ recv, fs.CanonicalReceiver) (indent : Nat) :
    Spells ((recv.map fun fs => paramListOutput style fs indent ++ [.space]).getD [])
      (recv.elim [] FieldList.spelling) := by
  cases recv with
  | none => exact .nil
  | some recv =>
    obtain ⟨huniform, field, hfields, -, htype⟩ := h recv rfl
    obtain ⟨fs, e⟩ := recv
    obtain rfl : fs = [field] := hfields
    have hparams := Spells.params huniform
      (List.forall_mem_singleton.mpr (@spells_of_canonicalType style _ htype)) indent
      (fieldIndents ⟨[field], e⟩ indent)
    exact hparams.thenSpace true

/-- A canonical function is printed as its script. -/
theorem script_funcOutput {f : FuncDecl} (h : f.Canonical) (indent : Nat) :
    (funcOutput style f indent).script = f.script := by
  obtain ⟨hrecv, hname, hshaped, htypes, b, hbody, hcanonical⟩ := h
  have htypes (t : Expr) (ht : t ∈ f.signature.types) : SpelledAnywhere style t :=
    spells_of_canonicalType (htypes t ht)
  have hsig := Spells.signature hshaped
    (fun p hp => spelled_of_variadicElem (htypes _ (f.signature.mem_types_of_params hp)))
    (fun rs hrs p hp => htypes _ (f.signature.mem_types_of_results hrs hp)) indent
  have hhead := ((Spells.keyword .func Spells.nil.space).append
    (spells_receiver style hrecv indent)).append (.name hname hsig)
  cases hcanonical with
  | simple hkind => cases hkind
  | @block ss hlines hss =>
    have hblock := spelled_block style hlines hss
      (fun s hs => spelled_of_canonicalStmt (hss s hs)) indent
    obtain ⟨recv, name, sig, body⟩ := f
    obtain rfl : body = some (.of ss) := hbody
    have hscript : FuncDecl.script ⟨recv, name, sig, some (.of ss)⟩ =
        Script.line ([.keyword .func] ++ recv.elim [] FieldList.spelling ++ (.ident name :: sig.spelling)) ++
          (Block.of ss).script := by
      simp [FuncDecl.script]
    rw [hscript, ← hhead, ← hblock]
    cases recv <;> exact Output.script_append _ _

/-- Canonical functions are printed with an empty line before each. -/
theorem linesSpell_decls {ds : List Decl} (h : ∀ d ∈ ds, ∃ f, d = .appended f ∧ f.Canonical)
    (last : Option Keyword) :
    LinesSpell (declLines style last ds) (ds.flatMap Decl.script) := by
  induction ds generalizing last with
  | nil => exact .nil
  | cons d ds ih =>
    obtain ⟨⟨f, rfl, hf⟩, hds⟩ := List.forall_mem_cons.mp h
    have hscript : (declOutput style (.appended f)).script = f.script := script_funcOutput hf 0
    have hgap (isOther : Bool) : (isOther || false || true || false) = true := by
      cases isOther <;> rfl
    have hlines : declLines style last (.appended f :: ds) =
        .blank :: .ofText 0 (declOutput style (.appended f)) ::
          declLines style (some .func) ds := by
      show (if _ || false || true || false then [Line.blank] else []) ++ [] ++ [] ++ _ = _
      rw [hgap]
      rfl
    have hdecl : Decl.script (.appended f) = .lineBreak :: (f.script ++ [.lineBreak]) := rfl
    rw [hlines, List.flatMap_cons, hdecl, List.cons_append, List.append_assoc, ← hscript]
    refine .blank (.row 0 ?_ (ih hds _))
    rw [hscript]
    exact ⟨_, _, rfl⟩

/-- A canonical file is printed with its script. -/
theorem script_fileOutput {file : SourceFile} (h : file.Canonical) :
    (fileOutput style file).script = file.script := by
  have hprintable := printable_of_canonicalFile h
  have hwritten := LinesWrite.file style file hprintable.regular hprintable.genuine
  have hpackage : Spells [keywordPiece .package, .space, .word file.package]
      [.keyword .package, .ident file.package] :=
    .keyword .package (Spells.name h.package .nil).space
  have hlines : fileLines style file =
      .ofText 0 [keywordPiece .package, .space, .word file.package] ::
        declLines style none file.decls := by
    rw [fileLines, h.packageDecs, h.trailingComments]
    exact List.append_nil _
  have hspell : LinesSpell (fileLines style file) file.script := by
    rw [hlines, SourceFile.script, ← hpackage]
    refine .row 0 ?_ (linesSpell_decls h.decls none)
    rw [hpackage]
    exact ⟨_, _, rfl⟩
  have hstart : startsRow (fileLines style file) = true := by
    rw [hlines]
    rfl
  exact script_renderLines style.align hspell hwritten.sound (.inr hstart)

end HandlerSplit.Print
