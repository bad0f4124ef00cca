import HandlerSplit.Proofs.Print.Fields
import HandlerSplit.Proofs.Tree.Regular
/-!
# What statements write

A statement is written inside a line, or on lines of its own between its comments. A block writes
its statements line by line, or on one line if they hold no comments; headers and clauses are put
together from simple statements and expressions.
-/

namespace HandlerSplit.Print

/-! ## Braces and parentheses -/

theorem Writes.openBrace : Writes Closed [.word "\x7b"] Clear [.punct .lbrace] [] :=
  Writes.bracket (m := .lbrace) fun _ => rfl

theorem Writes.closeBrace : Writes Ended [.word "\x7d"] Clear [.punct .rbrace] [] :=
  Writes.closing (m := .rbrace) (by decide) fun _ => rfl

/-- Lines in braces. -/
theorem Writes.inBraces (style : Style) {ls : List Line} {ws : List TokenKind} {cs : List String}
    (hlines : LinesWrite ls ws cs) (e : Enclosure) (indent : Nat) :
    Writes Closed (Print.braced style "\x7b" "\x7d" e indent ls) Clear
      ([.punct .lbrace] ++ ws ++ [.punct .rbrace]) (e.openComment.toList.map (·.text) ++ cs) :=
  Writes.braced style .lbrace .rbrace (fun _ => rfl) ⟨by decide, fun _ => rfl⟩
    hlines e indent

/-! ## Statements -/

theorem kind_of_isEmpty {kind : StmtKind} (h : kind.isEmpty = true) : kind = .empty := by
  cases kind with
  | empty => rfl
  | _ => cases h

theorem words_stmt (s : Stmt) : s.words = s.kind.words := by
  cases s
  rfl

theorem textsOf_stmt (s : Stmt) : textsOf s.marks = textsAround s.decs (textsOf s.kind.marks) := by
  cases s
  exact textsOf_around _ _

/-- The printed form of a statement. -/
structure StmtText.Prints (t : StmtText) (s : Stmt) : Prop where
  decs : t.decs = s.decs
  isEmpty : t.isEmpty = s.kind.isEmpty
  innerTrailing : t.innerTrailing = none
  /-- The statement inside a line, if it fits there. -/
  text : t.text.isMultiline = false →
    Writes Start t.text Ended s.kind.words (textsOf s.kind.marks)
  simple : s.kind.isSimple = true →
    Writes Start t.text Closed s.kind.words (textsOf s.kind.marks)
  /-- The lines before the last, and the last. -/
  own : ∃ ws₁ ws₂ cs₁ cs₂, LinesWrite t.lead ws₁ cs₁ ∧ Writes Start t.own Ended ws₂ cs₂ ∧
    s.kind.words = ws₁ ++ ws₂ ∧ textsOf s.kind.marks = cs₁ ++ cs₂

namespace StmtText.Prints

variable {t : StmtText} {s : Stmt}

/-- A statement that is the same inside a line and on its own. -/
theorem plain {Q : Before → Prop} [Leads Q Ended] {kind : StmtKind} {o : Output} {decs : Decorations}
    (h : Writes Start o Q kind.words (textsOf kind.marks)) (hempty : kind.isEmpty = false)
    (hsimple : kind.isSimple = true → Q = Closed) (indent : Nat) :
    (StmtText.plain indent o decs).Prints ⟨kind, decs⟩ where
  decs := rfl
  isEmpty := hempty.symm
  innerTrailing := rfl
  text _ := h.behind
  simple hs := hsimple hs ▸ h
  own := ⟨[], _, [], _, .nil, h.behind, rfl, rfl⟩

/-- A statement that no header holds. -/
theorem compound {Q : Before → Prop} [Leads Q Ended] {kind : StmtKind} {o : Output}
    {decs : Decorations} (h : Writes Start o Q kind.words (textsOf kind.marks))
    (hempty : kind.isEmpty = false) (hsimple : kind.isSimple = false) (indent : Nat) :
    (StmtText.plain indent o decs).Prints ⟨kind, decs⟩ :=
  .plain h hempty (fun hs => absurd hs (Bool.eq_false_iff.mp hsimple)) indent

theorem empty (decs : Decorations) (indent : Nat) :
    (StmtText.empty indent decs).Prints ⟨.empty, decs⟩ where
  decs := rfl
  isEmpty := rfl
  innerTrailing := rfl
  text _ := Writes.nil.behind
  simple := nofun
  own := ⟨[], [], [], [], .nil, Writes.nil.behind, rfl, rfl⟩

/-- The lines of a statement. -/
theorem lines (h : t.Prints s) : LinesWrite t.lines s.kind.words
    (textsOf s.kind.marks ++ s.decs.trailing.toList.map (·.text)) := by
  obtain ⟨ws₁, ws₂, cs₁, cs₂, hlead, hown, hwords, htexts⟩ := h.own
  rw [StmtText.lines, h.innerTrailing, Option.or_none, h.decs, hwords, htexts, List.append_assoc]
  exact hlead.append (.line _ (.withComment hown _))

/-- A labeled statement. -/
theorem labeled (h : t.Prints s) (hplain : labelsPlainly s.kind s.decs) (label : String)
    (decs : Decorations) (indent : Nat) :
    (StmtText.labeled indent label t decs).Prints ⟨.labeled label s, decs⟩ := by
  have hhead : Writes Start [.word label, .word ":"] Open ([.ident label] ++ [.punct .colon]) [] :=
    (Writes.ident label).before.append (.mark .colon (by decide))
  have hwords : (StmtKind.labeled label s).words = [.ident label] ++ [.punct .colon] ++ s.kind.words := by
    rw [← words_stmt]
    rfl
  have htexts : textsOf (StmtKind.labeled label s).marks = textsAround s.decs (textsOf s.kind.marks) :=
    textsOf_stmt s
  obtain ⟨htrailing, hempty⟩ := hplain
  rw [StmtText.labeled]
  split
  · rename_i hinner
    rw [h.isEmpty] at hinner
    have hkind := kind_of_isEmpty hinner
    have hnone : textsOf (StmtKind.labeled label s).marks = [] := by
      rw [htexts, hempty hinner, hkind]
      rfl
    have hwhole : Writes Start [.word label, .word ":"] Ended (StmtKind.labeled label s).words
        (textsOf (StmtKind.labeled label s).marks) := by
      rw [hwords, hkind, hnone]
      exact hhead.behind
    exact ⟨rfl, rfl, rfl, fun _ => hwhole, nofun, [], _, [], _, .nil, hwhole, rfl, rfl⟩
  · obtain ⟨ws₁, ws₂, cs₁, cs₂, hlead, hown, hinner, hcomments⟩ := h.own
    have hlabel := LinesWrite.line (indent - 1) (.last hhead)
    have hlines := (hlabel.append (.commentLines indent true t.decs.leading)).append hlead
    refine ⟨rfl, rfl, ?_, ?_, nofun, _, ws₂, _, cs₂, hlines, hown, ?_, ?_⟩
    · show t.decs.trailing.or t.innerTrailing = none
      rw [h.decs, htrailing, h.innerTrailing]
      rfl
    · intro hone
      simp [Output.isMultiline, Piece.isMultiline] at hone
    · rw [hwords, hinner]
      simp
    · rw [htexts, textsAround, htrailing, hcomments, h.decs]
      simp

end StmtText.Prints

/-! ## Blocks -/

variable {ss : List Stmt} {ts : List StmtText}

/-- The texts of statements with their comments. -/
theorem textsOf_stmtMarks (ss : List Stmt) :
    textsOf (stmtMarks ss) = ss.flatMap fun s => textsAround s.decs (textsOf s.kind.marks) := by
  rw [stmtMarks_eq, textsOf_flatMap]
  exact List.flatMap_congr fun s _ => textsOf_stmt s

/-- The lines of statements. An empty statement without comments writes nothing. -/
theorem LinesWrite.stmts (h : List.Forall₂ (fun s t => StmtText.Prints t s) ss ts) (indent : Nat)
    (first : Bool) : LinesWrite (stmtLines indent first ts) (stmtWords ss) (textsOf (stmtMarks ss)) := by
  rw [stmtWords_eq, textsOf_stmtMarks]
  induction h generalizing first with
  | nil => exact .nil
  | @cons s t ss ts ht _ ih =>
    rw [stmtLines]
    split
    · rename_i hleft
      rw [Bool.and_eq_true, ht.isEmpty, ht.decs, Bool.not_eq_true', Decorations.hasComments,
        Bool.or_eq_false_iff, Bool.not_eq_false', List.isEmpty_iff, Option.isSome_eq_false_iff,
        Option.isNone_iff_eq_none] at hleft
      obtain ⟨hempty, hleading, htrailing⟩ := hleft
      have hkind := kind_of_isEmpty hempty
      refine (ih first).cast ?_ ?_
      · rw [List.flatMap_cons, words_stmt, hkind]
        rfl
      · rw [List.flatMap_cons, hkind, textsAround, hleading, htrailing]
        rfl
    · have hlines := ((LinesWrite.leadingLines indent t.decs first).append ht.lines).append (ih false)
      exact hlines.cast (by simp [words_stmt]) (by simp [textsAround, ht.decs])

theorem textsOf_block (ss : List Stmt) (e : Enclosure) (oneLine : Bool) :
    textsOf (Block.marks ⟨ss, e, oneLine⟩) = e.openComment.toList.map (·.text) ++
      (textsOf (stmtMarks ss) ++ e.closeComments.map (·.text)) := by
  rw [Block.marks, textsOf_enclosure, List.append_assoc]

/-- A block with its statements line by line. -/
theorem Writes.block (style : Style) (h : List.Forall₂ (fun s t => StmtText.Prints t s) ss ts)
    (e : Enclosure) (oneLine : Bool) (indent : Nat) :
    Writes Closed (blockOutput style ⟨ss, e, oneLine⟩ indent ts) Clear
      (Block.words ⟨ss, e, oneLine⟩) (textsOf (Block.marks ⟨ss, e, oneLine⟩)) := by
  have hlines := (LinesWrite.stmts h (indent + 1) true).append (.commentLines (indent + 1)
    (!(stmtLines (indent + 1) true ts).any Line.isRow) e.closeComments)
  rw [textsOf_block]
  exact (Writes.inBraces style hlines e indent).cast (by simp [Block.words]) rfl

/-- A block on one line: none of its statements has comments. -/
theorem Writes.inlineStmts (h : List.Forall₂ (fun s t => StmtText.Prints t s) ss ts)
    (hcomments : ∀ t ∈ ts, t.decs.hasComments = false)
    (hone : ∀ t ∈ ts, t.text.isMultiline = false) :
    Writes Start (Output.joined [.word ";", .space] (ts.map (·.text))) Ended (stmtWords ss)
      (textsOf (stmtMarks ss)) := by
  have htexts : List.Forall₂ (fun (s : Stmt) o => Writes Start o Ended s.words (textsOf s.marks)) ss
      (ts.map (·.text)) := by
    rw [List.forall₂_map_right_iff]
    induction h with
    | nil => exact .nil
    | @cons s t ss ts ht _ ih =>
      obtain ⟨hcomments', hcomments⟩ := List.forall_mem_cons.mp hcomments
      obtain ⟨hone', hone⟩ := List.forall_mem_cons.mp hone
      refine .cons ((ht.text hone').cast (words_stmt s).symm ?_) (ih hcomments hone)
      rw [ht.decs, Decorations.hasComments, Bool.or_eq_false_iff, Bool.not_eq_false',
        List.isEmpty_iff, Option.isSome_eq_false_iff, Option.isNone_iff_eq_none] at hcomments'
      rw [textsOf_stmt, textsAround, hcomments'.1, hcomments'.2]
      exact (List.append_nil _).symm
  rw [stmtWords_eq, stmtMarks_eq, textsOf_flatMap]
  exact .joined (Writes.semicolon.append .space) htexts

/-- The body of a function. -/
theorem Writes.body (style : Style) (h : List.Forall₂ (fun s t => StmtText.Prints t s) ss ts)
    (e : Enclosure) (oneLine : Bool) (indent : Nat) (header : Output) :
    Writes Closed (bodyOutput style ⟨ss, e, oneLine⟩ indent header ts) Clear
      (Block.words ⟨ss, e, oneLine⟩) (textsOf (Block.marks ⟨ss, e, oneLine⟩)) := by
  rw [bodyOutput]
  split
  · rename_i hfits
    simp only [fitsOneLine, Bool.and_eq_true, Bool.not_eq_true', List.all_eq_true,
      Enclosure.hasComments, Bool.or_eq_false_iff, Bool.not_eq_false', List.isEmpty_iff,
      Option.isSome_eq_false_iff, Option.isNone_iff_eq_none] at hfits
    obtain ⟨⟨⟨⟨⟨-, hopen, hclose⟩, hcomments⟩, -⟩, hone⟩, -⟩ := hfits
    have hstmts := inlineStmts h hcomments hone
    rw [textsOf_block, hopen, hclose]
    split
    · rename_i hempty
      rw [List.isEmpty_iff] at hempty
      subst hempty
      cases h
      exact Writes.openBrace.append .closeBrace
    · exact (((Writes.openBrace.append Writes.space).append hstmts).append
        (Writes.space.append Writes.closeBrace)).cast (by simp [Block.words]) (by simp)
  · exact .block style h e oneLine indent

/-! ## Clauses -/

/-- The printed form of a clause. -/
structure ClauseText.Prints (t : ClauseText) (c : Clause) : Prop where
  head : Writes Start t.head Open (c.head.words ++ [.punct .colon]) (textsOf c.head.marks)
  body : List.Forall₂ (fun s t => StmtText.Prints t s) c.body t.body
  decs : t.decs = c.decs

variable {cls : List Clause} {cts : List ClauseText}

theorem LinesWrite.clauses (h : List.Forall₂ (fun c t => ClauseText.Prints t c) cls cts)
    (indent : Nat) (first : Bool) :
    LinesWrite (clauseLines indent first cts) (clauseWords cls) (textsOf (clauseMarks cls)) := by
  rw [clauseWords_eq, clauseMarks_eq, textsOf_flatMap]
  induction h generalizing first with
  | nil => exact .nil
  | @cons c t cls cts ht _ ih =>
    have hhead := LinesWrite.line indent (.withComment ht.head t.decs.trailing)
    have hlines := ((LinesWrite.leadingLines indent t.decs first).append
      (hhead.append (.stmts ht.body (indent + 1) true))).append (ih false)
    exact hlines.cast (by simp [Clause.words]) (by simp [Clause.marks, textsOf_around, textsAround, ht.decs])

/-- Clauses in braces. -/
theorem Writes.clauses (style : Style) (h : List.Forall₂ (fun c t => ClauseText.Prints t c) cls cts)
    (e : Enclosure) (indent : Nat) :
    Writes Closed (clausesOutput style e indent cts) Clear
      ([.punct .lbrace] ++ clauseWords cls ++ [.punct .rbrace])
      (textsOf (e.around (clauseMarks cls))) := by
  have hlines := (LinesWrite.clauses h indent true).append
    (.commentLines (indent + 1) cts.isEmpty e.closeComments)
  rw [textsOf_enclosure]
  exact (Writes.inBraces style hlines e indent).cast (by simp) (by simp)

/-! ## Headers -/

/-- A part that may be missing. -/
def OptWrites (o : Option Output) (ws : List TokenKind) (cs : List String) : Prop :=
  Writes Start (o.getD []) Ended ws cs ∧ (o = none → ws = [] ∧ cs = [])

/-- A part with a space behind it, if it is there. -/
theorem OptWrites.spaced {o : Option Output} {ws : List TokenKind} {cs : List String}
    (h : OptWrites o ws cs) :
    Writes Start ((o.map fun x => x ++ [.space]).getD []) Start ws cs := by
  cases o with
  | none =>
    obtain ⟨rfl, rfl⟩ := h.2 rfl
    exact .nil
  | some x => exact (h.1.append Writes.space).cast (List.append_nil _) (List.append_nil _)

/-- What stands between the keyword of a control statement and its brace. -/
theorem Writes.header {init cond post : Option Output} {ws₁ ws₂ ws₃ : List TokenKind}
    {cs₁ cs₂ cs₃ : List String} (hinit : OptWrites init ws₁ cs₁) (hcond : OptWrites cond ws₂ cs₂)
    (hpost : OptWrites post ws₃ cs₃) {isLoop : Bool} (hloop : isLoop = true ∨ post = none) :
    Writes Ended (headerOutput isLoop init cond post) Start (ws₁ ++ ws₂ ++ ws₃)
      (cs₁ ++ cs₂ ++ cs₃) := by
  unfold headerOutput
  split
  · obtain ⟨rfl, rfl⟩ := hinit.2 rfl
    obtain ⟨rfl, rfl⟩ := hcond.2 rfl
    obtain ⟨rfl, rfl⟩ := hpost.2 rfl
    exact Writes.space
  · obtain ⟨rfl, rfl⟩ := hinit.2 rfl
    obtain ⟨rfl, rfl⟩ := hpost.2 rfl
    exact ((Writes.space.append hcond.1).append Writes.space).cast (by simp) (by simp)
  · have hsemicolon : Writes Ended [.word ";", .space] Start [] [] := Writes.semicolon.append .space
    have hstart := (Writes.space.append hinit.1).append hsemicolon
    dsimp only
    split
    · exact (((hstart.append hcond.1).append hsemicolon).append hpost.spaced).cast (by simp) (by simp)
    · rename_i hnotLoop
      obtain ⟨rfl, rfl⟩ := hpost.2 (hloop.resolve_left hnotLoop)
      exact (hstart.append hcond.spaced).cast (by simp) (by simp)

/-- A header with its keyword. -/
theorem Writes.headed (w : Keyword) (isLoop : Bool) {init cond post : Option Output}
    {ws₁ ws₂ ws₃ : List TokenKind} {cs₁ cs₂ cs₃ : List String} (hinit : OptWrites init ws₁ cs₁)
    (hcond : OptWrites cond ws₂ cs₂) (hpost : OptWrites post ws₃ cs₃)
    (hloop : isLoop = true ∨ post = none) :
    Writes Start (keywordPiece w :: headerOutput isLoop init cond post) Start
      ([.keyword w] ++ (ws₁ ++ ws₂ ++ ws₃)) (cs₁ ++ cs₂ ++ cs₃) := by
  have hkeyword : Writes Start [keywordPiece w] Shut [.keyword w] [] := (Writes.keyword w).before
  exact hkeyword.append (.header hinit hcond hpost hloop)

end HandlerSplit.Print
