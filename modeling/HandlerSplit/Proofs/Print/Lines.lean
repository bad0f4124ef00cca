import HandlerSplit.Proofs.Print.Columns
/-!
# What lines write

Lists of lines are put together from the lines of nodes and of their comments. What they write is
what their cells write, one after the other (`LinesWrite.render`).
-/

namespace HandlerSplit.Print

/-- The words among tokens. -/
def wordKinds (ks : List TokenKind) : List TokenKind :=
  ks.filter (·.isWord)

/-- The comments among tokens. -/
def commentTexts (ks : List TokenKind) : List String :=
  ks.filterMap TokenKind.comment?

/-- What cells write. -/
structure CellsWritten (cells : List Output) (ws : List TokenKind) (cs : List String) : Prop where
  words : wordKinds (cellKinds cells) = ws
  comments : commentTexts (cellKinds cells) = cs
  sound : CellsSound cells

/-- Cells that write words and comments, if they are genuine. -/
def CellsWrite (cells : List Output) (ws : List TokenKind) (cs : List String) : Prop :=
  Genuine ws cs → CellsWritten cells ws cs

/-- What lines write. -/
structure LinesWritten (ls : List Line) (ws : List TokenKind) (cs : List String) : Prop where
  words : wordKinds (lineKinds ls) = ws
  comments : commentTexts (lineKinds ls) = cs
  sound : ∀ l ∈ ls, CellsSound l.cells

/-- Lines that write words and comments, if they are genuine. -/
def LinesWrite (ls : List Line) (ws : List TokenKind) (cs : List String) : Prop :=
  Genuine ws cs → LinesWritten ls ws cs

variable {P Q : Before → Prop} {o : Output} {cells : List Output} {ls ls' : List Line}
  {ws ws' : List TokenKind} {cs cs' : List String}

theorem CellsWrite.last (h : Writes Start o Q ws cs) : CellsWrite [o] ws cs := by
  intro hgenuine
  have h' := h hgenuine
  refine ⟨?_, ?_, .writes h rfl hgenuine, fun hne => absurd rfl hne, trivial⟩
  · rw [cellKinds, List.flatMap_singleton]
    exact h'.words
  · rw [cellKinds, List.flatMap_singleton]
    exact h'.comments

theorem CellsWrite.cons [hlead : Leads Q Ended] (h : Writes Start o Q ws cs)
    (hs : CellsWrite cells ws' cs') : CellsWrite (o :: cells) (ws ++ ws') (cs ++ cs') := by
  intro hgenuine
  obtain ⟨hgenuine₁, hgenuine₂⟩ := Genuine.append_iff.mp hgenuine
  have h' := h hgenuine₁
  have hs' := hs hgenuine₂
  refine ⟨?_, ?_, .writes h rfl hgenuine₁, fun _ => hlead.leads _ (h'.apart none rfl).2, hs'.sound⟩
  · rw [cellKinds, List.flatMap_cons, wordKinds, List.filter_append]
    exact congrArg₂ (· ++ ·) h'.words hs'.words
  · rw [cellKinds, List.flatMap_cons, commentTexts, List.filterMap_append]
    exact congrArg₂ (· ++ ·) h'.comments hs'.comments

theorem CellsWrite.cast (h : CellsWrite cells ws cs) (hws : ws = ws') (hcs : cs = cs') :
    CellsWrite cells ws' cs' := by
  rwa [← hws, ← hcs]

namespace LinesWrite

theorem nil : LinesWrite [] [] [] :=
  fun _ => ⟨rfl, rfl, nofun⟩

theorem blank : LinesWrite [.blank] [] [] :=
  fun _ => ⟨rfl, rfl, List.forall_mem_singleton.mpr trivial⟩

theorem sectionEnd : LinesWrite [.sectionEnd] [] [] :=
  fun _ => ⟨rfl, rfl, List.forall_mem_singleton.mpr trivial⟩

theorem append (h : LinesWrite ls ws cs) (h' : LinesWrite ls' ws' cs') :
    LinesWrite (ls ++ ls') (ws ++ ws') (cs ++ cs') := by
  intro hgenuine
  obtain ⟨hgenuine₁, hgenuine₂⟩ := Genuine.append_iff.mp hgenuine
  have hwritten := h hgenuine₁
  have hwritten' := h' hgenuine₂
  refine ⟨?_, ?_, List.forall_mem_append.mpr ⟨hwritten.sound, hwritten'.sound⟩⟩
  · rw [lineKinds, List.flatMap_append, wordKinds, List.filter_append]
    exact congrArg₂ (· ++ ·) hwritten.words hwritten'.words
  · rw [lineKinds, List.flatMap_append, commentTexts, List.filterMap_append]
    exact congrArg₂ (· ++ ·) hwritten.comments hwritten'.comments

theorem cast (h : LinesWrite ls ws cs) (hws : ws = ws') (hcs : cs = cs') :
    LinesWrite ls ws' cs' := by
  rwa [← hws, ← hcs]

/-- The line of cells that write something. -/
theorem line (indent : Nat) (h : CellsWrite cells ws cs) :
    LinesWrite [.ofCells indent cells] ws cs := by
  intro hgenuine
  have hwritten := h hgenuine
  obtain ⟨hsound, hkinds⟩ := mergeCells_sound hwritten.sound
  have hline : lineKinds [.ofCells indent cells] = cellKinds cells :=
    (List.flatMap_singleton _ _).trans hkinds
  refine ⟨?_, ?_, List.forall_mem_singleton.mpr hsound⟩
  · rw [hline]
    exact hwritten.words
  · rw [hline]
    exact hwritten.comments

/-- Lines of which each ends with a line break. -/
theorem render (align : Bool) (h : LinesWrite ls ws cs) :
    Writes Start (renderLines align ls) Start ws cs := by
  intro hgenuine
  have hwritten := h hgenuine
  obtain ⟨hcarries, hafter⟩ := whole_renderLines align hwritten.sound
  refine ⟨?_, ?_, hcarries.legible, ?_⟩
  · rw [Output.words, hcarries.kinds]
    exact hwritten.words
  · rw [Output.comments, hcarries.kinds]
    exact hwritten.comments
  · rintro s rfl
    exact ⟨hcarries.apart, hafter⟩

/-! ### Comments -/

theorem comment (indent : Nat) (c : Comment) :
    LinesWrite [.ofText indent [.word c.text]] [] [c.text] :=
  .line indent (.last (.comment (Q := Any) c.text trivial))

theorem commentLines (indent : Nat) (first : Bool) (comments : List Comment) :
    LinesWrite (commentLines indent first comments) [] (comments.map (·.text)) := by
  induction comments generalizing first with
  | nil => exact .nil
  | cons c comments ih =>
    have hgap : LinesWrite (if c.blankBefore && !first then [.blank] else []) [] [] := by
      split
      · exact .blank
      · exact .nil
    exact hgap.append ((comment indent c).append (ih false))

theorem leadingLines (indent : Nat) (decs : Decorations) (first : Bool) :
    LinesWrite (leadingLines indent decs first) [] (decs.leading.map (·.text)) := by
  have hgap : LinesWrite
      (if decs.blankBefore && !(first && decs.leading.isEmpty) then [.blank] else []) [] [] := by
    split
    · exact .blank
    · exact .nil
  exact ((commentLines indent first decs.leading).append hgap).cast rfl (List.append_nil _)

end LinesWrite

/-- A text with its comment. -/
theorem CellsWrite.withComment [Leads Q Ended] (h : Writes Start o Q ws cs)
    (comment : Option Comment) :
    CellsWrite (withComment o comment) ws (cs ++ comment.toList.map (·.text)) := by
  cases comment with
  | none => exact (CellsWrite.last h).cast rfl (List.append_nil cs).symm
  | some c =>
    exact (CellsWrite.cons h (.last (.comment (Q := Any) c.text trivial))).cast
      (List.append_nil ws) rfl

/-! ## Columns -/

/-- Cells of which none goes on to the end of its line. -/
inductive ColumnsWrite : List Output → List TokenKind → List String → Prop where
  | nil : ColumnsWrite [] [] []
  | cons {o : Output} {cells : List Output} {ws ws' : List TokenKind} {cs cs' : List String}
    (cell : Writes Start o Ended ws cs) (rest : ColumnsWrite cells ws' cs') :
    ColumnsWrite (o :: cells) (ws ++ ws') (cs ++ cs')

namespace ColumnsWrite

theorem cast (h : ColumnsWrite cells ws cs) (hws : ws = ws') (hcs : cs = cs') :
    ColumnsWrite cells ws' cs' := by
  rwa [← hws, ← hcs]

theorem single [Leads Q Ended] (h : Writes Start o Q ws cs) : ColumnsWrite [o] ws cs :=
  cast (.cons h.behind .nil) (List.append_nil ws) (List.append_nil cs)

/-- An empty cell. -/
theorem empty : ColumnsWrite [[]] [] [] :=
  single (Q := Start) Writes.nil

theorem append {cells' : List Output} (h : ColumnsWrite cells ws cs)
    (h' : ColumnsWrite cells' ws' cs') :
    ColumnsWrite (cells ++ cells') (ws ++ ws') (cs ++ cs') := by
  induction h with
  | nil => exact h'
  | cons hcell _ ih => exact cast (.cons hcell ih) (List.append_assoc ..).symm (List.append_assoc ..).symm

theorem cellsWrite (h : ColumnsWrite cells ws cs) : CellsWrite cells ws cs := by
  induction h with
  | nil => exact fun _ => ⟨rfl, rfl, trivial⟩
  | cons hcell _ ih => exact .cons hcell ih

/-- Cells with a comment in a cell behind them. -/
theorem withComment (h : ColumnsWrite cells ws cs) (comment : Option Comment) :
    CellsWrite (cells ++ (comment.map fun c => [Piece.word c.text]).toList) ws
      (cs ++ comment.toList.map (·.text)) := by
  induction h with
  | nil =>
    cases comment with
    | none => exact fun _ => ⟨rfl, rfl, trivial⟩
    | some c => exact .last (.comment (Q := Any) c.text trivial)
  | cons hcell _ ih => exact (CellsWrite.cons hcell ih).cast rfl (List.append_assoc ..).symm

end ColumnsWrite

end HandlerSplit.Print
