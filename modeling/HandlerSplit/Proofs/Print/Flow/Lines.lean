import HandlerSplit.Proofs.Print.Flow
/-!
# The flow of rows and columns

Cells and lines are parted by white space, whatever their padding and their empty lines, and however
they are put into sections. So the flow of printed lines does not depend on whether columns are
aligned (`flow_renderLines`).
-/

namespace HandlerSplit.Print

/-! ## White space -/

theorem Output.flow_of_chars {o : Output} (h : o.chars = []) (rest : List Glyph) :
    o.flow rest = rest := by
  have hnone : o.flatMap Piece.glyphs = [] := by
    refine List.flatMap_eq_nil_iff.mpr fun p hp => ?_
    have hchars : p.chars = [] := List.flatMap_eq_nil_iff.mp h p hp
    rw [Output.glyphs_of_blank fun c hc => absurd hc (by rw [hchars]; exact List.not_mem_nil),
      if_pos hchars.symm]
  rw [Output.flow, hnone]
  rfl

theorem Output.flow_of_isBlank {o : Output} (h : o.isBlank = true) (rest : List Glyph) :
    o.flow rest = rest :=
  o.flow_of_chars (chars_of_width (width_of_isBlank h)) rest

/-- The indentation of a line. -/
theorem gap_flow_tabs (n : Nat) (rest : List Glyph) :
    gap (Output.flow [.tabs n] rest) = gap rest := by
  rw [Output.flow_singleton, Output.glyphs_of_blank (isBlank_of_mem_chars rfl)]
  split
  · rfl
  · exact gap_gap rest

/-! ## Cells -/

/-- The flow of cells, with gaps around them. -/
def cellsFlow : List Output → List Glyph → List Glyph
  | [], rest => gap rest
  | cell :: cells, rest => gap (cell.flow (cellsFlow cells rest))

@[simp] theorem gap_cellsFlow (cells : List Output) (rest : List Glyph) :
    gap (cellsFlow cells rest) = cellsFlow cells rest := by
  cases cells <;> exact gap_gap _

@[simp] theorem cellsFlow_gap (cells : List Output) (rest : List Glyph) :
    cellsFlow cells (gap rest) = cellsFlow cells rest := by
  induction cells with
  | nil => exact gap_gap rest
  | cons cell cells ih => rw [cellsFlow, cellsFlow, ih]

theorem cellsFlow_append (cells cells' : List Output) (rest : List Glyph) :
    cellsFlow (cells ++ cells') rest = cellsFlow cells (cellsFlow cells' rest) := by
  induction cells with
  | nil => exact (gap_cellsFlow cells' rest).symm
  | cons cell cells ih => rw [List.cons_append, cellsFlow, cellsFlow, ih]

/-- A cell that writes nothing is no more than a gap. -/
theorem cellsFlow_empty (cells : List Output) (rest : List Glyph) {cell : Output}
    (h : cell.chars = []) : cellsFlow (cell :: cells) rest = cellsFlow cells rest := by
  rw [cellsFlow, Output.flow_of_chars h, gap_cellsFlow]

theorem flow_joinCells (cells : List Output) (rest : List Glyph) :
    (joinCells cells).flow (gap rest) = cellsFlow cells rest := by
  induction cells with
  | nil => rfl
  | cons cell cells ih =>
    rw [joinCells, Output.flow_append, ih]
    split
    · rename_i hblank
      rw [cellsFlow_empty _ _ (Output.chars_of_width (Output.width_of_isBlank hblank))]
      rfl
    · rw [Output.flow_cons, Output.flow_space, cellsFlow]

/-- The flow of the cells of a row, where cells behind one of several lines join it. -/
theorem cellsFlow_mergeCells (cells : List Output) (rest : List Glyph) :
    cellsFlow (mergeCells cells) rest = cellsFlow cells rest := by
  induction cells with
  | nil => rfl
  | cons cell cells ih =>
    rw [mergeCells]
    split
    · rw [cellsFlow, cellsFlow, cellsFlow, Output.flow_append, flow_joinCells]
    · rw [cellsFlow, cellsFlow, ih]

/-- The space behind a cell is a gap, or the cell is empty. -/
theorem flow_padCells (align : Bool) {cells : List Output} {widths : List Nat}
    (hwide : Wide widths (cells.dropLast.map Output.width)) (rest : List Glyph) :
    gap ((padCells align cells widths).flow (gap rest)) = cellsFlow cells rest := by
  induction cells generalizing widths with
  | nil => exact gap_gap _
  | cons cell cells ih =>
    rcases cells with _ | ⟨next, cells⟩
    · rfl
    rcases widths with _ | ⟨column, columns⟩
    · exact hwide.elim
    obtain ⟨hcolumn, hwide⟩ := hwide
    have hcell : padCells align (cell :: next :: cells) (column :: columns) =
        cell ++ (if align then [.spaces (column - cell.width)]
          else if cell.isBlank then [] else [.space]) ++ padCells align (next :: cells) columns := rfl
    rw [hcell, cellsFlow, ← ih hwide, Output.flow_append, Output.flow_append]
    generalize Output.flow (padCells align (next :: cells) columns) (gap rest) = behind
    have hempty (h : cell.width = 0) : gap (cell.flow behind) = gap (cell.flow (gap behind)) := by
      rw [Output.flow_of_chars (Output.chars_of_width h), Output.flow_of_chars (Output.chars_of_width h),
        gap_gap]
    cases align with
    | true =>
      by_cases hpad : column - cell.width = 0
      · have hchars : Output.chars [.spaces (column - cell.width)] = [] := by
          rw [hpad]
          rfl
        rw [if_pos rfl, Output.flow_of_chars hchars]
        exact hempty (hcolumn.resolve_left (by omega))
      · rw [if_pos rfl, Output.flow_spaces hpad]
    | false =>
      rw [if_neg Bool.false_ne_true]
      split
      · rename_i hblank
        exact hempty (Output.width_of_isBlank hblank)
      · rw [Output.flow_space]

/-! ## Lines -/

/-- The flow of a line, with gaps around it. -/
def Line.flow : Line → List Glyph → List Glyph
  | row r => cellsFlow r.cells
  | blank => gap
  | sectionEnd => gap

/-- The flow of lines, with gaps around them. -/
def linesFlow (ls : List Line) (rest : List Glyph) : List Glyph :=
  ls.foldr Line.flow (gap rest)

@[simp] theorem Line.gap_flow (l : Line) (rest : List Glyph) : gap (l.flow rest) = l.flow rest := by
  cases l with
  | row r => exact gap_cellsFlow r.cells rest
  | _ => exact gap_gap rest

@[simp] theorem linesFlow_nil (rest : List Glyph) : linesFlow [] rest = gap rest :=
  rfl

theorem linesFlow_cons (l : Line) (ls : List Line) (rest : List Glyph) :
    linesFlow (l :: ls) rest = l.flow (linesFlow ls rest) :=
  rfl

@[simp] theorem gap_linesFlow (ls : List Line) (rest : List Glyph) :
    gap (linesFlow ls rest) = linesFlow ls rest := by
  cases ls with
  | nil => exact gap_gap rest
  | cons l ls => exact l.gap_flow _

@[simp] theorem linesFlow_gap (ls : List Line) (rest : List Glyph) :
    linesFlow ls (gap rest) = linesFlow ls rest := by
  rw [linesFlow, gap_gap, linesFlow]

theorem linesFlow_append (ls ls' : List Line) (rest : List Glyph) :
    linesFlow (ls ++ ls') rest = linesFlow ls (linesFlow ls' rest) := by
  rw [linesFlow, List.foldr_append, linesFlow, ← linesFlow, gap_linesFlow]

theorem Line.flow_ofCells (indent : Nat) (cells : List Output) (rest : List Glyph) :
    (ofCells indent cells).flow rest = cellsFlow cells rest :=
  cellsFlow_mergeCells cells rest

theorem linesFlow_ofCells (indent : Nat) (cells : List Output) (ls : List Line) (rest : List Glyph) :
    linesFlow (.ofCells indent cells :: ls) rest = cellsFlow cells (linesFlow ls rest) := by
  rw [linesFlow_cons, Line.flow_ofCells]

theorem flow_line (align : Bool) {r : Row} {widths : List Nat} (hwide : Wide widths r.paddedWidths)
    (rest : List Glyph) : gap ((r.line align widths).flow rest) = cellsFlow r.cells rest := by
  have hline : gap (Output.flow (Output.dropEnd ' ' (.tabs r.indent :: padCells align r.cells widths))
      (gap rest)) = cellsFlow r.cells rest := by
    rw [Output.flow_dropEnd rfl, Output.flow_cons, gap_flow_tabs, flow_padCells align hwide]
  rw [Row.line]
  split
  · rename_i hblank
    rw [Output.flow_blank_gap (List.all_eq_true.mp hblank)] at hline
    rw [← hline, Output.flow_newline]
  · rw [Output.flow_append, Output.flow_newline, hline]

theorem flow_alignedRows (align : Bool) (rows : List Row) (rest : List Glyph) :
    gap ((alignedRows align rows).flow rest) = linesFlow (rows.map .row) rest := by
  have hwide : List.Forall₂ _ (rows.map Row.paddedWidths) (columnWidths _ _) :=
    wide_columnWidths (((rows.map Row.paddedWidths).map List.length).foldl max 0) fun row hrow =>
      (le_foldl_max _ 0).2 _ (List.mem_map_of_mem hrow)
  rw [List.forall₂_map_left_iff] at hwide
  rw [alignedRows]
  generalize columnWidths _ _ = widths at hwide ⊢
  induction hwide with
  | nil => rfl
  | cons hrow _ ih =>
    rw [List.zip_cons_cons, List.flatMap_cons, Output.flow_append, flow_line align hrow, List.map_cons,
      linesFlow_cons, ← ih, Line.flow, cellsFlow_gap]

theorem flow_renderFrom (align : Bool) (rows : List Row) (due : Bool) (ls : List Line)
    (rest : List Glyph) : gap ((renderFrom align rows due ls).flow rest) =
      linesFlow (rows.reverse.map .row) (linesFlow ls rest) := by
  induction ls generalizing rows due with
  | nil => rw [renderFrom, flow_alignedRows, linesFlow_nil, linesFlow_gap]
  | cons l ls ih =>
    have hsection (due : Bool) : gap (Output.flow
        (alignedRows align rows.reverse ++ renderFrom align [] due ls) rest) =
          linesFlow (rows.reverse.map .row) (linesFlow ls rest) := by
      rw [Output.flow_append, flow_alignedRows, ← linesFlow_gap, ih, List.reverse_nil, List.map_nil,
        linesFlow_nil, gap_linesFlow]
    cases l with
    | blank => rw [renderFrom, hsection, linesFlow_cons, Line.flow, gap_linesFlow]
    | sectionEnd => rw [renderFrom, hsection, linesFlow_cons, Line.flow, gap_linesFlow]
    | row r =>
      set ends := (rows.head?.map fun last => last.indent != r.indent).getD false
      set done : Output := if ends then alignedRows align rows.reverse else [] with hdone
      set rows' := r :: if ends then [] else rows with hrows
      set lead : Output := if due then [.newline] else []
      have hlead (behind : List Glyph) : gap (lead.flow behind) = gap behind := by
        cases due with
        | false => rfl
        | true => exact gap_gap behind
      -- The rows written before the line and those of its section are the rows so far and the line.
      have hrow (behind : List Glyph)
          (h : gap behind = linesFlow (rows'.reverse.map .row) (linesFlow ls rest)) :
          gap (done.flow (lead.flow behind)) =
            linesFlow (rows.reverse.map .row) (linesFlow (.row r :: ls) rest) := by
        have hone : linesFlow (.row r :: ls) rest = linesFlow [.row r] (linesFlow ls rest) :=
          linesFlow_append [.row r] ls rest
        rw [hone]
        cases hends : ends with
        | true =>
          rw [hdone, if_pos hends, flow_alignedRows, ← linesFlow_gap, hlead, h, hrows, if_pos hends]
          rfl
        | false =>
          rw [hends, if_neg Bool.false_ne_true] at hdone hrows
          rw [hdone, Output.flow_nil, hlead, h, hrows, List.reverse_cons, List.map_append,
            linesFlow_append]
          rfl
      rw [renderFrom]
      split
      · rw [Output.flow_append, Output.flow_append, Output.flow_append]
        refine hrow _ ?_
        rw [flow_alignedRows, ← linesFlow_gap, ih, List.reverse_nil, List.map_nil, linesFlow_nil,
          gap_linesFlow]
      · rw [Output.flow_append, Output.flow_append]
        exact hrow _ (ih rows' false)

theorem linesFlow_tidy (atGap : Bool) (ls : List Line) (rest : List Glyph) :
    linesFlow (tidy atGap ls) rest = linesFlow ls rest := by
  induction ls generalizing atGap with
  | nil => rfl
  | cons l ls ih =>
    cases l with
    | blank =>
      rw [tidy, linesFlow_cons, Line.flow, gap_linesFlow]
      split
      · exact ih true
      · rw [linesFlow_cons, Line.flow, gap_linesFlow, ih]
    | sectionEnd => exact congrArg _ (ih false)
    | row r => exact congrArg _ (ih false)

/-- The flow of printed lines is that of their cells. -/
theorem flow_renderLines (align : Bool) (ls : List Line) (rest : List Glyph) :
    gap ((renderLines align ls).flow rest) = linesFlow ls rest := by
  rw [renderLines, flow_renderFrom, linesFlow_tidy]
  exact gap_linesFlow ls rest

/-- The same without the line break at their end. -/
theorem flow_body (align : Bool) (ls : List Line) (rest : List Glyph) :
    Output.flow (if (renderLines align ls).isBlank then []
      else .newline :: (renderLines align ls).dropEnd '\n') (gap rest) = linesFlow ls rest := by
  have hlines := flow_renderLines align ls (gap rest)
  rw [linesFlow_gap] at hlines
  rw [← hlines]
  split
  · rename_i hblank
    rw [Output.flow_of_isBlank hblank, gap_gap]
    rfl
  · rw [Output.flow_cons, Output.flow_newline, Output.flow_dropEnd rfl]

end HandlerSplit.Print
