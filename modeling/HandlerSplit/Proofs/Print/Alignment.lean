import HandlerSplit.Proofs.Print.Alignment.Widths
/-!
# Aligned rows

Rows are aligned in sections, lists of rows of one indentation in which only the last cell of a row
may take more than one line, and all that is written of a list of lines are sections and empty lines
(`sections_renderLines`). In a section the cells of a column take the same width in all rows of a
run, so adjacent rows start a cell that both have at the same place (`alignedRows_inColumns`).
-/

namespace HandlerSplit.Print

/-! ## Cells with their spaces -/

/-- A cell, and the number of spaces that are put behind it. -/
structure PlacedCell where
  text : Output
  gap : Nat

namespace PlacedCell

def chars (cell : PlacedCell) : List Char :=
  cell.text.chars ++ List.replicate cell.gap ' '

/-- The number of characters up to the next cell. -/
def width (cell : PlacedCell) : Nat :=
  cell.text.width + cell.gap

end PlacedCell

/-- The indentation and the cells behind it. -/
def lineChars (indent : Nat) (cells : List PlacedCell) : List Char :=
  List.replicate indent '\t' ++ cells.flatMap PlacedCell.chars

/-- How many characters stand before the cell of a column. -/
def cellStart (indent : Nat) (cells : List PlacedCell) (column : Nat) : Nat :=
  (lineChars indent (cells.take column)).length

/-- What is written of a line: no spaces at its end, and nothing if it is all white space. -/
def written (line : List Char) : List Char :=
  if line.all Text.isBlank then [] else Text.dropEndWhile (· == ' ') line

/-- The cells of a row with the spaces that pad them to the given widths. -/
def placeCells : List Output → List Nat → List PlacedCell
  | [], _ => []
  | [cell], _ => [⟨cell, 0⟩]
  | cell :: cells, widths => ⟨cell, widths.headD 0 - cell.width⟩ :: placeCells cells widths.tail

/-- A cell is as wide as its text and the spaces behind it. -/
theorem PlacedCell.chars_length (cell : PlacedCell) : cell.chars.length = cell.width := by
  rw [chars, List.length_append, ← Output.width_eq_length, List.length_replicate]
  rfl

/-- Where a cell starts depends on the widths before it only. -/
theorem cellStart_congr (indent : Nat) {a b : List PlacedCell} {column : Nat}
    (h : (a.take column).map PlacedCell.width = (b.take column).map PlacedCell.width) :
    cellStart indent a column = cellStart indent b column := by
  simp only [cellStart, lineChars, List.length_append, List.length_flatMap, PlacedCell.chars_length, h]

/-- Placing cells leaves their texts as they are. -/
theorem text_placeCells (cells : List Output) (widths : List Nat) :
    (placeCells cells widths).map PlacedCell.text = cells := by
  induction cells generalizing widths with
  | nil => rfl
  | cons cell cells ih =>
    rcases cells with _ | ⟨next, cells⟩
    · rfl
    · rw [placeCells, List.map_cons, ih]
      exact List.cons_ne_nil _ _

theorem length_placeCells (cells : List Output) (widths : List Nat) :
    (placeCells cells widths).length = cells.length := by
  rw [← List.length_map PlacedCell.text, text_placeCells]

/-- No spaces stand behind the last cell of a row. -/
theorem gap_last_placeCells (cells : List Output) (widths : List Nat) :
    ∀ cell ∈ (placeCells cells widths).getLast?, cell.gap = 0 := by
  induction cells generalizing widths with
  | nil => exact nofun
  | cons cell cells ih =>
    rcases cells with _ | ⟨next, cells⟩
    · rintro _ ⟨⟩
      rfl
    · have hne : placeCells (next :: cells) widths.tail ≠ [] := by
        rw [← List.length_pos_iff, length_placeCells]
        exact Nat.succ_pos _
      rw [placeCells, ← List.singleton_append, List.getLast?_append_of_ne_nil _ hne]
      · exact ih widths.tail
      · exact List.cons_ne_nil _ _

/-- A cell in front of another is padded to the width of its column. -/
theorem getElem?_placeCells {cells : List Output} (widths : List Nat) {c : Nat}
    (hc : c + 1 < cells.length) {text : Output} (htext : cells[c]? = some text) :
    (placeCells cells widths)[c]? = some ⟨text, widths[c]?.getD 0 - text.width⟩ := by
  induction c generalizing cells widths with
  | zero =>
    rcases cells with _ | ⟨cell, _ | ⟨next, cells⟩⟩
    · cases htext
    · exact absurd hc (Nat.lt_irrefl _)
    · obtain rfl : cell = text := Option.some.inj htext
      rw [placeCells, List.headD_eq_head?_getD, List.head?_eq_getElem?]
      · rfl
      · exact List.cons_ne_nil _ _
  | succ c ih =>
    rcases cells with _ | ⟨cell, _ | ⟨next, cells⟩⟩
    · cases htext
    · exact absurd hc (Nat.not_lt.mpr (Nat.succ_le_succ (Nat.zero_le _)))
    · rw [placeCells, List.getElem?_cons_succ, ih widths.tail (Nat.lt_of_succ_lt_succ hc) htext,
        List.getElem?_tail]
      exact List.cons_ne_nil _ _

/-- A cell before the last is as wide as its column. -/
theorem width_placeCells {cells : List Output} {widths : List Nat} {c width : Nat}
    (hc : c + 1 < cells.length) (hwidth : widths[c]? = some width)
    (hfits : ∀ text ∈ cells[c]?, text.width ≤ width) :
    ∀ cell ∈ (placeCells cells widths)[c]?, cell.width = width := by
  intro cell hcell
  have htext := List.getElem?_eq_getElem (Nat.lt_of_succ_lt hc)
  rw [getElem?_placeCells widths hc htext, hwidth] at hcell
  obtain rfl := Option.some.inj hcell
  exact Nat.add_sub_cancel' (hfits _ htext)

/-- Padded cells are the cells with their spaces. -/
theorem chars_padCells (cells : List Output) (widths : List Nat) :
    Output.chars (padCells true cells widths) =
      (placeCells cells widths).flatMap PlacedCell.chars := by
  induction cells generalizing widths with
  | nil => rfl
  | cons cell cells ih =>
    rcases cells with _ | ⟨next, cells⟩
    · show cell.chars = cell.chars ++ List.replicate 0 ' ' ++ []
      rw [List.append_nil]
      exact (List.append_nil _).symm
    · have hgap (n : Nat) : Output.chars [.spaces n] = List.replicate n ' ' :=
        (List.append_nil _).trans (chars_spaces n)
      rw [padCells, placeCells, List.flatMap_cons, ← ih, PlacedCell.chars, if_pos rfl,
        Output.chars_append, Output.chars_append, hgap]
      all_goals exact List.cons_ne_nil _ _

/-! ## Lines -/

/-- What ends a text is dropped from its second part first. -/
theorem dropEndWhile_append_eq (p : Char → Bool) (cs ds : List Char) :
    Text.dropEndWhile p (cs ++ ds) =
      if Text.dropEndWhile p ds = [] then Text.dropEndWhile p cs else cs ++ Text.dropEndWhile p ds := by
  simp only [Text.dropEndWhile, List.reverse_append, List.dropWhile_append, List.reverse_eq_nil_iff,
    List.isEmpty_iff]
  split
  · rfl
  · rw [List.reverse_append, List.reverse_reverse]

/-- Dropping a character from pieces drops it from their text. -/
theorem chars_dropFromLast (c : Char) (ps : List Piece) :
    Output.chars (Output.dropFromLast c ps).reverse =
      Text.dropEndWhile (· == c) (Output.chars ps.reverse) := by
  induction ps with
  | nil => rfl
  | cons p ps ih =>
    have hlast : Output.chars (p :: ps).reverse = Output.chars ps.reverse ++ p.chars := by
      rw [List.reverse_cons, Output.chars_append]
      exact congrArg (_ ++ ·) (List.append_nil _)
    rw [hlast, dropEndWhile_append_eq, Output.dropFromLast]
    split
    · rename_i hempty
      rw [if_pos (List.isEmpty_iff.mp hempty), ih]
    · rename_i hempty
      rw [if_neg (mt List.isEmpty_iff.mpr hempty)]
      obtain ⟨tail, htail, -⟩ := Text.dropEndWhile_append (· == c) p.chars
      split
      · rename_i hlength
        have hsum := congrArg List.length htail
        rw [List.length_append, ← beq_iff_eq.mp hlength] at hsum
        have hnil : tail = [] := List.length_eq_zero_iff.mp (Nat.add_eq_left.mp hsum.symm)
        rw [hnil, List.append_nil] at htail
        rw [hlast, ← htail]
      · rw [List.reverse_cons, Output.chars_append]
        refine congrArg (_ ++ ·) ((List.append_nil _).trans ?_)
        exact String.toList_ofList

/-- Dropping a character at the end of an output drops it from its text. -/
theorem Output.chars_dropEnd (c : Char) (o : Output) :
    (o.dropEnd c).chars = Text.dropEndWhile (· == c) o.chars := by
  rw [dropEnd, chars_dropFromLast, List.reverse_reverse]

/-- The line of a row is that of its cells with their spaces. -/
theorem chars_line (r : Row) (widths : List Nat) :
    (r.line true widths).chars =
      written (lineChars r.indent (placeCells r.cells widths)) ++ ['\n'] := by
  have hfull : Output.chars (.tabs r.indent :: padCells true r.cells widths) =
      lineChars r.indent (placeCells r.cells widths) := by
    rw [lineChars, ← chars_padCells]
    exact congrArg (· ++ _) (chars_tabs _)
  rw [Row.line, Output.chars_dropEnd, hfull, written]
  set line := lineChars r.indent (placeCells r.cells widths)
  have hblank : (Text.dropEndWhile (· == ' ') line).all Text.isBlank = line.all Text.isBlank := by
    obtain ⟨tail, htail, hspaces⟩ := Text.dropEndWhile_append (· == ' ') line
    have hall : tail.all Text.isBlank = true := List.all_eq_true.mpr fun c hc => by
      rw [beq_iff_eq.mp (hspaces c hc)]
      rfl
    conv_rhs => rw [htail, List.all_append, hall, Bool.and_true]
  rw [hblank]
  split
  · rfl
  · rw [Output.chars_append, Output.chars_dropEnd, hfull]
    rfl

/-! ## Columns -/

/-- The width of the cell that a row has in a column. -/
def textWidth (column : Nat) (cells : List PlacedCell) : Nat :=
  (cells[column]?.map (·.text.width)).getD 0

/-- Rows of which the cells of a column take the width that is needed in their run of rows. -/
def FitsColumns (placed : List (List PlacedCell)) : Prop :=
  ∀ column before run behind, placed = before ++ run ++ behind →
    MaximalRun (column + 1 < ·.length) before run behind →
      ∀ cells ∈ run, ∀ cell ∈ cells[column]?, cell.width = columnWidth (run.map (textWidth column))

/-- A column is as wide in a row as the cell the row has there. -/
theorem textWidth_placeCells (column : Nat) (cells : List Output) (widths : List Nat) :
    textWidth column (placeCells cells widths) = (cells[column]?.map Output.width).getD 0 := by
  conv_rhs => rw [← text_placeCells cells widths, List.getElem?_map, Option.map_map]
  rfl

/-- All cells of a row but the last are padded. -/
theorem Row.lt_length_paddedWidths {r : Row} {column : Nat} :
    column < r.paddedWidths.length ↔ column + 1 < r.cells.length := by
  rw [paddedWidths, List.length_map, List.length_dropLast]
  omega

/-- A padded cell counts with the width of its text. -/
theorem Row.getD_paddedWidths {r : Row} {column : Nat} (hcolumn : column + 1 < r.cells.length) :
    r.paddedWidths.getD column 0 = (r.cells[column]?.map Output.width).getD 0 := by
  rw [paddedWidths, List.getD_eq_getElem?_getD, List.getElem?_map, List.getElem?_dropLast,
    if_pos (Nat.lt_sub_of_add_lt hcolumn)]

/-- Widths that are fitted to rows place their cells in columns. -/
theorem Fitted.fitsColumns {n : Nat} {zs : List (Row × List Nat)}
    (h : Fitted n (zs.map fun z => (z.1.paddedWidths, z.2))) :
    FitsColumns (zs.map fun z => placeCells z.1.cells z.2) := by
  intro column before run behind heq hrun cells hcells cell hcell
  obtain ⟨zs, behind, rfl, hzs, rfl⟩ := List.map_eq_append_iff.mp heq
  obtain ⟨before, run, rfl, rfl, rfl⟩ := List.map_eq_append_iff.mp hzs
  rw [maximalRun_map] at hrun
  simp only [length_placeCells] at hrun
  obtain ⟨z, hz, rfl⟩ := List.mem_map.mp hcells
  set needed := (run.map fun z => placeCells z.1.cells z.2).map (textWidth column) with hneeded
  have hcolumn : z.2[column]? = some (columnWidth needed) := by
    have hpadded : MaximalRun (column < ·.1.length) (before.map fun z => (z.1.paddedWidths, z.2))
        (run.map fun z => (z.1.paddedWidths, z.2)) (behind.map fun z => (z.1.paddedWidths, z.2)) :=
      (maximalRun_map _).mpr (hrun.congr fun z => Row.lt_length_paddedWidths.symm)
    rw [List.map_append, List.map_append] at h
    have hwidth := h.width_of_run column hpadded _ (List.mem_map_of_mem hz)
    rw [List.map_map] at hwidth
    rw [hneeded, List.map_map]
    refine hwidth.trans (congrArg (some <| columnWidth ·) (List.map_congr_left fun y hy => ?_))
    exact (Row.getD_paddedWidths (hrun.inside y hy)).trans (textWidth_placeCells ..).symm
  refine width_placeCells (hrun.inside z hz) hcolumn (fun text htext => ?_) cell hcell
  have hmem : text.width ∈ needed := by
    refine List.mem_map.mpr ⟨_, hcells, ?_⟩
    rw [textWidth_placeCells, Option.mem_def.mp htext]
    rfl
  exact (lt_columnWidth hmem).elim Nat.le_of_lt fun hzero => hzero ▸ Nat.zero_le _

namespace FitsColumns

variable {placed : List (List PlacedCell)} (h : FitsColumns placed)

include h

/-- The cells of a run take the same width. -/
theorem width_eq (column : Nat) {before behind : List (List PlacedCell)} (run : List (List PlacedCell))
    (heq : placed = before ++ run ++ behind) (hrun : ∀ cells ∈ run, column + 1 < cells.length) :
    ∃ width, ∀ cells ∈ run, ∀ cell ∈ cells[column]?,
      cell.width = width ∧ (cell.text.width < width ∨ cell.text.width = 0) := by
  obtain ⟨before₀, before₁, behind₁, behind₀, rfl, rfl, hmax⟩ :=
    exists_maximalRun hrun before behind
  refine ⟨columnWidth ((before₁ ++ run ++ behind₁).map (textWidth column)),
    fun cells hcells cell hcell => ?_⟩
  have hmem : cells ∈ before₁ ++ run ++ behind₁ := by simp [hcells]
  refine ⟨h column before₀ _ behind₀ (by simp only [heq, List.append_assoc]) hmax cells hmem cell hcell,
    lt_columnWidth (List.mem_map.mpr ⟨cells, hmem, ?_⟩)⟩
  rw [textWidth, Option.mem_def.mp hcell]
  rfl

/-- Adjacent rows that both have a cell behind a column start it at the same place. -/
theorem cellStart_eq_cellStart (indent : Nat) : placed.IsChain fun a b =>
    ∀ column, column + 1 < a.length → column + 1 < b.length →
      cellStart indent a (column + 1) = cellStart indent b (column + 1) := by
  refine List.isChain_iff_forall_rel_of_append_cons_cons.mpr fun a b before behind heq column ha hb => ?_
  refine cellStart_congr indent (List.ext_getElem? fun c => ?_)
  rw [List.getElem?_map, List.getElem?_map, List.getElem?_take, List.getElem?_take]
  split
  · have hadjacent : placed = before ++ [a, b] ++ behind := by
      rw [heq, List.append_assoc]
      rfl
    obtain ⟨width, hwidth⟩ := h.width_eq c [a, b] hadjacent
      (List.forall_mem_cons.mpr ⟨by omega, List.forall_mem_singleton.mpr (by omega)⟩)
    have hac := List.getElem?_eq_getElem (l := a) (i := c) (by omega)
    have hbc := List.getElem?_eq_getElem (l := b) (i := c) (by omega)
    rw [hac, hbc, Option.map_some, Option.map_some, (hwidth a (by simp) _ hac).1,
      (hwidth b (by simp) _ hbc).1]
  · rfl

/-- A cell that is not empty is followed by a space, unless it is the last. -/
theorem gap_pos : ∀ cells ∈ placed, ∀ cell ∈ cells.dropLast, cell.text.chars ≠ [] → 0 < cell.gap := by
  intro cells hcells cell hcell hne
  obtain ⟨before, behind, rfl⟩ := List.append_of_mem hcells
  obtain ⟨c, hc⟩ := List.mem_iff_getElem?.mp hcell
  rw [List.getElem?_dropLast] at hc
  split at hc
  · rename_i hlt
    have halone : before ++ cells :: behind = before ++ [cells] ++ behind := by
      rw [List.append_assoc]
      rfl
    obtain ⟨width, hwidth⟩ := h.width_eq c [cells] halone
      (List.forall_mem_singleton.mpr (Nat.add_lt_of_lt_sub hlt))
    obtain ⟨hpadded, hwide⟩ := hwidth cells List.mem_cons_self cell hc
    have hpos : cell.text.width ≠ 0 := fun hzero => hne (Output.chars_of_width hzero)
    have hsum : cell.text.width + cell.gap = width := hpadded
    omega
  · cases hc

/-- A column of empty cells takes no width. -/
theorem width_eq_zero : ∀ column before run behind, placed = before ++ run ++ behind →
    MaximalRun (column + 1 < ·.length) before run behind →
      (∀ cells ∈ run, ∀ cell ∈ cells[column]?, cell.text.chars = []) →
        ∀ cells ∈ run, ∀ cell ∈ cells[column]?, cell.width = 0 := by
  intro column before run behind heq hrun hempty cells hcells cell hcell
  rw [h column before run behind heq hrun cells hcells cell hcell]
  refine columnWidth_eq_zero (List.forall_mem_map.mpr fun cells hcells => ?_)
  have hcell := List.getElem?_eq_getElem (Nat.lt_of_succ_lt (hrun.inside cells hcells))
  rw [textWidth, hcell, Option.map_some, Option.getD_some, Output.width_eq_length,
    hempty cells hcells _ hcell]
  rfl

end FitsColumns

/-- The widths of the columns of rows. -/
def rowWidths (rows : List Row) : List (List Nat) :=
  let padded := rows.map Row.paddedWidths
  columnWidths ((padded.map List.length).foldl max 0) padded

/-- The cells of rows with the spaces that align them. -/
def placeRows (rows : List Row) : List (List PlacedCell) :=
  (rows.zip (rowWidths rows)).map fun z => placeCells z.1.cells z.2

theorem length_paddedWidths_le {rows : List Row} {r : Row} (hr : r ∈ rows) :
    r.paddedWidths.length ≤ ((rows.map Row.paddedWidths).map List.length).foldl max 0 :=
  (le_foldl_max _ 0).2 _ (List.mem_map_of_mem (List.mem_map_of_mem hr))

theorem length_rowWidths (rows : List Row) : (rowWidths rows).length = rows.length := by
  have hwide := wide_columnWidths (((rows.map Row.paddedWidths).map List.length).foldl max 0)
    (List.forall_mem_map.mpr fun _ hr => length_paddedWidths_le hr)
  rw [rowWidths, ← hwide.length_eq, List.length_map]

/-- Placing rows leaves the texts of their cells as they are. -/
theorem texts_placeRows (rows : List Row) :
    (placeRows rows).map (·.map PlacedCell.text) = rows.map Row.cells := by
  rw [placeRows, List.map_map]
  conv_rhs => rw [← List.map_fst_zip (length_rowWidths rows).ge, List.map_map]
  exact List.map_congr_left fun z _ => text_placeCells z.1.cells z.2

/-- The cells of placed rows fit their columns. -/
theorem fitsColumns_placeRows (rows : List Row) : FitsColumns (placeRows rows) := by
  set n := ((rows.map Row.paddedWidths).map List.length).foldl max 0
  have hpadded : (rows.zip (rowWidths rows)).map (fun z => z.1.paddedWidths) =
      rows.map Row.paddedWidths := by
    conv_rhs => rw [← List.map_fst_zip (length_rowWidths rows).ge, List.map_map]
    rfl
  refine Fitted.fitsColumns (n := n) ⟨?_, ?_⟩
  · exact List.forall_mem_map.mpr fun z hz => length_paddedWidths_le (List.of_mem_zip hz).1
  · have hwidths : columnWidths n ((rows.zip (rowWidths rows)).map fun z => z.1.paddedWidths) =
        rowWidths rows := by
      rw [hpadded]
      rfl
    simp only [List.map_map, Function.comp_def]
    exact (List.map_snd_zip (length_rowWidths rows).le).trans hwidths.symm

/-- Aligned rows are lines of placed cells, without spaces at their ends. -/
theorem chars_alignedRows {indent : Nat} {rows : List Row} (hindent : ∀ r ∈ rows, r.indent = indent) :
    (alignedRows true rows).chars =
      (placeRows rows).flatMap fun cells => written (lineChars indent cells) ++ ['\n'] := by
  have hlines : alignedRows true rows =
      (rows.zip (rowWidths rows)).flatMap fun z => z.1.line true z.2 := rfl
  rw [hlines, placeRows, List.flatMap_map, Output.chars, List.flatMap_assoc]
  refine List.flatMap_congr fun z hz => ?_
  rw [← hindent z.1 (List.of_mem_zip hz).1]
  exact chars_line z.1 z.2

theorem not_mem_chars {o : Output} (h : o.isMultiline = false) : '\n' ∉ o.chars := by
  intro hmem
  obtain ⟨p, hp, hmem⟩ := List.mem_flatMap.mp hmem
  have hline := List.any_eq_false.mp h p hp
  cases p with
  | word t => exact hline (List.contains_iff_mem.mpr hmem)
  | newline => exact hline rfl
  | spaces n =>
    rw [chars_spaces] at hmem
    exact absurd (List.eq_of_mem_replicate hmem) (by decide)
  | tabs n =>
    rw [chars_tabs] at hmem
    exact absurd (List.eq_of_mem_replicate hmem) (by decide)

/-- If only the last cell takes more than one line, what stands before a cell does not. -/
theorem not_mem_lineChars (indent : Nat) {cells : List PlacedCell}
    (h : ∀ cell ∈ cells.dropLast, '\n' ∉ cell.text.chars) {column : Nat}
    (hcolumn : column < cells.length) : '\n' ∉ lineChars indent (cells.take column) := by
  rw [lineChars, List.mem_append, not_or]
  refine ⟨fun hmem => absurd (List.eq_of_mem_replicate hmem) (by decide), fun hmem => ?_⟩
  obtain ⟨cell, hcell, hmem⟩ := List.mem_flatMap.mp hmem
  have hdrop : cell ∈ cells.dropLast := by
    rw [List.dropLast_eq_take]
    exact List.take_subset_take_left cells (Nat.le_sub_one_of_lt hcolumn) hcell
  rcases List.mem_append.mp hmem with hmem | hmem
  · exact h cell hdrop hmem
  · exact absurd (List.eq_of_mem_replicate hmem) (by decide)

/-! ## Sections of a list -/

/-- Rows that are aligned together: they have one indentation, and only the last cell of a row may
take more than one line. -/
structure IsSection (indent : Nat) (rows : List Row) : Prop where
  indent : ∀ r ∈ rows, r.indent = indent
  single : ∀ r ∈ rows, ∀ cell ∈ r.cells.dropLast, cell.isMultiline = false

/-- The rows of a line. -/
def Line.rows : Line → List Row
  | .row r => [r]
  | _ => []

/-- An output that consists of sections with the given rows, in order, and of empty lines. -/
inductive Sections (align : Bool) : Output → List Row → Prop
  | nil : Sections align [] []
  | emptyLine {o : Output} {rows : List Row} :
      Sections align o rows → Sections align (.newline :: o) rows
  | rows {indent : Nat} {rows rest : List Row} {o : Output} :
      IsSection indent rows → Sections align o rest →
        Sections align (alignedRows align rows ++ o) (rows ++ rest)

theorem isMultiline_mergeCells (cells : List Output) :
    ∀ cell ∈ (mergeCells cells).dropLast, cell.isMultiline = false := by
  induction cells with
  | nil => exact List.forall_mem_nil _
  | cons cell cells ih =>
    rw [mergeCells]
    split
    · exact List.forall_mem_nil _
    · rename_i hsingle
      rcases hmerged : mergeCells cells with _ | ⟨next, merged⟩
      · exact List.forall_mem_nil _
      · rw [hmerged] at ih
        exact List.forall_mem_cons.mpr ⟨Bool.eq_false_iff.mpr hsingle, ih⟩

/-- A row of the same indentation goes on with a section. -/
theorem IsSection.concat {indent : Nat} {rows : List Row} (h : IsSection indent rows.reverse) {r : Row}
    (hindent : r.indent = indent) (hsingle : ∀ cell ∈ r.cells.dropLast, cell.isMultiline = false) :
    IsSection indent (r :: rows).reverse where
  indent := by
    rw [List.reverse_cons]
    exact List.forall_mem_append.mpr ⟨h.indent, List.forall_mem_singleton.mpr hindent⟩
  single := by
    rw [List.reverse_cons]
    exact List.forall_mem_append.mpr ⟨h.single, List.forall_mem_singleton.mpr hsingle⟩

/-- A section starts with no rows. -/
theorem isSection_nil (indent : Nat) : IsSection indent [] :=
  ⟨List.forall_mem_nil _, List.forall_mem_nil _⟩

/-- A row ends the section before it if it has another indentation, and its own if it takes more
than one line. -/
theorem renderFrom_row (align : Bool) (rows : List Row) (gap : Bool) (r : Row) (ls : List Line) :
    renderFrom align rows gap (.row r :: ls) =
      let ends := (rows.head?.map fun last => last.indent != r.indent).getD false
      let waiting := r :: if ends then [] else rows
      (if ends then alignedRows align rows.reverse else []) ++ ((if gap then [.newline] else []) ++
        if (r.cells.getLast?.map Output.isMultiline).getD false then
          alignedRows align waiting.reverse ++ renderFrom align [] false ls
        else renderFrom align waiting false ls) := by
  rw [renderFrom]
  split
  · simp only [List.append_assoc]
  · simp only [List.append_assoc]

/-- What is written from a state in which `rows` wait for the end of their section. -/
theorem sections_renderFrom (align : Bool) {ls : List Line}
    (hls : ∀ l ∈ ls, ∀ r ∈ l.rows, ∀ cell ∈ r.cells.dropLast, cell.isMultiline = false)
    {indent : Nat} {rows : List Row} (hrows : IsSection indent rows.reverse) {gap : Bool}
    (hgap : gap = true → rows = []) :
    Sections align (renderFrom align rows gap ls) (rows.reverse ++ ls.flatMap Line.rows) := by
  induction ls generalizing indent rows gap with
  | nil =>
    have hlast : Sections align (alignedRows align rows.reverse ++ []) (rows.reverse ++ []) :=
      .rows hrows .nil
    rwa [List.append_nil] at hlast
  | cons l ls ih =>
    obtain ⟨hl, hls'⟩ := List.forall_mem_cons.mp hls
    cases l with
    | blank => exact .rows hrows (ih hls' (isSection_nil 0) fun _ => rfl)
    | sectionEnd => exact .rows hrows (ih hls' (isSection_nil 0) fun _ => rfl)
    | row r =>
      have hsingle := hl r (List.mem_singleton_self r)
      -- The row goes to those that wait, and if it takes more than one line, the section ends.
      have hgrown {indent : Nat} {rows' : List Row} (hrows' : IsSection indent rows'.reverse) :
          Sections align
            (if (r.cells.getLast?.map Output.isMultiline).getD false then
              alignedRows align rows'.reverse ++ renderFrom align [] false ls
            else renderFrom align rows' false ls) (rows'.reverse ++ ls.flatMap Line.rows) := by
        split
        · exact .rows hrows' (ih hls' (isSection_nil 0) (absurd · Bool.false_ne_true))
        · exact ih hls' hrows' (absurd · Bool.false_ne_true)
      have hnew : IsSection r.indent [r].reverse := (isSection_nil r.indent).concat rfl hsingle
      rw [renderFrom_row]
      rcases rows with _ | ⟨last, rows⟩
      · cases gap with
        | false => exact hgrown hnew
        | true => exact .emptyLine (hgrown hnew)
      · have hnogap : gap = false := Bool.eq_false_iff.mpr (mt hgap (List.cons_ne_nil _ _))
        subst hnogap
        have hlast : last.indent = indent := hrows.indent last (by simp)
        by_cases hsame : last.indent = r.indent
        · have hjoined := hgrown (hrows.concat (hsame.symm.trans hlast) hsingle)
          have hends : (last.indent != r.indent) = false := bne_eq_false_iff_eq.mpr hsame
          have hrest : (last :: rows).reverse ++ (Line.row r :: ls).flatMap Line.rows =
              (r :: last :: rows).reverse ++ ls.flatMap Line.rows := by
            rw [List.reverse_cons (a := r), List.append_assoc]
            rfl
          rw [hrest]
          simp only [List.head?_cons, Option.map_some, Option.getD_some, hends]
          exact hjoined
        · have hends : (last.indent != r.indent) = true := bne_iff_ne.mpr hsame
          simp only [List.head?_cons, Option.map_some, Option.getD_some, hends]
          exact .rows hrows (hgrown hnew)

/-- What is written of the lines of a list consists of sections with their rows, and of
empty lines. -/
theorem sections_renderLines (align : Bool) {ls : List Line}
    (hls : ∀ l ∈ ls, ∀ r ∈ l.rows, ∃ cells, r.cells = mergeCells cells) :
    Sections align (renderLines align ls) (ls.flatMap Line.rows) := by
  have hsingle : ∀ l ∈ tidy true ls, ∀ r ∈ l.rows, ∀ cell ∈ r.cells.dropLast,
      cell.isMultiline = false := by
    intro l hl r hr
    obtain ⟨cells, hcells⟩ := hls l ((tidy_sublist true ls).subset hl) r hr
    rw [hcells]
    exact isMultiline_mergeCells cells
  have hsections : Sections align (renderLines align ls) ((tidy true ls).flatMap Line.rows) :=
    sections_renderFrom align hsingle (isSection_nil 0) fun _ => rfl
  rwa [flatMap_tidy rfl] at hsections

/-! ## Aligned rows -/

/-- Rows of one indentation in columns: each row has its cells in order, with spaces
between them. -/
structure InColumns (indent : Nat) (rows : List Row) (placed : List (List PlacedCell)) : Prop where
  /-- The cells are those of the rows. -/
  texts : placed.map (·.map PlacedCell.text) = rows.map Row.cells
  /-- Spaces are put between cells only. -/
  last : ∀ cells ∈ placed, ∀ cell ∈ cells.getLast?, cell.gap = 0
  /-- What stands before a cell takes one line. -/
  single : ∀ cells ∈ placed, ∀ column < cells.length, '\n' ∉ lineChars indent (cells.take column)
  /-- Adjacent rows that both have a cell behind a column start it at the same place. -/
  start : placed.IsChain fun a b => ∀ column, column + 1 < a.length → column + 1 < b.length →
    cellStart indent a (column + 1) = cellStart indent b (column + 1)
  /-- A cell that is not empty is followed by a space, unless it is the last. -/
  gap : ∀ cells ∈ placed, ∀ cell ∈ cells.dropLast, cell.text.chars ≠ [] → 0 < cell.gap
  /-- A column of empty cells takes no width. -/
  unused : ∀ column before run behind, placed = before ++ run ++ behind →
    MaximalRun (column + 1 < ·.length) before run behind →
      (∀ cells ∈ run, ∀ cell ∈ cells[column]?, cell.text.chars = []) →
        ∀ cells ∈ run, ∀ cell ∈ cells[column]?, cell.width = 0

/-- The rows of a section are placed in columns. -/
theorem inColumns_placeRows {indent : Nat} {rows : List Row} (h : IsSection indent rows) :
    InColumns indent rows (placeRows rows) where
  texts := texts_placeRows rows
  last := by
    intro cells hcells
    obtain ⟨z, -, rfl⟩ := List.mem_map.mp hcells
    exact gap_last_placeCells z.1.cells z.2
  single := by
    intro cells hcells column hcolumn
    obtain ⟨z, hz, rfl⟩ := List.mem_map.mp hcells
    refine not_mem_lineChars indent (fun cell hcell => not_mem_chars ?_) hcolumn
    refine h.single z.1 (List.of_mem_zip hz).1 cell.text ?_
    rw [← text_placeCells z.1.cells z.2, ← List.map_dropLast]
    exact List.mem_map_of_mem hcell
  start := (fitsColumns_placeRows rows).cellStart_eq_cellStart indent
  gap := (fitsColumns_placeRows rows).gap_pos
  unused := (fitsColumns_placeRows rows).width_eq_zero

/-- Rows of one indentation are written in columns, without the spaces at the ends of
their lines. -/
theorem alignedRows_inColumns {indent : Nat} {rows : List Row} (h : IsSection indent rows) :
    ∃ placed, InColumns indent rows placed ∧ (alignedRows true rows).chars =
      placed.flatMap fun cells => written (lineChars indent cells) ++ ['\n'] :=
  ⟨placeRows rows, inColumns_placeRows h, chars_alignedRows h.indent⟩

/-- Rows with empty cells, and of different lengths. -/
def sparseRows : List Row :=
  [⟨1, [[.word "a"], [.word "int"], [], [.word "// c"]]⟩,
    ⟨1, [[.word "long"], [.word "T"], [.word "= x"], [.word "// d"]]⟩, ⟨1, [[.word "e"]]⟩,
    ⟨1, [[.word "bc"], [], [], [.word "// f"]]⟩]

theorem alignedRows_inColumns_sparse :
    IsSection 1 sparseRows ∧
      (alignedRows true sparseRows).render =
        "\ta    int     // c\n\tlong T   = x // d\n\te\n\tbc // f\n" ∧
        ∃ placed, InColumns 1 sparseRows placed ∧ (alignedRows true sparseRows).chars =
          placed.flatMap fun cells => written (lineChars 1 cells) ++ ['\n'] := by
  have hsection : IsSection 1 sparseRows := ⟨by decide, by decide⟩
  exact ⟨hsection, by decide +kernel, alignedRows_inColumns hsection⟩

/-- Rows that are written in columns, with the spaces at the ends of their lines. -/
def WrittenWhole (indent : Nat) (rows : List Row) : Prop :=
  ∃ placed, InColumns indent rows placed ∧
    (alignedRows true rows).chars = placed.flatMap fun cells => lineChars indent cells ++ ['\n']

/-- Rows of which the first ends with an empty cell. -/
def openRows : List Row :=
  [⟨1, [[.word "a"], [.word ""]]⟩, ⟨1, [[.word "bb"], [.word "string"]]⟩]

/-- A row of an empty cell. -/
def blankRows : List Row :=
  [⟨1, [[.word ""]]⟩]

/-- A cell that is not empty has no space behind it if all that follows it is empty, and a row of
empty cells has no indentation. -/
theorem alignedRows_trimmed :
    (IsSection 1 openRows ∧ ¬WrittenWhole 1 openRows) ∧
      IsSection 1 blankRows ∧ ¬WrittenWhole 1 blankRows := by
  refine ⟨⟨⟨by decide, by decide⟩, ?_⟩, ⟨by decide, by decide⟩, ?_⟩
  · rintro ⟨placed, hcolumns, hchars⟩
    obtain ⟨cells, rows, rfl, hcells, -⟩ := List.map_eq_cons_iff.mp hcolumns.texts
    obtain ⟨first, rest, rfl, hfirst, hrest⟩ := List.map_eq_cons_iff.mp hcells
    obtain ⟨second, rest, rfl, -, -⟩ := List.map_eq_cons_iff.mp hrest
    have hgap : 0 < first.gap := by
      refine hcolumns.gap _ List.mem_cons_self first List.mem_cons_self ?_
      rw [hfirst]
      decide
    obtain ⟨n, hn⟩ := Nat.exists_eq_add_one.mpr hgap
    have htext : first.chars = 'a' :: ' ' :: List.replicate n ' ' := by
      rw [PlacedCell.chars, hfirst, hn]
      rfl
    have hwritten : (alignedRows true openRows).chars[2]? = some '\n' := by decide +kernel
    rw [hchars, List.flatMap_cons, lineChars, List.flatMap_cons, htext] at hwritten
    exact absurd (Option.some.inj hwritten) (by decide)
  · rintro ⟨placed, hcolumns, hchars⟩
    obtain ⟨cells, rows, rfl, -, -⟩ := List.map_eq_cons_iff.mp hcolumns.texts
    have hwritten : (alignedRows true blankRows).chars[0]? = some '\n' := by decide +kernel
    rw [hchars, List.flatMap_cons, lineChars] at hwritten
    exact absurd (Option.some.inj hwritten) (by decide)

end HandlerSplit.Print
