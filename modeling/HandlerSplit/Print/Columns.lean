import HandlerSplit.Decoration
import HandlerSplit.Print.Piece
/-!
# Rows and columns

The lines of an indented list are rows of cells. A column spans consecutive rows that all
have a cell in it, and every cell but the last of its row is padded to the width of its
column. Only the last cell of a row may take more than one line. Empty lines and section
marks end the rows that are aligned together, and so does a change of indentation.
-/

namespace HandlerSplit.Print

/-- A line of cells. -/
structure Row where
  indent : Nat
  cells : List Output

/-- A line of a list. -/
inductive Line where
  | row (r : Row)
  /-- An empty line. -/
  | blank
  /-- The end of an aligned section, which writes nothing. -/
  | sectionEnd

/-- Cells that follow a cell of several lines join it. -/
def joinCells : List Output → Output
  | [] => []
  | cell :: cells => (if cell.isBlank then [] else .space :: cell) ++ joinCells cells

/-- The cells of a row, of which only the last may take more than one line. -/
def mergeCells : List Output → List Output
  | [] => []
  | cell :: cells =>
    if cell.isMultiline then [cell ++ joinCells cells] else cell :: mergeCells cells

namespace Line

/-- The line of the given cells. -/
def ofCells (indent : Nat) (cells : List Output) : Line :=
  .row ⟨indent, mergeCells cells⟩

/-- The line of a single cell. -/
def ofText (indent : Nat) (text : Output) : Line :=
  ofCells indent [text]

/-- Whether the line writes something. -/
def isRow : Line → Bool
  | row _ => true
  | _ => false

end Line

/-- A text with the comment behind it in a cell of its own. -/
def withComment (text : Output) (comment : Option Comment) : List Output :=
  text :: (comment.map fun c => [Piece.word c.text]).toList

/-- Comments on lines of their own, with the empty lines before them. At the start of a list
(`first`) the first comment has none. -/
def commentLines (indent : Nat) : Bool → List Comment → List Line
  | _, [] => []
  | first, c :: cs =>
    (if c.blankBefore && !first then [.blank] else []) ++
      .ofText indent [.word c.text] :: commentLines indent false cs

/-- What stands before a node on lines of its own: its leading comments and empty line. -/
def leadingLines (indent : Nat) (decs : Decorations) (first : Bool) : List Line :=
  commentLines indent first decs.leading ++
    if decs.blankBefore && !(first && decs.leading.isEmpty) then [.blank] else []

/-! ## Column widths -/

/-- The width of the column that starts with the given cell widths: one more than the widest
cell, and nothing if all are empty. -/
def columnWidth (widths : List Nat) : Nat :=
  if widths.all (· == 0) then 0 else widths.foldl max 0 + 1

/-- Column widths for rows given by the widths of their padded cells. Neighbouring rows that
have a cell in a column share its width. Rows have at most `n` padded cells. -/
def columnWidths : Nat → List (List Nat) → List (List Nat)
  | 0, rows => rows.map fun _ => []
  | n + 1, rows =>
    (rows.splitBy fun a b => a.isEmpty == b.isEmpty).flatMap fun block =>
      if block.all List.isEmpty then block
      else
        let width := columnWidth (block.map fun row => row.headD 0)
        (columnWidths n (block.map List.tail)).map (width :: ·)

/-- The widths of the padded cells of a row: of all but the last. -/
def Row.paddedWidths (r : Row) : List Nat :=
  r.cells.dropLast.map Output.width

/-- The cells of a row, each but the last padded to the width of its column. Without
alignment a cell that is not empty is followed by one space. -/
def padCells (align : Bool) : List Output → List Nat → Output
  | [], _ => []
  | [cell], _ => cell
  | cell :: cells, widths =>
    let gap : Output :=
      if align then [.spaces (widths.headD 0 - cell.width)]
      else if cell.isBlank then [] else [.space]
    cell ++ gap ++ padCells align cells widths.tail

/-- A row on its line. White space at its end is left out. -/
def Row.line (align : Bool) (r : Row) (widths : List Nat) : Output :=
  let line := Output.dropEnd ' ' (.tabs r.indent :: padCells align r.cells widths)
  if line.chars.all Text.isBlank then [.newline] else line ++ [.newline]

/-- Rows that are aligned together. -/
def alignedRows (align : Bool) (rows : List Row) : Output :=
  let padded := rows.map Row.paddedWidths
  let widths := columnWidths ((padded.map List.length).foldl max 0) padded
  (rows.zip widths).flatMap fun (row, widths) => row.line align widths

/-! ## Lines -/

/-- Leaves out empty lines at the start of a list and after other empty lines. -/
def tidy : Bool → List Line → List Line
  | _, [] => []
  | atGap, .blank :: ls => if atGap then tidy true ls else .blank :: tidy true ls
  | _, l :: ls => l :: tidy false ls

/-- Writes lines out. `rows` are the rows of the current section, last first, and `gap` says
that an empty line is due. -/
def renderFrom (align : Bool) : List Row → Bool → List Line → Output
  | rows, _, [] => alignedRows align rows.reverse
  | rows, gap, .row r :: ls =>
    let ends := (rows.head?.map fun last => last.indent != r.indent).getD false
    let done : Output := if ends then alignedRows align rows.reverse else []
    let rows := r :: if ends then [] else rows
    let lead : Output := if gap then [.newline] else []
    if (r.cells.getLast?.map Output.isMultiline).getD false then
      done ++ lead ++ alignedRows align rows.reverse ++ renderFrom align [] false ls
    else done ++ lead ++ renderFrom align rows false ls
  | rows, _, .blank :: ls => alignedRows align rows.reverse ++ renderFrom align [] true ls
  | rows, gap, .sectionEnd :: ls =>
    alignedRows align rows.reverse ++ renderFrom align [] gap ls

/-- The lines of a list with their indentation, each ended by a line break. -/
def renderLines (align : Bool) (lines : List Line) : Output :=
  renderFrom align [] false (tidy true lines)

end HandlerSplit.Print
