import HandlerSplit.Print.Columns
import HandlerSplit.Proofs.Lexer.Solid
import HandlerSplit.Proofs.Print.Writing
import Mathlib.Data.List.Forall2
import Mathlib.Data.List.SplitBy
/-!
# The tokens of rows and columns

A cell is padded, joined to the cell before it or left out if it is empty, and the spaces at the
end of its line are dropped; lines are put into sections, and empty lines go. None of this touches
a word: the tokens of the printed lines are those of their cells (`whole_renderLines`).
-/

namespace HandlerSplit.Print

namespace Output

/-! ## White space -/

theorem length_chars (p : Piece) : p.chars.length = p.width := by
  cases p with
  | word t => rfl
  | newline => rfl
  | _ n => exact (congrArg List.length String.toList_ofList).trans List.length_replicate

/-- The width of an output is the number of its characters. -/
theorem width_eq_length (o : Output) : o.width = o.chars.length := by
  induction o with
  | nil => rfl
  | cons p o ih =>
    show p.width + Output.width o = (p.chars ++ Output.chars o).length
    rw [List.length_append, length_chars, ih]

/-- What has no width has no characters. -/
theorem chars_of_width {o : Output} (h : o.width = 0) : o.chars = [] :=
  List.length_eq_zero_iff.mp ((width_eq_length o).symm.trans h)

/-- A blank output has no width. -/
theorem width_of_isBlank {o : Output} (h : o.isBlank = true) : o.width = 0 := by
  induction o with
  | nil => rfl
  | cons p o ih =>
    rw [isBlank, List.all_cons, Bool.and_eq_true, beq_iff_eq] at h
    show p.width + Output.width o = 0
    rw [h.1, ih h.2]

/-- An output without characters has no words. -/
theorem kinds_of_chars {o : Output} (hlegible : o.Legible) (h : o.chars = []) : o.kinds = [] := by
  refine List.filterMap_eq_nil_iff.mpr fun p hp => ?_
  have hempty : p.chars = [] := List.flatMap_eq_nil_iff.mp h p hp
  cases p with
  | word t =>
    obtain ⟨k, ⟨c, cs, htext, -⟩, hk⟩ := hlegible t hp
    have ht : t.toList = [] := hempty
    rw [← hk, htext] at ht
    cases ht
  | _ => rfl

theorem after_of_chars {o : Output} (hlegible : o.Legible) (h : o.chars = []) (s : Before) :
    o.after s = s := by
  induction o generalizing s with
  | nil => rfl
  | cons p o ih =>
    obtain ⟨hp, ho⟩ := List.append_eq_nil_iff.mp (show p.chars ++ Output.chars o = [] from h)
    have hword : p ≠ .word "" := by
      rintro rfl
      obtain ⟨k, ⟨c, cs, htext, -⟩, hk⟩ := hlegible "" List.mem_cons_self
      rw [hk] at htext
      cases htext
    show Output.after (p.after s) o = s
    rw [p.after_of_empty hp s hword]
    exact ih (fun t ht => hlegible t (List.mem_cons_of_mem p ht)) ho s

/-- Right before the place behind an output stands its last word, if anything does. -/
theorem after_none (o : Output) : o.after none = none ∨ o.after none = o.kinds.getLast? := by
  induction o using List.reverseRecOn with
  | nil => exact .inl rfl
  | append_singleton o p ih =>
    rw [after_append, kinds_append]
    show p.after (Output.after none o) = none ∨ p.after (Output.after none o) = _
    cases p with
    | word t =>
      right
      show some (kindOf t) = (kinds o ++ [kindOf t]).getLast?
      rw [List.getLast?_concat]
    | _ =>
      rw [Piece.after]
      · split
        · rwa [show kinds o ++ kinds [_] = kinds o from List.append_nil _]
        · exact .inl rfl
      · intro t ht
        cases ht

/-! ## Spaces at the end -/

/-- Nothing is dropped if the last character is to stay. -/
theorem dropEndWhile_of_last {p : Char → Bool} {cs : List Char}
    (h : ∀ d ∈ cs.getLast?, p d = false) : Text.dropEndWhile p cs = cs := by
  induction cs using List.reverseRecOn with
  | nil => rfl
  | append_singleton cs d =>
    have hd := h d (List.getLast?_concat)
    rw [Text.dropEndWhile, List.reverse_append, List.reverse_singleton, List.singleton_append,
      List.dropWhile_cons_of_neg (by rw [hd]; exact Bool.false_ne_true), List.reverse_cons,
      List.reverse_reverse]

theorem dropEndWhile_replicate (p : Char → Bool) (n : Nat) (d : Char) :
    Text.dropEndWhile p (List.replicate n d) = List.replicate n d ∨
      Text.dropEndWhile p (List.replicate n d) = [] := by
  by_cases hd : p d = true
  · right
    rw [Text.dropEndWhile, List.reverse_replicate, List.dropWhile_eq_nil_iff.mpr]
    · rfl
    · intro e he
      rwa [List.eq_of_mem_replicate he]
  · left
    refine dropEndWhile_of_last fun e he => Bool.eq_false_iff.mpr ?_
    rwa [List.eq_of_mem_replicate (List.mem_of_mem_getLast? he)]

/-- At the end of a piece all of it is dropped, or nothing; a word is kept. -/
theorem dropEndWhile_chars {c : Char} (hc : c = ' ' ∨ c = '\n') {p : Piece}
    (hp : ∀ t, p = .word t → ∃ k : TokenKind, k.Legible ∧ k.text = t) :
    Text.dropEndWhile (· == c) p.chars = p.chars ∨
      (Text.dropEndWhile (· == c) p.chars = [] ∧ p.kind? = none) := by
  cases p with
  | word t =>
    left
    obtain ⟨k, hk, rfl⟩ := hp t rfl
    refine dropEndWhile_of_last fun d hd => beq_false_of_ne ?_
    have hblank := hk.last d hd
    rintro rfl
    rcases hc with rfl | rfl <;> exact absurd hblank (by decide)
  | spaces n =>
    rw [chars_spaces]
    exact (dropEndWhile_replicate _ n ' ').imp_right fun h => ⟨h, rfl⟩
  | tabs n =>
    rw [chars_tabs]
    exact (dropEndWhile_replicate _ n '\t').imp_right fun h => ⟨h, rfl⟩
  | newline => exact (dropEndWhile_replicate _ 1 '\n').imp_right fun h => ⟨h, rfl⟩

/-- What is dropped from the end holds no tokens. -/
theorem dropFromLast_append {c : Char} (hc : c = ' ' ∨ c = '\n') {ps : List Piece}
    (hps : Output.Legible ps) : ∃ tail, ps = tail ++ dropFromLast c ps ∧ kinds tail = [] := by
  induction ps with
  | nil => exact ⟨[], rfl, rfl⟩
  | cons p ps ih =>
    obtain ⟨tail, htail, hkinds⟩ := ih fun t ht => hps t (List.mem_cons_of_mem p ht)
    have hp : ∀ t, p = .word t → ∃ k : TokenKind, k.Legible ∧ k.text = t := by
      rintro t rfl
      exact hps t List.mem_cons_self
    rw [dropFromLast]
    split
    · rename_i hempty
      rcases dropEndWhile_chars hc hp with hkept | ⟨-, hkind⟩
      · rw [hkept, List.isEmpty_iff] at hempty
        have hkind : p.kind? = none := by
          cases p with
          | word t =>
            obtain ⟨k, ⟨d, ds, htext, -⟩, hk⟩ := hp t rfl
            have ht : t.toList = [] := hempty
            rw [← hk, htext] at ht
            cases ht
          | _ => rfl
        exact ⟨p :: tail, congrArg (p :: ·) htail, by rw [kinds, List.filterMap_cons_none hkind]; exact hkinds⟩
      · exact ⟨p :: tail, congrArg (p :: ·) htail, by rw [kinds, List.filterMap_cons_none hkind]; exact hkinds⟩
    · rename_i hempty
      rcases dropEndWhile_chars hc hp with hkept | ⟨hkept, -⟩
      · rw [hkept, if_pos (beq_self_eq_true _)]
        exact ⟨[], rfl, rfl⟩
      · rw [hkept] at hempty
        exact absurd rfl hempty

/-- What is dropped at the end of an output is no word. -/
theorem dropEnd_append {c : Char} (hc : c = ' ' ∨ c = '\n') {o : Output} (ho : o.Legible) :
    ∃ tail, o = o.dropEnd c ++ tail ∧ kinds tail = [] := by
  have hreverse : Output.Legible o.reverse := fun t ht => ho t (List.mem_reverse.mp ht)
  obtain ⟨tail, htail, hkinds⟩ := dropFromLast_append hc hreverse
  refine ⟨tail.reverse, ?_, ?_⟩
  · rw [dropEnd, ← List.reverse_append, ← htail, List.reverse_reverse]
  · rw [kinds, List.filterMap_reverse]
    exact congrArg List.reverse hkinds

end Output

/-! ## Carrying tokens -/

/-- An output with the tokens `ks`, of which none is read on with what stands before it. -/
structure Carries (s : Before) (o : Output) (ks : List TokenKind) : Prop where
  kinds : o.kinds = ks
  legible : o.Legible
  apart : o.Apart s

namespace Carries

variable {s : Before} {a b o : Output} {ks ks' : List TokenKind}

theorem nil : Carries s [] [] :=
  ⟨rfl, nofun, trivial⟩

theorem append (ha : Carries s a ks) (hb : Carries (a.after s) b ks') :
    Carries s (a ++ b) (ks ++ ks') where
  kinds := by rw [Output.kinds_append, ha.kinds, hb.kinds]
  legible := (Output.legible_append a b).mpr ⟨ha.legible, hb.legible⟩
  apart := (Output.apart_append a b s).mpr ⟨ha.apart, hb.apart⟩

/-- What an output writes is what it carries. -/
theorem writes {P Q : Before → Prop} {ws : List TokenKind} {cs : List String}
    (h : Writes P o Q ws cs) (hs : P s) (hws : Genuine ws cs) : Carries s o o.kinds :=
  ⟨rfl, (h hws).legible, ((h hws).apart s hs).1⟩

theorem space (hs : Ended s) : Carries s [.space] [] :=
  .writes .space hs ⟨nofun, nofun⟩

/-- Spaces carry nothing and may stand behind anything but a comment to the end of the line. -/
theorem spaces (n : Nat) (hs : Ended s) : Carries s [.spaces n] [] := by
  refine ⟨rfl, fun t ht => Piece.noConfusion (List.mem_singleton.mp ht), ⟨fun k hk c hc => ?_, trivial⟩⟩
  rw [chars_spaces] at hc
  rw [List.eq_of_mem_replicate (List.mem_of_mem_head? hc)]
  exact joins_of_endsAll (hs k hk) rfl

/-- Spaces at the end do not matter. -/
theorem dropEnd {c : Char} (hc : c = ' ' ∨ c = '\n') (h : Carries s o ks) :
    Carries s (o.dropEnd c) ks := by
  obtain ⟨tail, htail, hkinds⟩ := Output.dropEnd_append hc h.legible
  obtain ⟨hk, hlegible, hapart⟩ := h
  rw [htail] at hlegible hapart hk
  rw [Output.kinds_append, hkinds, List.append_nil] at hk
  exact ⟨hk, ((Output.legible_append _ _).mp hlegible).1,
    ((Output.apart_append _ _ _).mp hapart).1⟩

end Carries

/-! ## Cells -/

/-- The tokens of cells. -/
def cellKinds (cells : List Output) : List TokenKind :=
  cells.flatMap Output.kinds

/-- Cells of which each can stand behind white space, and each but the last can stand before
it. -/
def CellsSound : List Output → Prop
  | [] => True
  | cell :: cells =>
    Carries none cell cell.kinds ∧ (cells ≠ [] → Ended (cell.after none)) ∧ CellsSound cells

/-- Cells with single spaces between them carry their tokens in order. -/
theorem carries_joinCells {cells : List Output} (h : CellsSound cells) (s : Before)
    (hs : cells ≠ [] → Ended s) : Carries s (joinCells cells) (cellKinds cells) := by
  induction cells generalizing s with
  | nil => exact .nil
  | cons cell cells ih =>
    obtain ⟨hcell, hended, hcells⟩ := h
    have hs := hs (List.cons_ne_nil _ _)
    rw [joinCells]
    split
    · rename_i hblank
      have hkinds : cell.kinds = [] :=
        Output.kinds_of_chars hcell.legible (Output.chars_of_width (Output.width_of_isBlank hblank))
      rw [cellKinds, List.flatMap_cons, hkinds]
      exact ih hcells s fun _ => hs
    · exact ((Carries.space hs).append hcell).append (ih hcells _ hended)

/-- Joining the cells behind one of several lines keeps their tokens. -/
theorem mergeCells_sound {cells : List Output} (h : CellsSound cells) :
    CellsSound (mergeCells cells) ∧ cellKinds (mergeCells cells) = cellKinds cells := by
  induction cells with
  | nil => exact ⟨trivial, rfl⟩
  | cons cell cells ih =>
    obtain ⟨hcell, hended, hcells⟩ := h
    rw [mergeCells]
    split
    · have hjoined := hcell.append (carries_joinCells hcells _ hended)
      have hkinds : (cell ++ joinCells cells).kinds = cellKinds (cell :: cells) := hjoined.kinds
      rw [← hjoined.kinds] at hjoined
      exact ⟨⟨hjoined, fun h => absurd rfl h, trivial⟩, (List.append_nil _).trans hkinds⟩
    · obtain ⟨hsound, hkinds⟩ := ih hcells
      refine ⟨⟨hcell, fun hne => hended ?_, hsound⟩, congrArg (cell.kinds ++ ·) hkinds⟩
      rintro rfl
      exact hne rfl

/-! ## Column widths -/

/-- Columns wide enough for cells of the given widths. -/
def Wide : List Nat → List Nat → Prop
  | _, [] => True
  | [], _ :: _ => False
  | column :: columns, width :: widths => (width < column ∨ width = 0) ∧ Wide columns widths

/-- The greatest of some numbers is at least each of them. -/
theorem le_foldl_max (ns : List Nat) (m : Nat) : m ≤ ns.foldl max m ∧ ∀ n ∈ ns, n ≤ ns.foldl max m := by
  induction ns generalizing m with
  | nil => exact ⟨le_rfl, nofun⟩
  | cons n ns ih =>
    obtain ⟨hm, hns⟩ := ih (max m n)
    exact ⟨(le_max_left m n).trans hm,
      List.forall_mem_cons.mpr ⟨(le_max_right m n).trans hm, hns⟩⟩

/-- A column is wider than any of its cells that is not empty. -/
theorem lt_columnWidth {widths : List Nat} {w : Nat} (hw : w ∈ widths) :
    w < columnWidth widths ∨ w = 0 := by
  rw [columnWidth]
  split
  · rename_i hall
    exact .inr (beq_iff_eq.mp (List.all_eq_true.mp hall w hw))
  · exact .inl (Nat.lt_succ_of_le ((le_foldl_max widths 0).2 w hw))

theorem forall₂_flatMap {α β : Type} {R : α → β → Prop} {f : List α → List β} {blocks : List (List α)}
    (h : ∀ block ∈ blocks, List.Forall₂ R block (f block)) :
    List.Forall₂ R blocks.flatten (blocks.flatMap f) := by
  induction blocks with
  | nil => exact .nil
  | cons block blocks ih =>
    obtain ⟨hblock, hblocks⟩ := List.forall_mem_cons.mp h
    exact List.rel_append hblock (ih hblocks)

/-- Columns are wide enough for the cells of all rows. -/
theorem wide_columnWidths (n : Nat) {rows : List (List Nat)} (hrows : ∀ row ∈ rows, row.length ≤ n) :
    List.Forall₂ (fun row columns => Wide columns row) rows (columnWidths n rows) := by
  induction n generalizing rows with
  | zero =>
    rw [columnWidths, List.forall₂_map_right_iff, List.forall₂_same]
    intro row hrow
    rw [List.length_eq_zero_iff.mp (Nat.le_zero.mp (hrows row hrow))]
    trivial
  | succ n ih =>
    have hblocks := List.flatten_splitBy (fun a b : List Nat => a.isEmpty == b.isEmpty) rows
    rw [columnWidths]
    conv => arg 2; rw [← hblocks]
    refine forall₂_flatMap fun block hblock => ?_
    have hmem : ∀ row ∈ block, row ∈ rows := fun row hrow => by
      rw [← hblocks]
      exact List.mem_flatten_of_mem hblock hrow
    split
    · rename_i hempty
      refine List.forall₂_same.mpr fun row hrow => ?_
      rw [List.isEmpty_iff.mp (List.all_eq_true.mp hempty row hrow)]
      trivial
    · have hlengths : ∀ row ∈ block.map List.tail, row.length ≤ n := by
        intro row hrow
        obtain ⟨r, hr, rfl⟩ := List.mem_map.mp hrow
        rw [List.length_tail]
        exact Nat.sub_le_iff_le_add.mpr (hrows r (hmem r hr))
      have htails := ih hlengths
      rw [List.forall₂_map_left_iff] at htails
      rw [List.forall₂_map_right_iff]
      refine ((List.forall₂_and_left (p := (· ∈ block)) _ _).mpr ⟨fun _ h => h, htails⟩).imp ?_
      rintro (_ | ⟨w, row⟩) columns ⟨hrow, hwide⟩
      · trivial
      · exact ⟨lt_columnWidth (List.mem_map.mpr ⟨_, hrow, rfl⟩), hwide⟩

/-! ## Rows -/

/-- The space behind a cell keeps the next cell away from it. -/
theorem carries_padCells (align : Bool) {cells : List Output} (h : CellsSound cells)
    {widths : List Nat} (hwide : Wide widths (cells.dropLast.map Output.width)) :
    Carries none (padCells align cells widths) (cellKinds cells) := by
  induction cells generalizing widths with
  | nil => exact .nil
  | cons cell cells ih =>
    obtain ⟨hcell, hended, hcells⟩ := h
    rcases cells with _ | ⟨next, cells⟩
    · rw [padCells, cellKinds, List.flatMap_singleton]
      exact hcell
    · have hended := hended (List.cons_ne_nil _ _)
      have hblank (hwidth : cell.width = 0) : cell.after none = none :=
        Output.after_of_chars hcell.legible (Output.chars_of_width hwidth) none
      rcases widths with _ | ⟨column, columns⟩
      · exact hwide.elim
      obtain ⟨hcolumn, hwide⟩ := hwide
      rw [padCells]
      set gap : Output :=
        if align then [.spaces ((column :: columns).headD 0 - cell.width)]
        else if cell.isBlank then [] else [.space] with hgap
      have hspaced : Carries (cell.after none) gap [] ∧ gap.after (cell.after none) = none := by
        rw [hgap]
        split
        · refine ⟨.spaces _ hended, ?_⟩
          show (if _ then cell.after none else none) = none
          rcases hcolumn with hlt | hzero
          · have hchars : ¬(Piece.spaces (column - cell.width)).chars.isEmpty = true := by
              rw [List.isEmpty_iff_length_eq_zero, Output.length_chars]
              exact Nat.sub_ne_zero_of_lt hlt
            exact if_neg hchars
          · rw [hblank hzero, ite_self]
        · split
          · rename_i hempty
            exact ⟨.nil, hblank (Output.width_of_isBlank hempty)⟩
          · exact ⟨.space hended, rfl⟩
      have hrest := ih hcells hwide
      rw [← hspaced.2, ← Output.after_append] at hrest
      have hkinds : cellKinds (cell :: next :: cells) =
          cell.kinds ++ [] ++ cellKinds (next :: cells) := by
        rw [List.append_nil]
        rfl
      rw [hkinds]
      exact (hcell.append hspaced.1).append hrest
      exact List.cons_ne_nil _ _

/-- A line of white space has no words. -/
theorem kinds_of_isBlank {o : Output} (hlegible : o.Legible)
    (hblank : o.chars.all Text.isBlank = true) : o.kinds = [] := by
  refine List.filterMap_eq_nil_iff.mpr fun p hp => ?_
  cases p with
  | word t =>
    obtain ⟨k, hk, rfl⟩ := hlegible t hp
    obtain ⟨c, cs, htext, hscan⟩ := hk
    have hmem : c ∈ o.chars := by
      refine List.mem_flatMap.mpr ⟨_, hp, ?_⟩
      show c ∈ k.text.toList
      rw [htext]
      exact List.mem_cons_self
    refine absurd (mem_strays (.inl (List.all_eq_true.mp hblank c hmem))) ?_
    exact TokenKind.Legible.head ⟨c, cs, htext, hscan⟩ c (by rw [htext]; rfl)
  | _ => rfl

/-- Lines with the tokens `ks`. -/
structure Whole (o : Output) (ks : List TokenKind) : Prop where
  carries : Carries none o ks
  after : o.after none = none

namespace Whole

variable {a b : Output} {ks ks' : List TokenKind}

theorem nil : Whole [] [] :=
  ⟨.nil, rfl⟩

theorem append (ha : Whole a ks) (hb : Whole b ks') : Whole (a ++ b) (ks ++ ks') where
  carries := by
    refine ha.carries.append ?_
    rw [ha.after]
    exact hb.carries
  after := by rw [Output.after_append, ha.after, hb.after]

/-- A line with its line break. -/
theorem newline (ha : Carries none a ks) : Whole (a ++ [.newline]) ks where
  carries := by
    rw [← List.append_nil ks]
    exact ha.append (.writes .newline trivial ⟨nofun, nofun⟩)
  after := by rw [Output.after_append]; rfl

end Whole

/-- A row is a line with the tokens of its cells. -/
theorem whole_line (align : Bool) {r : Row} (h : CellsSound r.cells) {widths : List Nat}
    (hwide : Wide widths r.paddedWidths) : Whole (r.line align widths) (cellKinds r.cells) := by
  have htabs : Carries none [.tabs r.indent] [] :=
    .writes (.tabs r.indent) rfl ⟨nofun, nofun⟩
  have hafter : Output.after none [.tabs r.indent] = none :=
    ((Writes.tabs r.indent ⟨nofun, nofun⟩).apart none rfl).2
  have hline := (htabs.append (hafter ▸ carries_padCells align h hwide)).dropEnd (.inl rfl)
  rw [Row.line]
  split
  · rename_i hblank
    have hkinds := kinds_of_isBlank hline.legible hblank
    have hnil : cellKinds r.cells = [] := hline.kinds.symm.trans hkinds
    rw [hnil]
    exact .newline .nil
  · exact .newline hline

/-- The tokens of rows. -/
def rowKinds (rows : List Row) : List TokenKind :=
  rows.flatMap fun r => cellKinds r.cells

/-- Aligned rows are lines with the tokens of their cells. -/
theorem whole_alignedRows (align : Bool) {rows : List Row} (h : ∀ r ∈ rows, CellsSound r.cells) :
    Whole (alignedRows align rows) (rowKinds rows) := by
  have hwide : List.Forall₂ _ (rows.map Row.paddedWidths) (columnWidths _ _) :=
    wide_columnWidths (((rows.map Row.paddedWidths).map List.length).foldl max 0) fun row hrow =>
      (le_foldl_max _ 0).2 _ (List.mem_map_of_mem hrow)
  rw [List.forall₂_map_left_iff] at hwide
  rw [alignedRows]
  generalize columnWidths _ _ = widths at hwide ⊢
  induction hwide with
  | nil => exact .nil
  | cons hrow _ ih =>
    obtain ⟨hsound, hsounds⟩ := List.forall_mem_cons.mp h
    exact (whole_line align hsound hrow).append (ih hsounds)

/-! ## Lines -/

/-- The cells of a line. -/
def Line.cells : Line → List Output
  | .row r => r.cells
  | _ => []

/-- The tokens of lines. -/
def lineKinds (ls : List Line) : List TokenKind :=
  ls.flatMap fun l => cellKinds l.cells

/-- Lines are rendered section by section, with their tokens in order. -/
theorem whole_renderFrom (align : Bool) {ls : List Line} (hls : ∀ l ∈ ls, CellsSound l.cells)
    {rows : List Row} (hrows : ∀ r ∈ rows, CellsSound r.cells) (gap : Bool) :
    Whole (renderFrom align rows gap ls) (rowKinds rows.reverse ++ lineKinds ls) := by
  have hdone {rows : List Row} (hrows : ∀ r ∈ rows, CellsSound r.cells) :
      Whole (alignedRows align rows.reverse) (rowKinds rows.reverse) :=
    whole_alignedRows align fun r hr => hrows r (List.mem_reverse.mp hr)
  induction ls generalizing rows gap with
  | nil =>
    rw [renderFrom]
    exact (List.append_nil (rowKinds rows.reverse)).symm ▸ hdone hrows
  | cons l ls ih =>
    obtain ⟨hl, hls'⟩ := List.forall_mem_cons.mp hls
    cases l with
    | blank =>
      rw [renderFrom]
      exact (hdone hrows).append (ih hls' (List.forall_mem_nil _) true)
    | sectionEnd =>
      rw [renderFrom]
      exact (hdone hrows).append (ih hls' (List.forall_mem_nil _) gap)
    | row r =>
      set ends := (rows.head?.map fun last => last.indent != r.indent).getD false
      set done : Output := if ends then alignedRows align rows.reverse else [] with hdoneEq
      set rows' := r :: if ends then [] else rows with hrowsEq
      set lead : Output := if gap then [.newline] else []
      have hlead : Whole lead [] := by
        cases gap with
        | false => exact .nil
        | true => exact .newline .nil
      -- The rows written so far and those of the section make up the rows before the line.
      obtain ⟨ks, hsection, hsounds, hks⟩ : ∃ ks, Whole done ks ∧ (∀ r ∈ rows', CellsSound r.cells) ∧
          ks ++ rowKinds rows'.reverse = rowKinds rows.reverse ++ cellKinds r.cells := by
        rw [hdoneEq, hrowsEq]
        cases ends with
        | false =>
          refine ⟨[], .nil, List.forall_mem_cons.mpr ⟨hl, hrows⟩, ?_⟩
          rw [if_neg Bool.false_ne_true, List.reverse_cons, rowKinds, List.flatMap_append,
            List.flatMap_singleton]
          rfl
        | true =>
          refine ⟨rowKinds rows.reverse, hdone hrows, List.forall_mem_singleton.mpr hl, ?_⟩
          exact congrArg (rowKinds rows.reverse ++ ·) (List.append_nil _)
      have hwhole := hsection.append hlead
      rw [List.append_nil] at hwhole
      have hkinds : rowKinds rows.reverse ++ lineKinds (.row r :: ls) =
          ks ++ rowKinds rows'.reverse ++ lineKinds ls := by
        rw [hks, List.append_assoc]
        rfl
      rw [renderFrom, hkinds]
      split
      · exact (hwhole.append (hdone hsounds)).append (ih hls' (List.forall_mem_nil _) false)
      · rw [List.append_assoc ks]
        exact hwhole.append (ih hls' hsounds false)

/-- Leaving out empty lines leaves out nothing else. -/
theorem flatMap_tidy {α : Type} {f : Line → List α} (hf : f .blank = []) (atGap : Bool)
    (ls : List Line) : (tidy atGap ls).flatMap f = ls.flatMap f := by
  induction ls generalizing atGap with
  | nil => rfl
  | cons l ls ih =>
    cases l with
    | blank =>
      rw [tidy, List.flatMap_cons, hf, List.nil_append]
      split
      · exact ih true
      · rw [List.flatMap_cons, hf, List.nil_append]
        exact ih true
    | sectionEnd => exact congrArg (f .sectionEnd ++ ·) (ih false)
    | row r => exact congrArg (f (.row r) ++ ·) (ih false)

/-- Tidying leaves out lines and adds none. -/
theorem tidy_sublist (atGap : Bool) (ls : List Line) : (tidy atGap ls).Sublist ls := by
  induction ls generalizing atGap with
  | nil => exact .slnil
  | cons l ls ih =>
    cases l with
    | blank =>
      rw [tidy]
      split
      · exact .cons _ (ih true)
      · exact .cons_cons _ (ih true)
    | _ => exact .cons_cons _ (ih false)

/-- The printed lines carry the tokens of their cells. -/
theorem whole_renderLines (align : Bool) {ls : List Line} (h : ∀ l ∈ ls, CellsSound l.cells) :
    Whole (renderLines align ls) (lineKinds ls) := by
  have hkinds : lineKinds (tidy true ls) = lineKinds ls := flatMap_tidy rfl true ls
  rw [← hkinds]
  exact whole_renderFrom align (fun l hl => h l ((tidy_sublist true ls).subset hl))
    (List.forall_mem_nil _) false

end HandlerSplit.Print
