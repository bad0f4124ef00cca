import HandlerSplit.Proofs.Print.Columns
import HandlerSplit.Proofs.Print.Layout.Text
/-!
# Laying out rows and lines

A cell may be empty, but the first cell of a row is not. So padding leaves no row without a word,
and what padding writes behind the last word of the row is dropped. A blank line is written only
behind a row and before one, as long as no mark of a section stands before it (`NeatLines.render`).
-/

namespace HandlerSplit.Print

open Spot

/-! ## Cells -/

/-- A cell that is empty or may stand in a row. -/
def NeatCell (cell : Output) : Prop :=
  cell = [] ∨ Lays Fresh cell Inked

/-- The cells of a row, of which the first is not empty. -/
def NeatCells : List Output → Prop
  | [] => False
  | cell :: cells => Lays Fresh cell Inked ∧ ∀ c ∈ cells, NeatCell c

theorem Firm.cell {o : Output} (h : Firm o) : NeatCell o :=
  .inr h.before

theorem lays_joinCells {cells : List Output} (h : ∀ c ∈ cells, NeatCell c) :
    Lays Inked (joinCells cells) Inked := by
  induction cells with
  | nil => exact .nil
  | cons cell cells ih =>
    obtain ⟨hcell, hcells⟩ := List.forall_mem_cons.mp h
    rw [joinCells]
    split
    · exact ih hcells
    · rename_i hblank
      have hlays : Lays Fresh cell Inked := hcell.resolve_left fun hnil => hblank (by rw [hnil]; rfl)
      have hspaced : Lays Inked ([.space] ++ cell) Inked := (Lays.space (P := Fresh)).before.append hlays
      exact hspaced.append (ih hcells)

theorem neatCell_mergeCells {cells : List Output} (h : ∀ c ∈ cells, NeatCell c) :
    ∀ c ∈ mergeCells cells, NeatCell c := by
  induction cells with
  | nil => exact List.forall_mem_nil _
  | cons cell cells ih =>
    obtain ⟨hcell, hcells⟩ := List.forall_mem_cons.mp h
    rw [mergeCells]
    split
    · rename_i hmulti
      refine List.forall_mem_singleton.mpr (.inr ?_)
      have hlays : Lays Fresh cell Inked := hcell.resolve_left fun hnil => by
        rw [hnil] at hmulti
        cases hmulti
      exact hlays.append (lays_joinCells hcells)
    · exact List.forall_mem_cons.mpr ⟨hcell, ih hcells⟩

theorem NeatCells.append {cells cells' : List Output} (h : NeatCells cells)
    (h' : ∀ c ∈ cells', NeatCell c) : NeatCells (cells ++ cells') := by
  cases cells with
  | nil => exact h.elim
  | cons cell cells => exact ⟨h.1, List.forall_mem_append.mpr ⟨h.2, h'⟩⟩

theorem NeatCells.merge {cells : List Output} (h : NeatCells cells) :
    NeatCells (mergeCells cells) := by
  cases cells with
  | nil => exact h
  | cons cell cells =>
    rw [mergeCells]
    split
    · exact ⟨h.1.append (lays_joinCells h.2), List.forall_mem_nil _⟩
    · exact ⟨h.1, neatCell_mergeCells h.2⟩

/-! ## Rows -/

/-- Spaces behind the last word of a row. -/
def Spaces (o : Output) : Prop :=
  ∀ p ∈ o, ∃ n, p = .spaces n

theorem Spaces.append {a b : Output} (ha : Spaces a) (hb : Spaces b) : Spaces (a ++ b) :=
  List.forall_mem_append.mpr ⟨ha, hb⟩

theorem Spaces.lays {P : Spot → Prop} [Blind P] {o : Output} (h : Spaces o) : Lays P o P := by
  induction o with
  | nil => exact .nil
  | cons p o ih =>
    obtain ⟨⟨n, rfl⟩, ho⟩ := List.forall_mem_cons.mp h
    exact Lays.append (a := [_]) (.gap rfl) (ih ho)

/-- A cell with spaces behind it and the rest of its row. -/
theorem lays_rest {cell gap body gaps : Output} (hcell : Lays Fresh cell Inked) (hgap : Spaces gap)
    (hgaps : Spaces gaps) (hbody : NeatCell body) :
    ∃ body' gaps', cell ++ gap ++ (body ++ gaps) = body' ++ gaps' ∧ Spaces gaps' ∧
      Lays Fresh body' Inked := by
  rcases hbody with rfl | hbody
  · exact ⟨cell, gap ++ gaps, by rw [List.nil_append, List.append_assoc], hgap.append hgaps, hcell⟩
  · have hspaced : Lays Inked gap Fresh := (hgap.lays (P := Fresh)).before
    exact ⟨cell ++ gap ++ body, gaps, (List.append_assoc _ _ _).symm, hgaps,
      (hcell.append hspaced).append hbody⟩

/-- The gap that pads a cell. -/
theorem spaces_gap (align : Bool) (cell : Output) (n : Nat) :
    Spaces (if align then [.spaces n] else if cell.isBlank then [] else [.space]) := by
  split
  · exact List.forall_mem_singleton.mpr ⟨n, rfl⟩
  · split
    · exact List.forall_mem_nil _
    · exact List.forall_mem_singleton.mpr ⟨1, rfl⟩

/-- The words of padded cells, and the spaces behind the last of them. -/
theorem neatCell_padCells (align : Bool) {cells : List Output} (h : ∀ c ∈ cells, NeatCell c)
    (widths : List Nat) :
    ∃ body gaps, padCells align cells widths = body ++ gaps ∧ Spaces gaps ∧ NeatCell body := by
  induction cells generalizing widths with
  | nil => exact ⟨[], [], rfl, List.forall_mem_nil _, .inl rfl⟩
  | cons cell cells ih =>
    obtain ⟨hcell, hcells⟩ := List.forall_mem_cons.mp h
    rcases cells with _ | ⟨next, cells⟩
    · exact ⟨cell, [], (List.append_nil _).symm, List.forall_mem_nil _, hcell⟩
    · obtain ⟨body, gaps, hrest, hgaps, hbody⟩ := ih hcells widths.tail
      have hgap := spaces_gap align cell (widths.headD 0 - cell.width)
      rw [padCells, hrest]
      · rcases hcell with rfl | hcell
        · rcases hbody with rfl | hbody
          · exact ⟨[], _, rfl, hgap.append hgaps, .inl rfl⟩
          · refine ⟨_ ++ body, gaps, (List.append_assoc _ _ _).symm, hgaps, .inr ?_⟩
            exact (hgap.lays (P := Fresh)).append hbody
        · obtain ⟨body', gaps', heq, hgaps', hbody'⟩ := lays_rest hcell hgap hgaps hbody
          exact ⟨body', gaps', heq, hgaps', .inr hbody'⟩
      · exact List.cons_ne_nil _ _

theorem lays_padCells (align : Bool) {cells : List Output} (h : NeatCells cells)
    (widths : List Nat) :
    ∃ body gaps, padCells align cells widths = body ++ gaps ∧ Spaces gaps ∧
      Lays Fresh body Inked := by
  rcases cells with _ | ⟨cell, _ | ⟨next, cells⟩⟩
  · exact h.elim
  · exact ⟨cell, [], (List.append_nil _).symm, List.forall_mem_nil _, h.1⟩
  · obtain ⟨body, gaps, hrest, hgaps, hbody⟩ := neatCell_padCells align h.2 widths.tail
    rw [padCells, hrest]
    · exact lays_rest h.1 (spaces_gap align cell _) hgaps hbody
    · exact List.cons_ne_nil _ _

/-! ### What is dropped at the end -/

theorem dropEndWhile_all {p : Char → Bool} {cs : List Char} (h : ∀ c ∈ cs, p c = true) :
    Text.dropEndWhile p cs = [] := by
  rw [Text.dropEndWhile, List.dropWhile_eq_nil_iff.mpr fun c hc => h c (List.mem_reverse.mp hc)]
  rfl

/-- Behind a word everything is dropped that consists of the character, and nothing of the word. -/
theorem dropEnd_word {c : Char} (front : Output) {back : Output} {t : String}
    (ht : ∃ d, t.toList.getLast? = some d ∧ d ≠ c) (hback : ∀ p ∈ back, ∀ d ∈ p.chars, d = c) :
    Output.dropEnd c (front ++ [.word t] ++ back) = front ++ [.word t] := by
  have hword (ps : List Piece) : Output.dropFromLast c (.word t :: ps) = .word t :: ps := by
    obtain ⟨d, hd, hne⟩ := ht
    have hkept : Text.dropEndWhile (· == c) (Piece.chars (.word t)) = t.toList := by
      refine Output.dropEndWhile_of_last fun e he => beq_false_of_ne ?_
      rw [show Piece.chars (.word t) = t.toList from rfl, hd] at he
      rwa [← Option.some.inj he]
    have hnot : ¬t.toList.isEmpty = true := by
      rw [List.isEmpty_iff]
      rintro hnil
      rw [hnil] at hd
      cases hd
    rw [Output.dropFromLast, hkept, if_neg hnot]
    exact if_pos (beq_self_eq_true t.toList.length)
  have hdropped (ps : List Piece) (hps : ∀ p ∈ ps, ∀ d ∈ p.chars, d = c) (left : List Piece) :
      Output.dropFromLast c (ps ++ left) = Output.dropFromLast c left := by
    induction ps with
    | nil => rfl
    | cons p ps ih =>
      obtain ⟨hp, hps⟩ := List.forall_mem_cons.mp hps
      have hkept : Text.dropEndWhile (· == c) p.chars = [] :=
        dropEndWhile_all fun d hd => beq_iff_eq.mpr (hp d hd)
      rw [List.cons_append, Output.dropFromLast, hkept]
      exact ih hps
  rw [Output.dropEnd, List.reverse_append, List.reverse_append, hdropped _ fun p hp =>
    hback p (List.mem_reverse.mp hp)]
  show (Output.dropFromLast c (.word t :: front.reverse)).reverse = _
  rw [hword, List.reverse_cons, List.reverse_reverse]

theorem Spaces.chars {o : Output} (h : Spaces o) : ∀ p ∈ o, ∀ d ∈ p.chars, d = ' ' := by
  intro p hp d hd
  obtain ⟨n, rfl⟩ := h p hp
  rw [chars_spaces] at hd
  exact List.eq_of_mem_replicate hd

/-- An output behind which a word stands ends with one. -/
theorem Lays.ends {P : Spot → Prop} {o : Output} {s : Spot} (h : Lays P o Inked) (hs : P s)
    (hbreaks : s.breaks = 1) :
    ∃ front t, o = front ++ [.word t] ∧ ∃ d, t.toList.getLast? = some d ∧ Text.isBlank d = false := by
  obtain ⟨hneat, hink⟩ := h s hs
  obtain ⟨front, t, rfl⟩ := Output.ends_of_atWord (o := o) hbreaks (by rw [hink]; exact ⟨rfl, rfl⟩)
  exact ⟨front, t, rfl, nonblank_last (hneat.legible t (by simp))⟩

theorem lays_line (align : Bool) {r : Row} (h : NeatCells r.cells) (widths : List Nat) :
    Lays Below (r.line align widths) Under := by
  obtain ⟨body, gaps, hpadded, hgaps, hbody⟩ := lays_padCells align h widths
  have hstart : Fresh ⟨false, 1, true⟩ := fun _ => Nat.one_pos
  obtain ⟨front, t, rfl, hlast⟩ := hbody.ends hstart rfl
  have hline : Output.dropEnd ' ' (.tabs r.indent :: padCells align r.cells widths) =
      .tabs r.indent :: (front ++ [.word t]) := by
    rw [hpadded]
    refine dropEnd_word (.tabs r.indent :: front) (hlast.imp fun d hd => ⟨hd.1, ?_⟩) hgaps.chars
    rintro rfl
    exact absurd hd.2 (by decide)
  have hnot : ¬(Output.chars (.tabs r.indent :: (front ++ [.word t]))).all Text.isBlank = true := by
    obtain ⟨d, hd, hsolid⟩ := hlast
    intro hall
    have hmem : d ∈ Output.chars (.tabs r.indent :: (front ++ [.word t])) :=
      List.mem_flatMap.mpr ⟨.word t, by simp, List.mem_of_mem_getLast? hd⟩
    rw [List.all_eq_true.mp hall d hmem] at hsolid
    cases hsolid
  rw [Row.line, hline, if_neg hnot]
  have htabs : Lays Below [.tabs r.indent] Fresh := (Lays.tabs (P := Fresh) r.indent).before
  exact (htabs.append hbody).append .lineEnd

/-- Rows that are aligned together. -/
theorem lays_alignedRows (align : Bool) {rows : List Row} (h : ∀ r ∈ rows, NeatCells r.cells)
    (hne : rows ≠ []) : Lays Below (alignedRows align rows) Under := by
  have hlengths := (wide_columnWidths (((rows.map Row.paddedWidths).map List.length).foldl max 0)
    fun row hrow => (le_foldl_max _ 0).2 _ (List.mem_map_of_mem hrow)).length_eq
  rw [List.length_map] at hlengths
  rw [alignedRows]
  generalize columnWidths _ _ = widths at hlengths ⊢
  have hlays {rows : List Row} (h : ∀ r ∈ rows, NeatCells r.cells) (widths : List (List Nat)) :
      Lays Under ((rows.zip widths).flatMap fun x => x.1.line align x.2) Under := by
    induction rows generalizing widths with
    | nil => exact .nil
    | cons r rows ih =>
      obtain ⟨hr, hrows⟩ := List.forall_mem_cons.mp h
      cases widths with
      | nil => exact .nil
      | cons ws widths => exact (lays_line align hr ws).before.append (ih hrows widths)
  cases rows with
  | nil => exact absurd rfl hne
  | cons r rows =>
    obtain ⟨hr, hrows⟩ := List.forall_mem_cons.mp h
    cases widths with
    | nil => cases hlengths
    | cons ws widths => exact (lays_line align hr ws).append (hlays hrows widths)

/-! ## Lines -/

/-- Lines of which each row holds something, and each mark of a section stands before a row. -/
inductive NeatLines : List Line → Prop where
  | nil : NeatLines []
  | blank {ls : List Line} (h : NeatLines ls) : NeatLines (.blank :: ls)
  | row {r : Row} {ls : List Line} (hr : NeatCells r.cells) (h : NeatLines ls) :
    NeatLines (.row r :: ls)
  | sectionEnd {r : Row} {ls : List Line} (hr : NeatCells r.cells) (h : NeatLines ls) :
    NeatLines (.sectionEnd :: .row r :: ls)

namespace NeatLines

theorem append {ls ls' : List Line} (h : NeatLines ls) (h' : NeatLines ls') :
    NeatLines (ls ++ ls') := by
  induction h with
  | nil => exact h'
  | blank _ ih => exact .blank ih
  | row hr _ ih => exact .row hr ih
  | sectionEnd hr _ ih => exact .sectionEnd hr ih

/-- Where the lines that are left are written: where the rows of the section may be, below the line
before, or at the start of the list, where there is no empty line. -/
def due (rows : List Row) (atStart : Bool) : Spot → Prop :=
  if rows = [] then if atStart then AtLine else Under else Below

variable (align : Bool) {rows : List Row}

/-- The rows of a section that ends. -/
theorem lays_section (h : ∀ r ∈ rows, NeatCells r.cells) :
    Lays (due rows false) (alignedRows align rows.reverse) Under := by
  by_cases hrows : rows = []
  · subst hrows
    exact Lays.nil (P := Under)
  · rw [due, if_neg hrows]
    exact lays_alignedRows align (fun r hr => h r (List.mem_reverse.mp hr))
      (mt List.reverse_eq_nil_iff.mp hrows)

theorem lays_last (h : ∀ r ∈ rows, NeatCells r.cells) (atStart : Bool) :
    Lays (due rows atStart) (alignedRows align rows.reverse) AtLine := by
  by_cases hrows : rows = []
  · subst hrows
    cases atStart with
    | true => exact Lays.nil (P := AtLine)
    | false => exact (Lays.nil (P := Under)).behind
  · have hsection : Lays (due rows false) _ AtLine := (lays_section align h).behind
    rwa [due, if_neg hrows] at hsection ⊢

/-- A row, and the lines behind it. -/
theorem lays_row {r : Row} (hr : NeatCells r.cells) (hrows : ∀ r ∈ rows, NeatCells r.cells)
    {ls : List Line} (hrest : ∀ rows' : List Row, (∀ r ∈ rows', NeatCells r.cells) →
      Lays (due rows' false) (renderFrom align rows' false ls) AtLine)
    {gap atStart : Bool} (hgap : gap = true → rows = [] ∧ atStart = false) :
    Lays (due rows atStart) (renderFrom align rows gap (.row r :: ls)) AtLine := by
  set ends := (rows.head?.map fun last => last.indent != r.indent).getD false with hends
  set done : Output := if ends then alignedRows align rows.reverse else [] with hdone
  set rows' := r :: if ends then [] else rows with hrows'
  set lead : Output := if gap then [.newline] else [] with hlead
  have hlays : Lays (due rows atStart) (done ++ lead) Below := by
    rcases rows with _ | ⟨last, rows⟩
    · have hdone : done = [] := rfl
      rw [hdone, List.nil_append, hlead]
      cases gap with
      | true =>
        rw [(hgap rfl).2]
        exact .emptyLine
      | false =>
        cases atStart with
        | true => exact (Lays.nil (P := AtLine)).behind
        | false => exact (Lays.nil (P := Under)).behind
    · have hlead : lead = [] := if_neg fun h => absurd (hgap h).1 (List.cons_ne_nil _ _)
      rw [hlead, List.append_nil, hdone]
      split
      · have hsection := lays_section align hrows
        exact hsection.behind
      · exact Lays.nil (P := Below)
  have hneat : ∀ r ∈ rows', NeatCells r.cells := by
    refine List.forall_mem_cons.mpr ⟨hr, ?_⟩
    split
    · exact List.forall_mem_nil _
    · exact hrows
  have hnext := hrest rows' hneat
  rw [due, if_neg (List.cons_ne_nil _ _)] at hnext
  rw [renderFrom]
  split
  · have hsection := lays_section align hneat
    rw [due, if_neg (List.cons_ne_nil _ _)] at hsection
    have hempty : Lays Under (renderFrom align [] false ls) AtLine :=
      hrest [] (List.forall_mem_nil _)
    exact (hlays.append hsection).append hempty
  · exact hlays.append hnext

theorem lays_renderFrom {ls : List Line} (h : NeatLines ls) (hrows : ∀ r ∈ rows, NeatCells r.cells)
    (gap atGap : Bool) (hgap : gap = true → rows = [] ∧ atGap = true) :
    Lays (due rows (atGap && !gap)) (renderFrom align rows gap (tidy atGap ls)) AtLine := by
  induction h generalizing rows gap atGap with
  | nil =>
    rw [tidy, renderFrom]
    exact lays_last align hrows _
  | @blank ls _ ih =>
    rw [tidy]
    split
    · rename_i hatGap
      subst hatGap
      exact ih hrows gap true hgap
    · rename_i hatGap
      rw [Bool.not_eq_true] at hatGap
      subst hatGap
      have hrest : Lays Under (renderFrom align [] true (tidy true ls)) AtLine :=
        ih (List.forall_mem_nil _) true true fun _ => ⟨rfl, rfl⟩
      rw [renderFrom]
      exact (lays_section align hrows).append hrest
  | @row r ls hr _ ih =>
    refine lays_row align hr hrows (fun rows' hrows' => ih hrows' false false (absurd · Bool.false_ne_true))
      fun h => ⟨(hgap h).1, ?_⟩
    rw [h]
    exact Bool.and_false _
  | @sectionEnd r ls hr _ ih =>
    have hrest (atStart : Bool) (hstart : gap = true → atStart = false) :
        Lays (due [] atStart) (renderFrom align [] gap (.row r :: tidy false ls)) AtLine :=
      lays_row align hr (List.forall_mem_nil _) (fun rows' hrows' => ih hrows' false false (absurd · Bool.false_ne_true))
        fun h => ⟨rfl, hstart h⟩
    show Lays _ (renderFrom align rows gap (.sectionEnd :: .row r :: tidy false ls)) _
    rw [renderFrom]
    by_cases hempty : rows = []
    · subst hempty
      exact hrest _ fun h => by rw [h]; exact Bool.and_false _
    · have hlines : Lays Under (renderFrom align [] gap (.row r :: tidy false ls)) AtLine :=
        hrest false fun _ => rfl
      have hsection := lays_section align hrows
      rw [due, if_neg hempty] at hsection ⊢
      exact hsection.append hlines

/-- The lines of a list, from the start of a line to the start of a line. -/
theorem render {ls : List Line} (h : NeatLines ls) : Lays AtLine (renderLines align ls) AtLine :=
  lays_renderFrom align h (List.forall_mem_nil _) false true (absurd · Bool.false_ne_true)

end NeatLines

end HandlerSplit.Print
