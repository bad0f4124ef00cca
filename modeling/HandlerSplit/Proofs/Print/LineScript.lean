import HandlerSplit.Proofs.Print.Columns
import HandlerSplit.Proofs.Print.Script
import HandlerSplit.Proofs.Tree.Scripts
/-!
# The script of lines

Lines with one cell each, and single empty lines between them, are written as they are: the tokens
of every cell, and a line break behind it (`script_renderLines`). Sections, columns and the spaces
at the end of a line leave the script alone.
-/

namespace HandlerSplit.Print

/-! ## Rows -/

/-- Spaces at the end are no part of the script. -/
theorem script_dropEnd {o : Output} (ho : o.Legible) : (o.dropEnd ' ').script = o.script := by
  have hlast {ps : List Piece} (hps : Output.Legible ps) :
      Output.script (Output.dropFromLast ' ' ps).reverse = Output.script ps.reverse := by
    induction ps with
    | nil => rfl
    | cons p ps ih =>
      have hrest := ih fun t ht => hps t (List.mem_cons_of_mem p ht)
      have hword : ∀ t, p = .word t → ∃ k : TokenKind, k.Legible ∧ k.text = t := by
        rintro t rfl
        exact hps t List.mem_cons_self
      rw [Output.dropFromLast, List.reverse_cons, Output.script_append]
      rcases Output.dropEndWhile_chars (.inl rfl) hword with hkept | ⟨hkept, -⟩
      · rw [hkept, if_pos (beq_self_eq_true _)]
        split
        · rename_i hempty
          -- a piece without characters is neither a word nor a line break
          have hscript : Output.script [p] = [] := by
            cases p with
            | word t =>
              obtain ⟨k, ⟨c, cs, htext, -⟩, hk⟩ := hword t rfl
              have ht : t.toList = [] := List.isEmpty_iff.mp hempty
              rw [← hk, htext] at ht
              cases ht
            | newline => cases hempty
            | _ => rfl
          rw [hrest, hscript, List.append_nil]
        · rw [List.reverse_cons, Output.script_append]
      · rw [hkept, if_pos List.isEmpty_nil]
        have hscript : Output.script [p] = [] := by
          cases p with
          | word t =>
            obtain ⟨k, hk, rfl⟩ := hword t rfl
            obtain ⟨c, cs, htext, -⟩ := id hk
            have hchars : (Piece.word k.text).chars = k.text.toList := rfl
            have hlast : ∀ d ∈ k.text.toList.getLast?, (d == ' ') = false := by
              intro d hd
              refine beq_false_of_ne ?_
              rintro rfl
              exact absurd (hk.last _ hd) (by decide)
            rw [hchars, Output.dropEndWhile_of_last hlast, htext] at hkept
            cases hkept
          | newline => cases hkept
          | _ => rfl
        rw [hrest, hscript, List.append_nil]
  have hreverse : Output.Legible o.reverse := fun t ht => ho t (List.mem_reverse.mp ht)
  rw [Output.dropEnd, hlast hreverse, List.reverse_reverse]

/-- A row with a single cell that starts with a token. -/
structure Row.Single (r : Row) (s : Script) : Prop where
  cell : ∃ o : Output, r.cells = [o] ∧ o.Legible ∧ o.script = s
  start : ∃ k s', s = .token k :: s'

/-- A row is written with its cell and its line break. -/
theorem script_line (align : Bool) {r : Row} {s : Script} (h : r.Single s) (widths : List Nat) :
    (r.line align widths).script = s ++ [.lineBreak] := by
  obtain ⟨⟨o, hcells, hlegible, rfl⟩, k, s', hstart⟩ := h
  have hindented : Output.Legible (.tabs r.indent :: o) := by
    intro t ht
    rcases List.mem_cons.mp ht with ht | ht
    · cases ht
    · exact hlegible t ht
  have hscript : (Output.dropEnd ' ' (.tabs r.indent :: o)).script = o.script :=
    script_dropEnd hindented
  rw [Row.line, hcells]
  show Output.script (if (Output.dropEnd ' ' (.tabs r.indent :: o)).chars.all Text.isBlank then _
    else Output.dropEnd ' ' (.tabs r.indent :: o) ++ [.newline]) = _
  rw [if_neg, Output.script_append, hscript]
  · rfl
  · intro hblank
    obtain ⟨tail, htail, -⟩ := Output.dropEnd_append (.inl rfl) hindented
    rw [htail] at hindented
    have hkinds := kinds_of_isBlank ((Output.legible_append _ _).mp hindented).1 hblank
    rw [kinds_eq_script, hscript, hstart] at hkinds
    cases hkinds

theorem script_alignedRows (align : Bool) {rows : List Row} {ss : List Script}
    (h : List.Forall₂ Row.Single rows ss) :
    (alignedRows align rows).script = ss.flatMap (· ++ [.lineBreak]) := by
  have hlength : (columnWidths (((rows.map Row.paddedWidths).map List.length).foldl max 0)
      (rows.map Row.paddedWidths)).length = rows.length := by
    rw [← @List.length_map _ _ rows Row.paddedWidths]
    exact (wide_columnWidths _ fun row hrow =>
      (le_foldl_max _ 0).2 _ (List.mem_map_of_mem hrow)).length_eq.symm
  rw [alignedRows]
  generalize columnWidths _ _ = widths at hlength ⊢
  induction h generalizing widths with
  | nil => rfl
  | cons hr _ ih =>
    cases widths with
    | nil => cases hlength
    | cons w widths =>
      rw [List.zip_cons_cons, List.flatMap_cons, List.flatMap_cons, Output.script_append,
        script_line align hr, ih widths (Nat.succ.inj hlength)]

/-! ## Lines -/

/-- Lines with a script: rows with a single cell, and single empty lines before rows. -/
inductive LinesSpell : List Line → Script → Prop
  | nil : LinesSpell [] []
  | row (indent : Nat) {o : Output} {s : Script} {ls : List Line}
    (hstart : ∃ k s', o.script = .token k :: s') (hrest : LinesSpell ls s) :
    LinesSpell (.ofText indent o :: ls) (o.script ++ .lineBreak :: s)
  | blank {r : Row} {ls : List Line} {s : Script} (hrest : LinesSpell (.row r :: ls) s) :
    LinesSpell (.blank :: .row r :: ls) (.lineBreak :: s)

/-- Whether lines start with a row. -/
def startsRow : List Line → Bool
  | .row _ :: _ => true
  | _ => false

namespace LinesSpell

variable {ls ls' : List Line} {s s' : Script}

theorem single (indent : Nat) {o : Output} (hstart : ∃ k s', o.script = .token k :: s') :
    LinesSpell [.ofText indent o] (o.script ++ [.lineBreak]) :=
  .row indent hstart .nil

theorem append (h : LinesSpell ls s) (h' : LinesSpell ls' s') :
    LinesSpell (ls ++ ls') (s ++ s') := by
  induction h with
  | nil => exact h'
  | row indent hstart _ ih =>
    rw [List.append_assoc]
    exact .row indent hstart ih
  | blank _ ih => exact .blank ih

/-- Lines behind an empty line, if there is one. -/
theorem gap (h : LinesSpell ls s) (hstart : startsRow ls = true) (isBlank : Bool) :
    LinesSpell ((if isBlank then [.blank] else []) ++ ls) (Script.gap isBlank ++ s) := by
  cases isBlank with
  | false => exact h
  | true =>
    cases ls with
    | nil => cases hstart
    | cons l ls =>
      cases l with
      | row r => exact .blank h
      | _ => cases hstart

theorem tidy_eq (h : LinesSpell ls s) :
    tidy false ls = ls ∧ (startsRow ls = true → tidy true ls = ls) := by
  induction h with
  | nil => exact ⟨rfl, fun _ => rfl⟩
  | @row indent o s ls _ _ ih =>
    have hrow (atGap : Bool) : tidy atGap (.ofText indent o :: ls) = .ofText indent o :: tidy false ls :=
      rfl
    exact ⟨by rw [hrow, ih.1], fun _ => by rw [hrow, ih.1]⟩
  | blank _ ih => exact ⟨congrArg (Line.blank :: ·) (ih.2 rfl), nofun⟩

end LinesSpell

theorem mergeCells_single (o : Output) : mergeCells [o] = [o] := by
  rw [mergeCells]
  split
  · rw [joinCells, List.append_nil]
  · rfl

/-- The rows gathered before a row are written ahead of it, or together with it. -/
theorem script_gather (align : Bool) {rows : List Row} {ss : List Script}
    (hrows : List.Forall₂ Row.Single rows ss) {r : Row} {s : Script} (hr : Row.Single r s)
    (ends gap : Bool) (hgap : gap = true → rows = []) :
    ∃ ts, List.Forall₂ Row.Single (r :: if ends then [] else rows) ts ∧
      (if ends then alignedRows align rows.reverse else []).script ++
        (Script.gap gap ++ ts.reverse.flatMap (· ++ [.lineBreak])) =
      ss.reverse.flatMap (· ++ [.lineBreak]) ++ (Script.gap gap ++ (s ++ [.lineBreak])) := by
  cases ends with
  | true =>
    refine ⟨[s], .cons hr .nil, ?_⟩
    rw [if_pos rfl, script_alignedRows align (List.rel_reverse hrows)]
    simp
  | false =>
    refine ⟨s :: ss, .cons hr hrows, ?_⟩
    rw [if_neg Bool.false_ne_true]
    cases gap with
    | false => simp [Script.gap, Output.script]
    | true =>
      obtain rfl := hgap rfl
      cases hrows
      simp [Output.script]

/-- What has been gathered is written first, then the empty line that is due, and then the lines. -/
theorem script_renderFrom (align : Bool) {ls : List Line} {s : Script} (h : LinesSpell ls s)
    (hsound : ∀ l ∈ ls, CellsSound l.cells) {rows : List Row} {ss : List Script}
    (hrows : List.Forall₂ Row.Single rows ss) (gap : Bool)
    (hgap : gap = true → rows = [] ∧ startsRow ls = true) :
    (renderFrom align rows gap ls).script =
      ss.reverse.flatMap (· ++ [.lineBreak]) ++ (Script.gap gap ++ s) := by
  have hdone {rows : List Row} {ss : List Script} (hrows : List.Forall₂ Row.Single rows ss) :
      (alignedRows align rows.reverse).script = ss.reverse.flatMap (· ++ [.lineBreak]) :=
    script_alignedRows align (List.rel_reverse hrows)
  induction h generalizing rows ss gap with
  | nil =>
    have hgap : gap = false := Bool.eq_false_iff.mpr fun h => absurd (hgap h).2 Bool.false_ne_true
    subst hgap
    rw [renderFrom, hdone hrows]
    exact (List.append_nil _).symm
  | @blank r ls s _ ih =>
    have hgap : gap = false := Bool.eq_false_iff.mpr fun h => absurd (hgap h).2 Bool.false_ne_true
    subst hgap
    have hrest := ih (List.forall_mem_cons.mp hsound).2 .nil true fun _ => ⟨rfl, rfl⟩
    rw [renderFrom, Output.script_append, hdone hrows, hrest]
    rfl
  | @row indent o s ls hstart _ ih =>
    obtain ⟨hcells, hsound⟩ := List.forall_mem_cons.mp hsound
    have hline : Line.ofText indent o = .row ⟨indent, [o]⟩ :=
      congrArg (fun cells => Line.row ⟨indent, cells⟩) (mergeCells_single o)
    have hlegible : o.Legible := by
      rw [hline] at hcells
      exact hcells.1.legible
    have hsingle : Row.Single ⟨indent, [o]⟩ o.script := ⟨⟨o, rfl, hlegible, rfl⟩, hstart⟩
    rw [hline, renderFrom]
    set ends := (rows.head?.map fun last => last.indent != indent).getD false
    obtain ⟨ts, hsection, hscripts⟩ :=
      script_gather align hrows hsingle ends gap fun h => (hgap h).1
    have hlead : Output.script (if gap then [.newline] else []) = Script.gap gap := by
      cases gap <;> rfl
    have hassoc : o.script ++ .lineBreak :: s = o.script ++ [.lineBreak] ++ s := by simp
    rw [hassoc, ← List.append_assoc (Script.gap gap), ← List.append_assoc (ss.reverse.flatMap _),
      ← hscripts]
    split
    · rw [Output.script_append, Output.script_append, Output.script_append, hlead,
        hdone hsection, ih hsound .nil false Bool.noConfusion]
      simp [Script.gap]
    · rw [Output.script_append, Output.script_append, hlead,
        ih hsound hsection false Bool.noConfusion]
      simp [Script.gap]

/-- Lines are written with their script. -/
theorem script_renderLines (align : Bool) {ls : List Line} {s : Script} (h : LinesSpell ls s)
    (hsound : ∀ l ∈ ls, CellsSound l.cells) (hstart : ls = [] ∨ startsRow ls = true) :
    (renderLines align ls).script = s := by
  have htidy : tidy true ls = ls := by
    rcases hstart with rfl | hstart
    · rfl
    · exact h.tidy_eq.2 hstart
  rw [renderLines, htidy, script_renderFrom align h hsound .nil false Bool.noConfusion]
  rfl

end HandlerSplit.Print
