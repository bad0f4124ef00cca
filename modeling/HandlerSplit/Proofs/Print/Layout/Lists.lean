import HandlerSplit.Proofs.Parse.Taking
import HandlerSplit.Proofs.Print.Brackets
import HandlerSplit.Proofs.Print.Layout.Lines
/-!
# Laying out lists

A bracketed list is written on one line, or its elements are gathered into lines. The lines of a
list that is being gathered are ready for one more row (`Gathered.Neat`), and what stays on the line
of the opening bracket ends with a word. So a list in brackets may stand anywhere
(`Firm.bracketed`), and brackets around lines of their own may (`Firm.braced`).
-/

namespace HandlerSplit.Print

open Spot

/-! ## Comments -/

/-- Comments that are read from their own texts. -/
def Remarks (cs : List Comment) : Prop :=
  ∀ c ∈ cs, (TokenKind.comment c.text).Legible

/-- Comments among genuine marks can be read as comments. -/
theorem Genuine.remarks {ws : List TokenKind} {ms : List Mark} {cs : List Comment}
    (h : Genuine ws (textsOf ms)) (hcs : commentMarks cs ⊆ ms) : Remarks cs := fun _ hc =>
  h.2 _ (List.mem_filterMap.mpr ⟨_, hcs (List.mem_map_of_mem hc), rfl⟩)

/-- The comments of a node. -/
structure Remarked (d : Decorations) : Prop where
  leading : Remarks d.leading
  trailing : Remarks d.trailing.toList

/-- The comments of a bracketed list. -/
structure EnclosureRemarked (e : Enclosure) : Prop where
  opening : Remarks e.openComment.toList
  closing : Remarks e.closeComments

/-- The comments around a node can be read as comments. -/
theorem Genuine.remarked {ws : List TokenKind} {ms : List Mark} {d : Decorations}
    (h : Genuine ws (textsOf ms)) (inside : List Mark) (hd : d.around inside ⊆ ms := by grind) :
    Remarked d where
  leading := h.remarks fun _ hm => hd (List.mem_append_left _ (List.mem_append_left _ hm))
  trailing := h.remarks fun _ hm => hd (List.mem_append_right _ hm)

/-- The comments at brackets can be read as comments. -/
theorem Genuine.enclosure {ws : List TokenKind} {ms : List Mark} {e : Enclosure}
    (h : Genuine ws (textsOf ms)) (inside : List Mark) (he : e.around inside ⊆ ms := by grind) :
    EnclosureRemarked e where
  opening := h.remarks fun _ hm => he (List.mem_append_left _ (List.mem_append_left _ hm))
  closing := h.remarks fun _ hm => he (List.mem_append_right _ hm)

variable {P Q : Spot → Prop} {o : Output}

/-- A comment behind a word. -/
theorem Lays.spacedComment {c : Comment} (h : (TokenKind.comment c.text).Legible) :
    Lays AtWord [.space, .word c.text] AtWord :=
  Lays.append (a := [.space]) (Lays.space (P := Anywhere)).before (.anyComment h)

/-- Comments behind a text stand on its line, a space before each. -/
theorem Lays.spacedComments {cs : List Comment} (h : Remarks cs) :
    Lays AtWord (cs.flatMap fun c => [.space, .word c.text]) AtWord := by
  induction cs with
  | nil => exact .nil
  | cons c cs ih =>
    obtain ⟨hc, hcs⟩ := List.forall_mem_cons.mp h
    exact (spacedComment hc).append (ih hcs)

/-- The comment behind an opening bracket. -/
theorem Lays.afterOpening {comment : Option Comment} (h : Remarks comment.toList) :
    Lays Opened (openCommentOutput comment) Opened := by
  cases comment with
  | none => exact .nil
  | some c => exact .openComment (h c List.mem_cons_self)

/-- A comment behind a text leaves it inked. -/
theorem Lays.withBlock {c : Comment} (h : Lays P o Inked) (hc : (TokenKind.comment c.text).Legible) :
    Lays P (o ++ [.space, .word c.text]) Inked :=
  h.append (Lays.append (a := [.space]) (Lays.space (P := Fresh)) (.comment hc))

/-! ## Lines -/

namespace NeatLines

theorem line {cells : List Output} (indent : Nat) (h : NeatCells cells) :
    NeatLines [.ofCells indent cells] :=
  .row h.merge .nil

/-- Comments stand on lines of their own. -/
theorem comments {cs : List Comment} (h : Remarks cs) (indent : Nat) (first : Bool) :
    NeatLines (commentLines indent first cs) := by
  induction cs generalizing first with
  | nil => exact .nil
  | cons c cs ih =>
    obtain ⟨hc, hcs⟩ := List.forall_mem_cons.mp h
    have hrow : NeatLines (.ofText indent [.word c.text] :: commentLines indent false cs) :=
      .row (NeatCells.merge ⟨.comment hc, List.forall_mem_nil _⟩) (ih hcs false)
    rw [commentLines]
    split
    · exact .blank hrow
    · exact hrow

/-- The comments before a node stand on lines of their own, behind an empty line if there was
one. -/
theorem leading {d : Decorations} (h : Remarks d.leading) (indent : Nat) (first : Bool) :
    NeatLines (leadingLines indent d first) := by
  refine (comments h indent first).append ?_
  split
  · exact .blank .nil
  · exact .nil

end NeatLines

/-- A comment that trails is a cell of its own. -/
theorem neatCells_withComment {comment : Option Comment} (h : Lays Fresh o Inked)
    (hcomment : Remarks comment.toList) : NeatCells (withComment o comment) := by
  refine ⟨h, ?_⟩
  cases comment with
  | none => exact List.forall_mem_nil _
  | some c => exact List.forall_mem_singleton.mpr (.inr (.comment (hcomment c List.mem_cons_self)))

/-! ## Brackets around lines -/

section Brackets

variable (style : Style) (om cm : Punct) (hopen : (TokenKind.punct om).opens = true)
  (hclose : (TokenKind.punct cm).closes = true) {e : Enclosure} (he : EnclosureRemarked e)
  (indent : Nat)

include hopen hclose he

/-- Neat lines between brackets may stand anywhere. -/
theorem Firm.braced {ls : List Line} (hlines : NeatLines ls) :
    Firm (braced style om.spelling cm.spelling e indent ls) := by
  have hstart : Lays Anywhere ([.word om.spelling] ++ openCommentOutput e.openComment) Opened :=
    (Lays.opening hopen).append (.afterOpening he.opening)
  have hend : Lays Near [.tabs indent, .word cm.spelling] Inked :=
    Lays.append (a := [.tabs indent]) (.tabs indent) (.closing hclose)
  exact ((hstart.append .newline).append (hlines.render style.align)).append hend

end Brackets

/-! ## Outputs with separators -/

section Separators

variable {separator : Output} {os : List Output}

/-- Firm outputs with a separator between them are firm. -/
theorem Firm.joined (hseparator : Lays Anywhere separator Anywhere) (h : ∀ o ∈ os, Firm o)
    (hne : os ≠ []) : Firm (Output.joined separator os) := by
  induction os with
  | nil => exact absurd rfl hne
  | cons o os ih =>
    obtain ⟨ho, hos⟩ := List.forall_mem_cons.mp h
    cases os with
    | nil =>
      rw [Output.joined_singleton]
      exact ho
    | cons o' os =>
      rw [Output.joined_cons_cons]
      exact ho.then (hseparator.append (ih hos (List.cons_ne_nil _ _)))

/-- Outputs with a separator between them may be none. -/
theorem Lays.joined [Entails Inked P] (hseparator : Lays Anywhere separator Anywhere)
    (h : ∀ o ∈ os, Firm o) : Lays P (Output.joined separator os) P := by
  by_cases hne : os = []
  · rw [hne]
    exact .nil
  · exact (Firm.joined hseparator h hne).keeps

/-- An output that may be missing. -/
theorem Lays.optional [Entails Inked P] {b : Option Output} (h : ∀ o ∈ b, Firm o) :
    Lays P (b.getD []) P := by
  cases b with
  | none => exact .nil
  | some o => exact (h o rfl).keeps

theorem Lays.mark {m : Punct} (hopens : (TokenKind.punct m).opens = false)
    (hcloses : (TokenKind.punct m).closes = false) [Entails Inked Q] :
    Lays P [.word m.spelling] Q :=
  Lays.behind (Firm.mark m hopens hcloses).before

/-- A comma with a space may stand anywhere. -/
theorem Lays.spacedComma : Lays Anywhere [.word ",", .space] Anywhere :=
  Lays.append (a := [.word Punct.comma.spelling]) (Q := Anywhere) (.mark rfl rfl) .space

/-- Firm outputs with commas between them are firm. -/
theorem Firm.commaSeparated (h : ∀ o ∈ os, Firm o) (hne : os ≠ []) :
    Firm (Output.commaSeparated os) :=
  .joined .spacedComma h hne

end Separators

/-! ## Elements -/

/-- The printed form of an element that may stand anywhere. -/
structure NeatItem (item : ItemText) : Prop where
  text : Firm item.text
  pair : ∀ kv ∈ item.pair, Firm kv.1 ∧ Firm kv.2

theorem NeatItem.plain (h : Firm o) : NeatItem (.plain o) :=
  ⟨h, fun _ hkv => by cases hkv⟩

/-- An element that is to be put on a line. -/
structure NeatEntry (e : Entry) : Prop where
  item : NeatItem e.item
  tail : Lays Inked e.tail Inked
  remarked : Remarked e.decs

/-- A line of elements. -/
structure NeatShared (l : SharedLine) : Prop where
  nonempty : l.texts ≠ []
  texts : ∀ t ∈ l.texts, Firm t
  pair : ∀ kv ∈ l.pair, Firm kv.1 ∧ Firm kv.2
  comment : Remarks l.comment.toList

namespace NeatShared

variable {l : SharedLine}

theorem cells (h : NeatShared l) : NeatCells l.cells := by
  have hcomment : ∀ c ∈ (l.comment.map fun c => [Piece.word c.text]).toList, NeatCell c := by
    cases hc : l.comment with
    | none => exact List.forall_mem_nil _
    | some c =>
      refine List.forall_mem_singleton.mpr (.inr (.comment (h.comment c ?_)))
      rw [hc]
      exact List.mem_cons_self
  rw [SharedLine.cells]
  split
  · rename_i key value text hpair htexts
    obtain ⟨hkey, hvalue⟩ := h.pair _ hpair
    exact ⟨hkey.before, List.forall_mem_cons.mpr ⟨hvalue.cell, hcomment⟩⟩
  · exact ⟨(Firm.joined .space h.texts h.nonempty).before, hcomment⟩

/-- Another element goes on the line that is shared. -/
theorem push (h : NeatShared l) {text : Output} (htext : Firm text) :
    NeatShared { l with texts := l.texts ++ [text] } where
  nonempty := List.append_ne_nil_of_right_ne_nil _ (List.cons_ne_nil _ _)
  texts := List.forall_mem_append.mpr ⟨h.texts, List.forall_mem_singleton.mpr htext⟩
  pair := h.pair
  comment := h.comment

/-- A comment inside a list goes behind the element before it. -/
theorem appendInline (h : NeatShared l) {c : Comment} (hc : (TokenKind.comment c.text).Legible) :
    NeatShared (l.appendInline c) := by
  obtain ⟨texts, last, htexts⟩ := List.eq_nil_or_concat' l.texts |>.resolve_left h.nonempty
  have hall := h.texts
  have hline : (l.appendInline c).texts = texts ++ [last ++ [.space, .word c.text]] := by
    rw [SharedLine.appendInline, htexts, List.dropLast_concat, List.getLast?_concat]
    rfl
  rw [htexts, List.forall_mem_append, List.forall_mem_singleton] at hall
  refine ⟨?_, ?_, ?_, h.comment⟩
  · rw [hline]
    exact List.append_ne_nil_of_right_ne_nil _ (List.cons_ne_nil _ _)
  · rw [hline]
    exact List.forall_mem_append.mpr ⟨hall.1, List.forall_mem_singleton.mpr (hall.2.withBlock hc)⟩
  · intro kv hkv
    obtain ⟨⟨key, value⟩, hpair, rfl⟩ := Option.map_eq_some_iff.mp hkv
    obtain ⟨hkey, hvalue⟩ := h.pair _ hpair
    exact ⟨hkey, hvalue.withBlock hc⟩

theorem withLine (h : NeatShared l) {c : Comment} (hc : (TokenKind.comment c.text).Legible) :
    NeatShared { l with comment := some c } where
  nonempty := h.nonempty
  texts := h.texts
  pair := h.pair
  comment := List.forall_mem_singleton.mpr hc

end NeatShared

/-! ## Gathering -/

/-- A list as far as it has been laid out. Its lines are ready for one more row. -/
structure NeatGathered (g : Gathered) : Prop where
  head : Lays AtWord g.head AtWord
  lines : ∀ r : Row, NeatCells r.cells → NeatLines (g.lines ++ [.row r])
  current : ∀ l ∈ g.current, NeatShared l
  started : g.current = none → g.lines = []

namespace NeatGathered

variable {g : Gathered}

/-- At first nothing has been laid out. -/
theorem empty : NeatGathered {} where
  head := .nil
  lines _ hr := .row hr .nil
  current _ hl := by cases hl
  started _ := rfl

/-- The line that is shared is the last of a list. -/
theorem finish (h : NeatGathered g) (indent : Nat) : NeatLines (g.finish indent) := by
  rw [Gathered.finish]
  cases hcurrent : g.current with
  | none =>
    rw [h.started hcurrent]
    exact .nil
  | some l => exact h.lines _ (h.current l hcurrent).cells.merge

/-- An element is laid out on the line that is shared, or on a new one. -/
theorem place (h : NeatGathered g) {e : Entry} (he : NeatEntry e) (indent : Nat)
    (isFirst alone newSection : Bool) :
    NeatGathered (g.place indent isFirst alone newSection e) := by
  have htext : Firm (e.item.text ++ e.tail) := he.item.text.append he.tail
  rw [Gathered.place]
  split
  · -- The element starts a line, behind its comments and a mark of a section.
    refine ⟨h.head, fun r hr => ?_, ?_, fun hnone => by cases hnone⟩
    · have hlead := (h.finish indent).append (NeatLines.leading he.remarked.leading indent false)
      rw [List.append_assoc]
      refine hlead.append ?_
      split
      · exact .sectionEnd hr .nil
      · exact .row hr .nil
    · rintro l ⟨⟩
      refine ⟨List.cons_ne_nil _ _, List.forall_mem_singleton.mpr htext, ?_, List.forall_mem_nil _⟩
      intro kv hkv
      split at hkv
      · rename_i key value hpair
        split at hkv
        · cases hkv
          obtain ⟨hkey, hvalue⟩ := he.item.pair _ hpair
          exact ⟨hkey.then (Lays.mark (m := .colon) rfl rfl),
            hvalue.append he.tail⟩
        · cases hkv
      · cases hkv
  · split
    · rename_i l hcurrent
      refine ⟨h.head, h.lines, ?_, fun hnone => by cases hnone⟩
      rintro _ ⟨⟩
      exact (h.current l hcurrent).push htext
    · rename_i hcurrent
      refine ⟨?_, h.lines, ?_, h.started⟩
      · have hspace : Lays AtWord (if isFirst then [] else [.space]) Anywhere := by
          split
          · exact (Lays.nil (P := AtWord)).behind
          · exact (Lays.space (P := Anywhere)).before
        exact ((h.head.append hspace).append htext).behind
      · rw [hcurrent]
        exact fun _ hl => by cases hl

/-- A comment behind an element ends the line that is shared. -/
theorem comment (h : NeatGathered g) {comment : Option Comment} (hc : Remarks comment.toList) :
    NeatGathered (g.comment comment) := by
  cases comment with
  | none => exact h
  | some c =>
    have hc := hc c List.mem_cons_self
    rw [Gathered.comment]
    split
    · rename_i l hcurrent
      split
      · refine ⟨h.head, h.lines, ?_, fun hnone => by cases hnone⟩
        rintro _ ⟨⟩
        exact (h.current l hcurrent).withLine hc
      · refine ⟨h.head, h.lines, ?_, fun hnone => by cases hnone⟩
        rintro _ ⟨⟩
        exact (h.current l hcurrent).appendInline hc
    · exact ⟨h.head.append (.spacedComment hc), h.lines, h.current, h.started⟩

/-- Elements are laid out one after another. -/
theorem entries {es : List Entry} (hes : ∀ e ∈ es, NeatEntry e) (h : NeatGathered g) (indent : Nat)
    (alone isFirst : Bool) (sections : List Bool) :
    NeatGathered (Gathered.entries indent alone g isFirst es sections) := by
  induction es generalizing g isFirst sections with
  | nil => exact h
  | cons e es ih =>
    obtain ⟨he, hes⟩ := List.forall_mem_cons.mp hes
    cases sections with
    | nil => exact h
    | cons s sections =>
      exact ih hes ((h.place he indent isFirst alone s).comment he.remarked.trailing) false sections

end NeatGathered

/-! ## Whole lists -/

/-- The lines of a list whose closing bracket follows the last of them. -/
theorem lays_body {lines : Output} (h : Lays AtLine lines AtLine) :
    Lays AtWord (if lines.isBlank then [] else .newline :: lines.dropEnd '\n') AtWord := by
  split
  · exact .nil
  · rename_i hblank
    have hne : lines ≠ [] := fun hnil => hblank (by rw [hnil]; rfl)
    have hends : ∃ front t, lines = front ++ [.word t, .newline] :=
      (h Spot.start ⟨rfl, rfl⟩).1.ends rfl (h Spot.start ⟨rfl, rfl⟩).2 hne
    obtain ⟨front, t, rfl⟩ := hends
    have hlegible := (h Spot.start ⟨rfl, rfl⟩).1.legible
    obtain ⟨c, hc, hnot⟩ := nonblank_last (hlegible t (by simp))
    have hdropped : Output.dropEnd '\n' (front ++ [.word t, .newline]) = front ++ [.word t] := by
      have hback : ∀ p ∈ [Piece.newline], ∀ d ∈ p.chars, d = '\n' := by
        simp [Piece.chars, Piece.text]
      rw [← dropEnd_word (c := '\n') front (t := t) ⟨c, hc, ?_⟩ hback, List.append_assoc]
      · rfl
      · rintro rfl
        exact absurd hnot (by decide)
    rw [hdropped]
    have hkept : Lays AtLine (front ++ [.word t]) AtWord := by
      intro s hs
      have hneat := (h s hs).1
      rw [show front ++ [.word t, .newline] = front ++ [.word t] ++ [.newline] from
        (List.append_assoc front [.word t] [.newline]).symm, Output.neat_append] at hneat
      refine ⟨hneat.1, ?_⟩
      rw [Output.spot_append]
      exact ⟨rfl, rfl⟩
    exact Lays.append (a := [.newline]) .newline hkept

section

variable {decs : List Decorations} {e : Enclosure} {items : List ItemText}

/-- Behind an element stands a comma, dots, or nothing. -/
theorem lays_tailOf (variadic closeNewline : Bool) (n i : Nat) :
    Lays Inked (tailOf variadic closeNewline n i) Inked := by
  refine Lays.append (Q := Inked) ?_ (?_ : Lays Inked _ Inked)
  · split
    · exact .mark (m := .ellipsis) rfl rfl
    · exact .nil
  · split
    · exact .mark (m := .comma) rfl rfl
    · exact .nil

/-- Neat items are laid out in neat lines. -/
theorem neatGathered_layOut (hdecs : ∀ d ∈ decs, Remarked d) (hitems : ∀ item ∈ items, NeatItem item)
    (e : Enclosure) (indent : Nat) (variadic : Bool) :
    NeatGathered (layOut decs e indent variadic items) := by
  refine .entries (List.forall_mem_map.mpr ?_) .empty _ _ _ _
  rintro ⟨⟨d, breaks⟩, item, tail⟩ hmem
  obtain ⟨hdec, hitem⟩ := List.of_mem_zip hmem
  have htail := (List.of_mem_zip hitem).2
  obtain ⟨i, -, rfl⟩ := List.mem_map.mp htail
  exact ⟨hitems item (List.of_mem_zip hitem).1, lays_tailOf _ _ _ i,
    hdecs d (List.of_mem_zip hdec).1⟩

variable (om cm : Punct) (hopen : (TokenKind.punct om).opens = true)
  (hclose : (TokenKind.punct cm).closes = true) (hdecs : ∀ d ∈ decs, Remarked d) (he : EnclosureRemarked e)
  (hitems : ∀ item ∈ items, NeatItem item)

include hopen hclose hdecs he hitems

/-- A bracketed list. -/
theorem Firm.bracketed (style : Style) (indent : Nat) (variadic : Bool) :
    Firm (bracketed style om.spelling cm.spelling decs e indent variadic items) := by
  cases hmulti : (ListShape.of decs e).isMultiline with
  | false =>
    have hjoined : Lays Near (Output.commaSeparated (items.map (·.text))) Near :=
      .joined .spacedComma (List.forall_mem_map.mpr fun item hitem => (hitems item hitem).text)
    have hdots : Lays Near (if variadic && !items.isEmpty then [.word "..."] else []) Near := by
      split
      · exact .mark (m := .ellipsis) rfl rfl
      · exact .nil
    rw [bracketed_inline hmulti]
    exact (((Lays.opening hopen).append hjoined).append hdots).append (.closing hclose)
  | true =>
    have hgathered := neatGathered_layOut hdecs hitems e indent variadic
    rw [bracketed_broken hmulti]
    set gathered := layOut decs e indent variadic items
    have hstart : Lays Anywhere ([.word om.spelling] ++ openCommentOutput e.openComment ++
        gathered.head) AtWord :=
      ((Lays.opening hopen).append (.afterOpening he.opening)).append hgathered.head
    dsimp only
    split
    · have hlines := (hgathered.finish (indent + 1)).append (NeatLines.comments he.closing
        (indent + 1) (!(gathered.finish (indent + 1)).any Line.isRow))
      have hend : Lays Near [.tabs indent, .word cm.spelling] Inked :=
        Lays.append (a := [.tabs indent]) (.tabs indent) (.closing hclose)
      exact ((hstart.append .newline).append (hlines.render style.align)).append hend
    · have hbody := lays_body ((hgathered.finish (indent + 1)).render style.align)
      exact ((hstart.append hbody).append (.spacedComments he.closing)).append (.closing hclose)

end

end HandlerSplit.Print
