import HandlerSplit.Proofs.Print.Brackets
import HandlerSplit.Proofs.Print.Flow.Lines
/-!
# The flow of bracketed lists

A list whose elements have the same flow has the same flow, whatever the lines and sections that its
elements are put into (`SameFlow.bracketed`).
-/

namespace HandlerSplit.Print

/-! ## Separators and comments -/

theorem Output.SameFlow.joined (sep : Output) {os os' : List Output}
    (h : List.Forall₂ SameFlow os os') : (joined sep os).SameFlow (joined sep os') := by
  induction h with
  | nil => rfl
  | cons ho hos ih =>
    cases hos with
    | nil => exact ho.append rfl
    | cons => exact ho.append (.append (a := sep) rfl ih)

/-- The empty lines between comments are not seen. -/
theorem linesFlow_commentLines (indent : Nat) (first first' : Bool) (comments : List Comment)
    (rest : List Glyph) : linesFlow (commentLines indent first comments) rest =
      linesFlow (commentLines indent first' comments) rest := by
  have hgap (b : Bool) (rest : List Glyph) :
      linesFlow (if b then [.blank] else []) rest = gap rest := by
    cases b with
    | false => rfl
    | true => exact gap_gap rest
  cases comments with
  | nil => rfl
  | cons c comments =>
    rw [commentLines, commentLines, linesFlow_append, linesFlow_append, hgap, hgap]

/-! ## Lines that are shared -/

/-- The flow of a comment behind a line. -/
def commentFlow (comment : Option Comment) : List Glyph → List Glyph :=
  cellsFlow (comment.map fun c => [Piece.word c.text]).toList

/-- A line whose key and value, as long as they count, are those of its only element. -/
structure SharedLine.Paired (l : SharedLine) : Prop where
  ne : l.texts ≠ []
  pair : ∀ key value text, l.pair = some (key, value) → l.texts = [text] → ∀ rest,
    text.flow (gap rest) = key.flow (gap (value.flow (gap rest)))

namespace SharedLine

theorem flow_cells {l : SharedLine} (h : l.Paired) (rest : List Glyph) :
    cellsFlow l.cells rest =
      gap ((Output.joined [.space] l.texts).flow (commentFlow l.comment rest)) := by
  rw [cells, cellsFlow_append]
  split
  · rename_i key value text hpair htexts
    rw [htexts, Output.joined_singleton, commentFlow, ← gap_cellsFlow _ rest,
      h.pair key value text hpair htexts]
    simp only [cellsFlow, gap_gap]
  · rw [cellsFlow, cellsFlow, commentFlow, gap_cellsFlow]

/-- Two lines with the same flow. -/
structure Alike (l l' : SharedLine) : Prop where
  paired : l.Paired
  paired' : l'.Paired
  texts : (Output.joined [.space] l.texts).SameFlow (Output.joined [.space] l'.texts)
  comment : l.comment = l'.comment

theorem paired_push {l : SharedLine} (h : l.Paired) (text : Output) :
    Paired { l with texts := l.texts ++ [text] } where
  ne := List.append_ne_nil_of_left_ne_nil h.ne _
  pair := by
    intro key value text' _ htexts
    have hlength := congrArg List.length htexts
    rw [List.length_append, List.length_singleton, List.length_singleton] at hlength
    exact absurd (List.length_eq_zero_iff.mp (by omega)) h.ne

theorem texts_appendInline {l : SharedLine} (h : l.texts ≠ []) (c : Comment) :
    (l.appendInline c).texts = l.texts.dropLast ++ [l.texts.getLast h ++ [.space, .word c.text]] := by
  show _ ++ (l.texts.getLast?.map (· ++ _)).toList = _
  rw [List.getLast?_eq_some_getLast h]
  rfl

theorem paired_appendInline {l : SharedLine} (h : l.Paired) (c : Comment) :
    (l.appendInline c).Paired where
  ne := by
    rw [texts_appendInline h.ne]
    exact List.append_ne_nil_of_right_ne_nil _ (List.cons_ne_nil _ _)
  pair := by
    intro key value text hpair htexts rest
    obtain ⟨⟨key', value'⟩, hold, hnew⟩ := Option.map_eq_some_iff.mp hpair
    obtain ⟨rfl, rfl⟩ := Prod.mk.inj hnew
    rw [texts_appendInline h.ne, ← List.nil_append [text]] at htexts
    obtain ⟨hnil, hlast⟩ := List.append_inj' htexts rfl
    have hsplit := List.dropLast_concat_getLast h.ne
    rw [hnil, List.nil_append] at hsplit
    have hown (rest : List Glyph) := h.pair key' value' _ hold hsplit.symm rest
    have htail (rest : List Glyph) :
        Output.flow [.space, .word c.text] rest = gap (Output.flow [.word c.text] rest) := by
      rw [Output.flow_cons, Output.flow_space]
    rw [← (List.cons.inj hlast).1, Output.flow_append, Output.flow_append, htail, hown]

/-- One more element on the line. -/
theorem Alike.push {l l' : SharedLine} (h : Alike l l') {text text' : Output}
    (htext : text.SameFlow text') :
    Alike { l with texts := l.texts ++ [text] } { l' with texts := l'.texts ++ [text'] } where
  paired := paired_push h.paired text
  paired' := paired_push h.paired' text'
  texts := by
    rw [Output.joined_concat _ h.paired.ne, Output.joined_concat _ h.paired'.ne]
    exact h.texts.append (htext.cons .space)
  comment := h.comment

/-- A comment at the end of the line. -/
theorem Alike.appendInline {l l' : SharedLine} (h : Alike l l') (c : Comment) :
    Alike (l.appendInline c) (l'.appendInline c) where
  paired := paired_appendInline h.paired c
  paired' := paired_appendInline h.paired' c
  texts := by
    rw [texts_appendInline h.paired.ne, texts_appendInline h.paired'.ne,
      Output.joined_concat_append, Output.joined_concat_append, List.dropLast_concat_getLast,
      List.dropLast_concat_getLast]
    exact h.texts.append rfl
  comment := h.comment

theorem Alike.withLine {l l' : SharedLine} (h : Alike l l') (c : Comment) :
    Alike { l with comment := some c } { l' with comment := some c } :=
  ⟨⟨h.paired.ne, h.paired.pair⟩, ⟨h.paired'.ne, h.paired'.pair⟩, h.texts, rfl⟩

end SharedLine

/-! ## Elements -/

/-- The text of an element is its key and its value, if it has them. -/
def ItemText.Keyed (item : ItemText) : Prop :=
  ∀ key value, item.pair = some (key, value) → item.text = key ++ [.word ":", .space] ++ value

/-- Two elements with the same flow. -/
structure ItemText.Alike (item item' : ItemText) : Prop where
  keyed : item.Keyed
  keyed' : item'.Keyed
  text : item.text.SameFlow item'.text

theorem ItemText.Alike.plain {o o' : Output} (h : o.SameFlow o') :
    ItemText.Alike (.plain o) (.plain o') where
  keyed := by rintro _ _ ⟨⟩
  keyed' := by rintro _ _ ⟨⟩
  text := h

/-- Two elements with the same flow and layout. -/
structure Entry.Alike (e e' : Entry) : Prop where
  decs : e.decs = e'.decs
  breaks : e.breaks = e'.breaks
  item : e.item.Alike e'.item
  tail : e.tail = e'.tail

/-- Two lists as far as they have been laid out, with the same flow. -/
structure Gathered.Alike (g g' : Gathered) : Prop where
  head : g.head.SameFlow g'.head
  lines : linesFlow g.lines = linesFlow g'.lines
  current : Option.Rel SharedLine.Alike g.current g'.current

namespace Gathered.Alike

variable {g g' : Gathered}

theorem finish (h : Alike g g') (indent : Nat) :
    linesFlow (g.finish indent) = linesFlow (g'.finish indent) := by
  obtain ⟨head, lines, current⟩ := g
  obtain ⟨head', lines', current'⟩ := g'
  obtain ⟨-, hlines, hcurrent⟩ := h
  funext rest
  rw [Gathered.finish, Gathered.finish, linesFlow_append, linesFlow_append]
  dsimp only at hlines hcurrent ⊢
  rw [hlines]
  cases hcurrent with
  | none => rfl
  | some hline =>
    rw [Option.map_some, Option.map_some, Option.toList_some, Option.toList_some,
      linesFlow_ofCells, linesFlow_ofCells, SharedLine.flow_cells hline.paired,
      SharedLine.flow_cells hline.paired', hline.texts, hline.comment]

/-- An element that starts a line. -/
theorem single {e e' : Entry} (he : e.Alike e') {pair pair' : Option (Output × Output)}
    (hpair : ∀ key value, pair = some (key, value) → ∃ key' value',
      e.item.pair = some (key', value') ∧ key = key' ++ [.word ":"] ∧ value = value' ++ e.tail)
    (hpair' : ∀ key value, pair' = some (key, value) → ∃ key' value',
      e'.item.pair = some (key', value') ∧ key = key' ++ [.word ":"] ∧ value = value' ++ e'.tail) :
    SharedLine.Alike ⟨[e.item.text ++ e.tail], pair, none⟩
      ⟨[e'.item.text ++ e'.tail], pair', none⟩ := by
  have hpaired {e : Entry} (hkeyed : e.item.Keyed) {pair : Option (Output × Output)}
      (hpair : ∀ key value, pair = some (key, value) → ∃ key' value',
        e.item.pair = some (key', value') ∧ key = key' ++ [.word ":"] ∧ value = value' ++ e.tail) :
      SharedLine.Paired ⟨[e.item.text ++ e.tail], pair, none⟩ := by
    refine ⟨List.cons_ne_nil _ _, fun key value text hsome htext rest => ?_⟩
    obtain ⟨key', value', hold, rfl, rfl⟩ := hpair key value hsome
    rw [← (List.cons.inj htext).1, hkeyed key' value' hold]
    simp only [Output.flow_append, Output.flow_cons (.word ":"), Output.flow_space, Output.flow_nil]
  refine ⟨hpaired he.item.keyed hpair, hpaired he.item.keyed' hpair', ?_, rfl⟩
  rw [Output.joined_singleton, Output.joined_singleton, he.tail]
  exact he.item.text.append rfl

/-- An element behind the others. Where sections start is not seen. -/
theorem place (h : Alike g g') {e e' : Entry} (he : e.Alike e') (indent : Nat)
    (isFirst alone newSection newSection' : Bool) :
    Alike (g.place indent isFirst alone newSection e)
      (g'.place indent isFirst alone newSection' e') := by
  have htext : (e.item.text ++ e.tail).SameFlow (e'.item.text ++ e'.tail) :=
    he.item.text.append (congrArg Output.flow he.tail)
  have hsection (b : Bool) (rest : List Glyph) :
      linesFlow (if b then [.sectionEnd] else []) rest = gap rest := by
    cases b with
    | false => rfl
    | true => exact gap_gap rest
  rw [Gathered.place, Gathered.place, ← he.breaks]
  split
  · refine ⟨h.head, funext fun rest => ?_,
      .some (single he (fun key value hpair => ?_) fun key value hpair => ?_)⟩
    · dsimp only
      rw [linesFlow_append, linesFlow_append, linesFlow_append, linesFlow_append, hsection, hsection,
        h.finish, he.decs]
    all_goals
      split at hpair
      · rename_i key' value' hsome
        split at hpair
        · obtain ⟨rfl, rfl⟩ := Prod.mk.inj (Option.some.inj hpair)
          exact ⟨key', value', hsome, rfl, rfl⟩
        · cases hpair
      · cases hpair
  · obtain ⟨head, lines, current⟩ := g
    obtain ⟨head', lines', current'⟩ := g'
    obtain ⟨hhead, hlines, hcurrent⟩ := h
    cases hcurrent with
    | none => exact ⟨(hhead.append rfl).append htext, hlines, .none⟩
    | some hline => exact ⟨hhead, hlines, .some (hline.push htext)⟩

theorem comment (h : Alike g g') (comment : Option Comment) :
    Alike (g.comment comment) (g'.comment comment) := by
  cases comment with
  | none => exact h
  | some c =>
    obtain ⟨head, lines, current⟩ := g
    obtain ⟨head', lines', current'⟩ := g'
    obtain ⟨hhead, hlines, hcurrent⟩ := h
    cases hcurrent with
    | none => exact ⟨hhead.append rfl, hlines, .none⟩
    | some hline =>
      rw [Gathered.comment, Gathered.comment]
      dsimp only
      split
      · exact ⟨hhead, hlines, .some (hline.withLine c)⟩
      · exact ⟨hhead, hlines, .some (hline.appendInline c)⟩

theorem entries (h : Alike g g') {es es' : List Entry} (hes : List.Forall₂ Entry.Alike es es')
    (indent : Nat) (alone isFirst : Bool) (run run' : KeyRun) (shared shared' : Bool) :
    Alike (Gathered.entries indent alone g isFirst es (sectionStarts run shared es))
      (Gathered.entries indent alone g' isFirst es' (sectionStarts run' shared' es')) := by
  induction hes generalizing g g' isFirst run run' shared shared' with
  | nil => exact h
  | cons he _ ih =>
    rw [sectionStarts, sectionStarts, Gathered.entries, Gathered.entries, ← he.decs]
    exact ih ((h.place he _ _ _ _ _).comment _) _ _ _ _ _

end Gathered.Alike

/-! ## Whole lists -/

theorem forall₂_zip {α β γ : Type} {R : β → β → Prop} {xs xs' : List β}
    (h : List.Forall₂ R xs xs') (as : List α) (bs : List γ) :
    List.Forall₂ (fun p p' => p.1 = p'.1 ∧ R p.2.1 p'.2.1 ∧ p.2.2 = p'.2.2)
      (as.zip (xs.zip bs)) (as.zip (xs'.zip bs)) := by
  induction h generalizing as bs with
  | nil => cases as <;> exact .nil
  | cons hx _ ih =>
    cases as with
    | nil => exact .nil
    | cons a as =>
      cases bs with
      | nil => exact .nil
      | cons b bs => exact .cons ⟨rfl, hx, rfl⟩ (ih as bs)

section

variable {items items' : List ItemText} (h : List.Forall₂ ItemText.Alike items items')

include h

theorem layOut_alike (ds : List Decorations) (enclosure : Enclosure) (indent : Nat) (variadic : Bool) :
    (layOut ds enclosure indent variadic items).Alike
      (layOut ds enclosure indent variadic items') := by
  have hstart : Gathered.Alike {} {} := ⟨rfl, rfl, .none⟩
  rw [layOut, layOut, ← h.length_eq]
  refine hstart.entries ?_ _ _ _ _ _ _ _
  rw [List.forall₂_map_left_iff, List.forall₂_map_right_iff]
  exact (forall₂_zip h _ _).imp fun p p' ⟨hdecs, hitem, htail⟩ =>
    ⟨congrArg Prod.fst hdecs, congrArg Prod.snd hdecs, hitem, htail⟩

/-- A list of elements with the same flow, printed in two styles. -/
theorem Output.SameFlow.bracketed (style style' : Style) (opening : String) {closing : String}
    (hclosing : Lone closing) (ds : List Decorations) (enclosure : Enclosure) (indent : Nat)
    (variadic : Bool) :
    (bracketed style opening closing ds enclosure indent variadic items).SameFlow
      (bracketed style' opening closing ds enclosure indent variadic items') := by
  cases hmulti : (ListShape.of ds enclosure).isMultiline with
  | false =>
    have hempty : items.isEmpty = items'.isEmpty := by cases h <;> rfl
    have htexts : List.Forall₂ Output.SameFlow (items.map (·.text)) (items'.map (·.text)) := by
      rw [List.forall₂_map_left_iff, List.forall₂_map_right_iff]
      exact h.imp fun _ _ hitem => hitem.text
    rw [bracketed_inline hmulti, bracketed_inline hmulti, hempty]
    exact ((Output.SameFlow.append rfl (.joined _ htexts)).append rfl).append rfl
  | true =>
    have halike := layOut_alike h ds enclosure indent variadic
    funext rest
    rw [bracketed_broken hmulti, bracketed_broken hmulti]
    dsimp only
    generalize layOut ds enclosure indent variadic items = g at halike ⊢
    generalize layOut ds enclosure indent variadic items' = g' at halike ⊢
    split
    · simp only [Output.flow_append, Output.flow_newline, flow_renderLines, linesFlow_append,
        halike.head, halike.finish]
      rw [linesFlow_commentLines _ _ (!(g'.finish (indent + 1)).any Line.isRow)]
    · -- The comments before the bracket, or the bracket itself, are parted from the last line.
      have hgap : Output.flow (enclosure.closeComments.flatMap fun c => [.space, .word c.text])
          (Output.flow [.word closing] rest) =
            gap (Output.flow (enclosure.closeComments.flatMap fun c => [.space, .word c.text])
              (Output.flow [.word closing] rest)) := by
        cases enclosure.closeComments with
        | nil => exact (hclosing.gap_flow rest).symm
        | cons c comments =>
          rw [List.flatMap_cons, Output.flow_append, Output.flow_cons, Output.flow_space, gap_gap]
      simp only [Output.flow_append, halike.head]
      rw [hgap, flow_body, flow_body, halike.finish]

end

/-- Brackets around lines of their own. -/
theorem flow_braced (style : Style) (opening closing : String) (enclosure : Enclosure) (indent : Nat)
    (ls : List Line) (rest : List Glyph) :
    (braced style opening closing enclosure indent ls).flow rest =
      Output.flow [.word opening] ((openCommentOutput enclosure.openComment).flow
        (linesFlow ls (Output.flow [.word closing] rest))) := by
  have hclosing : linesFlow ls (Output.flow [.tabs indent, .word closing] rest) =
      linesFlow ls (Output.flow [.word closing] rest) := by
    rw [← linesFlow_gap, Output.flow_cons, gap_flow_tabs, linesFlow_gap]
  rw [braced]
  simp only [Output.flow_append, Output.flow_newline, flow_renderLines, hclosing]

end HandlerSplit.Print
