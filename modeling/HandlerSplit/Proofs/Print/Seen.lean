import HandlerSplit.Proofs.Print.LineScript
import HandlerSplit.Proofs.Print.Brackets
/-!
# What the grammar sees of a list

The grammar sees the tokens of an output, its comments left out (`Output.seen`). Of a bracketed list
it sees the elements in their order, each with what follows it directly, however the list is broken
into lines and columns (`seen_layOut`).
-/

namespace HandlerSplit

/-- A comment that is read as one. -/
def Comment.Legible (c : Comment) : Prop :=
  (TokenKind.comment c.text).Legible

/-- Comments around a node that are read as comments. -/
structure Decorations.Legible (d : Decorations) : Prop where
  leading : ∀ c ∈ d.leading, c.Legible
  trailing : ∀ c ∈ d.trailing, c.Legible

namespace Print

/-! ## Outputs -/

/-- The tokens of an output, its comments left out. -/
def Output.seen (o : Output) : List TokenKind :=
  o.kinds.filter (!·.isTrivia)

namespace Output

@[simp] theorem seen_nil : seen [] = [] :=
  rfl

/-- The tokens of two outputs follow one another. -/
@[simp] theorem seen_append (a b : Output) : seen (a ++ b) = seen a ++ seen b := by
  rw [seen, kinds_append, List.filter_append]
  rfl

@[simp] theorem seen_space : seen [.space] = [] :=
  rfl

@[simp] theorem seen_newline : seen [.newline] = [] :=
  rfl

theorem seen_mark (m : Punct) : seen [.word m.spelling] = [.punct m] := by
  have hkinds : kinds [.word m.spelling] = [.punct m] :=
    congrArg (fun k => [k]) (kindOf_text (legible_punct m))
  rw [seen, hkinds]
  rfl

/-- A comment is not seen. -/
theorem seen_comment {c : Comment} (h : c.Legible) : seen [.word c.text] = [] := by
  have hkinds : kinds [.word c.text] = [.comment c.text] := congrArg (fun k => [k]) (kindOf_text h)
  rw [seen, hkinds]
  rfl

theorem seen_openComment {comment : Option Comment}
    (h : ∀ c ∈ comment, c.Legible) :
    (openCommentOutput comment).seen = [] := by
  cases comment with
  | none => rfl
  | some c => exact seen_comment (h c rfl)

theorem seen_inlineComments {comments : List Comment}
    (h : ∀ c ∈ comments, c.Legible) :
    Output.seen (comments.flatMap fun c => [.space, .word c.text]) = [] := by
  induction comments with
  | nil => rfl
  | cons c comments ih =>
    obtain ⟨hc, hcomments⟩ := List.forall_mem_cons.mp h
    have hone : Output.seen [.space, .word c.text] = [] := seen_comment hc
    rw [List.flatMap_cons, seen_append, hone, ih hcomments]
    rfl

/-- Spaces between outputs are not seen. -/
theorem seen_joined {sep : Output} (hsep : sep.seen = []) (os : List Output) :
    (joined sep os).seen = os.flatMap seen := by
  induction os with
  | nil => rfl
  | cons o os ih =>
    cases os with
    | nil => simp [joined_singleton]
    | cons o' os =>
      rw [joined_cons_cons, seen_append, seen_append, hsep, ih]
      rfl

end Output

/-! ## Lines -/

/-- The tokens of lines, their comments left out. -/
def linesSeen (ls : List Line) : List TokenKind :=
  ls.flatMap fun l => l.cells.flatMap Output.seen

/-- The tokens of lines follow one another. -/
theorem linesSeen_append (ls ls' : List Line) :
    linesSeen (ls ++ ls') = linesSeen ls ++ linesSeen ls' :=
  List.flatMap_append

/-- What is seen of lines is what they hold without comments. -/
theorem filter_lineKinds (ls : List Line) :
    (lineKinds ls).filter (!·.isTrivia) = linesSeen ls := by
  rw [lineKinds, List.filter_flatMap]
  refine List.flatMap_congr fun l _ => ?_
  rw [cellKinds, List.filter_flatMap]
  rfl

/-- What is seen of lines is written. -/
theorem seen_renderLines (align : Bool) {ls : List Line} (h : ∀ l ∈ ls, CellsSound l.cells) :
    (renderLines align ls).seen = linesSeen ls := by
  rw [Output.seen, (whole_renderLines align h).carries.kinds, filter_lineKinds]

/-- Neither the line break before lines nor those at their end are seen. -/
theorem seen_body (align : Bool) {ls : List Line} (h : ∀ l ∈ ls, CellsSound l.cells) :
    Output.seen (if (renderLines align ls).isBlank then []
      else .newline :: (renderLines align ls).dropEnd '\n') = linesSeen ls := by
  have hcarries := (whole_renderLines align h).carries
  split
  · rename_i hblank
    have hnone : (renderLines align ls).kinds = [] := Output.kinds_of_chars hcarries.legible
      (Output.chars_of_width (Output.width_of_isBlank hblank))
    rw [← seen_renderLines align h, Output.seen, Output.seen, hnone]
    rfl
  · have hkept : Carries none ((renderLines align ls).dropEnd '\n') _ := hcarries.dropEnd (.inr rfl)
    have hskip : Output.seen (.newline :: (renderLines align ls).dropEnd '\n') =
        ((renderLines align ls).dropEnd '\n').kinds.filter (!·.isTrivia) := rfl
    rw [hskip, hkept.kinds, filter_lineKinds]

/-- The comment of a cell is not seen, in a cell of its own or behind one of several lines. -/
theorem seen_withComment (indent : Nat) (o : Output) {comment : Option Comment}
    (h : ∀ c ∈ comment, c.Legible) :
    linesSeen [.ofCells indent (withComment o comment)] = o.seen := by
  have hcells : linesSeen [.ofCells indent (withComment o comment)] =
      (mergeCells (withComment o comment)).flatMap Output.seen :=
    List.flatMap_singleton _ _
  rw [hcells]
  cases comment with
  | none =>
    have hone : withComment o none = [o] := rfl
    rw [hone, mergeCells_single, List.flatMap_singleton]
  | some c =>
    have hseen : Output.seen [.word c.text] = [] := Output.seen_comment (h c rfl)
    have htwo : withComment o (some c) = [o, [.word c.text]] := rfl
    rw [htwo, mergeCells]
    split
    · rw [joinCells, joinCells, List.append_nil, List.flatMap_singleton, Output.seen_append]
      split
      · exact List.append_nil _
      · have hspaced : Output.seen (.space :: [.word c.text]) = [] := hseen
        rw [hspaced, List.append_nil]
    · rw [mergeCells_single, List.flatMap_cons, List.flatMap_singleton, hseen, List.append_nil]

/-- Of lines of comments nothing is seen. -/
theorem seen_commentLines (indent : Nat) (first : Bool) {comments : List Comment}
    (h : ∀ c ∈ comments, c.Legible) :
    linesSeen (commentLines indent first comments) = [] := by
  induction comments generalizing first with
  | nil => rfl
  | cons c comments ih =>
    obtain ⟨hc, hcomments⟩ := List.forall_mem_cons.mp h
    have hgap : linesSeen (if c.blankBefore && !first then [.blank] else []) = [] := by
      split <;> rfl
    have hline : linesSeen [.ofText indent [.word c.text]] = [] := by
      rw [← Output.seen_comment hc]
      exact @seen_withComment indent [.word c.text] none nofun
    have hrest := ih false hcomments
    rw [commentLines, linesSeen_append, hgap, List.nil_append, ← List.singleton_append,
      linesSeen_append, hline, hrest]
    rfl

/-- Of the comments before a node nothing is seen. -/
theorem seen_leadingLines (indent : Nat) {decs : Decorations} (first : Bool)
    (h : decs.Legible) :
    linesSeen (leadingLines indent decs first) = [] := by
  rw [leadingLines, linesSeen_append, seen_commentLines indent first h.leading]
  split <;> rfl

/-! ## Lists as far as they are laid out -/

/-- A line without key and value, whose comment is read as one. -/
structure SharedLine.Keyless (l : SharedLine) : Prop where
  pair : l.pair = none
  comment : ∀ c ∈ l.comment, c.Legible

theorem SharedLine.keyless_of_texts (texts : List Output) : Keyless ⟨texts, none, none⟩ :=
  ⟨rfl, nofun⟩

/-- A list as far as it has been laid out, on its first line or on lines without keys. -/
structure Gathered.Keyless (g : Gathered) : Prop where
  lines : g.current = none → g.lines = []
  current : ∀ l ∈ g.current, l.Keyless

theorem Gathered.keyless_some {l : SharedLine} (h : l.Keyless) (head : Output) (lines : List Line) :
    Keyless ⟨head, lines, some l⟩ := by
  refine ⟨nofun, ?_⟩
  rintro _ ⟨⟩
  exact h

theorem Gathered.keyless_none (head : Output) {lines : List Line} (h : lines = []) :
    Keyless ⟨head, lines, none⟩ :=
  ⟨fun _ => h, nofun⟩

/-- The tokens of a list as far as it has been laid out, its comments left out. -/
def Gathered.seen (g : Gathered) : List TokenKind :=
  g.head.seen ++ linesSeen g.lines ++ g.current.toList.flatMap fun l => l.texts.flatMap Output.seen

/-- An element without key and value, whose comments are read as comments. -/
structure Entry.Keyless (e : Entry) : Prop where
  pair : e.item.pair = none
  decs : e.decs.Legible

/-- The tokens of an element with what follows it directly. -/
def Entry.seen (e : Entry) : List TokenKind :=
  e.item.text.seen ++ e.tail.seen

namespace Gathered

variable {g : Gathered}

/-- The line that is shared is seen behind the lines before it. -/
theorem seen_finish (h : g.Keyless) (indent : Nat) :
    g.head.seen ++ linesSeen (g.finish indent) = g.seen := by
  rw [finish, linesSeen_append, seen, List.append_assoc]
  congr 2
  cases hcurrent : g.current with
  | none => rfl
  | some l =>
    have hcells : l.cells = withComment (Output.joined [.space] l.texts) l.comment := by
      rw [SharedLine.cells, (h.current l hcurrent).pair]
      rfl
    have hline := seen_withComment indent (Output.joined [.space] l.texts)
      (h.current l hcurrent).comment
    rw [← hcells, Output.seen_joined Output.seen_space] at hline
    rw [Option.toList_some, List.flatMap_singleton]
    exact hline

/-- An element that is laid out is seen behind the others. -/
theorem place_keyless (h : g.Keyless) {e : Entry} (he : e.Keyless) (indent : Nat)
    (isFirst alone newSection : Bool) :
    (g.place indent isFirst alone newSection e).Keyless ∧
      (g.place indent isFirst alone newSection e).seen = g.seen ++ e.seen := by
  rw [place]
  by_cases hbreak : e.breaks = true
  · have hsection : linesSeen (if newSection then [.sectionEnd] else []) = [] := by
      split <;> rfl
    rw [if_pos hbreak, he.pair]
    refine ⟨keyless_some (SharedLine.keyless_of_texts _) _ _, ?_⟩
    rw [← seen_finish h indent, seen, linesSeen_append, linesSeen_append,
      seen_leadingLines indent false he.decs, hsection]
    simp [Entry.seen]
  · rw [if_neg hbreak]
    cases hcurrent : g.current with
    | none =>
      have hspace : Output.seen (if isFirst then [] else [.space]) = [] := by
        split <;> rfl
      refine ⟨keyless_none _ (h.lines hcurrent), ?_⟩
      simp [seen, Entry.seen, hcurrent, h.lines hcurrent, hspace, linesSeen]
    | some l =>
      have hl := h.current l hcurrent
      have hline : SharedLine.Keyless { l with texts := l.texts ++ [e.item.text ++ e.tail] } :=
        ⟨hl.pair, hl.comment⟩
      refine ⟨keyless_some hline _ _, ?_⟩
      simp [seen, Entry.seen, hcurrent]

/-- A comment that is laid out is not seen. -/
theorem comment_keyless (h : g.Keyless) {comment : Option Comment}
    (hcomment : ∀ c ∈ comment, c.Legible) :
    (g.comment comment).Keyless ∧ (g.comment comment).seen = g.seen := by
  cases comment with
  | none => exact ⟨h, rfl⟩
  | some c =>
    have htail : Output.seen [.space, .word c.text] = [] := Output.seen_comment (hcomment c rfl)
    rw [Gathered.comment]
    cases hcurrent : g.current with
    | none =>
      refine ⟨keyless_none _ (h.lines hcurrent), ?_⟩
      simp [seen, htail, hcurrent]
    | some l =>
      have hl := h.current l hcurrent
      dsimp only
      split
      · refine ⟨keyless_some (l := { l with comment := some c }) ⟨hl.pair, hcomment⟩ _ _, ?_⟩
        simp [seen, hcurrent]
      · have hpair : (l.appendInline c).pair = none := by
          rw [SharedLine.appendInline, hl.pair]
          rfl
        have htexts :
            (l.appendInline c).texts.flatMap Output.seen = l.texts.flatMap Output.seen := by
          rcases List.eq_nil_or_concat l.texts with hnil | ⟨os, o, hos⟩
          · simp [SharedLine.appendInline, hnil]
          · simp [SharedLine.appendInline, hos, htail]
        refine ⟨keyless_some ⟨hpair, hl.comment⟩ _ _, ?_⟩
        simp [seen, hcurrent, htexts]

/-- Elements that are laid out are seen in order. -/
theorem entries_keyless (h : g.Keyless) {es : List Entry} (hes : ∀ e ∈ es, e.Keyless) (indent : Nat)
    (alone isFirst : Bool) (run : KeyRun) (shared : Bool) :
    (entries indent alone g isFirst es (sectionStarts run shared es)).Keyless ∧
      (entries indent alone g isFirst es (sectionStarts run shared es)).seen =
        g.seen ++ es.flatMap Entry.seen := by
  induction es generalizing g isFirst run shared with
  | nil => exact ⟨h, (List.append_nil _).symm⟩
  | cons e es ih =>
    obtain ⟨he, hes⟩ := List.forall_mem_cons.mp hes
    rw [sectionStarts, entries]
    obtain ⟨hplaced, hseen⟩ := place_keyless h he indent isFirst alone _
    obtain ⟨hcommented, hsame⟩ := comment_keyless hplaced he.decs.trailing
    obtain ⟨hdone, hrest⟩ := ih hcommented hes false _ _
    refine ⟨hdone, hrest.trans ?_⟩
    rw [hsame, hseen, List.flatMap_cons, List.append_assoc]

end Gathered

/-- There is one place to break before each node. -/
theorem length_breaksFrom (forced : Bool) (ds : List Decorations) :
    (breaksFrom forced ds).1.length = ds.length := by
  induction ds generalizing forced with
  | nil => rfl
  | cons d ds ih => exact congrArg (· + 1) (ih _)

/-- Of a list without keys the elements are seen, each with what follows it directly. -/
theorem seen_layOut {ds : List Decorations} {items : List ItemText}
    (hlength : ds.length = items.length) (hitems : ∀ item ∈ items, item.pair = none)
    (hds : ∀ d ∈ ds, d.Legible)
    (enclosure : Enclosure) (indent : Nat) (variadic : Bool) :
    (layOut ds enclosure indent variadic items).Keyless ∧
      (layOut ds enclosure indent variadic items).seen =
        (items.zip ((List.range items.length).map
          (tailOf variadic (ListShape.of ds enclosure).closeNewline items.length))).flatMap
          fun p => p.1.text.seen ++ p.2.seen := by
  set shape := ListShape.of ds enclosure
  set tails := (List.range items.length).map (tailOf variadic shape.closeNewline items.length)
  set es := ((ds.zip shape.breaks).zip (items.zip tails)).map
    fun p => Entry.mk p.1.1 p.1.2 p.2.1 p.2.2 with hes
  have hentries : ∀ e ∈ es, e.Keyless := by
    intro e he
    obtain ⟨⟨⟨d, breaks⟩, ⟨item, tail⟩⟩, hmem, rfl⟩ := List.mem_map.mp he
    obtain ⟨hleft, hright⟩ := List.of_mem_zip hmem
    exact ⟨hitems item (List.of_mem_zip hright).1, hds d (List.of_mem_zip hleft).1⟩
  have hzip : ((ds.zip shape.breaks).zip (items.zip tails)).map Prod.snd = items.zip tails := by
    have hbreaks : shape.breaks.length = ds.length := length_breaksFrom _ ds
    refine List.map_snd_zip ?_
    rw [List.length_zip, List.length_zip, hbreaks, min_self, hlength]
    exact min_le_left _ _
  have hstart : Gathered.Keyless {} := Gathered.keyless_none [] rfl
  obtain ⟨hkeyless, hseen⟩ :=
    Gathered.entries_keyless hstart hentries (indent + 1) (items.length ≤ 1) true {} false
  refine ⟨hkeyless, hseen.trans ?_⟩
  rw [← hzip, hes, List.flatMap_map, List.flatMap_map]
  rfl

/-- Of a broken list nothing is seen but its elements and its brackets. -/
theorem seen_broken (style : Style) (om cm : Punct) {ds : List Decorations} {enclosure : Enclosure}
    (hmulti : (ListShape.of ds enclosure).isMultiline = true)
    (hopen : ∀ c ∈ enclosure.openComment, c.Legible)
    (hclose : ∀ c ∈ enclosure.closeComments, c.Legible) {indent : Nat} {variadic : Bool}
    {items : List ItemText} (hkeyless : (layOut ds enclosure indent variadic items).Keyless)
    (hsound : ∀ l ∈ (layOut ds enclosure indent variadic items).finish (indent + 1),
      CellsSound l.cells) :
    (bracketed style om.spelling cm.spelling ds enclosure indent variadic items).seen =
      [.punct om] ++ (layOut ds enclosure indent variadic items).seen ++ [.punct cm] := by
  rw [bracketed_broken hmulti, ← Gathered.seen_finish hkeyless (indent + 1)]
  dsimp only
  set lines := (layOut ds enclosure indent variadic items).finish (indent + 1)
  split
  · have hcomments := LinesWrite.commentLines (indent + 1) (!lines.any Line.isRow)
      enclosure.closeComments ⟨nofun, List.forall_mem_map.mpr hclose⟩
    have hall := List.forall_mem_append.mpr ⟨hsound, hcomments.sound⟩
    have hclosing : Output.seen [.tabs indent, .word cm.spelling] = [.punct cm] :=
      Output.seen_mark cm
    simp only [Output.seen_append, Output.seen_mark, Output.seen_openComment hopen,
      Output.seen_newline, seen_renderLines style.align hall, linesSeen_append,
      seen_commentLines _ _ hclose, hclosing, List.nil_append, List.append_nil, List.append_assoc]
  · simp only [Output.seen_append, Output.seen_mark, Output.seen_openComment hopen,
      seen_body style.align hsound, Output.seen_inlineComments hclose, List.nil_append,
      List.append_assoc]

end Print

end HandlerSplit
