import HandlerSplit.Print.Brackets
import HandlerSplit.Proofs.Print.Lines
/-!
# What bracketed lists write

A broken list is laid out element by element: elements stay on the line of the opening bracket,
share a line or start one. A line comment makes the next element or the closing bracket start a
line, and so nothing is written behind it (`Gathers`).
-/

namespace HandlerSplit.Print

/-! ## Separators -/

theorem Output.joined_singleton (sep o : Output) : joined sep [o] = o :=
  List.append_nil o

theorem Output.joined_cons_cons (sep o o' : Output) (os : List Output) :
    joined sep (o :: o' :: os) = o ++ (sep ++ joined sep (o' :: os)) := by
  simp [joined, List.intersperse]

theorem Output.joined_concat (sep : Output) {os : List Output} (hne : os ≠ []) (o : Output) :
    joined sep (os ++ [o]) = joined sep os ++ (sep ++ o) := by
  induction os with
  | nil => exact absurd rfl hne
  | cons a os ih =>
    cases os with
    | nil => rw [List.singleton_append, joined_cons_cons, joined_singleton, joined_singleton]
    | cons b os =>
      rw [List.cons_append, List.cons_append, joined_cons_cons, ← List.cons_append,
        ih (List.cons_ne_nil b os), joined_cons_cons]
      simp only [List.append_assoc]

/-- What is added to the last of several outputs stands at their end. -/
theorem Output.joined_concat_append (sep : Output) (os : List Output) (o tail : Output) :
    joined sep (os ++ [o ++ tail]) = joined sep (os ++ [o]) ++ tail := by
  by_cases hne : os = []
  · rw [hne, List.nil_append, List.nil_append, joined_singleton, joined_singleton]
  · rw [joined_concat sep hne, joined_concat sep hne]
    simp only [List.append_assoc]

/-- Several outputs with separators between them. -/
theorem Writes.joined_cons {α : Type} {P Q : Before → Prop} [Leads Start P] {sep : Output}
    (hsep : Writes Q sep Start [] []) {w : α → List TokenKind} {t : α → List String} {x : α}
    {o : Output} {xs : List α} {os : List Output} (hx : Writes P o Q (w x) (t x))
    (hxs : List.Forall₂ (fun x o => Writes P o Q (w x) (t x)) xs os) :
    Writes P (Output.joined sep (o :: os)) Q ((x :: xs).flatMap w) ((x :: xs).flatMap t) := by
  induction hxs generalizing x o with
  | nil =>
    rw [Output.joined_singleton]
    exact hx.cast (List.append_nil _).symm (List.append_nil _).symm
  | cons hy _ ih =>
    have hrest : Writes Start _ Q _ _ := (ih hy).before
    rw [Output.joined_cons_cons]
    exact hx.append (hsep.append hrest)

/-- Outputs with separators between them. -/
theorem Writes.joined {α : Type} {P Q R : Before → Prop} [Leads Start P] [Leads P R] [Leads Q R]
    {sep : Output} (hsep : Writes Q sep Start [] []) {w : α → List TokenKind} {t : α → List String}
    {xs : List α} {os : List Output}
    (h : List.Forall₂ (fun x o => Writes P o Q (w x) (t x)) xs os) :
    Writes P (Output.joined sep os) R (xs.flatMap w) (xs.flatMap t) := by
  cases h with
  | nil => exact Writes.nil.behind
  | cons hx hxs => exact (joined_cons hsep hx hxs).behind

/-- A comma with the space behind it. -/
theorem Writes.comma : Writes Ended [.word ",", .space] Start [] [] :=
  (Writes.closing (m := .comma) (by decide) fun _ => rfl).append .space

/-! ## Elements -/

/-- The printed form of an element, and of its key and value if it has them. -/
structure ItemWrites (item : ItemText) (ws : List TokenKind) (cs : List String) : Prop where
  text : Phrase item.text ws cs
  pair : ∀ key value, item.pair = some (key, value) → ∃ ws₁ ws₂ cs₁ cs₂,
    Phrase key ws₁ cs₁ ∧ Phrase value ws₂ cs₂ ∧ ws = ws₁ ++ [.punct .colon] ++ ws₂ ∧ cs = cs₁ ++ cs₂

/-- The texts of the comments of a node around those inside it. -/
def textsAround (d : Decorations) (inside : List String) : List String :=
  d.leading.map (·.text) ++ inside ++ d.trailing.toList.map (·.text)

/-! ## Lines that are shared -/

/-- What a line of elements writes. Only where a line is due it ends with a line comment. -/
structure SharedLine.Writes (l : SharedLine) (due : Bool) (ws : List TokenKind)
    (cs : List String) : Prop where
  ne : l.texts ≠ []
  due : l.comment ≠ none → due = true
  texts : ∃ ts, cs = ts ++ l.comment.toList.map (·.text) ∧
    Print.Writes Start (Output.joined [.space] l.texts) Shut ws ts ∧
    ∀ key value, l.pair = some (key, value) → l.texts.length = 1 → ∃ ws₁ ws₂ ts₁ ts₂,
      Print.Writes Start key Open ws₁ ts₁ ∧ Print.Writes Start value Shut ws₂ ts₂ ∧
        ws = ws₁ ++ ws₂ ∧ ts = ts₁ ++ ts₂

theorem SharedLine.Writes.cells {l : SharedLine} {due : Bool} {ws : List TokenKind}
    {cs : List String} (h : l.Writes due ws cs) : CellsWrite l.cells ws cs := by
  obtain ⟨-, -, ts, rfl, htexts, hpair⟩ := h
  rw [SharedLine.cells]
  split
  · rename_i key value text hl hsingle
    obtain ⟨ws₁, ws₂, ts₁, ts₂, hkey, hvalue, rfl, rfl⟩ := hpair key value hl (by rw [hsingle]; rfl)
    rw [List.append_assoc ts₁]
    exact CellsWrite.cons hkey (.withComment hvalue l.comment)
  · exact .withComment htexts l.comment


/-- An element on a line of its own. -/
theorem SharedLine.Writes.single {e : Entry} {ws : List TokenKind} {cs : List String}
    (hitem : ItemWrites e.item ws cs) (htail : Print.Writes Shut e.tail Shut [] [])
    {pair : Option (Output × Output)}
    (hpair : ∀ key value, pair = some (key, value) → ∃ key' value',
      e.item.pair = some (key', value') ∧ key = key' ++ [.word ":"] ∧ value = value' ++ e.tail) :
    SharedLine.Writes ⟨[e.item.text ++ e.tail], pair, none⟩ false ws cs := by
  have htext := hitem.text.writes.append htail
  rw [List.append_nil, List.append_nil] at htext
  refine ⟨List.cons_ne_nil _ _, fun hne => absurd rfl hne, cs, (List.append_nil cs).symm, ?_, ?_⟩
  · rw [Output.joined_singleton]
    exact htext.before
  · intro key value hsome _
    obtain ⟨key', value', hold, rfl, rfl⟩ := hpair key value hsome
    obtain ⟨w₁, w₂, t₁, t₂, hkey, hvalue, rfl, rfl⟩ := hitem.pair _ _ hold
    have hkeyed : Print.Writes Open (key' ++ [.word ":"]) Open (w₁ ++ [.punct .colon]) (t₁ ++ []) :=
      hkey.writes.append (.mark .colon (by decide))
    have hvalued := hvalue.writes.append htail
    rw [List.append_nil] at hkeyed
    rw [List.append_nil, List.append_nil] at hvalued
    exact ⟨_, _, _, _, hkeyed.before, hvalued.before, rfl, rfl⟩

/-- One more element on the line. -/
theorem SharedLine.Writes.push {l : SharedLine} {ws ws' : List TokenKind} {cs cs' : List String}
    (h : l.Writes false ws cs) {text : Output} (htext : Print.Writes Start text Shut ws' cs') :
    { l with texts := l.texts ++ [text] }.Writes false (ws ++ ws') (cs ++ cs') := by
  obtain ⟨hne, hdue, ts, rfl, htexts, -⟩ := h
  have hcomment : l.comment = none := by
    by_contra hsome
    exact absurd (hdue hsome) Bool.false_ne_true
  refine ⟨List.append_ne_nil_of_left_ne_nil hne _, hdue, ts ++ cs', ?_, ?_, ?_⟩
  · rw [hcomment]
    simp
  · rw [Output.joined_concat [.space] hne]
    exact htexts.append (Writes.space.append htext)
  · intro key value _ hlength
    rw [List.length_append, List.length_singleton] at hlength
    exact absurd (List.length_eq_zero_iff.mp (by omega)) hne

/-- A comment at the end of the line. -/
theorem SharedLine.Writes.withBlock {l : SharedLine} {ws : List TokenKind} {cs : List String}
    (h : l.Writes false ws cs) {c : Comment} (hc : c.isLine = false) :
    (l.appendInline c).Writes false ws (cs ++ [c.text]) := by
  obtain ⟨hne, hdue, ts, rfl, htexts, hpair⟩ := h
  have hcomment : l.comment = none := by
    by_contra hsome
    exact absurd (hdue hsome) Bool.false_ne_true
  set tail : Output := [.space, .word c.text] with htail
  have hblock : Print.Writes Ended tail Clear [] [c.text] :=
    Writes.space.append (Writes.blockComment hc)
  have hsplit := List.dropLast_concat_getLast hne
  have happend : (l.appendInline c).texts = l.texts.dropLast ++ [l.texts.getLast hne ++ tail] := by
    show _ ++ (l.texts.getLast?.map (· ++ tail)).toList = _
    rw [List.getLast?_eq_some_getLast hne]
    rfl
  refine ⟨?_, hdue, ts ++ [c.text], ?_, ?_, ?_⟩
  · rw [happend]
    exact List.append_ne_nil_of_right_ne_nil _ (List.cons_ne_nil _ _)
  · show _ = _ ++ l.comment.toList.map _
    simp [hcomment]
  · rw [happend, Output.joined_concat_append, hsplit]
    have hboth : Print.Writes Start _ Clear _ _ := htexts.append hblock
    exact hboth.behind.cast (List.append_nil ws) rfl
  · intro key value hsome hlength
    obtain ⟨⟨key', value'⟩, hold, hnew⟩ := Option.map_eq_some_iff.mp hsome
    obtain ⟨rfl, rfl⟩ := Prod.mk.inj hnew
    have hlength' : l.texts.length = 1 := by
      rw [happend] at hlength
      rw [← hsplit]
      simpa using hlength
    obtain ⟨ws₁, ws₂, ts₁, ts₂, hkey, hvalue, rfl, rfl⟩ := hpair _ _ hold hlength'
    have hboth : Print.Writes Start _ Clear _ _ := hvalue.append hblock
    exact ⟨ws₁, ws₂, ts₁, ts₂ ++ [c.text], hkey, hboth.behind.cast (List.append_nil ws₂) rfl, rfl,
      List.append_assoc _ _ _⟩

theorem SharedLine.Writes.withLine {l : SharedLine} {ws : List TokenKind} {cs : List String}
    (h : l.Writes false ws cs) (c : Comment) :
    { l with comment := some c }.Writes true ws (cs ++ [c.text]) := by
  obtain ⟨hne, hdue, ts, rfl, htexts, hpair⟩ := h
  have hcomment : l.comment = none := by
    by_contra hsome
    exact absurd (hdue hsome) Bool.false_ne_true
  rw [hcomment]
  exact ⟨hne, fun _ => rfl, ts, by simp, htexts, hpair⟩

/-- The last token of a line, unless a line is due. -/
theorem SharedLine.Writes.last {l : SharedLine} {ws : List TokenKind} {cs : List String}
    (h : l.Writes false ws cs) (hgenuine : Genuine ws cs) :
    ∃ k, (cellKinds l.cells).getLast? = some k ∧ k.isLineComment = false := by
  have hlast {o : Output} (ho : Shut (o.after none)) :
      ∃ k, o.kinds.getLast? = some k ∧ k.isLineComment = false := by
    obtain ⟨k, hk, hshut⟩ := ho
    refine ⟨k, ?_, Closed.ended (s := some k) (fun j hj => ?_) k rfl⟩
    · rcases o.after_none with hnone | hlast
      · rw [hnone] at hk
        cases hk
      · rw [← hlast, hk]
    · cases hj
      exact hshut
  obtain ⟨hne, hdue, ts, rfl, htexts, hpair⟩ := h
  have hcomment : l.comment = none := by
    by_contra hsome
    exact absurd (hdue hsome) Bool.false_ne_true
  rw [hcomment, Option.toList_none, List.map_nil, List.append_nil] at hgenuine
  rw [SharedLine.cells, hcomment, Option.map_none, Option.toList_none, List.append_nil]
  split
  · rename_i key value text hl hsingle
    obtain ⟨ws₁, ws₂, ts₁, ts₂, -, hvalue, rfl, rfl⟩ := hpair key value hl (by rw [hsingle]; rfl)
    obtain ⟨k, hk, hline⟩ :=
      hlast ((hvalue (Genuine.append_iff.mp hgenuine).2).apart none rfl).2
    refine ⟨k, ?_, hline⟩
    have hkinds : cellKinds [key, value] = key.kinds ++ value.kinds :=
      congrArg (key.kinds ++ ·) (List.append_nil _)
    rw [hkinds, List.getLast?_append, hk]
    rfl
  · have hkinds : cellKinds [Output.joined [.space] l.texts] = (Output.joined [.space] l.texts).kinds :=
      List.append_nil _
    rw [hkinds]
    exact hlast ((htexts hgenuine).apart none rfl).2

/-! ## Lines behind a bracket -/

namespace Carries

variable {o : Output} {ks : List TokenKind} {k : TokenKind}

theorem isBlank_eq_false {s : Before} (h : Carries s o ks) (hlast : ks.getLast? = some k) :
    o.isBlank = false := by
  by_contra hblank
  have hnone : o.kinds = [] := Output.kinds_of_chars h.legible
    (Output.chars_of_width (Output.width_of_isBlank (eq_true_of_ne_false hblank)))
  rw [h.kinds.symm.trans hnone] at hlast
  cases hlast

/-- An output on a line of its own, which does not end in a line comment. -/
theorem onNewLine (h : Carries none o ks) (hlast : ks.getLast? = some k)
    (hended : k.isLineComment = false) :
    Written Any (.newline :: o) Ended (wordKinds ks) (commentTexts ks) := by
  have hall : Carries none ([.newline] ++ o) ([] ++ ks) :=
    (Carries.writes .newline trivial ⟨nofun, nofun⟩).append h
  refine ⟨?_, ?_, hall.legible, fun s _ => ⟨⟨fun j _ c hc => ?_, h.apart⟩, fun j hj => ?_⟩⟩
  · rw [Output.words]
    exact congrArg _ hall.kinds
  · rw [Output.comments]
    exact congrArg _ hall.kinds
  · cases hc
    exact joins_newline j
  · rw [show Output.after s (.newline :: o) = Output.after none o from rfl] at hj
    rcases o.after_none with hnone | hsome
    · rw [hnone] at hj
      cases hj
    · rw [hsome, h.kinds, hlast] at hj
      cases hj
      exact hended

end Carries

/-- The last token of lines is that of the last line. -/
theorem getLast?_lineKinds {cells : List Output} (hsound : CellsSound cells) {k : TokenKind}
    (hk : (cellKinds cells).getLast? = some k) (ls : List Line) (indent : Nat) :
    (lineKinds (ls ++ [.ofCells indent cells])).getLast? = some k := by
  have hown : lineKinds [.ofCells indent cells] = cellKinds cells :=
    (List.append_nil _).trans (mergeCells_sound hsound).2
  have hsplit : lineKinds (ls ++ [.ofCells indent cells]) = lineKinds ls ++ cellKinds cells := by
    rw [← hown]
    exact List.flatMap_append
  rw [hsplit, List.getLast?_append, hk]
  rfl

/-! ## Lists as far as they are laid out -/

/-- What stands on the line of the opening bracket, before the next element or the closing bracket;
nothing does if a line is due. -/
def Due (due isFirst : Bool) : Before → Prop :=
  if due then Any else if isFirst then Clear else Shut

/-- What a list writes behind `pre`, as far as it is laid out: all of it on one line, or some of it
on lines of which the last may still grow. -/
inductive Gathers (pre : Output) (g : Gathered) (due isFirst : Bool) :
    List TokenKind → List String → Prop where
  | inline {ws : List TokenKind} {cs : List String} (lines : g.lines = []) (current : g.current = none)
    (head : Writes Closed (pre ++ g.head) (Due due isFirst) ws cs) : Gathers pre g due isFirst ws cs
  | lines {l : SharedLine} {ws₁ ws₂ ws₃ : List TokenKind} {cs₁ cs₂ cs₃ : List String}
    (current : g.current = some l) (head : Writes Closed (pre ++ g.head) Any ws₁ cs₁)
    (lines : LinesWrite g.lines ws₂ cs₂) (line : l.Writes due ws₃ cs₃) :
    Gathers pre g due isFirst (ws₁ ++ (ws₂ ++ ws₃)) (cs₁ ++ (cs₂ ++ cs₃))

namespace Gathers

variable {pre : Output} {g : Gathered} {due isFirst : Bool} {ws w : List TokenKind}
  {cs t : List String}

theorem cast {ws' : List TokenKind} {cs' : List String} (h : Gathers pre g due isFirst ws cs)
    (hws : ws = ws') (hcs : cs = cs') : Gathers pre g due isFirst ws' cs' := by
  rwa [← hws, ← hcs]

/-- The head and the lines so far. -/
theorem finish (h : Gathers pre g due isFirst ws cs) (indent : Nat) : ∃ ws₁ ws₂ cs₁ cs₂,
    Writes Closed (pre ++ g.head) Any ws₁ cs₁ ∧ LinesWrite (g.finish indent) ws₂ cs₂ ∧
      ws = ws₁ ++ ws₂ ∧ cs = cs₁ ++ cs₂ := by
  cases h with
  | inline hlines hcurrent hhead =>
    refine ⟨ws, [], cs, [], hhead.behind, ?_, (List.append_nil ws).symm, (List.append_nil cs).symm⟩
    rw [Gathered.finish, hlines, hcurrent]
    exact .nil
  | @lines l ws₁ ws₂ ws₃ cs₁ cs₂ cs₃ hcurrent hhead hlines hline =>
    refine ⟨ws₁, _, cs₁, _, hhead, ?_, rfl, rfl⟩
    rw [Gathered.finish, hcurrent]
    exact hlines.append (.line indent hline.cells)

/-- An element behind the others. -/
theorem place (h : Gathers pre g due isFirst ws cs) {e : Entry}
    (hbreaks : e.breaks = (due || e.decs.breaksLine)) (hitem : ItemWrites e.item w t)
    (htail : Writes Shut e.tail Shut [] []) (indent : Nat) (alone newSection : Bool) :
    Gathers pre (g.place indent isFirst alone newSection e) false false (ws ++ w)
      (cs ++ (e.decs.leading.map (·.text) ++ t)) := by
  have htext : Writes Open (e.item.text ++ e.tail) Shut w t :=
    (hitem.text.writes.append htail).cast (List.append_nil w) (List.append_nil t)
  rw [Gathered.place]
  by_cases hbreak : e.breaks = true
  · rw [if_pos hbreak]
    obtain ⟨ws₁, ws₂, cs₁, cs₂, hhead, hlines, rfl, rfl⟩ := h.finish indent
    have hsection : LinesWrite (if newSection then [.sectionEnd] else []) [] [] := by
      split
      · exact .sectionEnd
      · exact .nil
    have hbefore := (hlines.append (.leadingLines indent e.decs false)).append hsection
    refine Gathers.cast (.lines rfl hhead hbefore (.single hitem htail fun key value hpair => ?_))
      (by simp) (by simp)
    split at hpair
    · rename_i key' value' hsome
      split at hpair
      · obtain ⟨rfl, rfl⟩ := Prod.mk.inj (Option.some.inj hpair)
        exact ⟨key', value', hsome, rfl, rfl⟩
      · cases hpair
    · cases hpair
  · have hnone : due = false ∧ e.decs.leading = [] := by
      rw [Bool.not_eq_true, hbreaks, Bool.or_eq_false_iff, Decorations.breaksLine,
        Bool.or_eq_false_iff, Bool.not_eq_false', List.isEmpty_iff] at hbreak
      exact ⟨hbreak.1, hbreak.2.2⟩
    obtain ⟨rfl, hleading⟩ := hnone
    rw [if_neg hbreak, hleading]
    cases h with
    | inline hlines hcurrent hhead =>
      rw [hcurrent]
      refine .inline hlines rfl ?_
      dsimp only
      rw [List.append_assoc, ← List.append_assoc pre]
      cases isFirst with
      | true =>
        have hstart : Writes Closed (pre ++ g.head) Clear ws cs := hhead
        exact hstart.append htext
      | false =>
        have hstart : Writes Closed (pre ++ g.head) Shut ws cs := hhead
        exact hstart.append (Writes.space.append htext)
    | lines hcurrent hhead hlines hline =>
      rw [hcurrent]
      exact Gathers.cast (.lines rfl hhead hlines (hline.push htext.before)) (by simp) (by simp)

/-- The comment behind the last element. -/
theorem comment (h : Gathers pre g false false ws cs) (c : Option Comment) :
    Gathers pre (g.comment c) ((c.map Comment.isLine).getD false) false ws
      (cs ++ c.toList.map (·.text)) := by
  cases c with
  | none => exact h.cast rfl (List.append_nil cs).symm
  | some c =>
    rw [Gathered.comment]
    cases h with
    | inline hlines hcurrent hhead =>
      rw [hcurrent]
      refine .inline hlines rfl ?_
      dsimp only
      rw [← List.append_assoc pre, Option.map_some, Option.getD_some]
      have hstart : Writes Closed (pre ++ g.head) Shut ws cs := hhead
      cases hc : c.isLine with
      | true =>
        have hcomment : Writes Start [.word c.text] Any [] [c.text] := .comment c.text trivial
        exact (hstart.append (Writes.space.append hcomment)).cast (List.append_nil ws) rfl
      | false =>
        have hcomment : Writes Start [.word c.text] Shut [] [c.text] := (Writes.blockComment hc).behind
        exact (hstart.append (Writes.space.append hcomment)).cast (List.append_nil ws) rfl
    | lines hcurrent hhead hlines hline =>
      rw [hcurrent]
      dsimp only
      split
      · rename_i hc
        rw [Option.map_some, Option.getD_some, hc]
        exact Gathers.cast (.lines rfl hhead hlines (hline.withLine c)) (by simp) (by simp)
      · rename_i hc
        have hblock := Bool.eq_false_iff.mpr hc
        rw [Option.map_some, Option.getD_some, hblock]
        exact Gathers.cast (.lines rfl hhead hlines (hline.withBlock hblock)) (by simp) (by simp)

/-- Elements behind the others, each with its comments. -/
theorem entries {α : Type} {decs : α → Decorations} {w : α → List TokenKind} {t : α → List String}
    {xs : List α} {items : List ItemText}
    (hitems : List.Forall₂ (fun x item => ItemWrites item (w x) (t x)) xs items)
    {tails : List Output} (hlength : tails.length = items.length)
    (htails : ∀ tail ∈ tails, Writes Shut tail Shut [] []) (indent : Nat) (alone : Bool)
    (run : KeyRun) (shared : Bool) {es : List Entry}
    (hes : es = (((xs.map decs).zip (breaksFrom due (xs.map decs)).1).zip (items.zip tails)).map
      fun ((decs, breaks), (item, tail)) => Entry.mk decs breaks item tail)
    (h : Gathers pre g due isFirst ws cs) :
    ∃ isFirst', Gathers pre (Gathered.entries indent alone g isFirst es (sectionStarts run shared es))
      (breaksFrom due (xs.map decs)).2 isFirst' (ws ++ xs.flatMap w)
      (cs ++ xs.flatMap fun x => textsAround (decs x) (t x)) := by
  induction hitems generalizing tails g due isFirst ws cs run shared es with
  | nil =>
    subst hes
    exact ⟨isFirst, h.cast (List.append_nil ws).symm (List.append_nil cs).symm⟩
  | @cons x item xs items hitem _ ih =>
    rcases tails with _ | ⟨tail, tails⟩
    · cases hlength
    obtain ⟨htail, htails⟩ := List.forall_mem_cons.mp htails
    have hplaced := h.place (e := ⟨decs x, due || (decs x).breaksLine, item, tail⟩) rfl hitem htail
      indent alone
    subst hes
    simp only [List.map_cons, breaksFrom, List.zip_cons_cons, sectionStarts, Gathered.entries]
    obtain ⟨isFirst', hrest⟩ := ih (Nat.succ.inj hlength) htails _ _ rfl
      ((hplaced _).comment (decs x).trailing)
    exact ⟨isFirst', hrest.cast (by simp) (by simp [textsAround])⟩

/-- The lines of a list whose closing bracket follows the last of them. -/
theorem body (h : Gathers pre g false isFirst ws cs) (align : Bool) (indent : Nat) :
    let lines := renderLines align (g.finish indent)
    Writes Closed (pre ++ g.head ++ if lines.isBlank then [] else .newline :: lines.dropEnd '\n')
      Ended ws cs := by
  cases h with
  | inline hlines hcurrent hhead =>
    have hnone : g.finish indent = [] := by
      rw [Gathered.finish, hlines, hcurrent]
      rfl
    intro lines
    have hblank : lines = [] := congrArg (renderLines align) hnone
    have hempty : Output.isBlank [] = true := rfl
    rw [hblank, if_pos hempty, List.append_nil]
    cases isFirst with
    | true => exact Writes.behind (Q := Clear) hhead
    | false => exact Writes.behind (Q := Shut) hhead
  | @lines l ws₁ ws₂ ws₃ cs₁ cs₂ cs₃ hcurrent hhead hlines hline =>
    intro lines
    have hfinish : g.finish indent = g.lines ++ [.ofCells indent l.cells] := by
      rw [Gathered.finish, hcurrent]
      rfl
    have hall : LinesWrite (g.finish indent) (ws₂ ++ ws₃) (cs₂ ++ cs₃) := by
      rw [hfinish]
      exact hlines.append (.line indent hline.cells)
    suffices hbody : Writes Any (if lines.isBlank then [] else .newline :: lines.dropEnd '\n') Ended
        (ws₂ ++ ws₃) (cs₂ ++ cs₃) from hhead.append hbody
    intro hgenuine
    have hwritten := hall hgenuine
    have hgenuine' := (Genuine.append_iff.mp hgenuine).2
    obtain ⟨hcarries, -⟩ := whole_renderLines align hwritten.sound
    obtain ⟨k, hk, hended⟩ := hline.last hgenuine'
    have hlast : (lineKinds (g.finish indent)).getLast? = some k := by
      rw [hfinish]
      exact getLast?_lineKinds (hline.cells hgenuine').sound hk _ indent
    rw [hcarries.isBlank_eq_false hlast, if_neg Bool.false_ne_true, ← hwritten.words,
      ← hwritten.comments]
    exact (hcarries.dropEnd (.inr rfl)).onNewLine hlast hended

end Gathers

/-! ## Whole lists -/

variable {α : Type} {om cm : Punct} {decs : α → Decorations} {w : α → List TokenKind}
  {t : α → List String} {xs : List α} {items : List ItemText}

/-- The comment behind an opening bracket. -/
theorem Writes.openComment (hopen : ∀ c, om.joins c = false) (comment : Option Comment) :
    Writes Closed ([.word om.spelling] ++ openCommentOutput comment)
      (Due ((comment.map Comment.isLine).getD false) true) (wordOf (.punct om))
      (comment.toList.map (·.text)) := by
  have hopening : Writes Closed [.word om.spelling] Clear (wordOf (.punct om)) [] := .bracket hopen
  cases comment with
  | none =>
    rw [openCommentOutput, List.append_nil]
    exact hopening
  | some c =>
    rw [openCommentOutput, Option.map_some, Option.getD_some]
    cases hc : c.isLine with
    | true =>
      have hcomment : Writes Start [.word c.text] Any [] [c.text] := .comment c.text trivial
      exact (hopening.append (Writes.space.append hcomment)).cast (List.append_nil _) rfl
    | false =>
      exact (hopening.append (Writes.space.append (.blockComment hc))).cast (List.append_nil _) rfl

/-- Comments before a closing bracket that stands on their line. -/
theorem Writes.inlineComments {comments : List Comment}
    (h : comments.any Comment.isLine = false) :
    Writes Ended (comments.flatMap fun c => [.space, .word c.text]) Ended []
      (comments.map (·.text)) := by
  induction comments with
  | nil => exact .nil
  | cons c comments ih =>
    rw [List.any_cons, Bool.or_eq_false_iff] at h
    rw [List.flatMap_cons]
    exact (Writes.space.append (.blockComment h.1)).append (ih h.2)

theorem tailOf_writes (variadic closeNewline : Bool) (n i : Nat) :
    Writes Shut (tailOf variadic closeNewline n i) Shut [] [] := by
  have hdots : Writes Shut (if variadic && i + 1 == n then [.word "..."] else []) Shut [] [] := by
    split
    · exact ((Writes.bracket (m := .ellipsis) fun _ => rfl).before).behind
    · exact .nil
  have hcomma : Writes Shut (if i + 1 < n || closeNewline then [.word ","] else []) Shut [] [] := by
    split
    · exact ((Writes.bracket (m := .comma) fun _ => rfl).before).behind
    · exact .nil
  exact hdots.append hcomma

/-- A list on one line. -/
theorem Writes.bracketedInline (hopen : ∀ c, om.joins c = false)
    (hclose : cm.spelling.toList.all endsAll = true ∧ ∀ c, cm.joins c = false)
    (hitems : List.Forall₂ (fun x item => ItemWrites item (w x) (t x)) xs items) (variadic : Bool) :
    Writes Closed ([.word om.spelling] ++ Output.commaSeparated (items.map (·.text)) ++
      (if variadic && !items.isEmpty then [.word "..."] else []) ++ [.word cm.spelling]) Clear
      (wordOf (.punct om) ++ xs.flatMap w ++ wordOf (.punct cm)) (xs.flatMap t) := by
  have htexts : List.Forall₂ (fun x o => Writes Free o Shut (w x) (t x)) xs (items.map (·.text)) :=
    List.forall₂_map_right_iff.mpr (hitems.imp fun _ _ hitem => hitem.text.writes.before)
  have hjoined : Writes Free (Output.commaSeparated (items.map (·.text))) Closed _ _ :=
    .joined (Writes.comma.before) htexts
  have hdots : Writes Closed (if variadic && !items.isEmpty then [.word "..."] else []) Closed [] [] := by
    split
    · exact (Writes.bracket (m := .ellipsis) fun _ => rfl).behind
    · exact .nil
  exact (((Writes.bracket hopen).append hjoined).append hdots).append
    (Writes.closing hclose.1 hclose.2) |>.cast (by simp) (by simp)

/-- A list whose layout holds no comment. -/
theorem texts_of_not_multiline {enclosure : Enclosure}
    (h : (ListShape.of (xs.map decs) enclosure).isMultiline = false) :
    enclosure.openComment = none ∧ enclosure.closeComments = [] ∧
      ∀ x ∈ xs, ∀ ts, textsAround (decs x) ts = ts := by
  simp only [ListShape.of, Bool.or_eq_false_iff, Enclosure.hasComments, Bool.not_eq_false',
    List.isEmpty_iff, List.any_eq_false, List.forall_mem_map, Decorations.hasComments,
    Bool.not_eq_true, Option.isSome_eq_false_iff, Option.isNone_iff_eq_none] at h
  obtain ⟨⟨⟨-, hopen, hclose⟩, -⟩, hdecs⟩ := h
  refine ⟨hopen, hclose, fun x hx ts => ?_⟩
  obtain ⟨hleading, htrailing⟩ := hdecs x hx
  rw [textsAround, hleading, htrailing]
  exact List.append_nil ts

/-- A list that is broken, as far as its last element. -/
def layOut (decs : List Decorations) (enclosure : Enclosure) (indent : Nat) (variadic : Bool)
    (items : List ItemText) : Gathered :=
  let shape := ListShape.of decs enclosure
  let tails := (List.range items.length).map (tailOf variadic shape.closeNewline items.length)
  let entries := ((decs.zip shape.breaks).zip (items.zip tails)).map
    fun ((decs, breaks), (item, tail)) => Entry.mk decs breaks item tail
  Gathered.entries (indent + 1) (items.length ≤ 1) {} true entries (sectionStarts {} false entries)

section

variable {style : Style} {opening closing : String} {ds : List Decorations} {enclosure : Enclosure}
  {indent : Nat} {variadic : Bool}

theorem bracketed_inline (h : (ListShape.of ds enclosure).isMultiline = false) :
    bracketed style opening closing ds enclosure indent variadic items =
      [.word opening] ++ Output.commaSeparated (items.map (·.text)) ++
        (if variadic && !items.isEmpty then [.word "..."] else []) ++ [.word closing] := by
  rw [bracketed]
  exact if_pos (by rw [h]; rfl)

theorem bracketed_broken (h : (ListShape.of ds enclosure).isMultiline = true) :
    bracketed style opening closing ds enclosure indent variadic items =
      let gathered := layOut ds enclosure indent variadic items
      let lines := gathered.finish (indent + 1)
      let start : Output :=
        [.word opening] ++ openCommentOutput enclosure.openComment ++ gathered.head
      if (ListShape.of ds enclosure).closeNewline then
        start ++ [.newline] ++
          renderLines style.align (lines ++
            commentLines (indent + 1) (!lines.any Line.isRow) enclosure.closeComments) ++
          [.tabs indent, .word closing]
      else
        let body := renderLines style.align lines
        start ++ (if body.isBlank then [] else .newline :: body.dropEnd '\n') ++
          enclosure.closeComments.flatMap (fun c => [.space, .word c.text]) ++ [.word closing] := by
  rw [bracketed]
  exact if_neg (by rw [h]; decide)

end

theorem Gathers.layOut (decs : α → Decorations) (om : Punct) (hopen : ∀ c, om.joins c = false)
    (hitems : List.Forall₂ (fun x item => ItemWrites item (w x) (t x)) xs items)
    (enclosure : Enclosure) (indent : Nat) (variadic : Bool) :
    ∃ isFirst, Gathers ([.word om.spelling] ++ openCommentOutput enclosure.openComment)
      (layOut (xs.map decs) enclosure indent variadic items)
      (breaksFrom ((enclosure.openComment.map Comment.isLine).getD false) (xs.map decs)).2 isFirst
      (wordOf (.punct om) ++ xs.flatMap w)
      (enclosure.openComment.toList.map (·.text) ++
        xs.flatMap fun x => textsAround (decs x) (t x)) := by
  set due := (enclosure.openComment.map Comment.isLine).getD false
  have hstart : Gathers ([.word om.spelling] ++ openCommentOutput enclosure.openComment) {} due true
      (wordOf (.punct om)) (enclosure.openComment.toList.map (·.text)) := by
    refine .inline rfl rfl ?_
    rw [List.append_nil]
    exact .openComment hopen _
  exact hstart.entries hitems (by rw [List.length_map, List.length_range])
    (List.forall_mem_map.mpr fun i _ => tailOf_writes variadic _ _ i) (indent + 1)
    (items.length ≤ 1) {} false rfl

/-- A bracketed list. -/
theorem Writes.bracketed (style : Style) (om cm : Punct) (hopen : ∀ c, om.joins c = false)
    (hclose : cm.spelling.toList.all endsAll = true ∧ ∀ c, cm.joins c = false)
    (hitems : List.Forall₂ (fun x item => ItemWrites item (w x) (t x)) xs items)
    (enclosure : Enclosure) (indent : Nat) (variadic : Bool) :
    Writes Closed
      (bracketed style om.spelling cm.spelling (xs.map decs) enclosure indent variadic items) Clear
      (wordOf (.punct om) ++ xs.flatMap w ++ wordOf (.punct cm))
      (enclosure.openComment.toList.map (·.text) ++
        (xs.flatMap fun x => textsAround (decs x) (t x)) ++
        enclosure.closeComments.map (·.text)) := by
  cases hmulti : (ListShape.of (xs.map decs) enclosure).isMultiline with
  | false =>
    obtain ⟨hopening, hclosing, htexts⟩ := texts_of_not_multiline hmulti
    rw [bracketed_inline hmulti, hopening, hclosing]
    refine (bracketedInline hopen hclose hitems variadic).cast rfl ?_
    rw [Option.toList_none, List.map_nil, List.nil_append]
    refine Eq.trans ?_ (List.append_nil _).symm
    exact List.flatMap_congr fun x hx => (htexts x hx (t x)).symm
  | true =>
    obtain ⟨isFirst, hgathers⟩ := Gathers.layOut decs om hopen hitems enclosure indent variadic
    have hclosing : (ListShape.of (xs.map decs) enclosure).closeNewline = (enclosure.closeNewline ||
      (breaksFrom _ (xs.map decs)).2 || enclosure.closeComments.any Comment.isLine) := rfl
    rw [bracketed_broken hmulti]
    set gathered := layOut (xs.map decs) enclosure indent variadic items
    dsimp only
    split
    · obtain ⟨ws₁, ws₂, cs₁, cs₂, hhead, hlines, hws, hcs⟩ := hgathers.finish (indent + 1)
      have hcomments := LinesWrite.commentLines (indent + 1)
        (!(gathered.finish (indent + 1)).any Line.isRow) enclosure.closeComments
      have hbody := ((hhead.append Writes.newline).append
        ((hlines.append hcomments).render style.align)).append
          ((Writes.tabs indent).append (Writes.closing hclose.1 hclose.2))
      refine hbody.cast ?_ ?_
      · rw [hws]
        simp
      · rw [hcs]
        simp
    · rename_i hnewline
      rw [Bool.not_eq_true, hclosing, Bool.or_eq_false_iff, Bool.or_eq_false_iff] at hnewline
      obtain ⟨⟨-, hdue⟩, hcomments⟩ := hnewline
      rw [hdue] at hgathers
      have hlist := ((hgathers.body style.align (indent + 1)).append
        (Writes.inlineComments hcomments)).append (Writes.closing hclose.1 hclose.2)
      exact hlist.cast (by simp) (by simp)

/-- Brackets around lines of their own. -/
theorem Writes.braced (style : Style) (om cm : Punct) (hopen : ∀ c, om.joins c = false)
    (hclose : cm.spelling.toList.all endsAll = true ∧ ∀ c, cm.joins c = false)
    {ls : List Line} {ws : List TokenKind} {cs : List String} (hlines : LinesWrite ls ws cs)
    (enclosure : Enclosure) (indent : Nat) :
    Writes Closed (braced style om.spelling cm.spelling enclosure indent ls) Clear
      (wordOf (.punct om) ++ ws ++ wordOf (.punct cm))
      (enclosure.openComment.toList.map (·.text) ++ cs) := by
  have hstart : Writes Closed _ Any _ _ := (openComment hopen enclosure.openComment).behind
  have hbody := ((hstart.append Writes.newline).append (hlines.render style.align)).append
    ((Writes.tabs indent).append (Writes.closing hclose.1 hclose.2))
  exact hbody.cast (by simp) (by simp)

end HandlerSplit.Print
