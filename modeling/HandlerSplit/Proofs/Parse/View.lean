import HandlerSplit.Proofs.Parse.Context
import HandlerSplit.Proofs.Tree.Spelling
/-!
# Parsing a script

A parser sees of its text the kinds of the tokens ahead, and how many lines each of them starts
below the end of the token before it. A text without comments shows a script to the parser
(`Shows`), with the semicolons that its line breaks insert. `Yields p v a v'` says that on whatever
shows `v` the parser `p` answers `a`, and that it leaves what shows `v'`.
-/

namespace HandlerSplit

namespace Parse

/-! ## Views -/

/-- A token ahead: its kind, and the lines between the token before it and this one. A semicolon
that a line break inserts is told apart from one that is written. -/
structure Ahead where
  kind : TokenKind
  gap : Nat
  inserted : Bool

namespace Context

/-- One level of nesting deeper. -/
def deeper (ctx : Context) : Context :=
  ⟨ctx.depth + 1, ctx.exprLevel⟩

/-- Inside brackets. -/
def inBrackets (ctx : Context) : Context :=
  ⟨ctx.depth, ctx.exprLevel + 1⟩

/-- In the header of a control statement. -/
def inHeader (ctx : Context) : Context :=
  ⟨ctx.depth, -1⟩

end Context

/-- What a parser sees. -/
structure View where
  tokens : List Ahead
  context : Context

end Parse

namespace Script

/-- The tokens that a script comes to, `gap` lines below the last token. The flag `semi` says that a
line break ends a statement here. -/
def ahead (semi : Bool) (gap : Nat) : Script → List Parse.Ahead
  | [] =>
    if semi then [⟨.semicolon true, gap, true⟩, ⟨.eof, gap, false⟩] else [⟨.eof, gap, false⟩]
  | .token k :: s => ⟨k, gap, false⟩ :: ahead k.endsStatement 0 s
  | .lineBreak :: s =>
    if semi then ⟨.semicolon true, gap, true⟩ :: ahead false (gap + 1) s
    else ahead false (gap + 1) s

/-- The kind of the first token that a script comes to. -/
def first (semi : Bool) : Script → TokenKind
  | [] => if semi then .semicolon true else .eof
  | .token k :: _ => k
  | .lineBreak :: s => if semi then .semicolon true else first false s

/-- The view of a script. -/
def view (s : Script) (semi : Bool) (gap : Nat) (ctx : Parse.Context) : Parse.View :=
  ⟨s.ahead semi gap, ctx⟩

/-- There is always a token ahead, and its kind is the first of the script. -/
theorem exists_ahead (semi : Bool) (gap : Nat) (s : Script) :
    ∃ gap' inserted ts, s.ahead semi gap = ⟨s.first semi, gap', inserted⟩ :: ts := by
  induction s generalizing semi gap with
  | nil => cases semi <;> exact ⟨_, _, _, rfl⟩
  | cons g s ih =>
    cases g with
    | token k => exact ⟨_, _, _, rfl⟩
    | lineBreak =>
      cases semi with
      | true => exact ⟨_, _, _, rfl⟩
      | false => exact ih false (gap + 1)

end Script

namespace Parse

/-- Tokens as they are ahead, when the last token ended on line `line`. None of them is a comment,
and none covers a line break. -/
def Lined : Nat → List Ahead → List Token → Prop
  | _, [], ts => ts = []
  | _, _ :: _, [] => False
  | line, a :: as, t :: ts =>
    (t.kind = a.kind ∧ t.span.line = line + a.gap ∧ t.text.count '\n' = 0 ∧
      a.kind.isTrivia = false ∧ (a.inserted = true ↔ a.kind = .semicolon true)) ∧
      Lined (if a.inserted then line else line + a.gap) as ts

/-- What a cursor shows. -/
structure Shows (v : View) (c : Cursor) : Prop where
  lined : Lined c.prevEndLine v.tokens (c.current :: c.rest)
  pending : c.pending = []
  lastLine : c.lastLine = c.prevEndLine
  newlineBefore : c.newlineBefore = decide (c.prevEndLine < c.current.span.line)
  blankBefore : c.blankBefore = decide (c.prevEndLine + 1 < c.current.span.line)
  context : c.context = v.context

namespace Shows

variable {a b : Ahead} {as : List Ahead} {ctx : Context} {c : Cursor}

/-- The current token is the first of what is shown. -/
theorem kind (h : Shows ⟨a :: as, ctx⟩ c) : c.current.kind = a.kind :=
  h.lined.1.1

/-- The current token is as many lines below the last as is shown. -/
theorem line (h : Shows ⟨a :: as, ctx⟩ c) : c.current.span.line = c.prevEndLine + a.gap :=
  h.lined.1.2.1

/-- Pulling the next token, which is no comment. -/
theorem pull {line : Nat} {ts : List Token} (h : Lined line (b :: as) ts) {d : Cursor}
    (hline : d.prevEndLine = line) (hpending : d.pending = []) (hlast : d.lastLine = line)
    (hcontext : d.context = ctx) :
    Shows ⟨b :: as, ctx⟩ (d.pull ts) ∧ (d.pull ts).prevEndLine = line := by
  cases ts with
  | nil => exact h.elim
  | cons t ts =>
    have htrivia : t.kind.isTrivia = false := h.1.1 ▸ h.1.2.2.2.1
    have hpull : d.pull (t :: ts) = { d with
        current := t
        rest := ts
        newlineBefore := t.span.line > d.prevEndLine
        blankBefore := t.span.line > d.lastLine + 1 } := by
      rw [Cursor.pull]
      split
      · rename_i hkind
        rw [hkind] at htrivia
        cases htrivia
      · rfl
    rw [hpull]
    subst hline
    exact ⟨⟨h, hpending, hlast, rfl, by rw [← hlast], hcontext⟩, rfl⟩

/-- Moving past a token. -/
theorem advance (h : Shows ⟨a :: b :: as, ctx⟩ c) :
    Shows ⟨b :: as, ctx⟩ c.advance ∧
      c.advance.prevEndLine = if a.inserted then c.prevEndLine else c.current.span.line := by
  obtain ⟨⟨hkind, hline, hsingle, -, hinserted⟩, hrest⟩ := h.lined
  rw [Cursor.advance]
  by_cases hsemi : c.current.kind = .semicolon true
  · have hins : a.inserted = true := hinserted.mpr (hkind ▸ hsemi)
    rw [if_pos hins] at hrest ⊢
    rw [if_pos hsemi]
    exact pull hrest rfl h.pending h.lastLine h.context
  · have hins : ¬a.inserted = true := fun hins => hsemi (hkind.trans (hinserted.mp hins))
    rw [if_neg hins, ← hline] at hrest
    rw [if_neg hins, if_neg hsemi]
    have hend : c.current.endLine = c.current.span.line := congrArg (c.current.span.line + ·) hsingle
    rw [← hend] at hrest ⊢
    exact pull hrest rfl h.pending rfl h.context

/-- Moving past a token that is written. -/
theorem past {kind : TokenKind} {s : Script} {semi : Bool} {gap : Nat}
    (h : Shows (Script.view (.token kind :: s) semi gap ctx) c) :
    Shows (s.view kind.endsStatement 0 ctx) c.advance ∧
      c.advance.prevEndLine = c.current.span.line := by
  obtain ⟨gap', inserted, ts, hahead⟩ := s.exists_ahead kind.endsStatement 0
  have h : Shows ⟨⟨kind, gap, false⟩ :: s.ahead kind.endsStatement 0, ctx⟩ c := h
  rw [hahead] at h
  obtain ⟨hshows, hend⟩ := h.advance
  rw [← hahead] at hshows
  exact ⟨hshows, hend⟩

end Shows

/-! ## Yielding -/

variable {α β : Type}

/-- On what shows `v` a parser answers `a` and leaves what shows `v'`, further down. -/
def Yields (p : Parser α) (v : View) (a : α) (v' : View) : Prop :=
  ∀ c, Shows v c → ∃ c', p.run c = (.ok a, c') ∧ Shows v' c' ∧ c.prevEndLine ≤ c'.prevEndLine

namespace Yields

variable {v v' v'' : View} {a : α} {b : β} {semi : Bool} {gap : Nat} {s : Script} {ctx : Context}
  {kind : TokenKind}

/-- An answer at once moves nothing. -/
theorem pure : Yields (Pure.pure a) v a v :=
  fun c hc => ⟨c, rfl, hc, Nat.le_refl _⟩

/-- Yields follow one another from view to view. -/
theorem bind {p : Parser α} {k : α → Parser β} (hp : Yields p v a v')
    (hk : Yields (k a) v' b v'') : Yields (p >>= k) v b v'' := by
  intro c hc
  obtain ⟨c', hrun, hc', hle⟩ := hp c hc
  obtain ⟨c'', hrun', hc'', hle'⟩ := hk c' hc'
  exact ⟨c'', by rw [bind_run, hrun]; exact hrun', hc'', Nat.le_trans hle hle'⟩

/-! ### Looking at the current token -/

/-- The current token is the first of the script. -/
theorem first_of_shows {c : Cursor} (h : Shows (s.view semi gap ctx) c) :
    c.current.kind = s.first semi := by
  obtain ⟨gap', inserted, ts, hahead⟩ := s.exists_ahead semi gap
  rw [Script.view, hahead] at h
  exact h.kind

theorem peekKind {k : TokenKind → Parser β}
    (h : Yields (k (s.first semi)) (s.view semi gap ctx) b v') :
    Yields (Parse.peekKind >>= k) (s.view semi gap ctx) b v' := by
  intro c hc
  rw [peekKind_bind_run, first_of_shows hc]
  exact h c hc

/-- The current token is the one the script starts with. -/
theorem peekToken {k : TokenKind → Parser β}
    (h : Yields (k kind) (Script.view (.token kind :: s) semi gap ctx) b v') :
    Yields (Parse.peekKind >>= k) (Script.view (.token kind :: s) semi gap ctx) b v' :=
  peekKind h

theorem peek {k : Token → Parser β} (h : ∀ t, Yields (k t) v b v') :
    Yields (Parse.peek >>= k) v b v' :=
  fun c hc => h c.current c hc

/-- A question for a kind is answered by the first of the script. -/
theorem at? {k : Bool → Parser β}
    (h : Yields (k (s.first semi == kind)) (s.view semi gap ctx) b v') :
    Yields (Parse.at? kind >>= k) (s.view semi gap ctx) b v' := by
  intro c hc
  obtain ⟨c', hrun, hc'⟩ := h c hc
  refine ⟨c', ?_, hc'⟩
  rw [← first_of_shows hc] at hrun
  exact hrun

/-- The current token is the one that is asked for. -/
theorem atTrue {k : Bool → Parser β} (hkind : s.first semi = kind)
    (h : Yields (k true) (s.view semi gap ctx) b v') :
    Yields (Parse.at? kind >>= k) (s.view semi gap ctx) b v' :=
  at? (by rw [beq_iff_eq.mpr hkind]; exact h)

/-- The current token is another one. -/
theorem atFalse {k : Bool → Parser β} (hkind : (s.first semi == kind) = false)
    (h : Yields (k false) (s.view semi gap ctx) b v') :
    Yields (Parse.at? kind >>= k) (s.view semi gap ctx) b v' :=
  at? (by rw [hkind]; exact h)

/-- The script starts with another token. -/
theorem atNe {k : Bool → Parser β} (hkind : s.first semi ≠ kind)
    (h : Yields (k false) (s.view semi gap ctx) b v') :
    Yields (Parse.at? kind >>= k) (s.view semi gap ctx) b v' :=
  atFalse (beq_eq_false_iff_ne.mpr hkind) h

theorem atSemicolon {k : Bool → Parser β}
    (h : Yields (k (s.first semi).isSemicolon) (s.view semi gap ctx) b v') :
    Yields (Parse.atSemicolon >>= k) (s.view semi gap ctx) b v' := by
  intro c hc
  obtain ⟨c', hrun, hc'⟩ := h c hc
  refine ⟨c', ?_, hc'⟩
  rw [← first_of_shows hc] at hrun
  exact hrun

/-- The nesting of brackets is that of the context. -/
theorem get {k : Cursor → Parser β}
    (h : ∀ c, c.exprLevel = v.context.exprLevel → Yields (k c) v b v') :
    Yields (MonadState.get >>= k) v b v' :=
  fun c hc => h c (congrArg Context.exprLevel hc.context) c hc

/-- A token on the line of the token before it has no line break before it. -/
theorem getInLine {k : Cursor → Parser β}
    (h : ∀ c, c.newlineBefore = false →
      Yields (k c) (Script.view (.token kind :: s) semi 0 ctx) b v') :
    Yields (MonadState.get >>= k) (Script.view (.token kind :: s) semi 0 ctx) b v' := by
  intro c hc
  refine h c ?_ c hc
  have hline : c.current.span.line = c.prevEndLine := Shows.line hc
  rw [hc.newlineBefore, hline]
  exact decide_eq_false (Nat.lt_irrefl _)

/-! ### Moving on -/

/-- Past a token that is written. -/
theorem next {k : Unit → Parser β} (h : Yields (k ()) (s.view kind.endsStatement 0 ctx) b v') :
    Yields (Parse.advance >>= k) (Script.view (.token kind :: s) semi gap ctx) b v' := by
  intro c hc
  have hline : c.current.span.line = c.prevEndLine + gap := Shows.line hc
  obtain ⟨hshows, hend⟩ := hc.past
  obtain ⟨c', hrun, hc', hle⟩ := h c.advance hshows
  refine ⟨c', hrun, hc', Nat.le_trans ?_ hle⟩
  rw [hend, hline]
  exact Nat.le_add_right _ _

/-- Past a semicolon that is inserted. -/
theorem nextInserted {k : Unit → Parser β}
    (h : Yields (k ()) (s.view false (gap + 1) ctx) b v') :
    Yields (Parse.advance >>= k) (Script.view (.lineBreak :: s) true gap ctx) b v' := by
  intro c hc
  obtain ⟨gap', inserted, ts, hahead⟩ := s.exists_ahead false (gap + 1)
  have hc : Shows ⟨⟨.semicolon true, gap, true⟩ :: s.ahead false (gap + 1), ctx⟩ c := hc
  rw [hahead] at hc
  obtain ⟨hshows, hend⟩ := hc.advance
  rw [← hahead] at hshows
  obtain ⟨c', hrun, hc', hle⟩ := h c.advance hshows
  refine ⟨c', hrun, hc', Nat.le_trans (Nat.le_of_eq ?_) hle⟩
  rw [hend, if_pos rfl]

/-- Past the semicolon that the end of the text inserts. -/
theorem nextEnd {k : Unit → Parser β} (h : Yields (k ()) (Script.view [] false gap ctx) b v') :
    Yields (Parse.advance >>= k) (Script.view [] true gap ctx) b v' := by
  intro c hc
  have hc : Shows ⟨[⟨.semicolon true, gap, true⟩, ⟨.eof, gap, false⟩], ctx⟩ c := hc
  obtain ⟨hshows, hend⟩ := hc.advance
  obtain ⟨c', hrun, hc', hle⟩ := h c.advance hshows
  refine ⟨c', hrun, hc', Nat.le_trans (Nat.le_of_eq ?_) hle⟩
  rw [hend, if_pos rfl]

theorem advance : Yields Parse.advance (Script.view (.token kind :: s) semi gap ctx) ()
    (s.view kind.endsStatement 0 ctx) :=
  next (k := Pure.pure) pure

/-- The token that is expected is the one the script starts with. -/
theorem expect {k : Unit → Parser β} (h : Yields (k ()) (s.view kind.endsStatement 0 ctx) b v') :
    Yields (Parse.expect kind >>= k) (Script.view (.token kind :: s) semi gap ctx) b v' :=
  bind (atTrue rfl advance) h

theorem expectPunct {mark : Punct} {k : Unit → Parser β}
    (h : Yields (k ()) (s.view (TokenKind.punct mark).endsStatement 0 ctx) b v') :
    Yields (Parse.expectPunct mark >>= k) (Script.view (.token (.punct mark) :: s) semi gap ctx) b
      v' :=
  expect h

theorem expectKeyword {word : Keyword} {k : Unit → Parser β}
    (h : Yields (k ()) (s.view (TokenKind.keyword word).endsStatement 0 ctx) b v') :
    Yields (Parse.expectKeyword word >>= k) (Script.view (.token (.keyword word) :: s) semi gap ctx)
      b v' :=
  expect h

/-- The name that is expected is the one the script starts with. -/
theorem expectIdent {name : String} {k : String → Parser β}
    (h : Yields (k name) (s.view true 0 ctx) b v') :
    Yields (Parse.expectIdent >>= k) (Script.view (.token (.ident name) :: s) semi gap ctx) b v' :=
  bind (peekKind (next pure)) h

/-- A line break ends a statement. -/
theorem expectTerminator {k : Unit → Parser β}
    (h : Yields (k ()) (s.view false (gap + 1) ctx) b v') :
    Yields (Parse.expectTerminator >>= k) (Script.view (.lineBreak :: s) true gap ctx) b v' :=
  bind (peekKind (nextInserted (k := Pure.pure) pure)) h

/-- A semicolon ends a clause of a header. -/
theorem expectSemicolon {k : Unit → Parser β} (h : Yields (k ()) (s.view false 0 ctx) b v') :
    Yields (Parse.expectTerminator >>= k)
      (Script.view (.token (.semicolon false) :: s) semi gap ctx) b v' :=
  bind (peekKind (next (k := Pure.pure) pure)) h

/-! ### Layout -/

/-- No comment stands in what is shown. -/
theorem noTrailing : Yields Parse.claimTrailing v none v := by
  refine fun c hc => ⟨c, ?_, hc, Nat.le_refl _⟩
  rw [claimTrailing_run, hc.pending]

theorem claimTrailing {k : Option Comment → Parser β} (h : Yields (k none) v b v') :
    Yields (Parse.claimTrailing >>= k) v b v' :=
  bind noTrailing h

/-- No comment waits in what is shown. -/
theorem claimComments : Yields Parse.claimComments v [] v := by
  intro c hc
  refine ⟨{ c with pending := [] }, ?_, ?_, Nat.le_refl _⟩
  · show (Except.ok (c.pending.map (·.comment)), _) = _
    rw [hc.pending]
    rfl
  · rw [← hc.pending]
    exact hc

theorem startDecorations {k : Decorations → Parser β}
    (h : Yields (k { blankBefore := decide (1 < gap), newlineBefore := decide (0 < gap) })
      (Script.view (.token kind :: s) semi gap ctx) b v') :
    Yields (Parse.startDecorations >>= k) (Script.view (.token kind :: s) semi gap ctx) b v' := by
  refine bind (fun c hc => ?_) h
  obtain ⟨c', hrun, hc', hle⟩ := claimComments c hc
  refine ⟨c', ?_, hc', hle⟩
  have hline : c.current.span.line = c.prevEndLine + gap := Shows.line hc
  have hblank : c.blankBefore = decide (1 < gap) := by
    rw [hc.blankBefore, hline]
    exact decide_eq_decide.mpr (by omega)
  have hnewline : c.newlineBefore = decide (0 < gap) := by
    rw [hc.newlineBefore, hline]
    exact decide_eq_decide.mpr (by omega)
  rw [← hblank, ← hnewline]
  have hbind := bind_run Parse.claimComments (fun cs => (Pure.pure
    { blankBefore := c.blankBefore, newlineBefore := c.newlineBefore, leading := cs } :
      Parser Decorations)) c
  rw [hrun] at hbind
  exact hbind

theorem closeEnclosure {k : Enclosure → Parser β}
    (h : Yields (k { closeNewline := decide (0 < gap) })
      (Script.view (.token kind :: s) semi gap ctx) b v') :
    Yields (Parse.closeEnclosure none >>= k) (Script.view (.token kind :: s) semi gap ctx) b v' := by
  refine bind (fun c hc => ?_) h
  obtain ⟨c', hrun, hc', hle⟩ := claimComments c hc
  refine ⟨c', ?_, hc', hle⟩
  have hline : c.current.span.line = c.prevEndLine + gap := Shows.line hc
  have hnewline : c.newlineBefore = decide (0 < gap) := by
    rw [hc.newlineBefore, hline]
    exact decide_eq_decide.mpr (by omega)
  rw [← hnewline]
  have hbind := bind_run Parse.claimComments (fun cs => (Pure.pure
    { openComment := none, closeNewline := c.newlineBefore, closeComments := cs } :
      Parser Enclosure)) c
  rw [hrun] at hbind
  exact hbind

/-! ### Context -/

section

variable {ts ts' : List Ahead}

/-- A phrase one level down, where there is a level to go down. -/
theorem nested {p : Parser α} (hdepth : ctx.depth < maxNesting)
    (h : Yields p ⟨ts, ctx.deeper⟩ a ⟨ts', ctx.deeper⟩) :
    Yields (Parse.nested p) ⟨ts, ctx⟩ a ⟨ts', ctx⟩ := by
  intro c hc
  have henter : Shows ⟨ts, ctx.deeper⟩ { c with depth := c.depth + 1 } :=
    { hc with context := congrArg Context.deeper hc.context }
  obtain ⟨c', hrun, hc', hle⟩ := h _ henter
  refine ⟨{ c' with depth := c'.depth - 1 }, ?_, ?_, hle⟩
  · have hroom : ¬c.depth ≥ maxNesting := by
      rw [show c.depth = ctx.depth from congrArg Context.depth hc.context]
      exact Nat.not_le.mpr hdepth
    rw [nested_run, if_neg hroom, hrun]
    rfl
  · refine { hc' with context := ?_ }
    have hdepth' : c'.depth = ctx.depth + 1 := congrArg Context.depth hc'.context
    have hlevel : c'.exprLevel = ctx.exprLevel := congrArg Context.exprLevel hc'.context
    show (⟨c'.depth - 1, c'.exprLevel⟩ : Context) = ctx
    rw [hdepth', hlevel, Nat.add_sub_cancel]

/-- A phrase between brackets. -/
theorem bracketed {p : Parser α} (h : Yields p ⟨ts, ctx.inBrackets⟩ a ⟨ts', ctx.inBrackets⟩) :
    Yields (Parse.bracketed p) ⟨ts, ctx⟩ a ⟨ts', ctx⟩ := by
  intro c hc
  have henter : Shows ⟨ts, ctx.inBrackets⟩ { c with exprLevel := c.exprLevel + 1 } :=
    { hc with context := congrArg Context.inBrackets hc.context }
  obtain ⟨c', hrun, hc', hle⟩ := h _ henter
  refine ⟨{ c' with exprLevel := c'.exprLevel - 1 }, ?_, ?_, hle⟩
  · rw [bracketed_run, hrun]
    rfl
  · refine { hc' with context := ?_ }
    have hdepth : c'.depth = ctx.depth := congrArg Context.depth hc'.context
    have hlevel : c'.exprLevel = ctx.exprLevel + 1 := congrArg Context.exprLevel hc'.context
    show (⟨c'.depth, c'.exprLevel - 1⟩ : Context) = ctx
    rw [hdepth, hlevel, Int.add_sub_cancel]

/-- A phrase in a header. -/
theorem inHeader {p : Parser α} (h : Yields p ⟨ts, ctx.inHeader⟩ a ⟨ts', ctx.inHeader⟩) :
    Yields (Parse.inHeader p) ⟨ts, ctx⟩ a ⟨ts', ctx⟩ := by
  intro c hc
  have henter : Shows ⟨ts, ctx.inHeader⟩ { c with exprLevel := -1 } :=
    { hc with context := congrArg Context.inHeader hc.context }
  obtain ⟨c', hrun, hc', hle⟩ := h _ henter
  refine ⟨{ c' with exprLevel := c.exprLevel }, ?_, { hc' with context := ?_ }, hle⟩
  · rw [inHeader_run, hrun]
    rfl
  · have hdepth : c'.depth = ctx.depth := congrArg Context.depth hc'.context
    show (⟨c'.depth, c.exprLevel⟩ : Context) = ctx
    rw [hdepth, show c.exprLevel = ctx.exprLevel from congrArg Context.exprLevel hc.context]

end

/-! ### Repetition -/

section

variable {turn : Parser (Turn α)} {n : Nat} {as : List α}

/-- A loop ends where its turn stops. -/
theorem stop (h : Yields turn v .stop v') : Yields (entries turn (n + 1)) v [] v' :=
  bind h pure

/-- A loop goes on behind a turn with more to come. -/
theorem more (h : Yields turn v (.more a) v') (hrest : Yields (entries turn n) v' as v'') :
    Yields (entries turn (n + 1)) v (a :: as) v'' :=
  bind h (bind hrest pure)

/-- A loop ends with a turn that is the last. -/
theorem last (h : Yields turn v (.last a) v') : Yields (entries turn (n + 1)) v [a] v' :=
  bind h pure

variable {grow : α → Parser (Option α)} {x y z : α}

/-- What does not grow is answered. -/
theorem stays (h : Yields (grow x) v none v') : Yields (growing grow (n + 1) x) v x v' :=
  bind h pure

/-- What grows is looked at again. -/
theorem grows (h : Yields (grow x) v (some y) v') (hrest : Yields (growing grow n y) v' z v'') :
    Yields (growing grow (n + 1) x) v z v'' :=
  bind h hrest

/-- A list with commas in brackets. A turn reads an item, and then `ending` the comma behind it; at
the closing bracket it stops. -/
theorem list {closing : Punct} (ending : α → Parser (Turn α))
    (items : List (α × List TokenKind)) (hn : items.length < n)
    (hstop : ∀ semi rest, Yields turn (Script.view (.token (.punct closing) :: rest) semi 0 ctx) .stop
      (Script.view (.token (.punct closing) :: rest) true 0 ctx))
    (hitem : ∀ i ∈ items, ∀ mark, mark = .comma ∨ mark = closing → ∀ semi rest t v,
      Yields (ending i.1) (Script.view (.token (.punct mark) :: rest) true 0 ctx) t v →
      Yields turn (Script.view (Script.line i.2 ++ .token (.punct mark) :: rest) semi 0 ctx) t v)
    (hmore : ∀ i ∈ items, ∀ rest, Yields (ending i.1)
      (Script.view (.token (.punct .comma) :: rest) true 0 ctx) (.more i.1)
      (Script.view rest false 0 ctx))
    (hlast : ∀ i ∈ items, ∀ rest, Yields (ending i.1)
      (Script.view (.token (.punct closing) :: rest) true 0 ctx) (.last i.1)
      (Script.view (.token (.punct closing) :: rest) true 0 ctx)) (semi : Bool) (rest : Script) :
    Yields (entries turn n)
      (Script.view (Script.line (separated (items.map (·.2))) ++ .token (.punct closing) :: rest) semi 0
        ctx) (items.map (·.1)) (Script.view (.token (.punct closing) :: rest) true 0 ctx) := by
  obtain ⟨n, rfl⟩ := Nat.exists_eq_succ_of_ne_zero (Nat.ne_of_gt (Nat.zero_lt_of_lt hn))
  induction items generalizing semi n with
  | nil => exact stop (hstop semi rest)
  | cons i items ih =>
    obtain ⟨hitem₁, hitem⟩ := List.forall_mem_cons.mp hitem
    obtain ⟨hmore₁, hmore⟩ := List.forall_mem_cons.mp hmore
    obtain ⟨hlast₁, hlast⟩ := List.forall_mem_cons.mp hlast
    cases items with
    | nil =>
      simp only [List.map_cons, List.map_nil, separated_singleton]
      exact last (hitem₁ closing (.inr rfl) semi rest _ _ (hlast₁ rest))
    | cons i' items =>
      obtain ⟨n, rfl⟩ := Nat.exists_eq_succ_of_ne_zero
        (Nat.ne_of_gt (Nat.zero_lt_of_lt (Nat.lt_of_succ_lt_succ hn)))
      simp only [List.map_cons, separated_cons_cons, Script.line_append, Script.line_cons,
        List.append_assoc, List.cons_append] at ih ⊢
      exact more (hitem₁ .comma (.inl rfl) semi _ _ _ (hmore₁ _))
        (ih hitem hmore hlast false n (Nat.lt_of_succ_lt_succ hn))

end

end Yields

/-! ## Phrases -/

/-- The tokens and line breaks `s`, wherever a rest follows them that starts as `F` says, are read
as `a`. The last token may end a statement. -/
def Parses (p : Parser α) (s : Script) (a : α) (ctx : Context) (F : TokenKind → Prop) : Prop :=
  ∀ semi gap rest, F (Script.first true rest) →
    Yields p (Script.view (s ++ rest) semi gap ctx) a (rest.view true 0 ctx)

end Parse

end HandlerSplit
