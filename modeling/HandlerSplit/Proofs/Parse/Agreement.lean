import HandlerSplit.Proofs.Parse.Steps
/-!
# Two runs of the parser

`Cursor.gist` is what a cursor holds beside layout: the kinds of the current token and of the
tokens that follow it, comments left out, and the nesting of brackets and phrases. Two parsers
agree (`Agree`) if from cursors of one gist they come to answers that are the same up to a
projection, or to the same fault, and again to cursors of one gist.

Agreement is kept by every way in which the parser puts its phrases together, so it is shown
phrase by phrase.
-/

namespace HandlerSplit.Parse

/-- What a cursor holds beside layout. -/
structure Gist where
  current : TokenKind
  rest : List TokenKind
  exprLevel : Int
  depth : Nat

/-- The kinds of tokens, comments left out. -/
def kindsOf (tokens : List Token) : List TokenKind :=
  (tokens.map (·.kind)).filter (!·.isTrivia)

/-- The gist of a cursor. -/
def Cursor.gist (c : Cursor) : Gist :=
  ⟨c.current.kind, kindsOf c.rest, c.exprLevel, c.depth⟩

section

variable {α β γ δ : Type}

/-- Outcomes that are the same but for places and layout, what is answered up to `e`. -/
inductive Alike (e : α → β) :
    Except Rejection α × Cursor → Except Rejection α × Cursor → Prop where
  | ok {a a' : α} {c c' : Cursor} (answer : e a = e a') (gist : c.gist = c'.gist) :
    Alike e (.ok a, c) (.ok a', c')
  | error {r r' : Rejection} {c c' : Cursor} (fault : r.fault = r'.fault)
    (gist : c.gist = c'.gist) : Alike e (.error r, c) (.error r', c')

/-- Outcomes stay alike when their cursors are adjusted alike. -/
theorem Alike.adjust {e : α → β} {r r' : Except Rejection α × Cursor} (h : Alike e r r')
    {f f' : Cursor → Cursor} (hf : ∀ d d', d.gist = d'.gist → (f d).gist = (f' d').gist) :
    Alike e (r.map id f) (r'.map id f') := by
  cases h with
  | ok answer gist => exact .ok answer (hf _ _ gist)
  | error fault gist => exact .error fault (hf _ _ gist)

/-- Two parsers run alike on cursors of one gist. -/
def Agree (e : α → β) (p q : Parser α) : Prop :=
  ∀ c c' : Cursor, c.gist = c'.gist → Alike e (p.run c) (q.run c')

/-- The projection that forgets what is answered. -/
def nothing (_ : α) : Unit := ()

namespace Agree

variable {e : α → β} {e' : γ → δ}

/-! ## Putting parsers together -/

/-- Parsers that agree, followed by parsers that agree on answers of one projection. -/
theorem bind {p q : Parser α} {k l : α → Parser γ} (hp : Agree e p q)
    (hk : ∀ a a', e a = e a' → Agree e' (k a) (l a')) : Agree e' (p >>= k) (q >>= l) := by
  intro c c' hc
  have hpq := hp c c' hc
  rw [bind_run, bind_run]
  generalize p.run c = r, q.run c' = r' at hpq ⊢
  cases hpq with
  | ok ha hgist => exact hk _ _ ha _ _ hgist
  | error hfault hgist => exact .error hfault hgist

/-- Answers of one projection agree. -/
theorem pure {a a' : α} (h : e a = e a') : Agree e (Pure.pure a) (Pure.pure a') :=
  fun _ _ hc => .ok h hc

/-- The place of a fault is layout. -/
theorem rejectAt (s s' : Span) (f : Fault) :
    Agree e (Parse.rejectAt s f : Parser α) (Parse.rejectAt s' f) :=
  fun _ _ hc => .error rfl hc

/-! ## Looking at the current token -/

/-- Only the kind of the current token may be used. -/
theorem peek {k l : Token → Parser γ} (h : ∀ t t', t.kind = t'.kind → Agree e' (k t) (l t')) :
    Agree e' (Parse.peek >>= k) (Parse.peek >>= l) := by
  intro c c' hc
  exact h c.current c'.current (congrArg Gist.current hc) c c' hc

/-- The kind of the current token is the same in both runs. -/
theorem peekKind {k l : TokenKind → Parser γ} (h : ∀ kind, Agree e' (k kind) (l kind)) :
    Agree e' (Parse.peekKind >>= k) (Parse.peekKind >>= l) := by
  intro c c' hc
  have hkind : c.current.kind = c'.current.kind := congrArg Gist.current hc
  show Alike e' ((k c.current.kind).run c) ((l c'.current.kind).run c')
  rw [hkind]
  exact h _ c c' hc

/-- A question for a kind has the same answer in both runs. -/
theorem at? {kind : TokenKind} {k l : Bool → Parser γ} (h : ∀ b, Agree e' (k b) (l b)) :
    Agree e' (Parse.at? kind >>= k) (Parse.at? kind >>= l) :=
  peekKind fun current => h (current == kind)

theorem atPunct {mark : Punct} {k l : Bool → Parser γ} (h : ∀ b, Agree e' (k b) (l b)) :
    Agree e' (Parse.atPunct mark >>= k) (Parse.atPunct mark >>= l) :=
  at? h

theorem atSemicolon {k l : Bool → Parser γ} (h : ∀ b, Agree e' (k b) (l b)) :
    Agree e' (Parse.atSemicolon >>= k) (Parse.atSemicolon >>= l) :=
  peekKind fun current => h current.isSemicolon

/-- Of the cursor a parser may read the nesting of brackets. -/
theorem get {k l : Cursor → Parser γ}
    (h : ∀ c c', c.exprLevel = c'.exprLevel → Agree e' (k c) (l c')) :
    Agree e' (MonadState.get >>= k) (MonadState.get >>= l) := by
  intro c c' hc
  exact h c c' (congrArg Gist.exprLevel hc) c c' hc

theorem reject (f : Fault) : Agree e (Parse.reject f : Parser α) (Parse.reject f) :=
  peek fun _ _ _ => rejectAt _ _ f

theorem unexpected (wanted : Wanted) :
    Agree e (Parse.unexpected wanted : Parser α) (Parse.unexpected wanted) := by
  refine peekKind fun kind => ?_
  split
  · exact reject _
  · exact reject _

end Agree

/-! ## Moving on -/

/-- A comment has no kind that counts. -/
theorem kindsOf_cons (t : Token) (ts : List Token) :
    kindsOf (t :: ts) = if t.kind.isTrivia then kindsOf ts else t.kind :: kindsOf ts := by
  cases h : t.kind.isTrivia <;> simp [kindsOf, h]

theorem kindsOf_append (ts ts' : List Token) : kindsOf (ts ++ ts') = kindsOf ts ++ kindsOf ts' := by
  rw [kindsOf, List.map_append, List.filter_append]
  rfl

/-- Where a cursor moves to, as far as its gist goes: to the first token that is no comment. -/
theorem Cursor.gist_pull (c : Cursor) (ts : List Token) :
    (c.pull ts).gist =
      match kindsOf ts with
      | [] => ⟨c.current.kind, [], c.exprLevel, c.depth⟩
      | kind :: kinds => ⟨kind, kinds, c.exprLevel, c.depth⟩ := by
  obtain ⟨passed, left, texts, h⟩ := c.exists_pulled ts
  have hpassed : kindsOf passed = [] := by
    rw [kindsOf, h.comments, List.filter_map]
    exact List.map_eq_nil_iff.mpr (List.filter_eq_nil_iff.mpr fun _ _ => Bool.noConfusion)
  have hkinds : kindsOf ts = kindsOf left := by
    rw [h.tokens, kindsOf_append, hpassed, List.nil_append]
  rw [hkinds]
  rcases h.stops with ⟨rfl, hcurrent, hrest⟩ | ⟨hleft, htrivia⟩
  · rw [gist, hcurrent, hrest, h.exprLevel, h.depth]
    rfl
  · rw [gist, hleft, kindsOf_cons, htrivia, h.exprLevel, h.depth]
    rfl

/-- Moving on takes the next kind that counts, and keeps the last at the end. -/
theorem Cursor.gist_advance (c : Cursor) :
    c.advance.gist =
      match kindsOf c.rest with
      | [] => ⟨c.current.kind, [], c.exprLevel, c.depth⟩
      | kind :: kinds => ⟨kind, kinds, c.exprLevel, c.depth⟩ := by
  obtain ⟨d, hadvance, hcurrent, -, hlevel, hdepth⟩ := c.exists_advance_eq_pull
  rw [hadvance, gist_pull, hcurrent, hlevel, hdepth]

namespace Agree

variable {e : α → β} {e' : γ → δ}

/-- Both runs move on to the next token that counts. -/
theorem advance : Agree (α := Unit) id Parse.advance Parse.advance := by
  intro c c' hc
  refine .ok rfl ?_
  have hrest : kindsOf c.rest = kindsOf c'.rest := congrArg Gist.rest hc
  have hcurrent : c.current.kind = c'.current.kind := congrArg Gist.current hc
  have hlevel : c.exprLevel = c'.exprLevel := congrArg Gist.exprLevel hc
  have hdepth : c.depth = c'.depth := congrArg Gist.depth hc
  show c.advance.gist = c'.advance.gist
  rw [Cursor.gist_advance, Cursor.gist_advance, hrest, hcurrent, hlevel, hdepth]

/-- After a step that answers nothing. -/
theorem next {p q : Parser Unit} {k l : Unit → Parser γ} (hp : Agree id p q)
    (hk : Agree e' (k ()) (l ())) : Agree e' (p >>= k) (q >>= l) :=
  bind hp fun _ _ _ => hk

/-- After a step that answers the same on both sides. -/
theorem same {p q : Parser α} {k l : α → Parser γ} (hp : Agree id p q)
    (hk : ∀ a, Agree e' (k a) (l a)) : Agree e' (p >>= k) (q >>= l) :=
  bind hp fun a _ h => (show a = _ from h) ▸ hk a

theorem expect (kind : TokenKind) : Agree id (Parse.expect kind) (Parse.expect kind) := by
  refine at? fun b => ?_
  split
  · exact advance
  · exact unexpected _

theorem expectPunct (mark : Punct) :
    Agree id (Parse.expectPunct mark) (Parse.expectPunct mark) :=
  expect _

theorem expectKeyword (word : Keyword) :
    Agree id (Parse.expectKeyword word) (Parse.expectKeyword word) :=
  expect _

theorem expectIdent : Agree id Parse.expectIdent Parse.expectIdent := by
  refine peekKind fun kind => ?_
  split
  · exact next advance (pure rfl)
  · exact unexpected _

theorem expectTerminator : Agree id Parse.expectTerminator Parse.expectTerminator := by
  refine peekKind fun kind => ?_
  split
  · exact advance
  · exact pure rfl
  · exact pure rfl
  · exact unexpected _

/-! ## Layout

What is read of comments and lines is layout: it is forgotten. -/

/-- Which comments are claimed is layout. -/
theorem claimComments :
    Agree (nothing (α := List Comment)) Parse.claimComments Parse.claimComments :=
  fun _ _ hc => .ok rfl hc

/-- The decorations a node starts with are layout. -/
theorem startDecorations :
    Agree (nothing (α := Decorations)) Parse.startDecorations Parse.startDecorations :=
  fun _ _ hc => .ok rfl hc

/-- What stands before a closing bracket is layout. -/
theorem closeEnclosure (c c' : Option Comment) :
    Agree (nothing (α := Enclosure)) (Parse.closeEnclosure c) (Parse.closeEnclosure c') :=
  fun _ _ hc => .ok rfl hc

/-- Whether a comment trails is layout. -/
theorem claimTrailing :
    Agree (nothing (α := Option Comment)) Parse.claimTrailing Parse.claimTrailing := by
  have keeps : ∀ c : Cursor, ∃ comment d,
      Parse.claimTrailing.run c = (.ok comment, d) ∧ d.gist = c.gist := by
    intro c
    rw [claimTrailing_run]
    split
    · split
      · exact ⟨_, _, rfl, rfl⟩
      · exact ⟨_, _, rfl, rfl⟩
    · exact ⟨_, _, rfl, rfl⟩
  intro c c' hc
  obtain ⟨comment, d, hrun, hd⟩ := keeps c
  obtain ⟨comment', d', hrun', hd'⟩ := keeps c'
  rw [hrun, hrun']
  exact .ok rfl (hd.trans (hc.trans hd'.symm))

/-! ## Context -/

/-- Both runs go a level down, or both are too deep. -/
theorem nested {p q : Parser α} (h : Agree e p q) :
    Agree e (Parse.nested p) (Parse.nested q) := by
  intro c c' hc
  obtain ⟨hcurrent, hrest, hlevel, hdepth⟩ := Gist.mk.inj hc
  rw [nested_run, nested_run, hdepth]
  split
  · exact .error rfl hc
  · refine (h _ _ ?_).adjust (fun d d' hd => ?_)
    · simp only [Cursor.gist, hcurrent, hrest, hlevel]
    · obtain ⟨hcurrent, hrest, hlevel, hdepth⟩ := Gist.mk.inj hd
      simp only [Cursor.gist, hcurrent, hrest, hlevel, hdepth]

/-- Both runs are between brackets. -/
theorem bracketed {p q : Parser α} (h : Agree e p q) :
    Agree e (Parse.bracketed p) (Parse.bracketed q) := by
  intro c c' hc
  obtain ⟨hcurrent, hrest, hlevel, hdepth⟩ := Gist.mk.inj hc
  rw [bracketed_run, bracketed_run]
  refine (h _ _ ?_).adjust (fun d d' hd => ?_)
  · simp only [Cursor.gist, hcurrent, hrest, hlevel, hdepth]
  · obtain ⟨hcurrent, hrest, hlevel, hdepth⟩ := Gist.mk.inj hd
    simp only [Cursor.gist, hcurrent, hrest, hlevel, hdepth]

/-- Both runs are in a header. -/
theorem inHeader {p q : Parser α} (h : Agree e p q) :
    Agree e (Parse.inHeader p) (Parse.inHeader q) := by
  intro c c' hc
  obtain ⟨hcurrent, hrest, hlevel, hdepth⟩ := Gist.mk.inj hc
  rw [inHeader_run, inHeader_run]
  refine (h _ _ ?_).adjust (fun d d' hd => ?_)
  · simp only [Cursor.gist, hcurrent, hrest, hdepth]
  · obtain ⟨hcurrent, hrest, -, hdepth⟩ := Gist.mk.inj hd
    simp only [Cursor.gist, hcurrent, hrest, hlevel, hdepth]

end Agree

/-! ## Repetition -/

/-- A turn with its entry projected. -/
def Turn.map (e : α → β) : Turn α → Turn β
  | .stop => .stop
  | .skip => .skip
  | .more a => .more (e a)
  | .last a => .last (e a)

namespace Agree

variable {e : α → β}

/-- Loops whose turns agree collect entries of one projection. -/
theorem entries {p q : Parser (Turn α)} (h : Agree (Turn.map e) p q) (n : Nat) :
    Agree (List.map e) (Parse.entries p n) (Parse.entries q n) := by
  induction n with
  | zero => exact reject _
  | succ n ih =>
    refine bind h fun t t' ht => ?_
    cases t <;> cases t' <;>
      simp only [Turn.map, reduceCtorEq, Turn.more.injEq, Turn.last.injEq] at ht
    · exact pure rfl
    · exact ih
    · refine bind ih fun as as' has => pure ?_
      rw [List.map_cons, List.map_cons, ht, has]
    · exact pure (by rw [List.map_cons, List.map_cons, ht])

/-- What grows from expressions of one projection, turn by turn, agrees. -/
theorem growing {p q : α → Parser (Option α)}
    (h : ∀ a a', e a = e a' → Agree (Option.map e) (p a) (q a')) (n : Nat) {a a' : α}
    (ha : e a = e a') : Agree e (Parse.growing p n a) (Parse.growing q n a') := by
  induction n generalizing a a' with
  | zero => exact reject _
  | succ n ih =>
    refine bind (h a a' ha) fun b b' hb => ?_
    cases b <;> cases b' <;> simp only [Option.map, reduceCtorEq, Option.some.injEq] at hb
    · exact pure ha
    · exact ih hb

end Agree

end

end HandlerSplit.Parse
