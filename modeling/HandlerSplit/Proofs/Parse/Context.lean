import HandlerSplit.Proofs.Parse.Steps
/-!
# The context of a cursor

A cursor knows how deep phrases are nested and how many brackets are open. Only `nested`,
`bracketed` and `inHeader` change this context, and only while what is inside them runs. So a parser
comes back to the context it started in, whether it answers or rejects, and what it answers may be
told from that context (`AnswersIn`): the parts of a phrase start in the context of the phrase.
-/

namespace HandlerSplit.Parse

variable {α β : Type}

/-- The nesting a cursor is in. -/
structure Context where
  depth : Nat
  exprLevel : Int

/-- The context of a cursor. -/
def Cursor.context (c : Cursor) : Context :=
  ⟨c.depth, c.exprLevel⟩

/-- A parser that starts in the context `x` comes back to it, and whatever it answers satisfies
`P`. -/
def AnswersIn (x : Context) (P : α → Prop) (p : Parser α) : Prop :=
  ∀ c : Cursor, c.context = x → (p.run c).2.context = x ∧ ∀ a, (p.run c).1 = .ok a → P a

/-- A parser comes back to the context it started in. -/
class Restores (p : Parser α) : Prop where
  context_run : ∀ c : Cursor, (p.run c).2.context = c.context

namespace AnswersIn

variable {x : Context} {P : α → Prop} {Q : β → Prop} {p : Parser α} {k : α → Parser β}

/-! ## Putting parsers together -/

/-- An answer that is known. -/
theorem pure {a : α} (h : P a) : AnswersIn x P (Pure.pure a) := by
  rintro c hc
  refine ⟨hc, fun b hb => ?_⟩
  obtain rfl := Except.ok.inj hb
  exact h

/-- What is known of the first answer may be used for the second. -/
theorem bind (hp : AnswersIn x P p) (hk : ∀ a, P a → AnswersIn x Q (k a)) :
    AnswersIn x Q (p >>= k) := by
  intro c hc
  obtain ⟨hcontext, hanswer⟩ := hp c hc
  rw [bind_run]
  generalize p.run c = outcome at hcontext hanswer ⊢
  rcases outcome with ⟨r | a, c'⟩
  · exact ⟨hcontext, nofun⟩
  · exact hk a (hanswer a rfl) c' hcontext

/-- After a step of which only the context is known. -/
theorem after [hp : Restores p] (hk : ∀ a, AnswersIn x Q (k a)) : AnswersIn x Q (p >>= k) := by
  refine bind (P := fun _ => True) (fun c hc => ⟨?_, fun _ _ => trivial⟩) fun a _ => hk a
  rw [hp.context_run c, hc]

/-- Less may be said of an answer. -/
theorem weaken {P' : α → Prop} (h : AnswersIn x P p) (himp : ∀ a, P a → P' a) : AnswersIn x P' p :=
  fun c hc => ⟨(h c hc).1, fun a ha => himp a ((h c hc).2 a ha)⟩

/-- There is no answer to say anything about. -/
theorem rejectAt (s : Span) (f : Fault) : AnswersIn x P (Parse.rejectAt s f) :=
  fun _ hc => ⟨hc, nofun⟩

theorem reject (f : Fault) : AnswersIn x P (Parse.reject f) :=
  fun _ hc => ⟨hc, nofun⟩

/-! ## What changes the context inside -/

/-- One level deeper, where that is not too deep. -/
theorem nested (h : x.depth < maxNesting → AnswersIn { x with depth := x.depth + 1 } P p) :
    AnswersIn x P (Parse.nested p) := by
  rintro c rfl
  rw [nested_run]
  split
  · exact ⟨rfl, nofun⟩
  · rename_i hdepth
    obtain ⟨hcontext, hanswer⟩ := h (Nat.not_le.mp hdepth) { c with depth := c.depth + 1 } rfl
    obtain ⟨hinside, hlevel⟩ := Context.mk.inj hcontext
    refine ⟨?_, hanswer⟩
    show Context.mk ((p.run _).2.depth - 1) (p.run _).2.exprLevel = _
    rw [hinside, hlevel]
    rfl

/-- A phrase between brackets is read in a context with one bracket more. -/
theorem bracketed (h : AnswersIn { x with exprLevel := x.exprLevel + 1 } P p) :
    AnswersIn x P (Parse.bracketed p) := by
  rintro c rfl
  obtain ⟨hcontext, hanswer⟩ := h { c with exprLevel := c.exprLevel + 1 } rfl
  obtain ⟨hdepth, hinside⟩ := Context.mk.inj hcontext
  rw [bracketed_run]
  refine ⟨?_, hanswer⟩
  show Context.mk (p.run _).2.depth ((p.run _).2.exprLevel - 1) = _
  rw [hdepth, hinside]
  exact congrArg (Context.mk c.depth) (Int.add_sub_cancel _ _)

/-- A phrase in a header is read in the context of a header. -/
theorem inHeader (h : AnswersIn { x with exprLevel := -1 } P p) :
    AnswersIn x P (Parse.inHeader p) := by
  rintro c rfl
  obtain ⟨hcontext, hanswer⟩ := h { c with exprLevel := -1 } rfl
  obtain ⟨hdepth, -⟩ := Context.mk.inj hcontext
  rw [inHeader_run]
  refine ⟨?_, hanswer⟩
  show Context.mk (p.run _).2.depth c.exprLevel = _
  rw [hdepth]
  rfl

/-! ## Loops -/

/-- Whatever holds of the entry of each turn holds of all entries. -/
theorem entries {turn : Parser (Turn α)} (h : AnswersIn x (Turn.All P) turn) (n : Nat) :
    AnswersIn x (fun as => ∀ a ∈ as, P a) (Parse.entries turn n) := by
  induction n with
  | zero => exact reject _
  | succ n ih =>
    rw [Parse.entries]
    refine bind h fun t ht => ?_
    cases t with
    | stop => exact pure (List.forall_mem_nil _)
    | skip => exact ih
    | more a => exact bind ih fun as has => pure (List.forall_mem_cons.mpr ⟨ht, has⟩)
    | last a => exact pure (List.forall_mem_singleton.mpr ht)

/-- Whatever each turn keeps holds of what has grown. -/
theorem growing {grow : α → Parser (Option α)}
    (h : ∀ a, P a → AnswersIn x (fun b => ∀ a ∈ b, P a) (grow a)) (n : Nat) {a : α} (ha : P a) :
    AnswersIn x P (Parse.growing grow n a) := by
  induction n generalizing a with
  | zero => exact reject _
  | succ n ih =>
    rw [Parse.growing]
    refine bind (h a ha) fun b hb => ?_
    cases b with
    | none => exact pure ha
    | some b => exact ih (hb b rfl)

end AnswersIn

/-! ## Steps -/

namespace Restores

/-- A parser that comes back to any context it starts in restores it. -/
theorem of_answers {p : Parser α} (h : ∀ x, AnswersIn x (fun _ => True) p) : Restores p :=
  ⟨fun c => (h c.context c rfl).1⟩

instance get : Restores (MonadState.get : Parser Cursor) :=
  ⟨fun _ => rfl⟩

instance peek : Restores Parse.peek :=
  ⟨fun _ => rfl⟩

instance peekKind : Restores Parse.peekKind :=
  ⟨fun _ => rfl⟩

instance at? (kind : TokenKind) : Restores (Parse.at? kind) :=
  ⟨fun _ => rfl⟩

instance atPunct (mark : Punct) : Restores (Parse.atPunct mark) :=
  at? _

instance atSemicolon : Restores Parse.atSemicolon :=
  ⟨fun _ => rfl⟩

instance advance : Restores Parse.advance := by
  refine ⟨fun c => ?_⟩
  obtain ⟨d, hadvance, -, -, hlevel, hdepth⟩ := c.exists_advance_eq_pull
  obtain ⟨passed, left, texts, hpulled⟩ := d.exists_pulled c.rest
  show c.advance.context = c.context
  rw [Cursor.context, Cursor.context, hadvance, hpulled.depth, hpulled.exprLevel, hdepth, hlevel]

instance claimComments : Restores Parse.claimComments :=
  ⟨fun _ => rfl⟩

instance startDecorations : Restores Parse.startDecorations :=
  ⟨fun _ => rfl⟩

instance closeEnclosure (openComment : Option Comment) :
    Restores (Parse.closeEnclosure openComment) :=
  ⟨fun _ => rfl⟩

instance claimTrailing : Restores Parse.claimTrailing := by
  refine ⟨fun c => ?_⟩
  rw [claimTrailing_run]
  split
  · split <;> rfl
  · rfl

end Restores

theorem AnswersIn.unexpected {x : Context} {P : α → Prop} (wanted : Wanted) :
    AnswersIn x P (Parse.unexpected wanted) := by
  refine .after fun kind => ?_
  split
  · exact .reject _
  · exact .reject _

namespace Restores

/-- A step alone. -/
theorem answers {p : Parser α} [h : Restores p] (x : Context) : AnswersIn x (fun _ => True) p :=
  fun c hc => ⟨(h.context_run c).trans hc, fun _ _ => trivial⟩

instance expect (kind : TokenKind) : Restores (Parse.expect kind) := by
  refine of_answers fun x => .after fun found => ?_
  split
  · exact answers x
  · exact .unexpected _

instance expectPunct (mark : Punct) : Restores (Parse.expectPunct mark) :=
  expect _

instance expectKeyword (word : Keyword) : Restores (Parse.expectKeyword word) :=
  expect _

instance expectIdent : Restores Parse.expectIdent := by
  refine of_answers fun x => .after fun kind => ?_
  split
  · exact .after fun _ => .pure trivial
  · exact .unexpected _

instance expectTerminator : Restores Parse.expectTerminator := by
  refine of_answers fun x => .after fun kind => ?_
  split
  · exact answers x
  · exact .pure trivial
  · exact .pure trivial
  · exact .unexpected _

end Restores

end HandlerSplit.Parse
