import HandlerSplit.Proofs.Parse.Agreement
import HandlerSplit.Proofs.Parse.Consuming
import HandlerSplit.Proofs.Parse.Context
/-!
# Where a cursor stands

A cursor stands in a text if the tokens from its current one on end the text, comments left out. A
parser that answers has moved on in the text, and is back in the context it started in. So a phrase
that is read from a cursor in a text is read in that text, and what it answers may be told from the
text and the context (`AnswersAt`).
-/

namespace HandlerSplit.Parse

variable {α β : Type}

/-- The kinds of the tokens from the current one on, comments left out. -/
def Cursor.kinds (c : Cursor) : List TokenKind :=
  c.current.kind :: kindsOf c.rest

/-- They are told from the tokens alone. -/
theorem Cursor.kinds_of_tokens {c c' : Cursor} (h : c'.tokens = c.tokens) : c'.kinds = c.kinds := by
  obtain ⟨hcurrent, hrest⟩ := List.cons.inj h
  rw [Cursor.kinds, hcurrent, hrest, Cursor.kinds]

/-- A cursor whose tokens end the text `ts`, in the context `x`. -/
structure Cursor.Stands (ts : List TokenKind) (x : Context) (c : Cursor) : Prop where
  proper : Proper c.tokens
  kinds : c.kinds <:+ ts
  context : c.context = x

/-- Moving on keeps the end of the text the last token. -/
theorem Cursor.proper_advance {c : Cursor} (h : Proper c.tokens) : Proper c.advance.tokens := by
  cases hword : c.current.kind.isWord with
  | true => exact (c.words_advance_of_word h hword).1
  | false => exact (c.words_advance_of_not h hword).1

/-- Advancing passes the current token, unless it is the last. -/
theorem Cursor.kinds_advance (c : Cursor) :
    c.advance.kinds = if kindsOf c.rest = [] then [c.current.kind] else kindsOf c.rest := by
  have hcurrent := congrArg Gist.current c.gist_advance
  have hrest := congrArg Gist.rest c.gist_advance
  dsimp only [Cursor.gist] at hcurrent hrest
  rw [kinds, hcurrent, hrest]
  cases kindsOf c.rest with
  | nil => rfl
  | cons k ks => rw [if_neg (List.cons_ne_nil k ks)]

/-- A cursor that moves on stands in the same text and context. -/
theorem Cursor.Stands.advance {ts : List TokenKind} {x : Context} {c : Cursor}
    (h : c.Stands ts x) : c.advance.Stands ts x := by
  refine ⟨c.proper_advance h.proper, .trans ?_ h.kinds, ?_⟩
  · rw [c.kinds_advance]
    split
    · rename_i hrest
      have hkinds : c.kinds = [c.current.kind] := congrArg (c.current.kind :: ·) hrest
      exact hkinds ▸ List.suffix_rfl
    · exact List.suffix_cons _ _
  · exact (Restores.advance.context_run c).trans h.context

/-- A text has a token that is no comment, its end. -/
theorem kindsOf_ne_nil {ts : List Token} (h : Proper ts) : kindsOf ts ≠ [] := by
  induction h with
  | eof heof =>
    rw [kindsOf_cons, if_neg (by rw [heof]; exact Bool.false_ne_true)]
    exact List.cons_ne_nil _ _
  | cons _ _ _ ih =>
    rw [kindsOf_cons]
    split
    · exact ih
    · exact List.cons_ne_nil _ _

/-- At the start the kinds of the whole text are left. -/
theorem Cursor.kinds_start {tokens : List Token} (h : Proper tokens) :
    (Cursor.start tokens).kinds = kindsOf tokens :=
  (Cursor.kinds_advance _).trans (if_neg (kindsOf_ne_nil h))

/-- A token before the end of a text is not the last. -/
theorem Cursor.kinds_of_advance {c : Cursor} (h : Proper c.tokens)
    (heof : c.current.kind ≠ .eof) : c.kinds = c.current.kind :: c.advance.kinds := by
  rw [c.kinds_advance, if_neg (kindsOf_ne_nil (h.tail heof)), kinds]

/-- A parser that starts in the text `ts` and the context `x` stays there, and whatever it answers
satisfies `P`. -/
def AnswersAt (ts : List TokenKind) (x : Context) (P : α → Prop) (p : Parser α) : Prop :=
  ∀ c a c', Cursor.Stands ts x c → p.run c = (.ok a, c') → c'.Stands ts x ∧ P a

/-- A parser moves on in the text it starts in. -/
class Moves (p : Parser α) : Prop where
  stands_run : ∀ ts x c a c', Cursor.Stands ts x c → p.run c = (.ok a, c') → c'.Stands ts x

namespace AnswersAt

variable {ts : List TokenKind} {x : Context} {P : α → Prop} {Q : β → Prop} {p : Parser α}
  {k : α → Parser β}

/-! ## Putting parsers together -/

/-- An answer that is known. -/
theorem pure {a : α} (h : P a) : AnswersAt ts x P (Pure.pure a) := by
  intro c b c' hc hrun
  obtain ⟨rfl, rfl⟩ := pure_ok hrun
  exact ⟨hc, h⟩

/-- What is known of the first answer may be used for the second. -/
theorem bind (hp : AnswersAt ts x P p) (hk : ∀ a, P a → AnswersAt ts x Q (k a)) :
    AnswersAt ts x Q (p >>= k) := by
  intro c b c'' hc hrun
  obtain ⟨a, c', hp', hk'⟩ := bind_ok hrun
  obtain ⟨hc', ha⟩ := hp c a c' hc hp'
  exact hk a ha c' b c'' hc' hk'

/-- After a step of which nothing is known. -/
theorem after [hp : Moves p] (hk : ∀ a, AnswersAt ts x Q (k a)) : AnswersAt ts x Q (p >>= k) :=
  bind (P := fun _ => True) (fun c a c' hc hrun => ⟨hp.stands_run ts x c a c' hc hrun, trivial⟩)
    fun a _ => hk a

/-- Less may be said of an answer. -/
theorem weaken {P' : α → Prop} (h : AnswersAt ts x P p) (himp : ∀ a, P a → P' a) :
    AnswersAt ts x P' p :=
  fun c a c' hc hrun => (h c a c' hc hrun).imp_right (himp a)

/-- There is no answer to say anything about. -/
theorem rejectAt (s : Span) (f : Fault) : AnswersAt ts x P (Parse.rejectAt s f) := by
  intro c a c' hc hrun
  cases hrun

theorem reject (f : Fault) : AnswersAt ts x P (Parse.reject f) := by
  intro c a c' hc hrun
  cases hrun

theorem unexpected (wanted : Wanted) : AnswersAt ts x P (Parse.unexpected wanted) := by
  intro c a c' hc hrun
  rw [Parse.unexpected, peekKind_bind_run] at hrun
  split at hrun <;> cases hrun

/-- Of the cursor a parser may read the nesting of brackets. -/
theorem get {k : Cursor → Parser β}
    (h : ∀ c : Cursor, c.exprLevel = x.exprLevel → AnswersAt ts x Q (k c)) :
    AnswersAt ts x Q (MonadState.get >>= k) :=
  fun c b c' hc hrun => h c (congrArg Context.exprLevel hc.context) c b c' hc hrun

/-! ## What changes the context inside -/

/-- A run in another context, with the cursor it stops at adjusted. -/
theorem adjusted {y : Context} (h : AnswersAt ts y P p) {c c' : Cursor} {a : α}
    {f : Cursor → Cursor} (hc : c.Stands ts y) (hrun : (p.run c).map id f = (.ok a, c'))
    (hf : ∀ d : Cursor, d.Stands ts y → (f d).Stands ts x) : c'.Stands ts x ∧ P a := by
  rcases hp : p.run c with ⟨r, d⟩
  rw [hp] at hrun
  obtain ⟨rfl, rfl⟩ := Prod.mk.inj hrun
  exact (h c a d hc hp).imp_left (hf d)

/-- A phrase one level down is read in a deeper context. -/
theorem nested (h : AnswersAt ts { x with depth := x.depth + 1 } P p) :
    AnswersAt ts x P (Parse.nested p) := by
  rintro c a c' ⟨hproper, hkinds, rfl⟩ hrun
  rw [nested_run] at hrun
  split at hrun
  · cases hrun
  · refine h.adjusted (c := { c with depth := c.depth + 1 }) ⟨hproper, hkinds, rfl⟩ hrun ?_
    rintro d ⟨hd, hleft, hcontext⟩
    obtain ⟨hdepth, hlevel⟩ := Context.mk.inj hcontext
    refine ⟨hd, hleft, ?_⟩
    show Context.mk (d.depth - 1) d.exprLevel = _
    rw [hdepth, hlevel]
    rfl

/-- A phrase between brackets is read in a context with one bracket more. -/
theorem bracketed (h : AnswersAt ts { x with exprLevel := x.exprLevel + 1 } P p) :
    AnswersAt ts x P (Parse.bracketed p) := by
  rintro c a c' ⟨hproper, hkinds, rfl⟩ hrun
  rw [bracketed_run] at hrun
  refine h.adjusted (c := { c with exprLevel := c.exprLevel + 1 }) ⟨hproper, hkinds, rfl⟩ hrun ?_
  rintro d ⟨hd, hleft, hcontext⟩
  obtain ⟨hdepth, hlevel⟩ := Context.mk.inj hcontext
  refine ⟨hd, hleft, ?_⟩
  show Context.mk d.depth (d.exprLevel - 1) = _
  rw [hdepth, hlevel]
  exact congrArg (Context.mk c.depth) (Int.add_sub_cancel _ _)

/-- A phrase in a header is read in the context of a header. -/
theorem inHeader (h : AnswersAt ts { x with exprLevel := -1 } P p) :
    AnswersAt ts x P (Parse.inHeader p) := by
  rintro c a c' ⟨hproper, hkinds, rfl⟩ hrun
  rw [inHeader_run] at hrun
  refine h.adjusted (c := { c with exprLevel := -1 }) ⟨hproper, hkinds, rfl⟩ hrun ?_
  rintro d ⟨hd, hleft, hcontext⟩
  obtain ⟨hdepth, -⟩ := Context.mk.inj hcontext
  refine ⟨hd, hleft, ?_⟩
  show Context.mk d.depth c.exprLevel = _
  rw [hdepth]
  rfl

/-! ## Loops -/

/-- Whatever holds of the entry of each turn holds of all entries. -/
theorem entries {turn : Parser (Turn α)} (h : AnswersAt ts x (Turn.All P) turn) (n : Nat) :
    AnswersAt ts x (fun as => ∀ a ∈ as, P a) (Parse.entries turn n) := by
  induction n with
  | zero => exact reject _
  | succ n ih =>
    rw [Parse.entries]
    refine bind h fun t ht => ?_
    cases t with
    | stop => exact pure (List.forall_mem_nil _)
    | skip => exact ih
    | more a => exact bind ih fun as has => pure (List.forall_mem_cons.mpr ⟨ht, has⟩)
    | last a => exact pure (List.forall_mem_singleton.mpr ht)

/-- Whatever each turn keeps holds of what has grown. -/
theorem growing {grow : α → Parser (Option α)}
    (h : ∀ a, P a → AnswersAt ts x (fun b => ∀ a ∈ b, P a) (grow a)) (n : Nat) {a : α} (ha : P a) :
    AnswersAt ts x P (Parse.growing grow n a) := by
  induction n generalizing a with
  | zero => exact reject _
  | succ n ih =>
    rw [Parse.growing]
    refine bind (h a ha) fun b hb => ?_
    cases b with
    | none => exact pure ha
    | some b => exact ih (hb b rfl)

end AnswersAt

/-! ## Steps -/

namespace Moves

/-- A step alone. -/
theorem answers {p : Parser α} [h : Moves p] (ts : List TokenKind) (x : Context) :
    AnswersAt ts x (fun _ => True) p :=
  fun c a c' hc hrun => ⟨h.stands_run ts x c a c' hc hrun, trivial⟩

/-- A parser that moves on in any text from any context moves. -/
theorem of_answers {p : Parser α} (h : ∀ ts x, AnswersAt ts x (fun _ => True) p) : Moves p :=
  ⟨fun ts x c a c' hc hrun => (h ts x c a c' hc hrun).1⟩

/-- A step that changes nothing but what waits. -/
theorem of_tokens {p : Parser α} [hp : Restores p]
    (h : ∀ c a c', p.run c = (.ok a, c') → c'.tokens = c.tokens) : Moves p := by
  refine ⟨fun ts x c a c' hc hrun => ?_⟩
  have htokens := h c a c' hrun
  have hcontext := hp.context_run c
  rw [hrun] at hcontext
  exact ⟨htokens ▸ hc.proper, Cursor.kinds_of_tokens htokens ▸ hc.kinds,
    hcontext.trans hc.context⟩

instance get : Moves (MonadState.get : Parser Cursor) :=
  of_tokens fun _ _ _ hrun => by cases hrun; rfl

instance peek : Moves Parse.peek :=
  of_tokens fun _ _ _ hrun => by cases hrun; rfl

instance peekKind : Moves Parse.peekKind :=
  of_tokens fun _ _ _ hrun => by cases hrun; rfl

instance at? (kind : TokenKind) : Moves (Parse.at? kind) :=
  of_tokens fun _ _ _ hrun => by cases hrun; rfl

instance atPunct (mark : Punct) : Moves (Parse.atPunct mark) :=
  at? _

instance atSemicolon : Moves Parse.atSemicolon :=
  of_tokens fun _ _ _ hrun => by cases hrun; rfl

instance advance : Moves Parse.advance := by
  refine ⟨fun ts x c a c' hc hrun => ?_⟩
  obtain rfl : c.advance = c' := congrArg Prod.snd hrun
  exact hc.advance

instance claimComments : Moves Parse.claimComments :=
  of_tokens fun _ _ _ hrun => by cases hrun; rfl

instance startDecorations : Moves Parse.startDecorations :=
  of_tokens fun _ _ _ hrun => by cases hrun; rfl

instance closeEnclosure (openComment : Option Comment) :
    Moves (Parse.closeEnclosure openComment) :=
  of_tokens fun _ _ _ hrun => by cases hrun; rfl

instance claimTrailing : Moves Parse.claimTrailing :=
  of_tokens fun _ _ _ hrun => (marks_claimTrailing hrun).1

instance expect (kind : TokenKind) : Moves (Parse.expect kind) := by
  refine of_answers fun ts x => .after fun found => ?_
  split
  · exact answers ts x
  · exact .unexpected _

instance expectPunct (mark : Punct) : Moves (Parse.expectPunct mark) :=
  expect _

instance expectKeyword (word : Keyword) : Moves (Parse.expectKeyword word) :=
  expect _

instance expectIdent : Moves Parse.expectIdent := by
  refine of_answers fun ts x => .after fun kind => ?_
  split
  · exact .after fun _ => .pure trivial
  · exact .unexpected _

instance expectTerminator : Moves Parse.expectTerminator := by
  refine of_answers fun ts x => .after fun kind => ?_
  split
  · exact answers ts x
  · exact .pure trivial
  · exact .pure trivial
  · exact .unexpected _

end Moves

end HandlerSplit.Parse
