import HandlerSplit.Proofs.Parse.Reading
/-!
# What rejections point at

A rejection points at the current token or at an opening bracket that was passed and remembered.
Both are tokens of the text: a cursor never leaves the text it was started in, and a span that a
phrase remembers was that of its current token. `Points` says both of a parser, and every phrase of
the grammar has it, level by level.
-/

namespace HandlerSplit.Parse

variable {α β : Type} {ts : List Token}

/-- The span of a token of the text. -/
def IsSpanIn (ts : List Token) (s : Span) : Prop :=
  ∃ t ∈ ts, s = t.span

/-- A parser that runs in the text `ts` stays in it, and rejects at a token of it. -/
class Points (ts : List Token) (p : Parser α) : Prop where
  run : ∀ c : Cursor, c.tokens ⊆ ts →
    (p.run c).2.tokens ⊆ ts ∧ ∀ r, (p.run c).1 = .error r → IsSpanIn ts r.span

namespace Points

variable {p : Parser α} {k : α → Parser β}

/-! ## Putting parsers together -/

/-- A parser that rejects nothing and leaves the cursor in the text. -/
theorem of_tokens (htokens : ∀ c : Cursor, c.tokens ⊆ ts → (p.run c).2.tokens ⊆ ts)
    (hok : ∀ c : Cursor, ∃ a, (p.run c).1 = .ok a) : Points ts p := by
  refine ⟨fun c hc => ⟨htokens c hc, fun r hr => ?_⟩⟩
  obtain ⟨a, ha⟩ := hok c
  rw [ha] at hr
  cases hr

instance pure (a : α) : Points ts (Pure.pure a) :=
  of_tokens (fun _ h => h) fun _ => ⟨a, rfl⟩

/-- After a step of whose answer something is known. -/
theorem bindAnswer {P : α → Prop} (hp : Points ts p)
    (hP : ∀ c a c', c.tokens ⊆ ts → p.run c = (.ok a, c') → P a)
    (hk : ∀ a, P a → Points ts (k a)) : Points ts (p >>= k) := by
  refine ⟨fun c hc => ?_⟩
  obtain ⟨htokens, hspan⟩ := hp.run c hc
  rw [bind_run]
  rcases hrun : p.run c with ⟨r | a, c'⟩ <;> rw [hrun] at htokens hspan
  · refine ⟨htokens, fun r' hr => ?_⟩
    obtain rfl := Except.error.inj hr
    exact hspan r rfl
  · exact (hk a (hP c a c' hc hrun)).run c' htokens

/-- Parsers that point at the text, one after another, do so together. -/
theorem bind (hp : Points ts p) (hk : ∀ a, Points ts (k a)) : Points ts (p >>= k) :=
  hp.bindAnswer (fun _ _ _ _ _ => trivial) fun a _ => hk a

/-- After a step. -/
theorem after [hp : Points ts p] (hk : ∀ a, Points ts (k a)) : Points ts (p >>= k) :=
  hp.bind hk

/-- A rejection at the span of a token of the text. -/
theorem rejectAt {s : Span} (hs : IsSpanIn ts s) (f : Fault) :
    Points ts (Parse.rejectAt s f : Parser α) := by
  refine ⟨fun c hc => ⟨hc, fun r hr => ?_⟩⟩
  obtain rfl := Except.error.inj hr
  exact hs

/-- A token that is looked at is one of the text. -/
theorem peek {k : Token → Parser β} (hk : ∀ t, IsSpanIn ts t.span → Points ts (k t)) :
    Points ts (Parse.peek >>= k) :=
  bindAnswer (of_tokens (p := Parse.peek) (fun _ h => h) fun c => ⟨c.current, rfl⟩)
    (fun c a c' hc hrun => by
      obtain rfl := Except.ok.inj (congrArg Prod.fst hrun)
      exact ⟨c.current, hc List.mem_cons_self, rfl⟩) hk

instance reject (f : Fault) : Points ts (Parse.reject f : Parser α) :=
  peek fun _ ht => rejectAt ht f

/-! ## Steps -/

instance get : Points ts (MonadState.get : Parser Cursor) :=
  of_tokens (fun _ h => h) fun c => ⟨c, rfl⟩

instance peekKind : Points ts Parse.peekKind :=
  of_tokens (fun _ h => h) fun c => ⟨c.current.kind, rfl⟩

instance at? (kind : TokenKind) : Points ts (Parse.at? kind) :=
  of_tokens (fun _ h => h) fun c => ⟨c.current.kind == kind, rfl⟩

instance atPunct (mark : Punct) : Points ts (Parse.atPunct mark) :=
  at? _

instance atSemicolon : Points ts Parse.atSemicolon :=
  of_tokens (fun _ h => h) fun c => ⟨c.current.kind.isSemicolon, rfl⟩

end Points

/-- A cursor that pulls a token moves to one of those that are ahead, or stays at the last. -/
theorem Cursor.tokens_pull (c : Cursor) (ahead : List Token) :
    (c.pull ahead).tokens ⊆ ahead ∨ (c.pull ahead).tokens = [c.current] := by
  obtain ⟨passed, left, texts, hpulled⟩ := c.exists_pulled ahead
  rcases hpulled.stops with ⟨-, hstay, hrest⟩ | ⟨hleft, -⟩
  · rw [tokens, hstay, hrest]
    exact .inr rfl
  · rw [tokens, ← hleft, hpulled.tokens]
    exact .inl (List.subset_append_right _ _)

/-- Moving on takes tokens that follow, or stays at the last. -/
theorem Cursor.tokens_advance (c : Cursor) :
    c.advance.tokens ⊆ c.rest ∨ c.advance.tokens = [c.current] := by
  obtain ⟨d, hadvance, hcurrent, -⟩ := c.exists_advance_eq_pull
  rw [hadvance, ← hcurrent]
  exact d.tokens_pull c.rest

/-- Moving on never leaves the tokens of a cursor. -/
theorem Cursor.tokens_advance_subset (c : Cursor) : c.advance.tokens ⊆ c.tokens := by
  rcases c.tokens_advance with h | h
  · exact List.subset_cons_of_subset _ h
  · rw [h]
    exact List.cons_subset_cons _ (List.nil_subset _)

namespace Points

variable {p : Parser α} {k : α → Parser β}

instance advance : Points ts Parse.advance :=
  of_tokens (fun c hc => List.Subset.trans c.tokens_advance_subset hc) fun _ => ⟨(), rfl⟩

instance claimComments : Points ts Parse.claimComments :=
  of_tokens (fun _ h => h) fun c => ⟨c.waiting, rfl⟩

instance startDecorations : Points ts Parse.startDecorations :=
  of_tokens (fun _ h => h) fun _ => ⟨_, rfl⟩

instance closeEnclosure (comment : Option Comment) : Points ts (Parse.closeEnclosure comment) :=
  of_tokens (fun _ h => h) fun _ => ⟨_, rfl⟩

instance claimTrailing : Points ts Parse.claimTrailing := by
  have hruns (c : Cursor) : ∃ comment d,
      Parse.claimTrailing.run c = (.ok comment, d) ∧ d.tokens = c.tokens := by
    rw [claimTrailing_run]
    split
    · split
      · exact ⟨_, _, rfl, rfl⟩
      · exact ⟨_, _, rfl, rfl⟩
    · exact ⟨_, _, rfl, rfl⟩
  refine of_tokens (fun c hc => ?_) fun c => ?_
  · obtain ⟨comment, d, hrun, hd⟩ := hruns c
    rw [hrun, hd]
    exact hc
  · obtain ⟨comment, d, hrun, -⟩ := hruns c
    exact ⟨comment, congrArg Prod.fst hrun⟩

instance unexpected (wanted : Wanted) : Points ts (Parse.unexpected wanted : Parser α) := by
  refine .after fun kind => ?_
  split
  · exact reject _
  · exact reject _

instance expect (kind : TokenKind) : Points ts (Parse.expect kind) := by
  refine .after fun found => ?_
  split
  · exact advance
  · exact unexpected _

instance expectPunct (mark : Punct) : Points ts (Parse.expectPunct mark) :=
  expect _

instance expectKeyword (word : Keyword) : Points ts (Parse.expectKeyword word) :=
  expect _

instance expectIdent : Points ts Parse.expectIdent := by
  refine .after fun kind => ?_
  split
  · exact .after fun _ => pure _
  · exact unexpected _

instance expectTerminator : Points ts Parse.expectTerminator := by
  refine .after fun kind => ?_
  split
  · exact advance
  · exact pure _
  · exact pure _
  · exact unexpected _

/-! ## Context and loops -/

instance bracketed [hp : Points ts p] : Points ts (Parse.bracketed p) := by
  refine ⟨fun c hc => ?_⟩
  rw [bracketed_run]
  exact hp.run { c with exprLevel := c.exprLevel + 1 } hc

instance inHeader [hp : Points ts p] : Points ts (Parse.inHeader p) := by
  refine ⟨fun c hc => ?_⟩
  rw [inHeader_run]
  exact hp.run { c with exprLevel := -1 } hc

instance nested [hp : Points ts p] : Points ts (Parse.nested p) := by
  refine ⟨fun c hc => ?_⟩
  rw [nested_run]
  split
  · exact (reject (α := α) .nestedTooDeeply).run c hc
  · exact hp.run { c with depth := c.depth + 1 } hc

/-- A loop points at the text if its turn does. -/
theorem entries {turn : Parser (Turn α)} (h : Points ts turn) (n : Nat) :
    Points ts (Parse.entries turn n) := by
  induction n with
  | zero => exact reject _
  | succ n ih =>
    refine .after fun t => ?_
    cases t with
    | stop => exact pure _
    | skip => exact ih
    | more a => exact .after fun _ => pure _
    | last a => exact pure _

/-- What grows in turns points at the text if each turn does. -/
theorem growing {grow : α → Parser (Option α)} (h : ∀ a, Points ts (grow a)) (n : Nat) (a : α) :
    Points ts (Parse.growing grow n a) := by
  induction n generalizing a with
  | zero => exact reject _
  | succ n ih =>
    have := h a
    refine .after fun b => ?_
    cases b with
    | none => exact pure _
    | some b => exact ih b

end Points

end HandlerSplit.Parse
