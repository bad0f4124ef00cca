import HandlerSplit.Proofs.Lexer.Proper
import HandlerSplit.Proofs.Parse.Reading
import HandlerSplit.Proofs.Tree.Words
/-!
# What a run of the parser consumes

The words of a cursor are those from its current token on. A parser consumes (`Consumes`) what
it answers if the words of its answer are the words that its run has passed. Comments and lines
play no part in this, so the steps that claim comments consume nothing.

The answer is put together from parts that were consumed one after another, so a parser may start
with words that have been consumed before it. What is known of the current token when it starts is
a condition on its kind.
-/

namespace HandlerSplit

theorem wordsOf_cons_of_word {t : Token} (ts : List Token) (h : t.kind.isWord = true) :
    wordsOf (t :: ts) = t.kind :: wordsOf ts :=
  List.filter_cons_of_pos h

theorem wordsOf_cons_of_not {t : Token} (ts : List Token) (h : t.kind.isWord = false) :
    wordsOf (t :: ts) = wordsOf ts :=
  List.filter_cons_of_neg (by simp [h])

/-- The words of two stretches of tokens follow one another. -/
theorem wordsOf_append (ts ts' : List Token) : wordsOf (ts ++ ts') = wordsOf ts ++ wordsOf ts' := by
  rw [wordsOf, List.map_append, List.filter_append]
  rfl

/-- Comments are no words. -/
theorem wordsOf_comments {passed : List Token} {texts : List String}
    (h : passed.map (·.kind) = texts.map .comment) : wordsOf passed = [] := by
  rw [wordsOf, h, List.filter_eq_nil_iff]
  intro kind hkind
  obtain ⟨text, -, rfl⟩ := List.mem_map.mp hkind
  exact Bool.noConfusion

namespace Parse

namespace Cursor

/-- The words that are still to be consumed. -/
def words (c : Cursor) : List TokenKind :=
  wordsOf c.tokens

/-- Collecting comments passes no word. -/
theorem words_pull (c : Cursor) {ts : List Token} (h : Proper ts) :
    Proper (c.pull ts).tokens ∧ (c.pull ts).words = wordsOf ts := by
  obtain ⟨passed, left, texts, hpulled⟩ := c.exists_pulled ts
  obtain ⟨-, hleft⟩ := marksOf_passed hpulled.comments (hpulled.tokens ▸ h)
  rcases hpulled.stops with ⟨rfl, -, -⟩ | ⟨hstop, -⟩
  · cases hleft
  · rw [words, tokens, ← hstop, hpulled.tokens, wordsOf_append, wordsOf_comments hpulled.comments]
    exact ⟨hleft, rfl⟩

/-- Moving on leaves the words behind the current token. -/
theorem words_advance {c : Cursor} (h : Proper c.tokens) (heof : c.current.kind ≠ .eof) :
    Proper c.advance.tokens ∧ c.advance.words = wordsOf c.rest := by
  obtain ⟨d, hadvance, -⟩ := c.exists_advance_eq_pull
  rw [hadvance]
  exact d.words_pull (h.tail heof)

/-- Advancing past a word. -/
theorem words_advance_of_word {c : Cursor} (h : Proper c.tokens)
    (hword : c.current.kind.isWord = true) :
    Proper c.advance.tokens ∧ c.words = c.current.kind :: c.advance.words := by
  have heof : c.current.kind ≠ .eof := by
    intro heof
    rw [heof] at hword
    cases hword
  obtain ⟨hproper, hwords⟩ := words_advance h heof
  exact ⟨hproper, by rw [hwords, words, tokens, wordsOf_cons_of_word _ hword]⟩

/-- Advancing past a token that is no word. -/
theorem words_advance_of_not {c : Cursor} (h : Proper c.tokens)
    (hword : c.current.kind.isWord = false) :
    Proper c.advance.tokens ∧ c.words = c.advance.words := by
  by_cases heof : c.current.kind = .eof
  · obtain ⟨hproper, -⟩ := c.marks_advance_of_none h (by rw [heof]; rfl)
    obtain ⟨d, hadvance, hcurrent, -⟩ := c.exists_advance_eq_pull
    have hrest : c.rest = [] := h.eq_nil heof
    have htokens : c.advance.tokens = c.tokens := by
      rw [hadvance, hrest, tokens, tokens, hrest, ← hcurrent]
      rfl
    exact ⟨hproper, by rw [words, words, htokens]⟩
  · obtain ⟨hproper, hwords⟩ := words_advance h heof
    exact ⟨hproper, by rw [hwords, words, tokens, wordsOf_cons_of_not _ hword]⟩

end Cursor

variable {α β : Type}

/-- From a cursor with a current token as `K` says, after the words `m`, a parser answers what
holds `m` and the words it has passed. -/
def Consumes (K : TokenKind → Prop) (m : List TokenKind) (e : α → List TokenKind)
    (p : Parser α) : Prop :=
  ∀ c : Cursor, Proper c.tokens → K c.current.kind → ∀ a c', p.run c = (.ok a, c') →
    Proper c'.tokens ∧ m ++ c.words = e a ++ c'.words

/-- No words. -/
def noWords (_ : α) : List TokenKind := []

namespace Consumes

variable {K : TokenKind → Prop} {m : List TokenKind} {e : α → List TokenKind}
  {e' : β → List TokenKind}

/-! ## Putting parsers together -/

/-- What is consumed from any token is consumed from one of a given kind. -/
theorem weaken {p : Parser α} (h : Consumes Anything m e p) : Consumes K m e p :=
  fun c hc _ => h c hc trivial

/-- What is answered at once holds the words that have been consumed before. -/
theorem pure {a : α} (h : e a = m) : Consumes K m e (Pure.pure a) := by
  intro c hc _ a' c' hrun
  obtain ⟨rfl, rfl⟩ := pure_ok hrun
  exact ⟨hc, by rw [h]⟩

/-- One parser after another, which goes on from what the first has answered. -/
theorem seqAnswer {P : α → Prop} {p : Parser α} {k : α → Parser β} (hp : Consumes K m e p)
    (hanswer : Answers P p) (hk : ∀ a, P a → Consumes Anything (e a) e' (k a)) :
    Consumes K m e' (p >>= k) := by
  intro c hc hK b c'' hrun
  obtain ⟨a, c', hp', hk'⟩ := bind_ok hrun
  obtain ⟨hc', hwords⟩ := hp c hc hK a c' hp'
  obtain ⟨hc'', hwords'⟩ := hk a (hanswer c a c' hp') c' hc' trivial b c'' hk'
  exact ⟨hc'', hwords.trans hwords'⟩

/-- The second parser goes on with the words of what the first has answered. -/
theorem seq {p : Parser α} {k : α → Parser β} (hp : Consumes K m e p)
    (hk : ∀ a, Consumes Anything (e a) e' (k a)) : Consumes K m e' (p >>= k) :=
  seqAnswer hp (.unknown p) fun a _ => hk a

/-- Words that have been consumed before stay in front. -/
theorem behind {p : Parser α} (m' : List TokenKind) (hp : Consumes K m e p) :
    Consumes K (m' ++ m) (fun a => m' ++ e a) p := by
  intro c hc hK a c' hrun
  obtain ⟨hc', hwords⟩ := hp c hc hK a c' hrun
  exact ⟨hc', by rw [List.append_assoc, hwords, List.append_assoc]⟩

/-- After words that have been consumed before. -/
theorem bindAnswer {P : α → Prop} {p : Parser α} {k : α → Parser β} (hp : Consumes K [] e p)
    (hanswer : Answers P p) (hk : ∀ a, P a → Consumes Anything (m ++ e a) e' (k a)) :
    Consumes K m e' (p >>= k) := by
  have h := hp.behind m
  rw [List.append_nil] at h
  exact seqAnswer h hanswer hk

/-- In sequence, the words of the first answer stand before those of the second. -/
theorem bind {p : Parser α} {k : α → Parser β} (hp : Consumes K [] e p)
    (hk : ∀ a, Consumes Anything (m ++ e a) e' (k a)) : Consumes K m e' (p >>= k) :=
  bindAnswer hp (.unknown p) fun a _ => hk a

/-- After a step that consumes no words. -/
theorem skip {p : Parser Unit} {k : Unit → Parser β} (hp : Consumes K [] noWords p)
    (hk : Consumes Anything m e' (k ())) : Consumes K m e' (p >>= k) :=
  bind hp fun _ => by rw [noWords, List.append_nil]; exact hk

/-! ## Faults -/

theorem rejectAt (s : Span) (f : Fault) : Consumes K m e (Parse.rejectAt s f) := by
  intro c _ _ a c' hrun
  cases hrun

theorem reject (f : Fault) : Consumes K m e (Parse.reject f) := by
  intro c _ _ a c' hrun
  cases hrun

/-! ## Looking at the current token -/

theorem peek {k : Token → Parser β} (h : ∀ t, Consumes K m e' (k t)) :
    Consumes K m e' (Parse.peek >>= k) :=
  fun c hc hK => h c.current c hc hK

theorem get {k : Cursor → Parser β} (h : ∀ c, Consumes K m e' (k c)) :
    Consumes K m e' (MonadState.get >>= k) :=
  fun c hc hK => h c c hc hK

/-- What the current token is, is known from here on. -/
theorem peekKind {k : TokenKind → Parser β}
    (h : ∀ kind, K kind → Consumes (· = kind) m e' (k kind)) :
    Consumes K m e' (Parse.peekKind >>= k) :=
  fun c hc hK => h c.current.kind hK c hc rfl

/-- Behind a question for a kind, the current token is known if the answer is yes. -/
theorem at? {kind : TokenKind} {k : Bool → Parser β} (htrue : Consumes (· = kind) m e' (k true))
    (hfalse : Consumes K m e' (k false)) : Consumes K m e' (Parse.at? kind >>= k) := by
  intro c hc hK
  show ∀ a c', (k (c.current.kind == kind)).run c = (.ok a, c') → _
  by_cases h : c.current.kind = kind
  · rw [beq_iff_eq.mpr h]
    exact htrue c hc h
  · rw [beq_eq_false_iff_ne.mpr h]
    exact hfalse c hc hK

theorem atPunct {mark : Punct} {k : Bool → Parser β}
    (htrue : Consumes (· = .punct mark) m e' (k true)) (hfalse : Consumes K m e' (k false)) :
    Consumes K m e' (Parse.atPunct mark >>= k) :=
  at? htrue hfalse

theorem atSemicolon {k : Bool → Parser β}
    (htrue : Consumes (·.isSemicolon = true) m e' (k true))
    (hfalse : Consumes K m e' (k false)) : Consumes K m e' (Parse.atSemicolon >>= k) := by
  intro c hc hK
  show ∀ a c', (k c.current.kind.isSemicolon).run c = (.ok a, c') → _
  cases h : c.current.kind.isSemicolon
  · exact hfalse c hc hK
  · exact htrue c hc h

theorem unexpected (wanted : Wanted) : Consumes K m e (Parse.unexpected wanted) := by
  refine peekKind fun kind _ => ?_
  split
  · exact reject _
  · exact reject _

/-! ## Moving on -/

/-- Past a word. -/
theorem word {kind : TokenKind} {k : Unit → Parser β} (hword : kind.isWord = true)
    (hk : Consumes Anything (m ++ [kind]) e' (k ())) :
    Consumes (· = kind) m e' (Parse.advance >>= k) := by
  intro c hc hkind b c' hrun
  obtain ⟨hproper, hwords⟩ := c.words_advance_of_word hc (hkind ▸ hword)
  obtain ⟨hproper', hwords'⟩ := hk c.advance hproper trivial b c' hrun
  refine ⟨hproper', ?_⟩
  rw [hwords, hkind, ← hwords', List.append_assoc]
  rfl

/-- Past a token that is no word. -/
theorem free {k : Unit → Parser β} (hfree : ∀ kind, K kind → kind.isWord = false)
    (hk : Consumes Anything m e' (k ())) : Consumes K m e' (Parse.advance >>= k) := by
  intro c hc hK b c' hrun
  obtain ⟨hproper, hwords⟩ := c.words_advance_of_not hc (hfree _ hK)
  obtain ⟨hproper', hwords'⟩ := hk c.advance hproper trivial b c' hrun
  exact ⟨hproper', by rw [hwords, hwords']⟩

/-- Past a separator, a parenthesis or `...`. -/
theorem next {kind : TokenKind} {k : Unit → Parser β} (hfree : kind.isWord = false)
    (hk : Consumes Anything m e' (k ())) : Consumes (· = kind) m e' (Parse.advance >>= k) :=
  free (fun _ h => h ▸ hfree) hk

theorem nextSemicolon {k : Unit → Parser β} (hk : Consumes Anything m e' (k ())) :
    Consumes (·.isSemicolon = true) m e' (Parse.advance >>= k) := by
  refine free (fun kind h => ?_) hk
  cases kind <;> first | rfl | cases h

/-- Past a word that is wanted. -/
theorem expectWord {kind : TokenKind} {k : Unit → Parser β} (hword : kind.isWord = true)
    (hk : Consumes Anything (m ++ [kind]) e' (k ())) :
    Consumes K m e' (Parse.expect kind >>= k) := by
  have h : Consumes K [] (fun _ => [kind]) (Parse.expect kind) :=
    at? (word (k := Pure.pure) hword (pure rfl)) (unexpected _)
  exact bind h fun _ => hk

theorem expectKeyword {w : Keyword} {k : Unit → Parser β}
    (hk : Consumes Anything (m ++ [.keyword w]) e' (k ())) :
    Consumes K m e' (Parse.expectKeyword w >>= k) :=
  expectWord rfl hk

/-- Past a mark that is a word. -/
theorem expectMark {mark : Punct} {k : Unit → Parser β}
    (hword : (TokenKind.punct mark).isWord = true)
    (hk : Consumes Anything (m ++ [.punct mark]) e' (k ())) :
    Consumes K m e' (Parse.expectPunct mark >>= k) :=
  expectWord hword hk

/-- A mark that is no word. -/
theorem expectFree {mark : Punct} (hfree : (TokenKind.punct mark).isWord = false) :
    Consumes K [] noWords (Parse.expectPunct mark) :=
  at? (next (k := Pure.pure) hfree (pure rfl)) (unexpected _)

/-- The name that is expected is the word that is consumed. -/
theorem expectIdent : Consumes K [] (fun n => [.ident n]) Parse.expectIdent := by
  refine peekKind fun kind _ => ?_
  split
  · exact word rfl (pure rfl)
  · exact unexpected _

theorem expectTerminator : Consumes K [] noWords Parse.expectTerminator := by
  refine peekKind fun kind _ => ?_
  split
  · exact next (k := Pure.pure) rfl (pure rfl)
  · exact pure rfl
  · exact pure rfl
  · exact unexpected _

/-! ## Layout

Claiming comments leaves the tokens. -/

/-- A step that changes nothing but what waits. -/
theorem layout {p : Parser α} {k : α → Parser β}
    (hp : ∀ c a c', p.run c = (.ok a, c') → c'.tokens = c.tokens)
    (hk : ∀ a, Consumes K m e' (k a)) : Consumes K m e' (p >>= k) := by
  intro c hc hK b c'' hrun
  obtain ⟨a, c', hp', hk'⟩ := bind_ok hrun
  have htokens := hp c a c' hp'
  have hcurrent : c'.current = c.current := (List.cons.inj htokens).1
  obtain ⟨hproper, hwords⟩ := hk a c' (htokens ▸ hc) (hcurrent ▸ hK) b c'' hk'
  rw [Cursor.words, htokens] at hwords
  exact ⟨hproper, hwords⟩

/-- Comments are no words. -/
theorem claimComments {k : List Comment → Parser β} (h : ∀ cs, Consumes K m e' (k cs)) :
    Consumes K m e' (Parse.claimComments >>= k) :=
  layout (fun _ _ _ hrun => by cases hrun; rfl) h

theorem startDecorations {k : Decorations → Parser β} (h : ∀ d, Consumes K m e' (k d)) :
    Consumes K m e' (Parse.startDecorations >>= k) :=
  layout (fun _ _ _ hrun => by cases hrun; rfl) h

theorem closeEnclosure {k : Enclosure → Parser β} (openComment : Option Comment)
    (h : ∀ b, Consumes K m e' (k b)) :
    Consumes K m e' (Parse.closeEnclosure openComment >>= k) :=
  layout (fun _ _ _ hrun => by cases hrun; rfl) h

theorem claimTrailing {k : Option Comment → Parser β} (h : ∀ t, Consumes K m e' (k t)) :
    Consumes K m e' (Parse.claimTrailing >>= k) :=
  layout (fun _ _ _ hrun => (marks_claimTrailing hrun).1) h

/-! ## Context -/

/-- A run whose last cursor is adjusted, tokens apart. -/
theorem adjusted {p : Parser α} (h : Consumes K m e p) {c c' : Cursor} (hc : Proper c.tokens)
    (hK : K c.current.kind) {f : Cursor → Cursor} {a : α}
    (hrun : (p.run c).map id f = (.ok a, c')) (htokens : ∀ d, (f d).tokens = d.tokens) :
    Proper c'.tokens ∧ m ++ c.words = e a ++ c'.words := by
  rcases hp : p.run c with ⟨r, d⟩
  rw [hp] at hrun
  obtain ⟨rfl, rfl⟩ := Prod.mk.inj hrun
  rw [Cursor.words.eq_1 (f d), htokens]
  exact h c hc hK a d hp

/-- A level of nesting changes nothing in what is consumed. -/
theorem nested {p : Parser α} (h : Consumes K m e p) : Consumes K m e (Parse.nested p) := by
  intro c hc hK a c' hrun
  rw [nested_run] at hrun
  split at hrun
  · cases hrun
  · exact h.adjusted (c := { c with depth := c.depth + 1 }) hc hK hrun fun _ => rfl

theorem bracketed {p : Parser α} (h : Consumes K m e p) :
    Consumes K m e (Parse.bracketed p) := by
  intro c hc hK a c' hrun
  rw [bracketed_run] at hrun
  exact h.adjusted (c := { c with exprLevel := c.exprLevel + 1 }) hc hK hrun fun _ => rfl

theorem inHeader {p : Parser α} (h : Consumes K m e p) :
    Consumes K m e (Parse.inHeader p) := by
  intro c hc hK a c' hrun
  rw [inHeader_run] at hrun
  exact h.adjusted (c := { c with exprLevel := -1 }) hc hK hrun fun _ => rfl

end Consumes

/-! ## Repetition -/

/-- The words of a turn. -/
def Turn.words (e : α → List TokenKind) : Turn α → List TokenKind
  | .stop => []
  | .skip => []
  | .more a => e a
  | .last a => e a

namespace Consumes

variable {K : TokenKind → Prop} {e : α → List TokenKind}

/-- The words of a list of entries are those of its entries in order. -/
theorem entries {p : Parser (Turn α)} (h : Consumes Anything [] (Turn.words e) p) (n : Nat) :
    Consumes K [] (List.flatMap e) (Parse.entries p n) := by
  induction n generalizing K with
  | zero => exact reject _
  | succ n ih =>
    refine seq h.weaken fun t => ?_
    cases t with
    | stop => exact pure rfl
    | skip => exact ih
    | more a => exact bind ih fun as => pure rfl
    | last a => exact pure (List.append_nil _)

/-- A value that holds what has been consumed, and goes on to do so as it grows. -/
theorem growing {p : α → Parser (Option α)}
    (h : ∀ a, Consumes Anything (e a) (fun b => e (b.getD a)) (p a)) (n : Nat) (a : α) :
    Consumes K (e a) e (Parse.growing p n a) := by
  induction n generalizing K a with
  | zero => exact reject _
  | succ n ih =>
    refine seq (h a).weaken fun b => ?_
    cases b with
    | none => exact pure rfl
    | some b => exact ih b

end Consumes

end Parse

end HandlerSplit
