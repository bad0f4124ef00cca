import HandlerSplit.Parse.Source
import HandlerSplit.Proofs.Parse.Standing
/-!
# The parser makes progress

A cursor counts how many tokens have been asked for, and the tokens that are left are those from the
current one on, comments aside. Asking for a token takes one of those that are left, unless the text
is at its end: the sum of both grows if and only if the end of the text is passed
(`Cursor.total_advance_iff`). A parser proceeds (`Proceeds`) if it never does that, if it has taken
a token wherever it says so, and if it comes to an answer of its own on texts with a bounded number
of tokens. The bound goes down with every token taken, and so limits how deep phrases are nested and
how often a loop turns.
-/

namespace HandlerSplit.Parse

variable {α β : Type}

/-! ## Tokens that are left -/

namespace Cursor

/-- How many tokens are left, the current one and the end of the text included. -/
def left (c : Cursor) : Nat :=
  c.kinds.length

/-- How many tokens have been asked for or are left. -/
def total (c : Cursor) : Nat :=
  c.taken + c.left

/-- The current token is always left. -/
theorem left_pos (c : Cursor) : 0 < c.left :=
  Nat.succ_pos _

/-- The tokens that are left are counted by the tokens alone. -/
theorem left_of_tokens {c c' : Cursor} (h : c'.tokens = c.tokens) : c'.left = c.left :=
  congrArg List.length (kinds_of_tokens h)

/-- Collecting comments asks for no token. -/
theorem taken_pull (c : Cursor) (ts : List Token) : (c.pull ts).taken = c.taken := by
  fun_induction pull c ts with
  | case1 c => rfl
  | case2 c t rest text htext trailing comment ih => exact ih
  | case3 c t rest hkind => rfl

/-- Advancing is counted. -/
theorem taken_advance (c : Cursor) : c.advance.taken = c.taken + 1 := by
  rw [advance]
  split <;> rw [taken_pull]

/-- Moving on takes one token from those that are left. -/
theorem left_advance {c : Cursor} (h : Proper c.tokens) (heof : c.current.kind ≠ .eof) :
    c.left = c.advance.left + 1 :=
  congrArg List.length (kinds_of_advance h heof)

/-- At the end of the text nothing is left to take. -/
theorem left_advance_eof {c : Cursor} (h : Proper c.tokens) (heof : c.current.kind = .eof) :
    c.advance.left = c.left := by
  have hrest : kindsOf c.rest = [] := congrArg kindsOf (h.eq_nil heof)
  rw [left, left, kinds_advance, if_pos hrest, kinds, hrest]

/-- Advancing leaves the sum of what is taken and left, unless it is at the end. -/
theorem total_advance_iff {c : Cursor} (h : Proper c.tokens) :
    c.advance.total = c.total ↔ c.current.kind ≠ .eof := by
  rw [total, total, taken_advance]
  by_cases heof : c.current.kind = .eof
  · rw [left_advance_eof h heof]
    exact iff_of_false (by omega) (not_not_intro heof)
  · rw [left_advance h heof]
    exact iff_of_true (by omega) heof

end Cursor

/-! ## Runs that proceed -/

/-- What a run comes to that starts at `c`. -/
structure Proceeding (n : Nat) (M : α → Prop) (c : Cursor) (r : Except Rejection α × Cursor) :
    Prop where
  proper : Proper r.2.tokens
  /-- The end of the text has not been passed. -/
  total : r.2.total = c.total
  left_le : r.2.left ≤ c.left
  /-- Where the answer says so, a token has been taken. -/
  moved : ∀ a, r.1 = .ok a → M a → r.2.left < c.left
  /-- A text of at most `n` tokens is accepted or rejected for what it is. -/
  decided : c.left ≤ n → ∀ e, r.1 = .error e → e.fault ≠ .exhausted

/-- From a current token as `K` says a parser proceeds, on texts of up to `n` tokens to an answer of
its own, and it takes a token if the answer is as `M` says. -/
def Proceeds (K : TokenKind → Prop) (n : Nat) (M : α → Prop) (p : Parser α) : Prop :=
  ∀ c : Cursor, Proper c.tokens → K c.current.kind → Proceeding n M c (p.run c)

/-- Whatever the answer is. -/
def Always (_ : α) : Prop := True

/-- Of no answer. -/
def Never (_ : α) : Prop := False

namespace Proceeding

variable {n m : Nat} {M : α → Prop} {N N' : β → Prop} {c c' d : Cursor} {a : α}
  {r : Except Rejection α × Cursor} {r' : Except Rejection β × Cursor}

/-- A run that is rejected where it starts. -/
theorem rejected (hc : Proper c.tokens) {e : Rejection}
    (h : c.left ≤ n → e.fault ≠ .exhausted) : Proceeding n M c (.error e, c) := by
  refine ⟨hc, rfl, Nat.le_refl _, nofun, fun hn e' he => ?_⟩
  obtain rfl := Except.error.inj he
  exact h hn

/-- A run after a rejection is the rejection. -/
theorem fails {e : Rejection} (h : Proceeding n M c (.error e, c')) :
    Proceeding n N c (.error e, c') := by
  refine ⟨h.proper, h.total, h.left_le, nofun, fun hn e' he => ?_⟩
  obtain rfl := Except.error.inj he
  exact h.decided hn _ rfl

/-- One run after another. A token is taken by the first or by the second. -/
theorem trans (h : Proceeding n M c (.ok a, c')) (h' : Proceeding m N' c' r')
    (hm : c.left ≤ n → c'.left ≤ m) (hN : ∀ b, N b → M a ∨ N' b) : Proceeding n N c r' := by
  refine ⟨h'.proper, h'.total.trans h.total, Nat.le_trans h'.left_le h.left_le,
    fun b hb hNb => ?_, fun hn => h'.decided (hm hn)⟩
  rcases hN b hNb with hM | hN'
  · exact Nat.lt_of_le_of_lt h'.left_le (h.moved a rfl hM)
  · exact Nat.lt_of_lt_of_le (h'.moved b hb hN') h.left_le

/-- A run from a cursor that differs in context, adjusted afterwards. -/
theorem adjusted {f : Cursor → Cursor} (h : Proceeding n M d r) (hd : d.tokens = c.tokens)
    (hdt : d.taken = c.taken) (hf : ∀ e : Cursor, (f e).tokens = e.tokens)
    (hft : ∀ e : Cursor, (f e).taken = e.taken) : Proceeding n M c (r.map id f) := by
  obtain ⟨answer, e⟩ := r
  obtain ⟨hproper, htotal, hle, hmoved, hdecided⟩ := h
  have hleft : d.left = c.left := Cursor.left_of_tokens hd
  have hleft' : (f e).left = e.left := Cursor.left_of_tokens (hf e)
  rw [Cursor.total, Cursor.total, hdt, hleft] at htotal
  rw [hleft] at hle hmoved hdecided
  refine ⟨(hf e).symm ▸ hproper, ?_, hleft'.symm ▸ hle, ?_, hdecided⟩
  · show (f e).taken + (f e).left = _
    rw [hft, hleft', htotal, Cursor.total]
  · exact fun a ha hM => hleft'.symm ▸ hmoved a ha hM

end Proceeding

namespace Proceeds

variable {K : TokenKind → Prop} {n m : Nat} {M : α → Prop} {N : β → Prop} {p : Parser α}
  {k : α → Parser β}

/-! ## Putting parsers together -/

/-- What proceeds from any token proceeds from one of a given kind. -/
theorem weaken (h : Proceeds Anything n M p) : Proceeds K n M p :=
  fun c hc _ => h c hc trivial

/-- On fewer tokens. -/
theorem fewer (h : Proceeds K n M p) (hm : m ≤ n) : Proceeds K m M p := by
  intro c hc hK
  obtain ⟨hproper, htotal, hleft, hmoved, hdecided⟩ := h c hc hK
  exact ⟨hproper, htotal, hleft, hmoved, fun hm' => hdecided (Nat.le_trans hm' hm)⟩

/-- An answer at once, of which no token is promised. -/
theorem pure {a : α} (h : ¬M a) : Proceeds K n M (Pure.pure a) := by
  refine fun c hc _ => ⟨hc, rfl, Nat.le_refl _, fun b hb hM => ?_, fun _ _ he => nomatch he⟩
  obtain rfl := Except.ok.inj hb
  exact absurd hM h

/-- An answer at once, from a parser that promises no token. -/
theorem answer {a : α} : Proceeds K n Never (Pure.pure a) :=
  pure id

/-- A rejection for what the text is. -/
theorem rejectAt {f : Fault} (s : Span) (h : f ≠ .exhausted) :
    Proceeds K n M (Parse.rejectAt s f) :=
  fun _ hc _ => .rejected hc fun _ => h

theorem reject {f : Fault} (h : f ≠ .exhausted) : Proceeds K n M (Parse.reject f) :=
  fun _ hc _ => .rejected hc fun _ => h

/-- Giving up is no answer, but there is no text without tokens. -/
theorem exhausted : Proceeds K 0 M (Parse.reject .exhausted : Parser α) :=
  fun c hc _ => .rejected hc fun h => absurd h (Nat.not_le.mpr c.left_pos)

/-- One parser after another, of which the run is known once the first has answered. -/
theorem andThen (hp : Proceeds K n M p)
    (hk : ∀ a c c', Proceeding n M c (.ok a, c') → Proceeding n N c ((k a).run c')) :
    Proceeds K n N (p >>= k) := by
  intro c hc hK
  have h := hp c hc hK
  rw [bind_run]
  generalize p.run c = outcome at h ⊢
  rcases outcome with ⟨e | a, c'⟩
  · exact h.fails
  · exact hk a c c' h

/-- A parser goes on from where another has answered. -/
theorem goesOn {c c' : Cursor} {a : α} {q : Parser β} (hq : Proceeds Anything n N q)
    (h : Proceeding n M c (.ok a, c')) : Proceeding n N c (q.run c') :=
  h.trans (hq c' h.proper trivial) (fun hn => Nat.le_trans h.left_le hn) fun _ hN => .inr hN

/-- A parser goes on with one token less, from where another has answered and has taken a token. -/
theorem goesOnBelow {c c' : Cursor} {a : α} {q : Parser β} {N' : β → Prop}
    (hq : Proceeds Anything (n - 1) N' q) (h : Proceeding n M c (.ok a, c')) (hM : M a) :
    Proceeding n N c (q.run c') :=
  h.trans (hq c' h.proper trivial)
    (fun hn => Nat.le_sub_one_of_lt (Nat.lt_of_lt_of_le (h.moved a rfl hM) hn)) fun _ _ => .inl hM

/-- After a run of which it is not known whether it takes a token. -/
theorem bind (hp : Proceeds K n Never p) (hk : ∀ a, Proceeds Anything n N (k a)) :
    Proceeds K n N (p >>= k) :=
  hp.andThen fun a _ _ h => (hk a).goesOn h

/-- After a run that takes a token, with one token less. -/
theorem below (hp : Proceeds K n Always p) (hk : ∀ a, Proceeds Anything (n - 1) Never (k a)) :
    Proceeds K n N (p >>= k) :=
  hp.andThen fun a _ _ h => (hk a).goesOnBelow h trivial

/-- After a run that takes a token. -/
theorem past (hp : Proceeds K n Always p) (hk : ∀ a, Proceeds Anything n Never (k a)) :
    Proceeds K n N (p >>= k) :=
  hp.below fun a => (hk a).fewer (Nat.sub_le n 1)

/-! ## Looking at the current token -/

/-- Looking at the current token takes nothing. -/
theorem peek {k : Token → Parser β} (h : ∀ t, Proceeds K n N (k t)) :
    Proceeds K n N (Parse.peek >>= k) :=
  fun c hc hK => h c.current c hc hK

theorem get {k : Cursor → Parser β} (h : ∀ c, Proceeds K n N (k c)) :
    Proceeds K n N (MonadState.get >>= k) :=
  fun c hc hK => h c c hc hK

/-- What the current token is, is known from here on. -/
theorem peekKind {k : TokenKind → Parser β} (h : ∀ kind, Proceeds (· = kind) n N (k kind)) :
    Proceeds K n N (Parse.peekKind >>= k) :=
  fun c hc _ => h c.current.kind c hc rfl

/-- Behind a question for a kind, the current token is known if the answer is yes. -/
theorem at? {kind : TokenKind} {k : Bool → Parser β} (htrue : Proceeds (· = kind) n N (k true))
    (hfalse : Proceeds K n N (k false)) : Proceeds K n N (Parse.at? kind >>= k) := by
  intro c hc hK
  show Proceeding n N c ((k (c.current.kind == kind)).run c)
  cases h : c.current.kind == kind
  · exact hfalse c hc hK
  · exact htrue c hc (beq_iff_eq.mp h)

theorem atPunct {mark : Punct} {k : Bool → Parser β}
    (htrue : Proceeds (· = .punct mark) n N (k true)) (hfalse : Proceeds K n N (k false)) :
    Proceeds K n N (Parse.atPunct mark >>= k) :=
  at? htrue hfalse

theorem atSemicolon {k : Bool → Parser β}
    (htrue : Proceeds (·.isSemicolon = true) n N (k true)) (hfalse : Proceeds K n N (k false)) :
    Proceeds K n N (Parse.atSemicolon >>= k) := by
  intro c hc hK
  show Proceeding n N c ((k c.current.kind.isSemicolon).run c)
  cases h : c.current.kind.isSemicolon
  · exact hfalse c hc hK
  · exact htrue c hc h

/-- An unexpected token is a fault of the text. -/
theorem unexpected (wanted : Wanted) : Proceeds K n M (Parse.unexpected wanted) := by
  refine peekKind fun kind => ?_
  split
  · exact reject Fault.noConfusion
  · exact reject Fault.noConfusion

/-! ## Moving on -/

/-- Advancing where the text is not at its end. -/
theorem advanceIf {M : Unit → Prop} (h : ∀ kind, K kind → kind ≠ .eof) :
    Proceeds K n M Parse.advance := by
  intro c hc hK
  have heof := h _ hK
  have hleft : c.advance.left < c.left :=
    Nat.lt_of_lt_of_eq (Nat.lt_succ_self _) (Cursor.left_advance hc heof).symm
  exact ⟨c.proper_advance hc, (Cursor.total_advance_iff hc).mpr heof, Nat.le_of_lt hleft,
    fun _ _ _ => hleft, fun _ _ he => nomatch he⟩

/-- Moving on takes a token, unless it is the end of the text. -/
theorem advance {M : Unit → Prop} {kind : TokenKind} (h : kind ≠ .eof) :
    Proceeds (· = kind) n M Parse.advance :=
  advanceIf fun _ hkind => hkind ▸ h

theorem advanceIdent {M : Unit → Prop} {name : String} :
    Proceeds (· = .ident name) n M Parse.advance :=
  advance nofun

theorem advancePunct {M : Unit → Prop} {mark : Punct} :
    Proceeds (· = .punct mark) n M Parse.advance :=
  advance nofun

theorem advanceSemicolon {M : Unit → Prop} :
    Proceeds (·.isSemicolon = true) n M Parse.advance :=
  advanceIf fun kind h heof => by rw [heof] at h; cases h

/-- A token that is expected is taken. -/
theorem expect {M : Unit → Prop} {kind : TokenKind} (h : kind ≠ .eof) :
    Proceeds K n M (Parse.expect kind) :=
  at? (advance h) (unexpected _)

theorem expectPunct {M : Unit → Prop} {mark : Punct} : Proceeds K n M (Parse.expectPunct mark) :=
  expect nofun

theorem expectKeyword {M : Unit → Prop} {word : Keyword} :
    Proceeds K n M (Parse.expectKeyword word) :=
  expect nofun

/-- A name that is expected is taken. -/
theorem expectIdent {M : String → Prop} : Proceeds K n M Parse.expectIdent := by
  refine peekKind fun kind => ?_
  split
  · exact past advanceIdent fun _ => answer
  · exact unexpected _

/-- A closing delimiter in place of the terminator is left. -/
theorem expectTerminator : Proceeds K n Never Parse.expectTerminator := by
  refine peekKind fun kind => ?_
  split
  · exact advanceIf fun _ hkind heof => TokenKind.noConfusion (hkind.symm.trans heof)
  · exact answer
  · exact answer
  · exact unexpected _

/-! ## Layout -/

/-- A step that answers, and changes nothing but what waits. -/
theorem layout (hok : ∀ c, ∃ a, (p.run c).1 = .ok a)
    (htokens : ∀ c, (p.run c).2.tokens = c.tokens) (htaken : ∀ c, (p.run c).2.taken = c.taken)
    (hk : ∀ a, Proceeds K n N (k a)) : Proceeds K n N (p >>= k) := by
  intro c hc hK
  obtain ⟨a, ha⟩ := hok c
  have htokens := htokens c
  have htaken := htaken c
  rw [bind_run]
  generalize p.run c = outcome at ha htokens htaken ⊢
  obtain ⟨answer, c'⟩ := outcome
  obtain rfl : answer = .ok a := ha
  have hleft : c'.left = c.left := Cursor.left_of_tokens htokens
  have hcurrent : c'.current = c.current := (List.cons.inj htokens).1
  have htotal : c'.total = c.total := by rw [Cursor.total, Cursor.total, htaken, hleft]
  obtain ⟨hproper, hall, hle, hmoved, hdecided⟩ := hk a c' (htokens ▸ hc) (hcurrent ▸ hK)
  exact ⟨hproper, hall.trans htotal, hleft ▸ hle, hleft ▸ hmoved, hleft ▸ hdecided⟩

theorem claimComments {k : List Comment → Parser β} (h : ∀ cs, Proceeds K n N (k cs)) :
    Proceeds K n N (Parse.claimComments >>= k) :=
  layout (fun _ => ⟨_, rfl⟩) (fun _ => rfl) (fun _ => rfl) h

theorem startDecorations {k : Decorations → Parser β} (h : ∀ d, Proceeds K n N (k d)) :
    Proceeds K n N (Parse.startDecorations >>= k) :=
  layout (fun _ => ⟨_, rfl⟩) (fun _ => rfl) (fun _ => rfl) h

theorem closeEnclosure {k : Enclosure → Parser β} {openComment : Option Comment}
    (h : ∀ b, Proceeds K n N (k b)) : Proceeds K n N (Parse.closeEnclosure openComment >>= k) :=
  layout (fun _ => ⟨_, rfl⟩) (fun _ => rfl) (fun _ => rfl) h

theorem claimTrailing {k : Option Comment → Parser β} (h : ∀ t, Proceeds K n N (k t)) :
    Proceeds K n N (Parse.claimTrailing >>= k) := by
  refine layout (fun c => ?_) (fun c => ?_) (fun c => ?_) h <;>
    (rw [claimTrailing_run]; split; split)
  all_goals first
    | exact ⟨_, rfl⟩
    | rfl

/-! ## Context -/

/-- The limit on nesting is a fault of the text, and the level takes nothing. -/
theorem nested (h : Proceeds K n M p) : Proceeds K n M (Parse.nested p) := by
  intro c hc hK
  rw [nested_run]
  split
  · exact .rejected hc nofun
  · exact (h { c with depth := c.depth + 1 } hc hK).adjusted rfl rfl (fun _ => rfl) fun _ => rfl

theorem bracketed (h : Proceeds K n M p) : Proceeds K n M (Parse.bracketed p) := by
  intro c hc hK
  rw [bracketed_run]
  exact (h { c with exprLevel := c.exprLevel + 1 } hc hK).adjusted rfl rfl (fun _ => rfl)
    fun _ => rfl

theorem inHeader (h : Proceeds K n M p) : Proceeds K n M (Parse.inHeader p) := by
  intro c hc hK
  rw [inHeader_run]
  exact (h { c with exprLevel := -1 } hc hK).adjusted rfl rfl (fun _ => rfl) fun _ => rfl

end Proceeds

/-! ## Loops -/

/-- A turn after which the list goes on. -/
def Turn.GoesOn : Turn α → Prop
  | .stop | .last _ => False
  | .skip | .more _ => True

namespace Proceeds

variable {K : TokenKind → Prop} {n budget : Nat}

/-- A list is read in as many turns as there are tokens, if a turn takes a token unless it is the
last. -/
theorem entries {turn : Parser (Turn α)} (h : Proceeds Anything n Turn.GoesOn turn)
    (hn : n ≤ budget) : Proceeds K n Never (Parse.entries turn budget) := by
  induction budget generalizing K n with
  | zero =>
    obtain rfl := Nat.le_zero.mp hn
    exact exhausted
  | succ budget ih =>
    have rest : Proceeds Anything (n - 1) Never (Parse.entries turn budget) :=
      ih (h.fewer (Nat.sub_le n 1)) (Nat.sub_le_of_le_add hn)
    rw [Parse.entries]
    refine h.weaken.andThen fun t c c' ht => ?_
    cases t with
    | stop => exact answer.goesOn ht
    | skip => exact rest.goesOnBelow ht trivial
    | more a => exact (rest.bind fun as => answer).goesOnBelow ht trivial
    | last a => exact answer.goesOn ht

/-- A value grows as often as there are tokens, if growing takes a token. -/
theorem growing {grow : α → Parser (Option α)}
    (h : ∀ a, Proceeds Anything n (·.isSome = true) (grow a)) (hn : n ≤ budget) (a : α) :
    Proceeds K n Never (Parse.growing grow budget a) := by
  induction budget generalizing K n a with
  | zero =>
    obtain rfl := Nat.le_zero.mp hn
    exact exhausted
  | succ budget ih =>
    rw [Parse.growing]
    refine (h a).weaken.andThen fun b c c' hb => ?_
    cases b with
    | none => exact answer.goesOn hb
    | some b =>
      have rest : Proceeds Anything (n - 1) Never (Parse.growing grow budget b) :=
        ih (fun a => (h a).fewer (Nat.sub_le n 1)) (Nat.sub_le_of_le_add hn) b
      exact rest.goesOnBelow hb rfl

end Proceeds

end HandlerSplit.Parse
