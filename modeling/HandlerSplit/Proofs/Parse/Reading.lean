import HandlerSplit.Proofs.Lexer.Proper
import HandlerSplit.Proofs.Parse.Steps
import HandlerSplit.Proofs.Parse.Taking
/-!
# What a run of the parser takes

The marks of a cursor are the comments that wait and the comments and names from its current
token on. A parser reads (`Reads`) if what it answers holds the marks that its run has taken
from the cursor.

The answer is put together from parts that were read one after another, so a parser may start
with marks that have been read before it. What is known of the current token when it starts is
a condition on its kind.
-/

namespace HandlerSplit

/-- The mark a token is, if it is one. -/
def TokenKind.mark? : TokenKind → Option Mark
  | .comment text => some (.comment text)
  | .ident n => some (.name n false)
  | _ => none

/-- The marks of tokens. -/
def marksOf (tokens : List Token) : List Mark :=
  tokens.filterMap (·.kind.mark?)

theorem marksOf_cons_of_none {t : Token} (ts : List Token) (h : t.kind.mark? = none) :
    marksOf (t :: ts) = marksOf ts :=
  List.filterMap_cons_none h

theorem marksOf_cons_of_some {t : Token} (ts : List Token) {m : Mark} (h : t.kind.mark? = some m) :
    marksOf (t :: ts) = m :: marksOf ts :=
  List.filterMap_cons_some h

theorem marksOf_cons_ident {t : Token} (ts : List Token) {n : String} (h : t.kind = .ident n) :
    marksOf (t :: ts) = .name n false :: marksOf ts :=
  marksOf_cons_of_some ts (by rw [h]; rfl)

/-- The marks of two stretches of tokens follow one another. -/
theorem marksOf_append (ts ts' : List Token) : marksOf (ts ++ ts') = marksOf ts ++ marksOf ts' :=
  List.filterMap_append

/-- Comments that are passed are marks, and what comes after them is proper. -/
theorem marksOf_passed {passed left : List Token} {texts : List String}
    (hcomments : passed.map (·.kind) = texts.map .comment) (h : Proper (passed ++ left)) :
    marksOf passed = texts.map .comment ∧ Proper left := by
  induction passed generalizing texts with
  | nil =>
    cases texts with
    | nil => exact ⟨rfl, h⟩
    | cons => cases hcomments
  | cons t passed ih =>
    cases texts with
    | nil => cases hcomments
    | cons text texts =>
      obtain ⟨ht, hrest⟩ := List.cons.inj hcomments
      replace ht : t.kind = .comment text := ht
      have heof : t.kind ≠ .eof := by rw [ht]; exact nofun
      obtain ⟨hmarks, hleft⟩ := ih hrest (h.tail heof)
      have hmark : t.kind.mark? = some (.comment text) := by rw [ht]; rfl
      refine ⟨?_, hleft⟩
      rw [marksOf_cons_of_some passed hmark, hmarks, List.map_cons]

namespace Parse

namespace Cursor

/-- The comments that wait. -/
def waiting (c : Cursor) : List Comment :=
  c.pending.map (·.comment)

/-- The tokens from the current one on. -/
def tokens (c : Cursor) : List Token :=
  c.current :: c.rest

/-- The marks that are still to be taken. -/
def marks (c : Cursor) : List Mark :=
  commentMarks c.waiting ++ marksOf c.tokens

/-- Where a cursor moves to, as far as tokens and marks go. -/
theorem marks_pull (c : Cursor) {ts : List Token} (h : Proper ts) :
    Proper (c.pull ts).tokens ∧ (c.pull ts).marks = commentMarks c.waiting ++ marksOf ts := by
  obtain ⟨passed, left, texts, hpulled⟩ := c.exists_pulled ts
  obtain ⟨hpassed, hleft⟩ := marksOf_passed hpulled.comments (hpulled.tokens ▸ h)
  have hwaiting : commentMarks (c.pull ts).waiting =
      commentMarks c.waiting ++ texts.map .comment := by
    have htexts (d : Cursor) :
        commentMarks d.waiting = (d.pending.map (·.comment.text)).map .comment := by
      simp only [commentMarks, waiting, List.map_map, Function.comp_def]
    rw [htexts, htexts, hpulled.waiting, List.map_append]
  rcases hpulled.stops with ⟨rfl, -, -⟩ | ⟨hstop, -⟩
  · cases hleft
  · rw [marks, tokens, ← hstop, hwaiting, hpulled.tokens, marksOf_append, hpassed,
      List.append_assoc]
    exact ⟨hleft, rfl⟩

/-- Advancing leaves the comments that wait, and drops the current token. -/
theorem marks_advance {c : Cursor} (h : Proper c.tokens) (heof : c.current.kind ≠ .eof) :
    Proper c.advance.tokens ∧
      c.advance.marks = commentMarks c.waiting ++ marksOf c.rest := by
  obtain ⟨d, hadvance, -, hpending, -⟩ := c.exists_advance_eq_pull
  have hwaiting : d.waiting = c.waiting := congrArg (List.map _) hpending
  rw [hadvance, ← hwaiting]
  exact d.marks_pull (h.tail heof)

/-- Advancing past a token that is no name changes no marks. -/
theorem marks_advance_of_none {c : Cursor} (h : Proper c.tokens)
    (hnone : c.current.kind.mark? = none) :
    Proper c.advance.tokens ∧ c.advance.marks = c.marks := by
  by_cases heof : c.current.kind = .eof
  · obtain ⟨d, hadvance, hcurrent, hpending, -⟩ := c.exists_advance_eq_pull
    have hrest : c.rest = [] := h.eq_nil heof
    have hpull : d.pull c.rest =
        { d with rest := [], newlineBefore := false, blankBefore := false } := by
      rw [hrest]
      rfl
    rw [hadvance, hpull]
    simp only [tokens, marks, waiting, hcurrent, hpending, hrest]
    exact ⟨.eof heof, trivial⟩
  · refine (marks_advance h heof).imp_right fun hmarks => hmarks.trans ?_
    rw [marks, tokens, marksOf_cons_of_none _ hnone]

end Cursor

/-- A trailing comment is claimed from the front of what waits. -/
theorem marks_claimTrailing {c c' : Cursor} {t : Option Comment}
    (hrun : claimTrailing.run c = (.ok t, c')) :
    c'.tokens = c.tokens ∧ c.marks = commentMarks t.toList ++ c'.marks := by
  rw [claimTrailing_run] at hrun
  split at hrun
  · rename_i first others hpending
    split at hrun
    · cases hrun
      refine ⟨rfl, ?_⟩
      rw [Cursor.marks, Cursor.waiting, hpending]
      rfl
    · cases hrun
      exact ⟨rfl, rfl⟩
  · cases hrun
    exact ⟨rfl, rfl⟩

variable {α β : Type}

/-- From a cursor with a current token as `K` says, after the marks `m`, a parser answers what
holds `m` and the marks it has taken. -/
def Reads (K : TokenKind → Prop) (m : List Mark) (e : α → List Mark) (p : Parser α) : Prop :=
  ∀ c : Cursor, Proper c.tokens → K c.current.kind → ∀ a c', p.run c = (.ok a, c') →
    Proper c'.tokens ∧ ∃ ms, e a = m ++ ms ∧ Takes c.marks ms c'.marks

/-- No condition. -/
def Anything (_ : TokenKind) : Prop := True

/-- No marks. -/
def noMarks (_ : α) : List Mark := []

namespace Reads

variable {K : TokenKind → Prop} {m : List Mark} {e : α → List Mark} {e' : β → List Mark}

/-! ## Putting parsers together -/

/-- What is read from any token is read from one of a given kind. -/
theorem weaken {p : Parser α} (h : Reads Anything m e p) : Reads K m e p :=
  fun c hc _ => h c hc trivial

/-- What is answered at once holds the marks that have been read before. -/
theorem pure {a : α} (h : e a = m) : Reads K m e (Pure.pure a) := by
  intro c hc _ a' c' hrun
  obtain ⟨rfl, rfl⟩ := pure_ok hrun
  exact ⟨hc, [], by rw [h, List.append_nil], .refl _⟩

/-- One parser after another, which goes on from what the first has answered. -/
theorem seqAnswer {P : α → Prop} {p : Parser α} {k : α → Parser β} (hp : Reads K m e p)
    (hanswer : Answers P p) (hk : ∀ a, P a → Reads Anything (e a) e' (k a)) :
    Reads K m e' (p >>= k) := by
  intro c hc hK b c'' hrun
  obtain ⟨a, c', hp', hk'⟩ := bind_ok hrun
  obtain ⟨hc', ms, hms, htakes⟩ := hp c hc hK a c' hp'
  obtain ⟨hc'', ms', hms', htakes'⟩ := hk a (hanswer c a c' hp') c' hc' trivial b c'' hk'
  refine ⟨hc'', ms ++ ms', ?_, htakes.trans htakes'⟩
  rw [hms', hms, List.append_assoc]

/-- The second parser goes on with the marks of what the first has answered. -/
theorem seq {p : Parser α} {k : α → Parser β} (hp : Reads K m e p)
    (hk : ∀ a, Reads Anything (e a) e' (k a)) : Reads K m e' (p >>= k) :=
  seqAnswer hp (.unknown p) fun a _ => hk a

/-- What has been read before a parser starts stays in front. -/
theorem behind {p : Parser α} (m' : List Mark) (hp : Reads K m e p) :
    Reads K (m' ++ m) (fun a => m' ++ e a) p := by
  intro c hc hK a c' hrun
  obtain ⟨hc', ms, hms, htakes⟩ := hp c hc hK a c' hrun
  exact ⟨hc', ms, (congrArg (m' ++ ·) hms).trans (List.append_assoc _ _ _).symm, htakes⟩

/-- Marks that have been read before stay in front. -/
theorem after {p : Parser α} (hp : Reads K [] e p) : Reads K m (fun a => m ++ e a) p := by
  have h := hp.behind m
  rwa [List.append_nil] at h

/-- In sequence, with what is known of the first answer beside its marks. -/
theorem bindAnswer {P : α → Prop} {p : Parser α} {k : α → Parser β} (hp : Reads K [] e p)
    (hanswer : Answers P p) (hk : ∀ a, P a → Reads Anything (m ++ e a) e' (k a)) :
    Reads K m e' (p >>= k) :=
  seqAnswer hp.after hanswer hk

/-- In sequence, the marks of the first answer stand before those of the second. -/
theorem bind {p : Parser α} {k : α → Parser β} (hp : Reads K [] e p)
    (hk : ∀ a, Reads Anything (m ++ e a) e' (k a)) : Reads K m e' (p >>= k) :=
  seq hp.after hk

/-- After a step that reads nothing. -/
theorem skip {p : Parser Unit} {k : Unit → Parser β} (hp : Reads K [] noMarks p)
    (hk : Reads Anything m e' (k ())) : Reads K m e' (p >>= k) :=
  bind hp fun _ => by rw [noMarks, List.append_nil]; exact hk

/-! ## Faults -/

theorem rejectAt (s : Span) (f : Fault) : Reads K m e (Parse.rejectAt s f) := by
  intro c _ _ a c' hrun
  cases hrun

theorem reject (f : Fault) : Reads K m e (Parse.reject f) := by
  intro c _ _ a c' hrun
  cases hrun

/-! ## Looking at the current token -/

theorem peek {k : Token → Parser β} (h : ∀ t, Reads K m e' (k t)) :
    Reads K m e' (Parse.peek >>= k) :=
  fun c hc hK => h c.current c hc hK

theorem get {k : Cursor → Parser β} (h : ∀ c, Reads K m e' (k c)) :
    Reads K m e' (MonadState.get >>= k) :=
  fun c hc hK => h c c hc hK

/-- What the current token is, is known from here on. -/
theorem peekKind {k : TokenKind → Parser β} (h : ∀ kind, K kind → Reads (· = kind) m e' (k kind)) :
    Reads K m e' (Parse.peekKind >>= k) :=
  fun c hc hK => h c.current.kind hK c hc rfl

/-- Behind a question for a kind, the current token is known if the answer is yes. -/
theorem at? {kind : TokenKind} {k : Bool → Parser β} (htrue : Reads (· = kind) m e' (k true))
    (hfalse : Reads K m e' (k false)) : Reads K m e' (Parse.at? kind >>= k) := by
  intro c hc hK
  show ∀ a c', (k (c.current.kind == kind)).run c = (.ok a, c') → _
  by_cases h : c.current.kind = kind
  · rw [beq_iff_eq.mpr h]
    exact htrue c hc h
  · rw [beq_eq_false_iff_ne.mpr h]
    exact hfalse c hc hK

theorem atPunct {mark : Punct} {k : Bool → Parser β}
    (htrue : Reads (· = .punct mark) m e' (k true)) (hfalse : Reads K m e' (k false)) :
    Reads K m e' (Parse.atPunct mark >>= k) :=
  at? htrue hfalse

theorem atSemicolon {k : Bool → Parser β}
    (htrue : Reads (·.isSemicolon = true) m e' (k true)) (hfalse : Reads K m e' (k false)) :
    Reads K m e' (Parse.atSemicolon >>= k) := by
  intro c hc hK
  show ∀ a c', (k c.current.kind.isSemicolon).run c = (.ok a, c') → _
  cases h : c.current.kind.isSemicolon
  · exact hfalse c hc hK
  · exact htrue c hc h

theorem unexpected (wanted : Wanted) : Reads K m e (Parse.unexpected wanted) := by
  refine peekKind fun kind _ => ?_
  split
  · exact reject _
  · exact reject _

/-! ## Moving on -/

/-- Past a token that is no name. -/
theorem nextOf {k : Unit → Parser β} (hnone : ∀ kind, K kind → kind.mark? = none)
    (hk : Reads Anything m e' (k ())) : Reads K m e' (Parse.advance >>= k) := by
  refine skip (fun c hc hK u c' hrun => ?_) hk
  obtain ⟨hproper, hmarks⟩ := c.marks_advance_of_none hc (hnone _ hK)
  obtain rfl : c.advance = c' := congrArg Prod.snd hrun
  exact ⟨hproper, [], rfl, hmarks ▸ .refl _⟩

/-- Past a token that is no mark. -/
theorem next {kind : TokenKind} {k : Unit → Parser β} (hnone : kind.mark? = none)
    (hk : Reads Anything m e' (k ())) : Reads (· = kind) m e' (Parse.advance >>= k) :=
  nextOf (fun _ h => h ▸ hnone) hk

theorem nextSemicolon {k : Unit → Parser β} (hk : Reads Anything m e' (k ())) :
    Reads (·.isSemicolon = true) m e' (Parse.advance >>= k) := by
  refine nextOf (fun kind h => ?_) hk
  cases kind <;> first | rfl | cases h

/-- Past a name, which is no point. -/
theorem nameNe {n : String} {k : Unit → Parser β}
    (hk : n ≠ "." → Reads Anything (m ++ [.name n false]) e' (k ())) :
    Reads (· = .ident n) m e' (Parse.advance >>= k) := by
  intro c hc hkind b c' hrun
  obtain ⟨hproper, hmarks⟩ := c.marks_advance hc (by rw [hkind]; exact TokenKind.noConfusion)
  have hne : n ≠ "." := fun h => hc.ne_point (h ▸ hkind)
  obtain ⟨hproper', ms, hms, htakes⟩ := hk hne c.advance hproper trivial b c' hrun
  refine ⟨hproper', [.name n false] ++ ms, by rw [hms, List.append_assoc], .trans ?_ htakes⟩
  rw [hmarks, Cursor.marks, Cursor.tokens, marksOf_cons_ident _ hkind]
  exact .name _ _ _ _

/-- Past a name, which is then a mark that has been read. -/
theorem name {n : String} {k : Unit → Parser β}
    (hk : Reads Anything (m ++ [.name n false]) e' (k ())) :
    Reads (· = .ident n) m e' (Parse.advance >>= k) :=
  nameNe fun _ => hk

theorem advance (hnone : ∀ kind, K kind → kind.mark? = none) :
    Reads K m (fun _ => m) Parse.advance :=
  nextOf (k := Pure.pure) hnone (pure rfl)

theorem expect {kind : TokenKind} (hnone : kind.mark? = none) :
    Reads K [] noMarks (Parse.expect kind) :=
  at? (advance fun _ h => h ▸ hnone) (unexpected _)

theorem expectPunct (mark : Punct) : Reads K [] noMarks (Parse.expectPunct mark) :=
  expect rfl

theorem expectKeyword (word : Keyword) : Reads K [] noMarks (Parse.expectKeyword word) :=
  expect rfl

/-- The name that is expected is the mark that is read. -/
theorem expectIdent : Reads K [] (fun n => [.name n false]) Parse.expectIdent := by
  refine peekKind fun kind _ => ?_
  split
  · exact name (pure rfl)
  · exact unexpected _

theorem expectTerminator : Reads K [] noMarks Parse.expectTerminator := by
  refine peekKind fun kind _ => ?_
  split
  · exact advance fun _ h => h ▸ rfl
  · exact pure rfl
  · exact pure rfl
  · exact unexpected _

/-! ## Layout

Claiming comments takes them from those that wait, and leaves the current token. -/

/-- Comments that are claimed are marks that have been read. -/
theorem claimComments {k : List Comment → Parser β}
    (h : ∀ cs, Reads K (m ++ commentMarks cs) e' (k cs)) :
    Reads K m e' (Parse.claimComments >>= k) := by
  intro c hc hK b c' hrun
  obtain ⟨hproper, ms, hms, htakes⟩ := h c.waiting { c with pending := [] } hc hK b c' hrun
  refine ⟨hproper, commentMarks c.waiting ++ ms, by rw [hms, List.append_assoc], ?_⟩
  exact .trans (.comments _ _) htakes

/-- The comments before a node are read where the node starts, and none trails it yet. -/
theorem startDecorations {k : Decorations → Parser β}
    (h : ∀ d : Decorations, d.trailing = none →
      Reads K (m ++ commentMarks d.leading) e' (k d)) :
    Reads K m e' (Parse.startDecorations >>= k) :=
  fun c hc hK => claimComments (k := fun cs => k ⟨c.blankBefore, c.newlineBefore, cs, none⟩)
    (fun _ => h _ rfl) c hc hK

/-- The comments before a closing bracket are read with the bracket. -/
theorem closeEnclosure {k : Enclosure → Parser β} (openComment : Option Comment)
    (h : ∀ b : Enclosure, b.openComment = openComment →
      Reads K (m ++ commentMarks b.closeComments) e' (k b)) :
    Reads K m e' (Parse.closeEnclosure openComment >>= k) :=
  fun c hc hK => claimComments (k := fun cs => k ⟨openComment, c.newlineBefore, cs⟩)
    (fun _ => h _ rfl) c hc hK

/-- The comment behind a phrase is read if it is claimed. -/
theorem claimTrailing {k : Option Comment → Parser β}
    (h : ∀ t : Option Comment, Reads K (m ++ commentMarks t.toList) e' (k t)) :
    Reads K m e' (Parse.claimTrailing >>= k) := by
  intro c hc hK b c'' hrun
  obtain ⟨t, c', hclaim, hrun⟩ := bind_ok hrun
  obtain ⟨htokens, hmarks⟩ := marks_claimTrailing hclaim
  have hcurrent : c'.current = c.current := (List.cons.inj htokens).1
  obtain ⟨hproper, ms, hms, htakes⟩ :=
    h t c' (htokens ▸ hc) (hcurrent ▸ hK) b c'' hrun
  refine ⟨hproper, commentMarks t.toList ++ ms, by rw [hms, List.append_assoc], .trans ?_ htakes⟩
  rw [hmarks]
  exact .comments _ _

/-! ## Context -/

/-- A run whose last cursor is adjusted, tokens and comments apart. -/
theorem adjusted {p : Parser α} (h : Reads K m e p) {c c' : Cursor} (hc : Proper c.tokens)
    (hK : K c.current.kind) {f : Cursor → Cursor} {a : α}
    (hrun : (p.run c).map id f = (.ok a, c')) (htokens : ∀ d, (f d).tokens = d.tokens)
    (hwaiting : ∀ d, (f d).waiting = d.waiting) :
    Proper c'.tokens ∧ ∃ ms, e a = m ++ ms ∧ Takes c.marks ms c'.marks := by
  rcases hp : p.run c with ⟨r, d⟩
  rw [hp] at hrun
  obtain ⟨rfl, rfl⟩ := Prod.mk.inj hrun
  rw [Cursor.marks.eq_1 (f d), htokens, hwaiting]
  exact h c hc hK a d hp

/-- A level of nesting changes nothing in what is read. -/
theorem nested {p : Parser α} (h : Reads K m e p) : Reads K m e (Parse.nested p) := by
  intro c hc hK a c' hrun
  rw [nested_run] at hrun
  split at hrun
  · cases hrun
  · exact h.adjusted (c := { c with depth := c.depth + 1 }) hc hK hrun (fun _ => rfl) fun _ => rfl

theorem bracketed {p : Parser α} (h : Reads K m e p) : Reads K m e (Parse.bracketed p) := by
  intro c hc hK a c' hrun
  rw [bracketed_run] at hrun
  exact h.adjusted (c := { c with exprLevel := c.exprLevel + 1 }) hc hK hrun (fun _ => rfl)
    fun _ => rfl

theorem inHeader {p : Parser α} (h : Reads K m e p) : Reads K m e (Parse.inHeader p) := by
  intro c hc hK a c' hrun
  rw [inHeader_run] at hrun
  exact h.adjusted (c := { c with exprLevel := -1 }) hc hK hrun (fun _ => rfl) fun _ => rfl

end Reads

/-! ## Repetition -/

/-- The marks of a turn. -/
def Turn.marks (e : α → List Mark) : Turn α → List Mark
  | .stop => []
  | .skip => []
  | .more a => e a
  | .last a => e a

namespace Reads

variable {K : TokenKind → Prop} {e : α → List Mark}

/-- The marks of a list of entries are those of its entries in order. -/
theorem entries {p : Parser (Turn α)} (h : Reads Anything [] (Turn.marks e) p) (n : Nat) :
    Reads K [] (List.flatMap e) (Parse.entries p n) := by
  induction n generalizing K with
  | zero => exact reject _
  | succ n ih =>
    refine seq h.weaken fun t => ?_
    cases t with
    | stop => exact pure rfl
    | skip => exact ih
    | more a => exact bind ih fun as => pure rfl
    | last a => exact pure (List.append_nil _)

/-- A value that holds what has been read, and goes on to do so as it grows. -/
theorem growing {p : α → Parser (Option α)}
    (h : ∀ a, Reads Anything (e a) (fun b => e (b.getD a)) (p a)) (n : Nat) (a : α) :
    Reads K (e a) e (Parse.growing p n a) := by
  induction n generalizing K a with
  | zero => exact reject _
  | succ n ih =>
    refine seq (h a).weaken fun b => ?_
    cases b with
    | none => exact pure rfl
    | some b => exact ih b

end Reads

end Parse

end HandlerSplit
