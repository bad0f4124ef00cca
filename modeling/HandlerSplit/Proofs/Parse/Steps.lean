import HandlerSplit.Parse.Source
import HandlerSplit.Proofs.Runs
/-!
# Steps of the parser

What the smallest parsers do to a cursor. Longer phrases are put together from these, and what
is shown of a phrase is shown of its steps.
-/

namespace HandlerSplit.Parse

variable {α β : Type}

theorem peekKind_bind_run (k : TokenKind → Parser β) (c : Cursor) :
    (peekKind >>= k).run c = (k c.current.kind).run c :=
  rfl

/-- Advancing pulls the next token, from a cursor that differs in lines only. -/
theorem Cursor.exists_advance_eq_pull (c : Cursor) :
    ∃ d : Cursor, c.advance = d.pull c.rest ∧ d.current = c.current ∧ d.pending = c.pending ∧
      d.exprLevel = c.exprLevel ∧ d.depth = c.depth := by
  by_cases h : c.current.kind = .semicolon true
  · exact ⟨_, if_pos h, rfl, rfl, rfl, rfl⟩
  · exact ⟨_, if_neg h, rfl, rfl, rfl, rfl⟩

/-- What a cursor has come to by pulling a token from `ts`: past `passed`, which are comments
with the texts `texts`, to the first token that is none. -/
structure Cursor.Pulled (c : Cursor) (ts : List Token) (d : Cursor) (passed left : List Token)
    (texts : List String) : Prop where
  tokens : ts = passed ++ left
  comments : passed.map (·.kind) = texts.map .comment
  waiting : d.pending.map (·.comment.text) = c.pending.map (·.comment.text) ++ texts
  stops : (left = [] ∧ d.current = c.current ∧ d.rest = []) ∨
    (left = d.current :: d.rest ∧ d.current.kind.isTrivia = false)
  exprLevel : d.exprLevel = c.exprLevel
  depth : d.depth = c.depth

/-- Collecting comments passes a stretch of them and stops at another token. -/
theorem Cursor.exists_pulled (c : Cursor) (ts : List Token) :
    ∃ passed left texts, c.Pulled ts (c.pull ts) passed left texts := by
  fun_induction pull c ts with
  | case1 c =>
    exact ⟨[], [], [], rfl, rfl, (List.append_nil _).symm, .inl ⟨rfl, rfl, rfl⟩, rfl, rfl⟩
  | case2 c t rest text htext trailing comment ih =>
    obtain ⟨passed, left, texts, h⟩ := ih
    refine ⟨t :: passed, left, text :: texts, ?_, ?_, ?_, h.stops, h.exprLevel, h.depth⟩
    · rw [h.tokens, List.cons_append]
    · rw [List.map_cons, List.map_cons, h.comments, htext]
    · rw [h.waiting, List.map_append, List.append_assoc]
      rfl
  | case3 c t rest hkind =>
    have htrivia : t.kind.isTrivia = false := by
      cases h : t.kind <;> first | rfl | exact absurd h (hkind _)
    exact ⟨[], t :: rest, [], rfl, rfl, (List.append_nil _).symm, .inr ⟨rfl, htrivia⟩, rfl, rfl⟩

/-- The first comment that waits is claimed if it trails what has been read. -/
theorem claimTrailing_run (c : Cursor) :
    claimTrailing.run c =
      match c.pending with
      | first :: others =>
        if first.trailing then (.ok (some first.comment), { c with pending := others })
        else (.ok none, c)
      | [] => (.ok none, c) := by
  have h : claimTrailing.run c =
      (match c.pending with
        | first :: others =>
          if first.trailing then do
            set { c with pending := others }
            return some first.comment
          else return none
        | [] => return none : Parser (Option Comment)).run c := rfl
  rw [h]
  cases c.pending with
  | nil => rfl
  | cons first others =>
    simp only
    split <;> rfl

/-- One level down, if there is one, and up again, whatever comes of it. -/
theorem nested_run (p : Parser α) (c : Cursor) :
    (nested p).run c =
      if c.depth ≥ maxNesting then (.error ⟨.nestedTooDeeply, c.current.span⟩, c)
      else
        (p.run { c with depth := c.depth + 1 }).map id
          fun d => { d with depth := d.depth - 1 } := by
  have h : (nested p).run c =
      (if c.depth ≥ maxNesting then reject .nestedTooDeeply
        else fun c => (p.run { c with depth := c.depth + 1 }).map id
          fun d => { d with depth := d.depth - 1 } : Parser α).run c := rfl
  rw [h]
  split <;> rfl

/-- One bracket more inside, and as many as before behind it. -/
theorem bracketed_run (p : Parser α) (c : Cursor) :
    (bracketed p).run c =
      (p.run { c with exprLevel := c.exprLevel + 1 }).map id
        fun d => { d with exprLevel := d.exprLevel - 1 } :=
  rfl

/-- Inside, the bracket level is that of a header, and behind it what it was. -/
theorem inHeader_run (p : Parser α) (c : Cursor) :
    (inHeader p).run c =
      (p.run { c with exprLevel := -1 }).map id fun d => { d with exprLevel := c.exprLevel } :=
  rfl

/-! ## Runs on a text -/

section

variable {phrase : Grammar → Parser α} {source : String}

/-- What is read of a text is the answer of a run on its tokens. -/
theorem exists_runOn_ok {a : α} (h : onText phrase source = .ok a) :
    ∃ c, runOn phrase (tokenize source.toList) = (.ok a, c) := by
  rw [onText] at h
  rcases hrun : runOn phrase (tokenize source.toList) with ⟨r | b, c⟩ <;> rw [hrun] at h
  · cases h
  · cases h
    exact ⟨c, rfl⟩

/-- The error of a text is what a run on its tokens rejects. -/
theorem exists_runOn_error {e : SyntaxError} (h : onText phrase source = .error e) :
    ∃ r c, runOn phrase (tokenize source.toList) = (.error r, c) ∧ e = r.toError source.toList := by
  rw [onText] at h
  rcases hrun : runOn phrase (tokenize source.toList) with ⟨r | b, c⟩ <;> rw [hrun] at h
  · cases h
    exact ⟨r, c, rfl, rfl⟩
  · cases h

end

/-! ## Answers -/

/-- Whatever a parser answers satisfies `P`. -/
def Answers (P : α → Prop) (p : Parser α) : Prop :=
  ∀ c a c', p.run c = (.ok a, c') → P a

namespace Answers

variable {P : α → Prop} {Q : β → Prop}

/-- An answer that is known. -/
theorem pure {a : α} (h : P a) : Answers P (Pure.pure a) := by
  intro c a' c' hrun
  obtain ⟨rfl, rfl⟩ := pure_ok hrun
  exact h

/-- What is known of the first answer may be used for the second. -/
theorem bind {p : Parser α} {k : α → Parser β} (hp : Answers P p)
    (hk : ∀ a, P a → Answers Q (k a)) : Answers Q (p >>= k) := by
  intro c b c'' hrun
  obtain ⟨a, c', hp', hk'⟩ := bind_ok hrun
  exact hk a (hp c a c' hp') c' b c'' hk'

/-- Nothing is known of the answers of a parser. -/
theorem unknown (p : Parser α) : Answers (fun _ => True) p :=
  fun _ _ _ _ => trivial

/-- After a step of which nothing is known. -/
theorem after {p : Parser α} {k : α → Parser β} (hk : ∀ a, Answers Q (k a)) :
    Answers Q (p >>= k) :=
  bind (unknown p) fun a _ => hk a

/-- There is no answer to say anything about. -/
theorem reject (f : Fault) : Answers P (Parse.reject f) := by
  intro c a c' hrun
  cases hrun

theorem rejectAt (s : Span) (f : Fault) : Answers P (Parse.rejectAt s f) := by
  intro c a c' hrun
  cases hrun

theorem unexpected (wanted : Wanted) : Answers P (Parse.unexpected wanted) := by
  refine after fun kind => ?_
  split
  · exact reject _
  · exact reject _

/-- Less may be said of an answer. -/
theorem weaken {P' : α → Prop} {p : Parser α} (h : Answers P p) (himp : ∀ a, P a → P' a) :
    Answers P' p :=
  fun c a c' hrun => himp a (h c a c' hrun)

/-! ## Answers in a context -/

/-- The answer of a run on another cursor, with the cursor it stops at adjusted. -/
theorem adjusted {p : Parser α} (h : Answers P p) {f : Cursor → Cursor} {c' d : Cursor} {a : α}
    (hrun : (p.run d).map id f = (.ok a, c')) : P a := by
  rcases hp : p.run d with ⟨a', e⟩
  rw [hp] at hrun
  obtain ⟨rfl, -⟩ := Prod.mk.inj hrun
  exact h d a e hp

theorem inHeader {p : Parser α} (h : Answers P p) : Answers P (Parse.inHeader p) := by
  intro c a c' hrun
  rw [inHeader_run] at hrun
  exact h.adjusted hrun

theorem bracketed {p : Parser α} (h : Answers P p) : Answers P (Parse.bracketed p) := by
  intro c a c' hrun
  rw [bracketed_run] at hrun
  exact h.adjusted hrun

theorem nested {p : Parser α} (h : Answers P p) : Answers P (Parse.nested p) := by
  intro c a c' hrun
  rw [nested_run] at hrun
  split at hrun
  · cases hrun
  · exact h.adjusted hrun

end Answers

/-! ## Answers of loops -/

/-- What holds of the entry a turn answers, if it answers one. -/
def Turn.All (P : α → Prop) : Turn α → Prop
  | .stop | .skip => True
  | .more a | .last a => P a

namespace Answers

variable {P : α → Prop}

/-- Whatever holds of the entry of each turn holds of all entries. -/
theorem entries {p : Parser (Turn α)} (h : Answers (Turn.All P) p) (n : Nat) :
    Answers (fun xs => ∀ x ∈ xs, P x) (Parse.entries p n) := by
  induction n with
  | zero => exact reject _
  | succ n ih =>
    rw [Parse.entries]
    refine bind h fun turn hturn => ?_
    cases turn with
    | stop => exact pure (List.forall_mem_nil _)
    | skip => exact ih
    | more a => exact bind ih fun xs hxs => pure (List.forall_mem_cons.mpr ⟨hturn, hxs⟩)
    | last a => exact pure (List.forall_mem_singleton.mpr hturn)

/-- Whatever each turn keeps holds of what has grown. -/
theorem growing {p : α → Parser (Option α)} (h : ∀ a, P a → Answers (fun b => ∀ x ∈ b, P x) (p a))
    (n : Nat) {a : α} (ha : P a) : Answers P (Parse.growing p n a) := by
  induction n generalizing a with
  | zero => exact reject _
  | succ n ih =>
    rw [Parse.growing]
    refine bind (h a ha) fun b hb => ?_
    cases b with
    | none => exact pure ha
    | some b => exact ih (hb b rfl)

end Answers

end HandlerSplit.Parse
