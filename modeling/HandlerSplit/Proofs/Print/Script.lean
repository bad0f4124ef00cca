import HandlerSplit.Proofs.Lexer.Lexemes
import HandlerSplit.Proofs.Parse.View
import HandlerSplit.Proofs.Print.Source
/-!
# The script of an output

What the grammar sees of an output is its words and its line breaks (`Output.script`). The tokens of
the text of an output show this script to the parser, with the semicolons that its line breaks
insert (`shows_start`). So a parser that accepts the script accepts the text (`onText_render`).
-/

namespace HandlerSplit

namespace Print

/-! ## Scripts -/

/-- The words and line breaks of an output. -/
def Output.script : Output → Script
  | [] => []
  | .word t :: o => .token (kindOf t) :: script o
  | .newline :: o => .lineBreak :: script o
  | .spaces _ :: o => script o
  | .tabs _ :: o => script o

namespace Output

@[simp] theorem script_nil : script [] = [] :=
  rfl

@[simp] theorem script_word (t : String) (o : Output) :
    script (.word t :: o) = .token (kindOf t) :: script o :=
  rfl

@[simp] theorem script_newline (o : Output) : script (.newline :: o) = .lineBreak :: script o :=
  rfl

@[simp] theorem script_space (o : Output) : script (.space :: o) = script o :=
  rfl

@[simp] theorem script_tabs (n : Nat) (o : Output) : script (.tabs n :: o) = script o :=
  rfl

@[simp] theorem script_append (a b : Output) : script (a ++ b) = script a ++ script b := by
  induction a with
  | nil => rfl
  | cons p a ih => cases p <;> simp [script, ih]

end Output

/-- The tokens of an output are those of its script. -/
theorem kinds_eq_script (o : Output) : o.kinds = o.script.kinds := by
  induction o with
  | nil => rfl
  | cons p o ih =>
    cases p with
    | word t => exact congrArg (kindOf t :: ·) ih
    | _ => exact ih

/-! ## Tokens that stand right behind one another -/

/-- The first character behind a word is white space, or that of the next word. -/
theorem head_chars_cases {o : Output} (hlegible : o.Legible) {c : Char} (hc : c ∈ o.chars.head?) :
    c ∈ [' ', '\t', '\n'] ∨ ∃ k ∈ o.kinds.head?, c ∈ k.text.toList.head? := by
  induction o with
  | nil => cases hc
  | cons p o ih =>
    have hrest : Output.Legible o := fun t ht => hlegible t (List.mem_cons_of_mem p ht)
    have hchars : Output.chars (p :: o) = p.chars ++ Output.chars o := rfl
    rw [hchars] at hc
    cases p with
    | word t =>
      obtain ⟨k, hk, htext⟩ := hlegible t List.mem_cons_self
      have hkinds : (Output.kinds (.word t :: o)).head? = some (kindOf t) := rfl
      rw [hkinds, ← htext, kindOf_text hk]
      obtain ⟨d, cs, hcs, -⟩ := id hk
      have hword : (Piece.word t).chars = d :: cs := by
        rw [← hcs, htext]
        rfl
      rw [hword] at hc
      exact .inr ⟨k, rfl, by rw [hcs]; exact hc⟩
    | newline => exact .inl (by cases hc; decide)
    | spaces n =>
      rw [chars_spaces] at hc
      cases n with
      | zero => exact ih hrest hc
      | succ n => exact .inl (by cases hc; decide)
    | tabs n =>
      rw [chars_tabs] at hc
      cases n with
      | zero => exact ih hrest hc
      | succ n => exact .inl (by cases hc; decide)

/-- No word fuses with the character behind it if none fuses with the next word. -/
theorem unfused_of_chain {o : Output} (hlegible : o.Legible) (hplain : ∀ k ∈ o.kinds, k.Plain)
    (hchain : o.kinds.IsChain TokenKind.Parted) : o.Unfused := by
  induction o with
  | nil => trivial
  | cons p o ih =>
    have hrest : Output.Legible o := fun t ht => hlegible t (List.mem_cons_of_mem p ht)
    cases p with
    | word t =>
      have hkinds : Output.kinds (.word t :: o) = kindOf t :: Output.kinds o := rfl
      rw [hkinds] at hplain hchain
      obtain ⟨hword, hplain⟩ := List.forall_mem_cons.mp hplain
      refine ⟨fun c hc => ?_, ih hrest hplain hchain.tail⟩
      rcases head_chars_cases hrest hc with hblank | ⟨k, hk, hc⟩
      · refine hword.fuses c ?_
        rintro rfl
        simp at hblank
      · exact (List.isChain_cons.mp hchain).1 k hk c hc
    | newline => exact ih hrest hplain hchain
    | spaces n => exact ih hrest hplain hchain
    | tabs n => exact ih hrest hplain hchain

/-! ## Tokens of a text -/

theorem ne_inserted_of_legible {k : TokenKind} (h : k.Legible) : k ≠ .semicolon true := by
  rintro rfl
  obtain ⟨c, cs, htext, hscan⟩ := h
  cases htext
  cases hscan

section

open Parse

variable {p : HandlerSplit.Place} {line gap : Nat}

theorem line_after {cs : List Char} (h : '\n' ∉ cs) : (p.after cs).line = p.line := by
  induction cs generalizing p with
  | nil => rfl
  | cons c cs ih =>
    obtain ⟨hc, hcs⟩ := List.ne_and_not_mem_of_not_mem_cons h
    have hnext : (p.next c).line = p.line := by
      rw [Place.next, if_neg (by simpa using hc.symm)]
    exact (ih hcs).trans hnext

theorem lined_inserted (hline : p.line = line + gap) {rest : List Ahead} {ts : List Token}
    (h : Lined line rest ts) :
    Lined line (⟨.semicolon true, gap, true⟩ :: rest) (Token.inserted p :: ts) :=
  ⟨⟨rfl, hline, rfl, rfl, iff_of_true rfl rfl⟩, h⟩

/-- The tokens of an output are those that its script comes to. -/
theorem lined_tokens {o : Output} (hlegible : o.Legible) (hplain : ∀ k ∈ o.kinds, k.Plain)
    {semi : Bool} (hline : p.line = line + gap) :
    Lined line (o.script.ahead semi gap) (o.tokens p semi) := by
  induction o generalizing p semi line gap with
  | nil =>
    have heof : Lined line [⟨.eof, gap, false⟩] [Token.at p .eof []] :=
      ⟨⟨rfl, hline, rfl, rfl, iff_of_false Bool.false_ne_true TokenKind.noConfusion⟩, rfl⟩
    rw [Output.tokens, tokensFrom]
    cases semi with
    | true => exact lined_inserted hline heof
    | false => exact heof
  | cons piece o ih =>
    have hrest : Output.Legible o := fun t ht => hlegible t (List.mem_cons_of_mem piece ht)
    cases piece with
    | word t =>
      obtain ⟨k, hk, htext⟩ := hlegible t List.mem_cons_self
      have hkind : kindOf t = k := by
        rw [← htext, kindOf_text hk]
      have hkinds : Output.kinds (.word t :: o) = kindOf t :: Output.kinds o := rfl
      rw [hkinds, hkind] at hplain
      obtain ⟨hword, hplain⟩ := List.forall_mem_cons.mp hplain
      have hnewline : '\n' ∉ t.toList := htext ▸ hword.line
      have hnext : Lined (line + gap) ((Output.script o).ahead k.endsStatement 0)
          (Output.tokens o (p.after t.toList) k.endsStatement) :=
        ih hrest hplain ((line_after hnewline).trans hline)
      rw [Output.script_word, Output.tokens, lexemeTokens, hkind, hword.trivia]
      exact ⟨⟨rfl, hline, List.count_eq_zero.mpr hnewline, hword.trivia,
        iff_of_false Bool.false_ne_true (ne_inserted_of_legible hk)⟩, hnext⟩
    | newline =>
      have hnext : Lined line ((Output.script o).ahead false (gap + 1))
          (Output.tokens o (p.next '\n') false) :=
        ih hrest hplain (congrArg (· + 1) hline)
      rw [Output.script_newline, Output.tokens, Script.ahead]
      cases semi with
      | true => exact lined_inserted hline hnext
      | false => exact hnext
    | spaces n =>
      have hblank : '\n' ∉ (Piece.spaces n).chars := by
        rw [chars_spaces]
        exact fun h => absurd (List.eq_of_mem_replicate h) (by decide)
      exact ih hrest hplain ((line_after hblank).trans hline)
    | tabs n =>
      have hblank : '\n' ∉ (Piece.tabs n).chars := by
        rw [chars_tabs]
        exact fun h => absurd (List.eq_of_mem_replicate h) (by decide)
      exact ih hrest hplain ((line_after hblank).trans hline)

/-! ## Reading a text -/

/-- A text shows its tokens from the start, on the first line. -/
theorem shows_start {s : Script} {tokens : List Token} (h : Lined 0 (s.ahead false 1) tokens) :
    Shows (s.view false 1 ⟨0, 0⟩) (Cursor.start tokens) := by
  obtain ⟨gap', inserted, as, hahead⟩ := s.exists_ahead false 1
  rw [hahead] at h
  rw [Script.view, hahead]
  have hcursor (d : Cursor) (hline : d.prevEndLine = 0) (hpending : d.pending = [])
      (hlast : d.lastLine = 0) (hcontext : d.context = ⟨0, 0⟩) :
      Shows ⟨⟨s.first false, gap', inserted⟩ :: as, ⟨0, 0⟩⟩ (d.pull tokens) :=
    (Shows.pull h hline hpending hlast hcontext).1
  exact hcursor _ rfl rfl rfl rfl

theorem grammatical_of_lined {as : List Ahead} {ts : List Token} (h : Lined line as ts) :
    grammatical ts = as.length := by
  induction as generalizing line ts with
  | nil =>
    obtain rfl : ts = [] := h
    rfl
  | cons a as ih =>
    cases ts with
    | nil => exact h.elim
    | cons t ts =>
      obtain ⟨⟨hkind, -, -, htrivia, -⟩, hrest⟩ := h
      have hcount : grammatical (t :: ts) = grammatical ts + 1 := by
        rw [grammatical, List.countP_cons, hkind, htrivia]
        rfl
      rw [hcount, List.length_cons, ih hrest]

theorem size_lt_length_ahead (s : Script) (semi : Bool) (gap : Nat) :
    s.size < (s.ahead semi gap).length := by
  induction s generalizing semi gap with
  | nil => cases semi <;> exact Nat.succ_pos _
  | cons g s ih =>
    cases g with
    | token k => exact Nat.succ_lt_succ (ih k.endsStatement 0)
    | lineBreak =>
      have hrest := ih false (gap + 1)
      cases semi with
      | true => exact Nat.lt_succ_of_lt hrest
      | false => exact hrest

/-- What a parser makes of the script of an output is its answer to the text. -/
theorem onText_render {α : Type} {phrase : Grammar → Parser α} {o : Output} {a : α} {v : View}
    (hlegible : o.Legible) (hapart : o.Apart none) (hplain : ∀ k ∈ o.kinds, k.Plain)
    (hchain : o.kinds.IsChain TokenKind.Parted)
    (h : ∀ n, o.script.size < n →
      Yields (phrase (Grammar.forTokens n)) (o.script.view false 1 ⟨0, 0⟩) a v) :
    onText phrase o.render = .ok a := by
  have htokens : tokenize o.render.toList = o.tokens ⟨0, 1, 1⟩ false := by
    rw [toList_render, tokenize_chars hlegible,
      tokensFrom_chars hlegible hapart (unfused_of_chain hlegible hplain hchain)]
  have hlined : Lined 0 (o.script.ahead false 1) (o.tokens ⟨0, 1, 1⟩ false) :=
    lined_tokens hlegible hplain rfl
  have hsize := size_lt_length_ahead o.script false 1
  rw [← grammatical_of_lined hlined] at hsize
  obtain ⟨c, hrun, -⟩ := h _ hsize _ (shows_start hlined)
  rw [onText, htokens, runOn, hrun]

end

end Print

end HandlerSplit
