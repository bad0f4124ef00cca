import HandlerSplit.Proofs.Lexer.Solid
/-!
# One lexeme after the other

What the scanner does at the start of a text: it reads a lexeme and goes on with what the lexeme
leaves, or passes a blank. A legible token at the start of a text that is clear of it is such a
lexeme.
-/

namespace HandlerSplit

/-- A lexeme at `p` with the tokens behind it. -/
def lexemeTokens (p : Place) (semi : Bool) (kind : TokenKind) (text : List Char)
    (rest : Place → Bool → List Token) : List Token :=
  let after := p.after text
  Token.at p kind text ::
    if kind.isTrivia then
      if semi && text.contains '\n' then Token.inserted after :: rest after false
      else rest after semi
    else rest after kind.endsStatement

section

variable {p : Place} {semi : Bool}

/-- A lexeme is one token, and what follows is read from its end on. -/
theorem tokensFrom_lexeme {c : Char} {rest text left : List Char} {kind : TokenKind}
    (hc : c ∉ ['\n', ' ', '\t', '\r']) (hscan : scanLexeme c rest = ⟨kind, text, left⟩) :
    tokensFrom p semi (c :: rest) =
      lexemeTokens p semi kind text fun p semi => tokensFrom p semi left := by
  simp only [List.mem_cons, List.not_mem_nil, or_false, not_or] at hc
  rw [tokensFrom]
  simp only [hc, hscan, lexemeTokens, beq_iff_eq, Bool.or_eq_true, or_self, if_false]
  split_ifs <;> rfl

/-- At the end of a line a semicolon is inserted where one is due. -/
theorem tokensFrom_newline (rest : List Char) :
    tokensFrom p semi ('\n' :: rest) = if semi then Token.inserted p :: tokensFrom (p.next '\n') false rest
      else tokensFrom (p.next '\n') false rest := by
  rw [tokensFrom]
  rfl

/-- A blank is no token. -/
theorem tokensFrom_blank {c : Char} (hc : c = ' ' ∨ c = '\t' ∨ c = '\r') (rest : List Char) :
    tokensFrom p semi (c :: rest) = tokensFrom (p.next c) semi rest := by
  rw [tokensFrom]
  rcases hc with rfl | rfl | rfl <;> rfl

/-- Blanks in a row are no tokens. -/
theorem tokensFrom_replicate {c : Char} (hc : c = ' ' ∨ c = '\t') (n : Nat) (rest : List Char) :
    tokensFrom p semi (List.replicate n c ++ rest) =
      tokensFrom (p.after (List.replicate n c)) semi rest := by
  induction n generalizing p with
  | zero => rfl
  | succ n ih =>
    rw [List.replicate_succ, List.cons_append, tokensFrom_blank (hc.imp_right .inl)]
    exact ih

theorem not_blank_of_legible {k : TokenKind} (hk : k.Legible) {c : Char} {cs : List Char}
    (htext : k.text.toList = c :: cs) : c ∉ ['\n', ' ', '\t', '\r'] := by
  intro hmem
  refine hk.head c (by rw [htext]; rfl) ?_
  simp only [List.mem_cons, List.not_mem_nil, or_false] at hmem
  rcases hmem with rfl | rfl | rfl | rfl <;> decide

/-- A legible word that nothing behind it goes on with. -/
theorem tokensFrom_word {k : TokenKind} (hk : k.Legible) {rest : List Char} (hrest : k.ClearOf rest) :
    tokensFrom p semi (k.text.toList ++ rest) =
      lexemeTokens p semi k k.text.toList fun p semi => tokensFrom p semi rest := by
  obtain ⟨c, cs, htext, hscan⟩ := hk.scan hrest
  rw [htext, List.cons_append]
  exact tokensFrom_lexeme (not_blank_of_legible hk htext) hscan

end

/-! ## Tokens of a text -/

/-- A token is a lexeme, or ends a statement or the text and has no text. -/
theorem lexeme_of_mem_tokensFrom {p : Place} {semi : Bool} {cs : List Char} {t : Token}
    (ht : t ∈ tokensFrom p semi cs) :
    (t.text = [] ∧ (t.kind = .semicolon true ∨ t.kind = .eof)) ∨
      ∃ c rest left, c ∉ ['\n', ' ', '\t', '\r'] ∧ scanLexeme c rest = ⟨t.kind, t.text, left⟩ := by
  have hsolid {c : Char} (hnewline : ¬(c == '\n') = true)
      (hblank : ¬(c == ' ' || c == '\t' || c == '\r') = true) : c ∉ ['\n', ' ', '\t', '\r'] := by
    simp only [Bool.or_eq_true, beq_iff_eq, not_or, and_assoc] at hnewline hblank
    simpa using ⟨hnewline, hblank⟩
  fun_induction tokensFrom p semi cs with
  | case1 p =>
    simp only [List.mem_cons, List.not_mem_nil, or_false] at ht
    rcases ht with rfl | rfl
    · exact .inl ⟨rfl, .inl rfl⟩
    · exact .inl ⟨rfl, .inr rfl⟩
  | case2 p semi hsemi =>
    rw [List.mem_singleton.mp ht]
    exact .inl ⟨rfl, .inr rfl⟩
  | case3 p c rest hnewline ih =>
    rcases List.mem_cons.mp ht with rfl | ht
    · exact .inl ⟨rfl, .inl rfl⟩
    · exact ih ht
  | case4 p semi c rest hnewline hsemi ih => exact ih ht
  | case5 p semi c rest hnewline hblank ih => exact ih ht
  | case6 p semi c rest hnewline hblank lexeme hlength token after htrivia hsemi ih =>
    rcases List.mem_cons.mp ht with rfl | ht
    · exact .inr ⟨c, rest, lexeme.rest, hsolid hnewline hblank, rfl⟩
    · rcases List.mem_cons.mp ht with rfl | ht
      · exact .inl ⟨rfl, .inl rfl⟩
      · exact ih ht
  | case7 p semi c rest hnewline hblank lexeme hlength token after htrivia hsemi ih =>
    rcases List.mem_cons.mp ht with rfl | ht
    · exact .inr ⟨c, rest, lexeme.rest, hsolid hnewline hblank, rfl⟩
    · exact ih ht
  | case8 p semi c rest hnewline hblank lexeme hlength token after htrivia ih =>
    rcases List.mem_cons.mp ht with rfl | ht
    · exact .inr ⟨c, rest, lexeme.rest, hsolid hnewline hblank, rfl⟩
    · exact ih ht

/-- The words of a text are legible, those that are no tokens apart, and so are its comments. -/
theorem legible_of_mem_tokenize {source : List Char} {t : Token} (ht : t ∈ tokenize source)
    (hfault : ∀ f, t.kind ≠ .fault f) (hinserted : t.kind ≠ .semicolon true) (heof : t.kind ≠ .eof) :
    t.kind.Legible := by
  rcases lexeme_of_mem_tokensFrom ht with ⟨-, h | h⟩ | ⟨c, rest, left, -, hscan⟩
  · exact absurd h hinserted
  · exact absurd h heof
  · have hkind : (scanLexeme c rest).kind = t.kind := congrArg Lexeme.kind hscan
    rw [← hkind] at hfault ⊢
    exact legible_scanLexeme hfault

end HandlerSplit
