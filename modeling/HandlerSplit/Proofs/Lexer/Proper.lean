import HandlerSplit.Lexer
/-!
# Proper token sequences

What a parser may rely on about the tokens of a text: the end of input comes last and nowhere
else, and a point is not a name.
-/

namespace HandlerSplit

/-- Tokens of which the last, and no other, is the end of input, and no name is a point. -/
inductive Proper : List Token → Prop where
  | eof {t : Token} (heof : t.kind = .eof) : Proper [t]
  | cons {t : Token} {ts : List Token} (heof : t.kind ≠ .eof) (hpoint : t.kind ≠ .ident ".")
    (hts : Proper ts) : Proper (t :: ts)

namespace Proper

variable {t : Token} {ts : List Token}

/-- Behind a token that is not the end there are proper tokens. -/
theorem tail (h : Proper (t :: ts)) (heof : t.kind ≠ .eof) : Proper ts := by
  cases h with
  | eof h => exact absurd h heof
  | cons _ _ hts => exact hts

/-- Behind the end of a text there is no token. -/
theorem eq_nil (h : Proper (t :: ts)) (heof : t.kind = .eof) : ts = [] := by
  cases h with
  | eof => rfl
  | cons h _ _ => exact absurd heof h

/-- No identifier is a point. -/
theorem ne_point (h : Proper (t :: ts)) : t.kind ≠ .ident "." := by
  cases h with
  | eof heof => rw [heof]; exact TokenKind.noConfusion
  | cons _ hpoint _ => exact hpoint

end Proper

/-- A kind that stands before the end of a text. -/
def TokenKind.Inner (kind : TokenKind) : Prop :=
  kind ≠ .eof ∧ kind ≠ .ident "."

theorem operator?_inner {cs : List Char} {k : TokenKind} {n : Nat}
    (h : operator? cs = some (k, n)) : k.Inner := by
  unfold operator? at h
  split at h
  all_goals first
    | (obtain ⟨rfl, -⟩ := Prod.mk.inj (Option.some.inj h); exact ⟨nofun, nofun⟩)
    | skip
  · split at h
    all_goals first
      | (obtain ⟨rfl, -⟩ := Prod.mk.inj (Option.some.inj h); exact ⟨nofun, nofun⟩)
      | cases h
  · cases h

theorem wordKind_inner {c : Char} {cs : List Char} (hc : Text.startsIdent c) :
    (wordKind (c :: cs)).Inner := by
  simp only [wordKind]
  split
  · exact ⟨nofun, nofun⟩
  · refine ⟨nofun, fun h => ?_⟩
    have hpoint := congrArg String.toList (TokenKind.ident.inj h)
    rw [String.toList_ofList] at hpoint
    obtain rfl : c = '.' := (List.cons.inj hpoint).1
    exact absurd hc (by decide)

/-- What is scanned is neither the end of the text nor a semicolon that is inserted. -/
theorem scanLexeme_inner (c : Char) (rest : List Char) : (scanLexeme c rest).kind.Inner := by
  unfold scanLexeme
  split
  · exact ⟨nofun, nofun⟩
  · split <;> exact ⟨nofun, nofun⟩
  · split <;> exact ⟨nofun, nofun⟩
  · split <;> exact ⟨nofun, nofun⟩
  · split <;> exact ⟨nofun, nofun⟩
  · split
    · exact ⟨nofun, nofun⟩
    · split
      · rename_i hc
        rw [List.takeWhile_cons_of_pos (Text.continuesIdent_of_startsIdent hc)]
        exact wordKind_inner hc
      · split
        · rename_i h
          exact operator?_inner h
        · exact ⟨nofun, nofun⟩

/-- Tokens are proper wherever they are read from. -/
theorem tokensFrom_proper (p : Place) (semi : Bool) (cs : List Char) :
    Proper (tokensFrom p semi cs) := by
  fun_induction tokensFrom p semi cs with
  | case1 p => exact .cons nofun nofun (.eof rfl)
  | case2 p semi hsemi => exact .eof rfl
  | case3 p c rest hnewline ih => exact .cons nofun nofun ih
  | case4 p semi c rest hnewline hsemi ih => exact ih
  | case5 p semi c rest hnewline hblank ih => exact ih
  | case6 p semi c rest hnewline hblank lexeme hlength token after htrivia hsemi ih =>
    have hinner := scanLexeme_inner c rest
    exact .cons hinner.1 hinner.2 (.cons nofun nofun ih)
  | case7 p semi c rest hnewline hblank lexeme hlength token after htrivia hsemi ih =>
    have hinner := scanLexeme_inner c rest
    exact .cons hinner.1 hinner.2 ih
  | case8 p semi c rest hnewline hblank lexeme hlength token after htrivia ih =>
    have hinner := scanLexeme_inner c rest
    exact .cons hinner.1 hinner.2 ih

/-- The tokens of a text are proper. -/
theorem tokenize_proper (source : List Char) : Proper (tokenize source) :=
  tokensFrom_proper _ _ _

end HandlerSplit
