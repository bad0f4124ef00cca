import HandlerSplit.Proofs.Lexer.Steps
/-!
# Lexemes and the white space between them

A text is its lexemes, and the line breaks and blanks between them (`inksOf`). The tokens of the
text are its lexemes, with the semicolons that its line breaks insert (`lexemesOf_tokensFrom`).

How a run of solid characters is cut into lexemes does not depend on what follows the run
(`inksOf_solid_append`).
-/

namespace HandlerSplit

/-! ## Ink -/

/-- A lexeme, or white space between lexemes. -/
inductive Ink where
  | newline
  | blank
  | lexeme (kind : TokenKind) (text : List Char)
  deriving DecidableEq, Repr

/-- The lexemes of a text with the white space between them. What stands inside a lexeme is its
text: no line break of a raw string or a comment is a line break of its own. -/
def inksOf : List Char → List Ink
  | [] => []
  | c :: rest =>
    if c == '\n' then .newline :: inksOf rest
    else if c == ' ' || c == '\t' || c == '\r' then .blank :: inksOf rest
    else
      let lexeme := scanLexeme c rest
      have := length_scanLexeme_rest c rest
      .lexeme lexeme.kind lexeme.text :: inksOf lexeme.rest
termination_by cs => cs.length
decreasing_by all_goals simp_all

@[simp] theorem inksOf_nil : inksOf [] = [] := by
  rw [inksOf]

@[simp] theorem inksOf_newline (rest : List Char) : inksOf ('\n' :: rest) = .newline :: inksOf rest := by
  rw [inksOf]
  rfl

theorem inksOf_blank {c : Char} (hc : c = ' ' ∨ c = '\t' ∨ c = '\r') (rest : List Char) :
    inksOf (c :: rest) = .blank :: inksOf rest := by
  rw [inksOf]
  rcases hc with rfl | rfl | rfl <;> rfl

/-- Blanks are one ink each. -/
theorem inksOf_replicate {c : Char} (hc : c = ' ' ∨ c = '\t') (n : Nat) (rest : List Char) :
    inksOf (List.replicate n c ++ rest) = List.replicate n .blank ++ inksOf rest := by
  induction n with
  | zero => rfl
  | succ n ih =>
    rw [List.replicate_succ, List.cons_append, inksOf_blank (hc.imp_right .inl), ih]
    rfl

/-- A lexeme is one ink. -/
theorem inksOf_lexeme {c : Char} {rest text left : List Char} {kind : TokenKind}
    (hc : c ∉ ['\n', ' ', '\t', '\r']) (hscan : scanLexeme c rest = ⟨kind, text, left⟩) :
    inksOf (c :: rest) = .lexeme kind text :: inksOf left := by
  simp only [List.mem_cons, List.not_mem_nil, or_false, not_or] at hc
  rw [inksOf]
  simp only [hc, hscan, beq_iff_eq, Bool.or_eq_true, or_self, if_false]

/-- A legible word that nothing behind it goes on with. -/
theorem inksOf_word {k : TokenKind} (hk : k.Legible) {rest : List Char} (hrest : k.ClearOf rest) :
    inksOf (k.text.toList ++ rest) = .lexeme k k.text.toList :: inksOf rest := by
  obtain ⟨c, cs, htext, hscan⟩ := hk.scan hrest
  rw [htext, List.cons_append]
  exact inksOf_lexeme (not_blank_of_legible hk htext) hscan

/-! ## Tokens -/

/-- The tokens of a text in their order, its semicolons left out. -/
def lexemesOf (tokens : List Token) : List TokenKind :=
  (tokens.map (·.kind)).filter (!·.isSemicolon)

/-- The token a lexeme is, unless it is a semicolon. -/
def Ink.kind? : Ink → Option TokenKind
  | lexeme kind _ => if kind.isSemicolon then none else some kind
  | _ => none

/-- The lexemes of a text, its semicolons left out. -/
def Ink.kinds (is : List Ink) : List TokenKind :=
  is.filterMap Ink.kind?

namespace Ink

/-- The tokens of two stretches of ink follow one another. -/
theorem kinds_append (is js : List Ink) : kinds (is ++ js) = kinds is ++ kinds js :=
  List.filterMap_append

/-- A lexeme is a token, unless it is a semicolon. -/
theorem kinds_lexeme (k : TokenKind) (text : List Char) (is : List Ink) :
    kinds (.lexeme k text :: is) = [k].filter (!·.isSemicolon) ++ kinds is := by
  rw [kinds, List.filterMap_cons, kind?]
  cases hk : k.isSemicolon <;> simp [hk, kinds]

end Ink

/-- A lexeme with the tokens behind it. -/
theorem lexemesOf_lexemeTokens {p : Place} {semi : Bool} {kind : TokenKind} {text : List Char}
    {rest : Place → Bool → List Token} {ks : List TokenKind}
    (hrest : ∀ p semi, lexemesOf (rest p semi) = ks) :
    lexemesOf (lexemeTokens p semi kind text rest) = [kind].filter (!·.isSemicolon) ++ ks := by
  have hcons (ts : List Token) (hts : lexemesOf ts = ks) :
      lexemesOf (Token.at p kind text :: ts) = [kind].filter (!·.isSemicolon) ++ ks := by
    rw [← hts]
    exact List.filter_append [kind] _
  rw [lexemeTokens]
  split
  · split
    · exact hcons _ (hrest _ _)
    · exact hcons _ (hrest _ _)
  · exact hcons _ (hrest _ _)

/-- The tokens of a text are its lexemes and the end of input, where semicolons are left out. -/
theorem lexemesOf_tokensFrom (p : Place) (semi : Bool) (cs : List Char) :
    lexemesOf (tokensFrom p semi cs) = Ink.kinds (inksOf cs) ++ [.eof] := by
  induction hn : cs.length using Nat.strongRecOn generalizing cs p semi with
  | ind n ih =>
    subst hn
    cases cs with
    | nil =>
      rw [tokensFrom, inksOf_nil]
      cases semi <;> rfl
    | cons c rest =>
      have hrest (p : Place) (semi : Bool) := ih rest.length (Nat.lt_succ_self _) p semi rest rfl
      by_cases hnewline : c = '\n'
      · subst hnewline
        rw [tokensFrom_newline, inksOf_newline]
        cases semi <;> exact hrest _ _
      by_cases hblank : c = ' ' ∨ c = '\t' ∨ c = '\r'
      · rw [tokensFrom_blank hblank, inksOf_blank hblank]
        exact hrest _ _
      have hc : c ∉ ['\n', ' ', '\t', '\r'] := by simpa [hnewline] using hblank
      rcases hscan : scanLexeme c rest with ⟨kind, text, left⟩
      have hlength := length_scanLexeme_rest c rest
      rw [hscan] at hlength
      rw [tokensFrom_lexeme hc hscan, inksOf_lexeme hc hscan, Ink.kinds_lexeme, List.append_assoc,
        lexemesOf_lexemeTokens fun p semi => ih left.length hlength p semi left rfl]

/-! ## Solid characters -/

/-- A lexeme of solid characters. -/
def Ink.Solid : Ink → Prop
  | lexeme kind text =>
    kind.isTrivia = false ∧ (∀ d ∈ kind.text.toList, isSolid d = true) ∧ text ≠ [] ∧
      ∀ d ∈ text, isSolid d = true
  | _ => False

/-- Solid characters are cut into solid lexemes, which do not depend on what stands behind. -/
theorem exists_inks_solid {u : List Char} (hu : ∀ d ∈ u, isSolid d = true) :
    ∃ is, (u ≠ [] → is ≠ []) ∧ (∀ i ∈ is, i.Solid) ∧
      ∀ r, (∀ d ∈ r.head?, isSolid d = false) → inksOf (u ++ r) = is ++ inksOf r := by
  induction hn : u.length using Nat.strongRecOn generalizing u with
  | ind n ih =>
    subst hn
    cases u with
    | nil => exact ⟨[], fun h => absurd rfl h, nofun, fun r _ => rfl⟩
    | cons c u =>
      have hc := hu c List.mem_cons_self
      rcases hscan : scanLexeme c u with ⟨k, text, left⟩
      obtain ⟨htrivia, hsolid⟩ := isSolid_scanLexeme hc u
      have happend := scanLexeme_append c u
      have hlength := length_scanLexeme_rest c u
      have hne := scanLexeme_ne_nil c u
      have hkind : ∀ d ∈ k.text.toList, isSolid d = true := by
        by_cases hfault : ∃ f, k = .fault f
        · obtain ⟨f, rfl⟩ := hfault
          exact nofun
        · have hk : (scanLexeme c u).kind = k := by rw [hscan]
          rcases @text_scanLexeme c u fun f hf => hfault ⟨f, hk.symm.trans hf⟩ with
            htext | ⟨v, -, -, hcomment⟩
          · rw [hk] at htext
            rwa [htext]
          · rw [hcomment] at htrivia
            cases htrivia
      rw [hscan] at htrivia hsolid happend hlength hne
      have hleft : ∀ d ∈ left, isSolid d = true := fun d hd =>
        hu d (happend ▸ List.mem_append_right _ hd)
      obtain ⟨is, -, his, hread⟩ := ih left.length hlength hleft rfl
      refine ⟨.lexeme k text :: is, fun _ => List.cons_ne_nil _ _,
        List.forall_mem_cons.mpr ⟨⟨htrivia, hkind, hne, hsolid⟩, his⟩, fun r hr => ?_⟩
      have hblank : c ∉ ['\n', ' ', '\t', '\r'] := fun hmem => by
        have hstray : c ∈ strays := by
          simp only [List.mem_cons, List.not_mem_nil, or_false] at hmem
          rcases hmem with rfl | rfl | rfl | rfl <;> decide
        exact not_mem_of_isSolid hc (List.mem_append_right _ hstray)
      have hcut := scanLexeme_cut hc u hr
      rw [hscan] at hcut
      rw [List.cons_append, inksOf_lexeme hblank hcut, hread r hr]
      rfl

section

variable {u : List Char} (hu : ∀ d ∈ u, isSolid d = true)

include hu

theorem solid_inksOf : ∀ i ∈ inksOf u, i.Solid := by
  obtain ⟨is, -, his, hread⟩ := exists_inks_solid hu
  have hown := hread [] nofun
  rw [List.append_nil, inksOf_nil, List.append_nil] at hown
  rwa [hown]

/-- Solid characters are the same ink before any text that is not solid. -/
theorem inksOf_solid_append {r : List Char} (hr : ∀ d ∈ r.head?, isSolid d = false) :
    inksOf (u ++ r) = inksOf u ++ inksOf r := by
  obtain ⟨is, -, -, hread⟩ := exists_inks_solid hu
  have hown := hread [] nofun
  rw [List.append_nil, inksOf_nil, List.append_nil] at hown
  rw [hread r hr, hown]

end

end HandlerSplit
