import HandlerSplit.Proofs.Lexer.Semicolons
import HandlerSplit.Proofs.Lexer.Steps
/-!
# Spelling the tokens of a source again

The tokens of a source are written one after the other, each with a space behind it, and with a
newline for an inserted semicolon and behind a line comment. What is read from this text are the
same tokens, places aside (`tokenize_respell`). So the scanner never looks beyond a token for more
than where it ends, and a line break is needed only where a semicolon was inserted.
-/

namespace HandlerSplit

/-! ## Lexemes before a space -/

/-- A line comment goes on to the end of its line. -/
theorem exists_of_isLineComment {c : Char} {rest text left : List Char} {kind : TokenKind}
    (hscan : scanLexeme c rest = ⟨kind, text, left⟩) (hline : kind.isLineComment = true) :
    ∃ ds, c = '/' ∧ rest = '/' :: ds := by
  replace hline : (scanLexeme c rest).kind.isLineComment = true := by rwa [hscan]
  rcases startsPlain_or c rest with hplain | ⟨rfl, d, ds, rfl, rfl | rfl⟩ | hquote
  · rw [scanLexeme_of_plain hplain] at hline
    split at hline
    · cases hline
    · split at hline
      · simp only [wordKind] at hline
        split at hline <;> cases hline
      · split at hline
        · rename_i kind n hop
          have hmark := (operator?_text hop).1
          cases kind with
          | comment => cases hmark
          | _ => cases hline
        · cases hline
  · exact ⟨ds, rfl, rfl⟩
  · rw [scanLexeme_block] at hline
    split at hline
    · simp [TokenKind.isLineComment] at hline
    · cases hline
  · simp only [List.mem_cons, List.not_mem_nil, or_false] at hquote
    rcases hquote with rfl | rfl | rfl <;> rw [scanLexeme] at hline
    all_goals split at hline <;> cases hline

/-- A space at the end is trimmed. -/
theorem trimEnd_append_space (cs : List Char) :
    Text.trimEnd (cs ++ [' ']) = Text.trimEnd cs := by
  rw [Text.trimEnd, Text.dropEndWhile, List.reverse_append]
  rfl

/-- A line comment ends before a newline. -/
theorem tokensFrom_line {p : Place} {semi : Bool} {cs : List Char} (hcs : '\n' ∉ cs)
    (rest : List Char) :
    tokensFrom p semi ('/' :: '/' :: cs ++ '\n' :: rest) =
      Token.at p (.comment (String.ofList (Text.trimEnd ('/' :: '/' :: cs)))) ('/' :: '/' :: cs) ::
        tokensFrom (p.after ('/' :: '/' :: cs)) semi ('\n' :: rest) := by
  have hnone : '\n' ∉ '/' :: '/' :: cs := by simpa using hcs
  have hall : ∀ d ∈ '/' :: '/' :: cs, (d != '\n') = true :=
    fun d hd => bne_iff_ne.mpr fun h => hnone (h ▸ hd)
  have hends : ∀ d ∈ ('\n' :: rest).head?, (d != '\n') = false := by
    rintro _ ⟨⟩
    rfl
  obtain ⟨htake, hdrop⟩ :=
    takeWhile_append_of_stops (List.takeWhile_eq_self_iff.mpr hall) hends
  have hscan : scanLexeme '/' ('/' :: cs ++ '\n' :: rest) =
      ⟨.comment (String.ofList (Text.trimEnd ('/' :: '/' :: cs))), '/' :: '/' :: cs,
        '\n' :: rest⟩ := by
    simp only [List.cons_append, scanLexeme_line] at htake hdrop ⊢
    simp only [htake, hdrop]
  rw [List.cons_append, tokensFrom_lexeme (by decide) hscan, lexemeTokens]
  have hcontains : ('/' :: '/' :: cs).contains '\n' = false := by simpa using hnone
  rw [hcontains, Bool.and_false]
  rfl

section

variable {c : Char} {rest text left : List Char} {kind : TokenKind} {p : Place} {semi : Bool}

/-- A token that is no line comment is read from its own text before a space. -/
theorem tokensFrom_lexeme_space (hc : c ∉ ['\n', ' ', '\t', '\r'])
    (hscan : scanLexeme c rest = ⟨kind, text, left⟩) (hfault : ∀ f, kind ≠ .fault f)
    (hline : kind.isLineComment = false) (others : List Char) :
    tokensFrom p semi (text ++ [' '] ++ others) =
      lexemeTokens p semi kind text fun p semi => tokensFrom (p.next ' ') semi others := by
  have happend := scanLexeme_append c rest
  have hne := scanLexeme_ne_nil c rest
  rw [hscan] at happend hne
  obtain ⟨d, u, rfl⟩ := List.exists_cons_of_ne_nil hne
  obtain ⟨rfl, rfl⟩ := List.cons.inj happend
  have hown := scanLexeme_swap hfault hscan (TokenKind.clearOf_of_endsAll hline (c := ' ') rfl others)
  rw [List.append_assoc, List.singleton_append, List.cons_append, tokensFrom_lexeme hc hown]
  congr
  funext p semi
  exact tokensFrom_blank (.inl rfl) others

/-- A line comment takes a space behind it, and is trimmed to the same. -/
theorem tokensFrom_line_space (hscan : scanLexeme c rest = ⟨kind, text, left⟩)
    (hline : kind.isLineComment = true) (others : List Char) :
    tokensFrom p semi (text ++ [' '] ++ '\n' :: others) =
      Token.at p kind (text ++ [' ']) ::
        tokensFrom (p.after (text ++ [' '])) semi ('\n' :: others) := by
  obtain ⟨ds, rfl, rfl⟩ := exists_of_isLineComment hscan hline
  have hcs : '\n' ∉ ds.takeWhile (· != '\n') ++ [' '] := by
    intro h
    rcases List.mem_append.mp h with h | h
    · simpa using List.mem_takeWhile_imp h
    · cases List.mem_singleton.mp h
  have htrim := trimEnd_append_space ('/' :: '/' :: ds.takeWhile (· != '\n'))
  obtain ⟨rfl, rfl, -⟩ := Lexeme.mk.inj hscan
  have hread := @tokensFrom_line p semi _ hcs others
  rw [← List.cons_append, ← List.cons_append, htrim] at hread
  exact hread

/-- A line comment inserts no semicolon. -/
theorem lexemeTokens_line (hscan : scanLexeme c rest = ⟨kind, text, left⟩)
    (hline : kind.isLineComment = true) (others : Place → Bool → List Token) :
    lexemeTokens p semi kind text others = Token.at p kind text :: others (p.after text) semi := by
  obtain ⟨ds, rfl, rfl⟩ := exists_of_isLineComment hscan hline
  obtain ⟨rfl, rfl, -⟩ := Lexeme.mk.inj hscan
  have hnone : (('/' :: '/' :: ds).takeWhile (· != '\n')).contains '\n' = false := by
    refine Bool.eq_false_iff.mpr fun h => ?_
    simpa using List.mem_takeWhile_imp (List.contains_iff_mem.mp h)
  rw [lexemeTokens, hnone, Bool.and_false]
  rfl

/-- Behind a line comment a semicolon that waits is inserted. -/
theorem inserted_of_isLineComment (hscan : scanLexeme c rest = ⟨kind, text, left⟩)
    (hline : kind.isLineComment = true) :
    ∃ ts, tokensFrom p true left = Token.inserted p :: ts := by
  obtain ⟨ds, rfl, rfl⟩ := exists_of_isLineComment hscan hline
  obtain rfl : ds.dropWhile (· != '\n') = left := congrArg Lexeme.rest hscan
  rcases hleft : ds.dropWhile (· != '\n') with _ | ⟨d, later⟩
  · exact ⟨_, by rw [tokensFrom, if_pos rfl]⟩
  · have hd : (d != '\n') = false := by
      have hhead := List.head?_dropWhile_not (· != '\n') ds
      rw [hleft] at hhead
      exact hhead
    obtain rfl : d = '\n' := by simpa using hd
    exact ⟨_, by rw [tokensFrom_newline, if_pos rfl]⟩

end

/-! ## The text of the tokens -/

/-- Whether a line ends behind a token that is written again. -/
def TokenKind.endsLine (kind : TokenKind) : Bool :=
  kind.isInserted || kind.isLineComment

/-- A token written again, with a space behind it. -/
def Token.respelled (t : Token) : List Char :=
  t.text ++ [' '] ++ if t.kind.endsLine then ['\n'] else []

/-- The text of tokens that are written again. -/
def respell (ts : List Token) : List Char :=
  ts.flatMap Token.respelled

/-- A text that is no token. -/
def TokenKind.isFault : TokenKind → Bool
  | fault _ => true
  | _ => false

/-- Tokens none of which is a fault. -/
def Faultless (ts : List Token) : Prop :=
  ∀ t ∈ ts, ∀ f, t.kind ≠ .fault f

theorem all_isFault_iff (ts : List Token) :
    ts.all (fun t => !t.kind.isFault) = true ↔ Faultless ts := by
  rw [List.all_eq_true]
  refine forall₂_congr fun t _ => ?_
  cases t.kind <;> simp [TokenKind.isFault]

instance (ts : List Token) : Decidable (Faultless ts) :=
  decidable_of_iff _ (all_isFault_iff ts)

theorem Faultless.tail {t : Token} {ts : List Token} (h : Faultless (t :: ts)) : Faultless ts :=
  fun u hu => h u (List.mem_cons_of_mem t hu)

/-- Each token is spelled with a space behind it, and a line break where it ends its line. -/
theorem respell_cons (t : Token) (ts : List Token) :
    respell (t :: ts) = t.text ++ [' '] ++ if t.kind.endsLine then '\n' :: respell ts else respell ts := by
  rw [respell, List.flatMap_cons, Token.respelled, List.append_assoc]
  split <;> rfl

/-- No lexeme ends a line but a line comment. -/
theorem endsLine_of_scanLexeme {c : Char} {rest text left : List Char} {kind : TokenKind}
    (hscan : scanLexeme c rest = ⟨kind, text, left⟩) : kind.endsLine = kind.isLineComment := by
  have hinserted : kind.isInserted = false := by
    refine Bool.eq_false_iff.mpr fun h => scanLexeme_ne_textless c rest (.inr ?_)
    rw [hscan, isInserted_eq_true.mp h]
  rw [TokenKind.endsLine, hinserted, Bool.false_or]

section

variable {p : Place} {semi : Bool}

/-- A newline inserts a semicolon that waits, and does no more before the newline of one that is
written again. -/
theorem kinds_newline_respell {ts : List Token}
    (hts : semi = true → ∃ q us, ts = Token.inserted q :: us) :
    (tokensFrom p semi ('\n' :: respell ts)).map (·.kind) =
      (tokensFrom (p.next '\n') semi (respell ts)).map (·.kind) := by
  rw [tokensFrom_newline]
  cases semi with
  | false => rfl
  | true =>
    obtain ⟨q, us, rfl⟩ := hts rfl
    have hrespell : respell (Token.inserted q :: us) = ' ' :: '\n' :: respell us := rfl
    rw [hrespell, if_pos rfl, tokensFrom_blank (.inl rfl), tokensFrom_blank (.inl rfl), tokensFrom_newline,
      tokensFrom_newline]
    rfl

/-- An inserted semicolon is spelled as a line break. -/
theorem respell_inserted (p : Place) (ts : List Token) :
    respell (Token.inserted p :: ts) = ' ' :: '\n' :: respell ts :=
  rfl

/-- Tokens that are read again, from every place and where `semi` says that a semicolon waits. -/
def ReadAgain (semi : Bool) (ts : List Token) : Prop :=
  Faultless ts → ∀ p, (tokensFrom p semi (respell ts)).map (·.kind) = ts.map (·.kind)

/-- An inserted semicolon is read again where one is due. -/
theorem readAgain_inserted {ts : List Token} (h : ReadAgain false ts) :
    ReadAgain true (Token.inserted p :: ts) := by
  intro hfault q
  rw [respell_inserted, tokensFrom_blank (.inl rfl), tokensFrom_newline, if_pos rfl, List.map_cons,
    List.map_cons, h hfault.tail]
  rfl

/-- A line comment of a text is read again, if what it leaves is. -/
theorem readAgain_line {c : Char} {rest text left : List Char} {kind : TokenKind}
    (hc : c ∉ ['\n', ' ', '\t', '\r']) (hscan : scanLexeme c rest = ⟨kind, text, left⟩)
    (hline : kind.isLineComment = true)
    (ih : ∀ q semi, ReadAgain semi (tokensFrom q semi left)) :
    ReadAgain semi (tokensFrom p semi (c :: rest)) := by
  intro hfault p'
  rw [tokensFrom_lexeme hc hscan, lexemeTokens_line hscan hline] at hfault ⊢
  have hends : (Token.at p kind text).kind.endsLine = true :=
    (endsLine_of_scanLexeme hscan).trans hline
  have hwaits : semi = true → ∃ q us,
      tokensFrom (p.after text) semi left = Token.inserted q :: us := by
    rintro rfl
    exact ⟨_, inserted_of_isLineComment hscan hline⟩
  rw [respell_cons, hends, if_pos rfl]
  refine (congrArg (List.map _) (tokensFrom_line_space hscan hline _)).trans ?_
  rw [List.map_cons, List.map_cons, kinds_newline_respell hwaits, ih _ _ hfault.tail]
  rfl

/-- A lexeme of a text is read again, if what it leaves is. -/
theorem readAgain_lexeme {c : Char} {rest text left : List Char} {kind : TokenKind}
    (hc : c ∉ ['\n', ' ', '\t', '\r']) (hscan : scanLexeme c rest = ⟨kind, text, left⟩)
    (ih : ∀ q semi, ReadAgain semi (tokensFrom q semi left)) :
    ReadAgain semi (tokensFrom p semi (c :: rest)) := by
  cases hline : kind.isLineComment with
  | true => exact readAgain_line hc hscan hline ih
  | false =>
    intro hfault p'
    rw [tokensFrom_lexeme hc hscan, lexemeTokens] at hfault ⊢
    have hkind : ∀ f, kind ≠ .fault f := hfault _ List.mem_cons_self
    have hends : (Token.at p kind text).kind.endsLine = false :=
      (endsLine_of_scanLexeme hscan).trans hline
    rw [respell_cons, hends, if_neg Bool.false_ne_true]
    refine (congrArg (List.map _) (tokensFrom_lexeme_space hc hscan hkind hline _)).trans ?_
    rw [lexemeTokens, List.map_cons, List.map_cons]
    replace hfault := hfault.tail
    congr 1
    -- What follows the lexeme depends on whether it ends a line or a statement.
    split
    · rename_i htrivia
      rw [if_pos htrivia] at hfault
      split
      · rename_i hnewline
        rw [if_pos hnewline] at hfault
        rw [respell_inserted, tokensFrom_blank (.inl rfl), tokensFrom_newline, if_neg Bool.false_ne_true,
          List.map_cons, List.map_cons, ih _ _ hfault.tail]
        rfl
      · rename_i hnewline
        rw [if_neg hnewline] at hfault
        exact ih _ _ hfault _
    · rename_i htrivia
      rw [if_neg htrivia] at hfault
      exact ih _ _ hfault _

theorem readAgain_eof (h : semi = false) : ReadAgain semi [Token.at p .eof []] := by
  intro _ p'
  have htext : respell [Token.at p .eof []] = [' '] := rfl
  rw [htext, tokensFrom_blank (.inl rfl), tokensFrom, h]
  rfl

/-- What is read from a text is read again from what is written for it. -/
theorem readAgain_tokensFrom (p : Place) (semi : Bool) (cs : List Char) :
    ReadAgain semi (tokensFrom p semi cs) := by
  induction hlength : cs.length using Nat.strong_induction_on generalizing p semi cs with
  | _ n ih =>
    subst hlength
    rcases cs with _ | ⟨c, rest⟩
    · rw [tokensFrom]
      cases semi with
      | false => exact readAgain_eof rfl
      | true => exact readAgain_inserted (readAgain_eof rfl)
    · have hrest := ih rest.length (Nat.lt_succ_self _)
      by_cases hc : c ∈ ['\n', ' ', '\t', '\r']
      · simp only [List.mem_cons, List.not_mem_nil, or_false] at hc
        rcases hc with rfl | hblank
        · rw [tokensFrom_newline]
          cases semi with
          | false => exact hrest _ _ rest rfl
          | true => exact readAgain_inserted (hrest _ _ rest rfl)
        · rw [tokensFrom_blank hblank]
          exact hrest _ _ rest rfl
      · rcases hscan : scanLexeme c rest with ⟨kind, text, left⟩
        have hleft := length_scanLexeme_rest c rest
        rw [hscan] at hleft
        exact readAgain_lexeme hc hscan fun q semi => ih _ hleft q semi left rfl

end

/-! ## Sources -/

/-- A text without a byte order mark loses none. -/
theorem dropByteOrderMark_of_head {cs : List Char} (h : ∀ c ∈ cs.head?, c ≠ '\ufeff') :
    dropByteOrderMark cs = (⟨0, 1, 1⟩, cs) := by
  unfold dropByteOrderMark
  split
  · exact absurd rfl (h _ rfl)
  · rfl

/-- A byte order mark is no token. -/
theorem scanLexeme_byteOrderMark (rest : List Char) :
    (scanLexeme '\ufeff' rest).kind = .fault (.strayCharacter '\ufeff') := by
  have hplain : StartsPlain '\ufeff' rest := ⟨by decide, fun h => absurd h (by decide)⟩
  have hnumber : startsNumber '\ufeff' rest = false := rfl
  have hident : Text.startsIdent '\ufeff' = false := by decide +kernel
  have hmark : operator? ('\ufeff' :: rest) = none := by simp [operator?, simpleBinary?]
  rw [scanLexeme_of_plain hplain, hnumber, hident, hmark]
  rfl

theorem kinds_tokensFrom_nil (p : Place) (semi : Bool) :
    (tokensFrom p semi []).map (·.kind) = if semi then [.semicolon true, .eof] else [.eof] := by
  rw [tokensFrom]
  split <;> rfl

theorem endsStatement_of_isTrivia {kind : TokenKind} (h : kind.isTrivia = true) :
    kind.endsStatement = false := by
  cases kind <;> first | rfl | cases h

section

variable {source : List Char} {t : Token}

/-- A token with a text is read from this text, which starts with no byte order mark. -/
theorem tokenize_text (ht : t ∈ tokenize source) (hfault : ∀ f, t.kind ≠ .fault f)
    (hne : t.text ≠ []) :
    (∀ c ∈ t.text.head?, c ≠ '\ufeff') ∧ (tokenize t.text).map (·.kind) =
      t.kind :: if t.kind.endsStatement then [.semicolon true, .eof] else [.eof] := by
  rcases lexeme_of_mem_tokensFrom ht with ⟨hnil, -⟩ | ⟨c, rest, left, hc, hscan⟩
  · exact absurd hnil hne
  have happend := scanLexeme_append c rest
  rw [hscan] at happend
  obtain ⟨d, u, htext⟩ := List.exists_cons_of_ne_nil hne
  rw [htext] at happend hscan
  obtain ⟨rfl, rfl⟩ := List.cons.inj happend
  have hown : scanLexeme d (u ++ []) = ⟨t.kind, d :: u, []⟩ :=
    scanLexeme_swap hfault hscan nofun
  rw [List.append_nil] at hown
  have hmark : d ≠ '\ufeff' := by
    rintro rfl
    exact hfault _ ((congrArg Lexeme.kind hown).symm.trans (scanLexeme_byteOrderMark u))
  have hhead : ∀ c ∈ t.text.head?, c ≠ '\ufeff' := by
    rw [htext]
    rintro _ ⟨⟩
    exact hmark
  refine ⟨hhead, ?_⟩
  rw [tokenize, dropByteOrderMark_of_head hhead, htext]
  dsimp only
  rw [tokensFrom_lexeme hc hown, lexemeTokens, Bool.false_and, if_neg Bool.false_ne_true,
    List.map_cons]
  refine congrArg (t.kind :: ·) ?_
  split
  · rename_i htrivia
    rw [kinds_tokensFrom_nil, endsStatement_of_isTrivia htrivia]
  · exact kinds_tokensFrom_nil _ _

end

/-- The tokens of a source without faults are read again from what is written for them, and each
of them is read from its own text. -/
theorem tokenize_respell {source : List Char} (hfault : Faultless (tokenize source)) :
    (tokenize (respell (tokenize source))).map (·.kind) = (tokenize source).map (·.kind) ∧
      ∀ t ∈ tokenize source, t.text ≠ [] → (tokenize t.text).map (·.kind) =
        t.kind :: if t.kind.endsStatement then [.semicolon true, .eof] else [.eof] := by
  refine ⟨?_, fun t ht hne => (tokenize_text ht (hfault t ht) hne).2⟩
  have hhead : ∀ c ∈ (respell (tokenize source)).head?, c ≠ '\ufeff' := by
    rcases hts : tokenize source with _ | ⟨t, ts⟩
    · exact nofun
    have ht : t ∈ tokenize source := hts ▸ List.mem_cons_self
    rw [respell_cons]
    rcases htext : t.text with _ | ⟨c, u⟩
    · rintro _ ⟨⟩
      decide
    · rintro _ ⟨⟩
      exact (tokenize_text ht (hfault t ht) (by rw [htext]; exact List.cons_ne_nil c u)).1 c
        (by rw [htext]; rfl)
  rw [tokenize, dropByteOrderMark_of_head hhead]
  exact readAgain_tokensFrom _ _ _ hfault _

/-- A source with few spaces, a comment that covers a line break and one with white space at its
end. -/
def crampedSource : String :=
  "\ufeffpackage p//é \t\nvar x=0x1p-2&^.5i/*\n*/\nfunc f()\x7bx<-'\\''\x7d"

/-- A cramped source with all kinds of literals is read again. -/
theorem tokenize_respell_cramped :
    Faultless (tokenize crampedSource.toList) ∧
      String.ofList (respell (tokenize crampedSource.toList)) =
        "package p //é \t \n \nvar x = 0x1p-2 &^ .5i /*\n*/  \nfunc f ( ) \x7b x <- '\\'' \x7d  \n " ∧
      (tokenize (respell (tokenize crampedSource.toList))).map (·.kind) =
        (tokenize crampedSource.toList).map (·.kind) := by
  have hfault : Faultless (tokenize crampedSource.toList) := by decide +kernel
  exact ⟨hfault, by decide +kernel, (tokenize_respell hfault).1⟩

end HandlerSplit
