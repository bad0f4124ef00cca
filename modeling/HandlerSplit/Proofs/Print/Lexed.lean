import HandlerSplit.Proofs.Lexer.Ink
import HandlerSplit.Proofs.Print.Writing
/-!
# Reading an output

The words of an output are the tokens of its text, unless a number stands right before a character
that it fuses with (`tokensFrom_chars`, `wordsOf_chars_iff`). Even then what is read on from a
number ends with the solid words that follow it without white space (`inksOf_chars`), and the
comments are those that were written (`commentsOf_chars`).
-/

namespace HandlerSplit

/-- The comments among tokens. -/
def commentsOf (tokens : List Token) : List String :=
  tokens.filterMap (·.kind.comment?)

section

variable {p : Place} {semi : Bool}

/-- A lexeme is a word or a comment or neither, and the tokens behind it follow. -/
theorem lexemeTokens_kinds (p : Place) (semi : Bool) (kind : TokenKind) (text : List Char) (rest : Place → Bool → List Token) :
    ∃ p' semi', wordsOf (lexemeTokens p semi kind text rest) =
        [kind].filter (·.isWord) ++ wordsOf (rest p' semi') ∧
      commentsOf (lexemeTokens p semi kind text rest) =
        kind.comment?.toList ++ commentsOf (rest p' semi') := by
  have hcons (ts : List Token) : wordsOf (Token.at p kind text :: ts) =
      [kind].filter (·.isWord) ++ wordsOf ts ∧
        commentsOf (Token.at p kind text :: ts) = kind.comment?.toList ++ commentsOf ts :=
    ⟨List.filter_append [kind] _, List.filterMap_append (l := [Token.at p kind text])⟩
  rw [lexemeTokens]
  split
  · split
    · exact ⟨_, _, hcons _⟩
    · exact ⟨_, _, hcons _⟩
  · exact ⟨_, _, hcons _⟩

end

namespace Print

/-! ## The tokens of an output -/

/-- The tokens of an output that starts at a place, where `semi` says whether a line break ends a
statement there. -/
def Output.tokens : Output → Place → Bool → List Token
  | [], p, semi => tokensFrom p semi []
  | .word t :: o, p, semi => lexemeTokens p semi (kindOf t) t.toList (tokens o)
  | .newline :: o, p, semi =>
    if semi then Token.inserted p :: tokens o (p.next '\n') false else tokens o (p.next '\n') false
  | piece :: o, p, semi => tokens o (p.after piece.chars) semi

/-- No word fuses with the character behind it. -/
def Output.Unfused : Output → Prop
  | [] => True
  | .word t :: o => (∀ c ∈ Output.chars o |>.head?, (kindOf t).fuses c = false) ∧ Unfused o
  | _ :: o => Unfused o

variable {p : Place} {semi : Bool} {o : Output}

/-- What stands behind a word of an output. -/
structure Behind (t : String) (o : Output) (k : TokenKind) : Prop where
  kind : kindOf t = k
  text : k.text = t
  legible : k.Legible
  joins : ∀ c ∈ Output.chars o |>.head?, k.joins c = false

theorem behind {t : String} (hlegible : Output.Legible (.word t :: o))
    (hapart : Output.Apart none (.word t :: o)) :
    ∃ k, Behind t o k ∧ o.Legible ∧ o.Apart none := by
  obtain ⟨k, hk, htext⟩ := hlegible t List.mem_cons_self
  have hrest : o.Legible := fun t ht => hlegible t (List.mem_cons_of_mem _ ht)
  have hkind : kindOf t = k := by rw [← htext, kindOf_text hk]
  obtain ⟨happ, hjoins⟩ := (Output.apart_iff (some (kindOf t)) hrest).mp hapart.2
  rw [hkind] at hjoins
  refine ⟨k, ⟨hkind, htext, hk, fun c hc => hjoins k rfl c ?_⟩, hrest, happ⟩
  rwa [Output.firstChar?_eq]

theorem behind_blank {piece : Piece} (hpiece : piece.kind? = none)
    (hlegible : Output.Legible (piece :: o)) (hapart : Output.Apart none (piece :: o)) :
    o.Legible ∧ o.Apart none := by
  refine ⟨fun t ht => hlegible t (List.mem_cons_of_mem _ ht), ?_⟩
  have happ := hapart.2
  have hafter : piece.after none = none := by
    cases piece with
    | word t => cases hpiece
    | newline => rfl
    | _ n => exact ite_self none
  rwa [hafter] at happ

theorem word_of_kind? {piece : Piece} {k : TokenKind} (h : piece.kind? = some k) :
    ∃ t, piece = .word t := by
  cases piece with
  | word t => exact ⟨t, rfl⟩
  | _ => cases h

/-- If no word fuses, the tokens of an output are those of its text. -/
theorem tokensFrom_chars (hlegible : o.Legible) (hapart : o.Apart none) (hunfused : o.Unfused) :
    tokensFrom p semi o.chars = o.tokens p semi := by
  induction o generalizing p semi with
  | nil => rfl
  | cons piece o ih =>
    have hchars : Output.chars (piece :: o) = piece.chars ++ Output.chars o := rfl
    cases piece with
    | word t =>
      obtain ⟨k, hk, hlegible, hapart⟩ := behind hlegible hapart
      obtain ⟨hfuses, hunfused⟩ := hunfused
      rw [hk.kind] at hfuses
      have hclear : k.ClearOf (Output.chars o) := fun d hd => ⟨hk.joins d hd, hfuses d hd⟩
      have hword : (Piece.word t).chars = k.text.toList := congrArg String.toList hk.text.symm
      rw [hchars, hword, tokensFrom_word hk.legible hclear, Output.tokens, hk.kind, hk.text]
      exact congrArg _ (funext fun p => funext fun semi => ih hlegible hapart hunfused)
    | newline =>
      obtain ⟨hlegible, hapart⟩ := behind_blank rfl hlegible hapart
      show tokensFrom p semi ('\n' :: Output.chars o) = _
      rw [tokensFrom_newline, Output.tokens, ih hlegible hapart hunfused]
    | spaces n =>
      obtain ⟨hlegible, hapart⟩ := behind_blank rfl hlegible hapart
      rw [hchars, chars_spaces, tokensFrom_replicate (.inl rfl), ih hlegible hapart hunfused,
        ← chars_spaces]
      rfl
    | tabs n =>
      obtain ⟨hlegible, hapart⟩ := behind_blank rfl hlegible hapart
      rw [hchars, chars_tabs, tokensFrom_replicate (.inr rfl), ih hlegible hapart hunfused,
        ← chars_tabs]
      rfl

/-! ## Words -/

theorem tokensFrom_nil : wordsOf (tokensFrom p semi []) = [] ∧ commentsOf (tokensFrom p semi []) = [] := by
  rw [tokensFrom]
  cases semi <;> exact ⟨rfl, rfl⟩

/-- White space is passed over. -/
theorem tokensFrom_blank (p : Place) (semi : Bool) {piece : Piece} (hpiece : piece.kind? = none) (rest : List Char) :
    ∃ p' semi', wordsOf (tokensFrom p semi (piece.chars ++ rest)) = wordsOf (tokensFrom p' semi' rest) ∧
      commentsOf (tokensFrom p semi (piece.chars ++ rest)) =
        commentsOf (tokensFrom p' semi' rest) := by
  cases piece with
  | word t => cases hpiece
  | newline =>
    show ∃ _ _, wordsOf (tokensFrom p semi ('\n' :: rest)) = _ ∧
      commentsOf (tokensFrom p semi ('\n' :: rest)) = _
    rw [tokensFrom_newline]
    split <;> exact ⟨_, _, rfl, rfl⟩
  | spaces n =>
    rw [chars_spaces, tokensFrom_replicate (.inl rfl)]
    exact ⟨_, _, rfl, rfl⟩
  | tabs n =>
    rw [chars_tabs, tokensFrom_replicate (.inr rfl)]
    exact ⟨_, _, rfl, rfl⟩

/-- What fuses is a word. -/
theorem isWord_of_fuses {k : TokenKind} {d : Char} (h : k.fuses d = true) :
    [k].filter (·.isWord) = [k] := by
  cases k with
  | literal => rfl
  | _ => cases h

theorem words_cons_word (t : String) (o : Output) :
    Output.words (.word t :: o) = [kindOf t].filter (·.isWord) ++ o.words :=
  List.filter_append [kindOf t] _

theorem words_cons_blank {piece : Piece} (hpiece : piece.kind? = none) (o : Output) :
    Output.words (piece :: o) = o.words := by
  rw [Output.words, Output.kinds, List.filterMap_cons_none hpiece]
  rfl

/-- The words of the text of an output are its own if and only if none of them fuses. -/
theorem wordsOf_chars_iff (hlegible : o.Legible) (hapart : o.Apart none) :
    wordsOf (tokensFrom p semi o.chars) = o.words ↔ o.Unfused := by
  induction o generalizing p semi with
  | nil => exact ⟨fun _ => trivial, fun _ => tokensFrom_nil.1⟩
  | cons piece o ih =>
    have hblank (hpiece : piece.kind? = none) :
        wordsOf (tokensFrom p semi (Output.chars (piece :: o))) = Output.words (piece :: o) ↔
          Output.Unfused o := by
      obtain ⟨hlegible, hapart⟩ := behind_blank hpiece hlegible hapart
      obtain ⟨p', semi', hwords, -⟩ :=
        tokensFrom_blank p semi hpiece (Output.chars o)
      rw [words_cons_blank hpiece, ← @ih p' semi' hlegible hapart, ← hwords]
      rfl
    cases piece with
    | word t =>
      obtain ⟨k, hk, hlegible, hapart⟩ := behind hlegible hapart
      have hchars : Output.chars (.word t :: o) = k.text.toList ++ Output.chars o :=
        congrArg (String.toList · ++ Output.chars o) hk.text.symm
      rw [hchars, words_cons_word, hk.kind, Output.Unfused, hk.kind]
      by_cases hfuses : ∀ d ∈ (Output.chars o).head?, k.fuses d = false
      · have hclear : k.ClearOf (Output.chars o) := fun d hd => ⟨hk.joins d hd, hfuses d hd⟩
        obtain ⟨p', semi', hwords, -⟩ := lexemeTokens_kinds p semi k k.text.toList
          fun p semi => tokensFrom p semi (Output.chars o)
        rw [tokensFrom_word hk.legible hclear, hwords, List.append_cancel_left_eq, ih hlegible hapart,
          and_iff_right hfuses]
      · refine iff_of_false (fun hwords => ?_) fun hunfused => hfuses hunfused.1
        -- the number is read on, and so as another
        obtain ⟨d, hd, hfuses⟩ : ∃ d ∈ (Output.chars o).head?, k.fuses d = true := by
          simpa using hfuses
        obtain ⟨c, cs, kind, text, htext, hscan, hne⟩ := hk.legible.fused hd hfuses
        rcases hlexeme : scanLexeme c (cs ++ Output.chars o) with ⟨k', text', left⟩
        obtain rfl : k' = .literal kind text := by
          rw [← hscan, hlexeme]
        obtain ⟨p', semi', hread, -⟩ := lexemeTokens_kinds p semi (.literal kind text) text'
          fun p semi => tokensFrom p semi left
        rw [htext, List.cons_append, tokensFrom_lexeme (not_blank_of_legible hk.legible htext) hlexeme,
          hread, isWord_of_fuses hfuses] at hwords
        exact hne (List.cons.inj hwords).1
    | _ => exact hblank rfl

/-! ## Ink -/

theorem comment?_of_isTrivia {k : TokenKind} (h : k.isTrivia = false) : k.comment? = none := by
  cases k with
  | comment => cases h
  | _ => rfl

theorem isBlank_of_mem_chars {piece : Piece} (hpiece : piece.kind? = none) :
    ∀ c ∈ piece.chars, Text.isBlank c = true := by
  intro c hc
  cases piece with
  | word t => cases hpiece
  | newline =>
    rw [List.mem_singleton.mp hc]
    rfl
  | spaces n =>
    rw [chars_spaces] at hc
    rw [List.eq_of_mem_replicate hc]
    rfl
  | tabs n =>
    rw [chars_tabs] at hc
    rw [List.eq_of_mem_replicate hc]
    rfl

/-- The lexemes and the white space of an output behind the solid characters `u`. Words of solid
characters are read together with what stands right before them. -/
def Output.inksFrom (u : List Char) : Output → List Ink
  | [] => inksOf u
  | .word t :: o =>
    if t.toList.all isSolid then inksFrom (u ++ t.toList) o
    else inksOf u ++ .lexeme (kindOf t) t.toList :: inksFrom [] o
  | .newline :: o => inksOf u ++ .newline :: inksFrom [] o
  | .spaces 0 :: o => inksFrom u o
  | .tabs 0 :: o => inksFrom u o
  | .spaces (n + 1) :: o => inksOf u ++ (List.replicate (n + 1) .blank ++ inksFrom [] o)
  | .tabs (n + 1) :: o => inksOf u ++ (List.replicate (n + 1) .blank ++ inksFrom [] o)

theorem inksOf_chars (hlegible : o.Legible) (hapart : o.Apart none) {u : List Char}
    (hu : ∀ d ∈ u, isSolid d = true) : inksOf (u ++ o.chars) = o.inksFrom u := by
  induction o generalizing u with
  | nil => exact congrArg inksOf (List.append_nil u)
  | cons piece o ih =>
    have hchars : Output.chars (piece :: o) = piece.chars ++ Output.chars o := rfl
    have hblank (n : Nat) {c : Char} (hc : c = ' ' ∨ c = '\t')
        (hpiece : piece.kind? = none) (hpieces : piece.chars = List.replicate (n + 1) c) :
        inksOf (u ++ Output.chars (piece :: o)) =
          inksOf u ++ (List.replicate (n + 1) .blank ++ Output.inksFrom [] o) := by
      obtain ⟨hlegible, hapart⟩ := behind_blank hpiece hlegible hapart
      rw [hchars, hpieces, inksOf_solid_append hu, inksOf_replicate hc,
        ← ih hlegible hapart (List.forall_mem_nil _), List.nil_append]
      rintro d ⟨⟩
      rcases hc with rfl | rfl <;> decide
    cases piece with
    | word t =>
      obtain ⟨k, hk, hlegible, hapart⟩ := behind hlegible hapart
      rw [hchars, Output.inksFrom]
      split
      · rename_i hsolid
        rw [← ih hlegible hapart (List.forall_mem_append.mpr ⟨hu, List.all_eq_true.mp hsolid⟩),
          List.append_assoc]
        rfl
      · rename_i hsolid
        have ht : (Piece.word t).chars = k.text.toList := congrArg String.toList hk.text.symm
        rcases hk.legible.solid_or with ⟨-, hall⟩ | ⟨hhead, hfuses⟩
        · rw [hk.text] at hall
          exact absurd (List.all_eq_true.mpr hall) hsolid
        have hclear : k.ClearOf (Output.chars o) := fun d hd => ⟨hk.joins d hd, hfuses d⟩
        rw [ht, inksOf_solid_append hu, inksOf_word hk.legible hclear, hk.kind, hk.text,
          ← ih hlegible hapart (List.forall_mem_nil _), List.nil_append]
        intro d hd
        obtain ⟨c, cs, htext, -⟩ := hk.legible
        rw [htext] at hhead hd
        exact hhead d hd
    | newline =>
      obtain ⟨hlegible, hapart⟩ := behind_blank rfl hlegible hapart
      rw [hchars, Output.inksFrom, inksOf_solid_append hu, ← ih hlegible hapart (List.forall_mem_nil _)]
      · exact congrArg _ (inksOf_newline _)
      · rintro d ⟨⟩
        decide
    | spaces n =>
      cases n with
      | zero =>
        obtain ⟨hlegible, hapart⟩ := behind_blank rfl hlegible hapart
        exact ih hlegible hapart hu
      | succ n => exact hblank n (.inl rfl) rfl (chars_spaces _)
    | tabs n =>
      cases n with
      | zero =>
        obtain ⟨hlegible, hapart⟩ := behind_blank rfl hlegible hapart
        exact ih hlegible hapart hu
      | succ n => exact hblank n (.inr rfl) rfl (chars_tabs _)

/-! ## Comments -/

theorem comments_cons_word (t : String) (o : Output) :
    Output.comments (.word t :: o) = (kindOf t).comment?.toList ++ o.comments :=
  List.filterMap_append (l := [kindOf t])

/-- The comments among lexemes. -/
def commentInks (is : List Ink) : List String :=
  (Ink.kinds is).filterMap TokenKind.comment?

theorem commentInks_append (is js : List Ink) :
    commentInks (is ++ js) = commentInks is ++ commentInks js := by
  rw [commentInks, Ink.kinds_append, List.filterMap_append]
  rfl

theorem commentInks_lexeme (k : TokenKind) (text : List Char) (is : List Ink) :
    commentInks (.lexeme k text :: is) = k.comment?.toList ++ commentInks is := by
  rw [commentInks, Ink.kinds_lexeme, List.filterMap_append]
  cases k <;> rfl

theorem commentInks_solid {u : List Char} (hu : ∀ d ∈ u, isSolid d = true) :
    commentInks (inksOf u) = [] := by
  refine List.filterMap_eq_nil_iff.mpr fun k hk => ?_
  obtain ⟨i, hi, hkind⟩ := List.mem_filterMap.mp hk
  have hsolid := solid_inksOf hu i hi
  cases i with
  | lexeme kind text =>
    have hkind : (if kind.isSemicolon then none else some kind) = some k := hkind
    split at hkind
    · cases hkind
    · rw [← Option.some.inj hkind]
      exact comment?_of_isTrivia hsolid.1
  | _ => cases hkind

theorem commentInks_inksFrom (hlegible : o.Legible) {u : List Char}
    (hu : ∀ d ∈ u, isSolid d = true) : commentInks (o.inksFrom u) = o.comments := by
  induction o generalizing u with
  | nil => exact commentInks_solid hu
  | cons piece o ih =>
    have hrest : Output.Legible o := fun t ht => hlegible t (List.mem_cons_of_mem _ ht)
    have hown : commentInks (Output.inksFrom [] o) = Output.comments o :=
      ih hrest (List.forall_mem_nil _)
    have hblank (n : Nat) : commentInks (inksOf u ++ (List.replicate n .blank ++ Output.inksFrom [] o)) =
        Output.comments o := by
      rw [commentInks_append, commentInks_append, commentInks_solid hu, hown]
      have hnone : Ink.kinds (List.replicate n .blank) = [] :=
        List.filterMap_eq_nil_iff.mpr fun i hi => by rw [List.eq_of_mem_replicate hi]; rfl
      rw [commentInks, hnone]
      rfl
    cases piece with
    | word t =>
      rw [Output.inksFrom, comments_cons_word]
      split
      · rename_i hsolid
        obtain ⟨k, hk, rfl⟩ := hlegible t List.mem_cons_self
        have hall := List.all_eq_true.mp hsolid
        have htrivia : k.isTrivia = false := by
          rcases hk.solid_or with ⟨htrivia, -⟩ | ⟨hhead, -⟩
          · exact htrivia
          · obtain ⟨c, cs, htext, -⟩ := hk
            rw [htext] at hhead hall
            have hc := hhead c rfl
            rw [hall c List.mem_cons_self] at hc
            cases hc
        rw [ih hrest (List.forall_mem_append.mpr ⟨hu, hall⟩), kindOf_text hk,
          comment?_of_isTrivia htrivia]
        rfl
      · rw [commentInks_append, commentInks_lexeme, commentInks_solid hu, hown]
        rfl
    | newline => exact (commentInks_append (inksOf u) _).trans (by rw [commentInks_solid hu]; exact hown)
    | spaces n =>
      cases n with
      | zero => exact ih hrest hu
      | succ n => exact hblank (n + 1)
    | tabs n =>
      cases n with
      | zero => exact ih hrest hu
      | succ n => exact hblank (n + 1)

theorem commentsOf_eq (tokens : List Token) :
    commentsOf tokens = (lexemesOf tokens).filterMap TokenKind.comment? := by
  rw [commentsOf, lexemesOf, List.filterMap_filter, List.filterMap_map]
  refine List.filterMap_congr fun t _ => ?_
  cases h : t.kind <;> simp [h, TokenKind.comment?, TokenKind.isSemicolon]

/-- The comments of the text of an output are its own. -/
theorem commentsOf_chars (hlegible : o.Legible) (hapart : o.Apart none) :
    commentsOf (tokensFrom p semi o.chars) = o.comments := by
  have hinks := inksOf_chars hlegible hapart (List.forall_mem_nil _)
  rw [List.nil_append] at hinks
  rw [commentsOf_eq, lexemesOf_tokensFrom, hinks, List.filterMap_append]
  exact (List.append_nil _).trans (commentInks_inksFrom hlegible (List.forall_mem_nil _))

end Print

end HandlerSplit
