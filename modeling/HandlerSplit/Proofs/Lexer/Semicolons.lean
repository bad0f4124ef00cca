import HandlerSplit.Proofs.Lexer.Coverage
/-!
# Inserted semicolons

The tokens of the grammar are those that are neither comments nor inserted semicolons. A semicolon
is inserted between two of them if the first may end a statement and a newline stands anywhere
between them, in a comment or not, or if nothing but the end of input follows (`InsertsSemicolons`).
The flag of the scanner tells whether the last such token still waits for its semicolon, so from
every state of the scanner on, the next such token tells how many semicolons were inserted before it
(`Next`).
-/

namespace HandlerSplit

/-! ## Tokens between those of the grammar -/

/-- Inserted semicolons. -/
def TokenKind.isInserted : TokenKind → Bool
  | semicolon auto => auto
  | _ => false

/-- Tokens that stand between those of the grammar: comments and inserted semicolons. -/
def TokenKind.isFiller (kind : TokenKind) : Bool :=
  kind.isTrivia || kind.isInserted

/-- How many semicolons were inserted. -/
def insertions (ts : List Token) : Nat :=
  ts.countP (·.kind.isInserted)

theorem isInserted_eq_true {kind : TokenKind} :
    kind.isInserted = true ↔ kind = .semicolon true := by
  cases kind <;> simp [TokenKind.isInserted]

theorem isFiller_of_isTrivia {kind : TokenKind} (h : kind.isTrivia = true) : kind.isFiller = true :=
  Bool.or_eq_true_iff.mpr (.inl h)

theorem insertions_cons_of_isTrivia {t : Token} {ts : List Token} (h : t.kind.isTrivia = true) :
    insertions (t :: ts) = insertions ts := by
  refine List.countP_cons_of_neg fun hinserted => ?_
  rw [isInserted_eq_true.mp hinserted] at h
  cases h

/-- Where a list is cut behind fillers, another token of the grammar is the one behind them or comes
later. -/
theorem eq_or_later_of_fillers {fillers tail left right : List Token} {t u : Token}
    (hfillers : ∀ f ∈ fillers, f.kind.isFiller = true) (hu : u.kind.isFiller = false)
    (h : fillers ++ t :: tail = left ++ u :: right) :
    (fillers = left ∧ t = u ∧ tail = right) ∨
      ∃ later, left = fillers ++ t :: later ∧ tail = later ++ u :: right := by
  induction fillers generalizing left with
  | nil =>
    cases left with
    | nil =>
      obtain ⟨rfl, rfl⟩ := List.cons.inj h
      exact .inl ⟨rfl, rfl, rfl⟩
    | cons x left =>
      obtain ⟨rfl, rfl⟩ := List.cons.inj h
      exact .inr ⟨left, rfl, rfl⟩
  | cons f fillers ih =>
    obtain ⟨hf, hfillers⟩ := List.forall_mem_cons.mp hfillers
    cases left with
    | nil =>
      obtain ⟨rfl, -⟩ := List.cons.inj h
      rw [hu] at hf
      cases hf
    | cons x left =>
      obtain ⟨rfl, htail⟩ := List.cons.inj h
      rcases ih hfillers htail with ⟨rfl, rfl, rfl⟩ | ⟨later, rfl, rfl⟩
      · exact .inl ⟨rfl, rfl, rfl⟩
      · exact .inr ⟨later, rfl, rfl⟩

/-! ## The next token of the grammar -/

/-- From a place on, the scanner passes the tokens `passed` and comes to a token of the grammar,
which stands behind `gap`. -/
structure Next (p : Place) (semi : Bool) (cs gap text rest : List Char) (kind : TokenKind)
    (passed : List Token) : Prop where
  source : cs = gap ++ text ++ rest
  tokens : tokensFrom p semi cs = passed ++ Token.at (p.after gap) kind text ::
    if kind = .eof then [] else tokensFrom (p.after (gap ++ text)) kind.endsStatement rest
  fillers : ∀ f ∈ passed, f.kind.isFiller = true
  grammatical : kind.isFiller = false
  insertions_eq : insertions passed = if semi = true ∧ (kind = .eof ∨ '\n' ∈ gap) then 1 else 0

namespace Next

variable {p : Place} {semi semi' : Bool} {cs gap text rest : List Char} {kind : TokenKind}
  {passed : List Token} (skipped : List Char) (fillers : List Token)

/-- Behind a text of fillers that insert as many semicolons as its newlines tell. -/
theorem behind (h : Next (p.after skipped) semi' cs gap text rest kind passed)
    (htokens : tokensFrom p semi (skipped ++ cs) =
      fillers ++ tokensFrom (p.after skipped) semi' cs)
    (hfillers : ∀ f ∈ fillers, f.kind.isFiller = true)
    (hcount : (insertions fillers + if semi' = true ∧ (kind = .eof ∨ '\n' ∈ gap) then 1 else 0) =
      if semi = true ∧ (kind = .eof ∨ '\n' ∈ skipped ++ gap) then 1 else 0) :
    Next p semi (skipped ++ cs) (skipped ++ gap) text rest kind (fillers ++ passed) where
  source := by rw [h.source]; simp only [List.append_assoc]
  tokens := by rw [htokens, h.tokens]; simp only [Place.after_append, List.append_assoc]
  fillers := List.forall_mem_append.mpr ⟨hfillers, h.fillers⟩
  grammatical := h.grammatical
  insertions_eq := by
    rw [insertions, List.countP_append, ← insertions, ← insertions, h.insertions_eq, hcount]

/-- Behind a text that inserts nothing, and has no newline where one would insert a semicolon. -/
theorem pass (h : Next (p.after skipped) semi cs gap text rest kind passed)
    (htokens : tokensFrom p semi (skipped ++ cs) = fillers ++ tokensFrom (p.after skipped) semi cs)
    (hfillers : ∀ f ∈ fillers, f.kind.isFiller = true) (hnone : insertions fillers = 0)
    (hline : semi = true → '\n' ∉ skipped) :
    Next p semi (skipped ++ cs) (skipped ++ gap) text rest kind (fillers ++ passed) := by
  refine h.behind skipped fillers htokens hfillers ?_
  rw [hnone, Nat.zero_add]
  refine if_congr ?_ rfl rfl
  exact and_congr_right fun hsemi => by simp [hline hsemi]

/-- Behind a text that has a newline and inserts a semicolon. -/
theorem insert (h : Next (p.after skipped) false cs gap text rest kind passed)
    (htokens : tokensFrom p true (skipped ++ cs) = fillers ++ tokensFrom (p.after skipped) false cs)
    (hfillers : ∀ f ∈ fillers, f.kind.isFiller = true) (hone : insertions fillers = 1)
    (hline : '\n' ∈ skipped) :
    Next p true (skipped ++ cs) (skipped ++ gap) text rest kind (fillers ++ passed) := by
  refine h.behind skipped fillers htokens hfillers ?_
  rw [hone, if_neg (fun h => Bool.false_ne_true h.1),
    if_pos ⟨rfl, .inr (List.mem_append_left gap hline)⟩]

end Next

/-- From every state on, the scanner comes to a token of the grammar. -/
theorem exists_next (p : Place) (semi : Bool) (cs : List Char) :
    ∃ gap text rest kind passed, Next p semi cs gap text rest kind passed := by
  fun_induction tokensFrom p semi cs with
  | case1 p =>
    refine ⟨[], [], [], .eof, [Token.inserted p], rfl, ?_, List.forall_mem_singleton.mpr rfl, rfl,
      rfl⟩
    rw [tokensFrom]
    rfl
  | case2 p semi hsemi =>
    refine ⟨[], [], [], .eof, [], rfl, ?_, List.forall_mem_nil _, rfl, ?_⟩
    · rw [tokensFrom, if_neg hsemi]
      rfl
    · rw [if_neg fun h => hsemi h.1]
      rfl
  | case3 p c rest hnewline ih =>
    obtain ⟨gap, text, rest', kind, passed, ih⟩ := ih
    obtain rfl := beq_iff_eq.mp hnewline
    refine ⟨_, _, _, _, _, ih.insert ['\n'] [Token.inserted p] ?_
      (List.forall_mem_singleton.mpr rfl) rfl (List.mem_singleton_self _)⟩
    rw [List.singleton_append, tokensFrom]
    rfl
  | case4 p semi c rest hnewline hsemi ih =>
    obtain ⟨gap, text, rest', kind, passed, ih⟩ := ih
    obtain rfl := beq_iff_eq.mp hnewline
    obtain rfl := Bool.eq_false_iff.mpr hsemi
    refine ⟨_, _, _, _, _, ih.pass ['\n'] [] ?_ (List.forall_mem_nil _) rfl
      fun h => absurd h Bool.false_ne_true⟩
    rw [List.singleton_append, tokensFrom]
    rfl
  | case5 p semi c rest hnewline hblank ih =>
    obtain ⟨gap, text, rest', kind, passed, ih⟩ := ih
    refine ⟨_, _, _, _, _, ih.pass [c] [] ?_ (List.forall_mem_nil _) rfl
      fun _ hline => hnewline (beq_iff_eq.mpr (List.mem_singleton.mp hline).symm)⟩
    rw [List.singleton_append, tokensFrom, if_neg hnewline, if_pos hblank]
    rfl
  | case6 p semi c rest hnewline hblank lexeme hlength token after htrivia hsemi ih =>
    obtain ⟨gap, text, rest', kind, passed, ih⟩ := ih
    obtain ⟨rfl, hline⟩ := Bool.and_eq_true_iff.mp hsemi
    rw [← scanLexeme_append c rest]
    refine ⟨_, _, _, _, _, ih.insert _ [token, Token.inserted after] ?_ ?_ ?_
      (List.contains_iff_mem.mp hline)⟩
    · rw [scanLexeme_append, tokensFrom, if_neg hnewline, if_neg hblank, if_pos htrivia,
        if_pos hsemi]
      rfl
    · exact List.forall_mem_cons.mpr
        ⟨isFiller_of_isTrivia htrivia, List.forall_mem_singleton.mpr rfl⟩
    · rw [insertions_cons_of_isTrivia htrivia]
      rfl
  | case7 p semi c rest hnewline hblank lexeme hlength token after htrivia hsemi ih =>
    obtain ⟨gap, text, rest', kind, passed, ih⟩ := ih
    rw [← scanLexeme_append c rest]
    refine ⟨_, _, _, _, _, ih.pass _ [token] ?_
      (List.forall_mem_singleton.mpr (isFiller_of_isTrivia htrivia))
      (insertions_cons_of_isTrivia htrivia) fun hs hline => hsemi ?_⟩
    · rw [scanLexeme_append, tokensFrom, if_neg hnewline, if_neg hblank, if_pos htrivia,
        if_neg hsemi]
      rfl
    · exact Bool.and_eq_true_iff.mpr ⟨hs, List.contains_iff_mem.mpr hline⟩
  | case8 p semi c rest hnewline hblank lexeme hlength token after htrivia ih =>
    have htext : lexeme.kind ≠ .eof ∧ lexeme.kind ≠ .semicolon true :=
      not_or.mp (scanLexeme_ne_textless c rest)
    refine ⟨[], lexeme.text, lexeme.rest, lexeme.kind, [], ?_, ?_, List.forall_mem_nil _, ?_, ?_⟩
    · exact (scanLexeme_append c rest).symm
    · rw [tokensFrom, if_neg hnewline, if_neg hblank, if_neg htrivia, if_neg htext.1]
      rfl
    · exact Bool.or_eq_false_iff.mpr ⟨Bool.eq_false_iff.mpr htrivia,
        Bool.eq_false_iff.mpr fun h => htext.2 (isInserted_eq_true.mp h)⟩
    · rw [if_neg fun h => h.2.elim htext.1 (List.not_mem_nil)]
      rfl

/-! ## The tokens of a source -/

/-- Semicolons are inserted where a token that may end a statement is the last of its line or of the
source, one at a time, and nowhere else. -/
structure InsertsSemicolons (source : List Char) (ts : List Token) : Prop where
  first : ∀ skipped u post, ts = skipped ++ u :: post → (∀ f ∈ skipped, f.kind.isFiller = true) →
    u.kind.isFiller = false → insertions skipped = 0
  between : ∀ pre t mid u post, ts = pre ++ t :: (mid ++ u :: post) → t.kind.isFiller = false →
    (∀ f ∈ mid, f.kind.isFiller = true) → u.kind.isFiller = false →
      ∃ gap, StandsBetween source gap t.span.stop u.span.start ∧
        insertions mid =
          if t.kind.endsStatement = true ∧ (u.kind = .eof ∨ '\n' ∈ gap) then 1 else 0

/-- Fillers before a token of the grammar are those that the scanner passes. -/
theorem Next.passed_eq {p : Place} {semi : Bool} {cs gap text rest : List Char} {kind : TokenKind}
    {passed fillers post : List Token} {u : Token} (h : Next p semi cs gap text rest kind passed)
    (htokens : tokensFrom p semi cs = fillers ++ u :: post)
    (hfillers : ∀ f ∈ fillers, f.kind.isFiller = true) (hu : u.kind.isFiller = false) :
    passed = fillers ∧ u = Token.at (p.after gap) kind text := by
  rcases eq_or_later_of_fillers h.fillers hu (h.tokens.symm.trans htokens) with
    ⟨rfl, rfl, -⟩ | ⟨later, rfl, -⟩
  · exact ⟨rfl, rfl⟩
  · have hnot := hfillers (Token.at (p.after gap) kind text) (by simp)
    rw [show (Token.at (p.after gap) kind text).kind.isFiller = false from h.grammatical] at hnot
    cases hnot

/-- Only the end of input has nothing behind it. -/
theorem tail_of_ne_nil {kind : TokenKind} {ts us : List Token}
    (h : (if kind = .eof then [] else ts) = us) (hne : us ≠ []) : ts = us := by
  split at h
  · exact absurd h.symm hne
  · exact h

/-- Between two tokens of the grammar, from any state of the scanner on. -/
theorem insertions_between {source before cs : List Char} {p : Place} {semi : Bool}
    {pre mid post : List Token} {t u : Token} (hp : Reaches source before cs p)
    (htokens : tokensFrom p semi cs = pre ++ t :: (mid ++ u :: post))
    (ht : t.kind.isFiller = false) (hmid : ∀ f ∈ mid, f.kind.isFiller = true)
    (hu : u.kind.isFiller = false) :
    ∃ gap, StandsBetween source gap t.span.stop u.span.start ∧
      insertions mid =
        if t.kind.endsStatement = true ∧ (u.kind = .eof ∨ '\n' ∈ gap) then 1 else 0 := by
  induction hlength : pre.length using Nat.strong_induction_on
    generalizing before cs p semi pre with
  | _ n ih =>
    obtain ⟨gap, text, rest, kind, passed, hnext⟩ := exists_next p semi cs
    have hcut := hnext.tokens.symm.trans htokens
    obtain rfl := hnext.source
    rcases eq_or_later_of_fillers hnext.fillers ht hcut with ⟨rfl, rfl, htail⟩ | ⟨later, rfl, htail⟩
    · -- The scanner has come to the first of the two : the next one it comes to is the second.
      have htail := tail_of_ne_nil htail
        (List.append_ne_nil_of_right_ne_nil mid (List.cons_ne_nil u post))
      obtain ⟨gap', text', rest', kind', passed', hnext'⟩ :=
        exists_next (p.after (gap ++ text)) kind.endsStatement rest
      obtain ⟨rfl, rfl⟩ := hnext'.passed_eq htail hmid hu
      obtain rfl := hnext'.source
      refine ⟨gap', ?_, hnext'.insertions_eq⟩
      rw [List.append_assoc gap' text' rest'] at hp
      have hbetween := hp.append.standsBetween
      rw [Place.after_append p gap text] at hbetween ⊢
      exact hbetween
    · have htail := tail_of_ne_nil htail
        (List.append_ne_nil_of_right_ne_nil later (List.cons_ne_nil t _))
      refine ih later.length ?_ hp.append htail rfl
      rw [← hlength, List.length_append, List.length_cons]
      omega

/-- Semicolons are inserted by Go's rule. -/
theorem tokenize_insertsSemicolons (source : List Char) :
    InsertsSemicolons source (tokenize source) := by
  obtain ⟨mark, hp, -⟩ := exists_reaches source
  refine ⟨fun skipped u post htokens hskipped hu => ?_,
    fun pre t mid u post htokens ht hmid hu => ?_⟩
  · obtain ⟨gap, text, rest, kind, passed, hnext⟩ :=
      exists_next (dropByteOrderMark source).1 false (dropByteOrderMark source).2
    obtain ⟨rfl, -⟩ := hnext.passed_eq htokens hskipped hu
    exact hnext.insertions_eq
  · exact insertions_between hp htokens ht hmid hu

end HandlerSplit
