import HandlerSplit.Proofs.Lexer.Legible
import HandlerSplit.Proofs.Lexer.Places
/-!
# The tokens of a source cover it

Reading tokens cuts a source into texts of tokens and gaps of spaces, tabs, carriage returns and
newlines (`Tiles`). The places of the tokens are those of their texts, so the tokens alone tell
where everything in the source stands (`Covers`).
-/

namespace HandlerSplit

open String (utf8Len)

/-! ## Texts of tokens -/

/-- The characters that may stand between tokens. -/
def gapChars : List Char :=
  [' ', '\t', '\r', '\n']

/-- What a token keeps of its text: a line comment goes without the white space at its end. -/
def keptText : List Char → List Char
  | '/' :: '/' :: cs => Text.trimEnd ('/' :: '/' :: cs)
  | cs => cs

/-- A kind of token and the text it is read from. The end of input and inserted semicolons, and no
other tokens, have no text. What is written for a token is what it keeps of its text, unless it is a
fault or inserted. -/
structure ReadFrom (kind : TokenKind) (text : List Char) : Prop where
  empty_iff : text = [] ↔ kind = .eof ∨ kind = .semicolon true
  kept : (∀ f, kind ≠ .fault f) → kind ≠ .semicolon true → kind.text.toList = keptText text

theorem readFrom_eof : ReadFrom .eof [] :=
  ⟨iff_of_true rfl (.inl rfl), fun _ _ => rfl⟩

theorem readFrom_inserted : ReadFrom (.semicolon true) [] :=
  ⟨iff_of_true rfl (.inr rfl), fun _ h => absurd rfl h⟩

/-- A token keeps the text it was read from, but for blanks at the end of a comment. -/
theorem keptText_scanLexeme {c : Char} {rest : List Char}
    (hfault : ∀ f, (scanLexeme c rest).kind ≠ .fault f) :
    (scanLexeme c rest).kind.text.toList = keptText (scanLexeme c rest).text := by
  rcases text_scanLexeme hfault with htext | ⟨u, -, htext, hkind⟩
  · rw [htext]
    unfold keptText
    split
    · rename_i u hslashes
      have happend := scanLexeme_append c rest
      rw [hslashes] at happend
      obtain ⟨rfl, hrest⟩ := List.cons.inj happend
      obtain ⟨ds, rfl⟩ : ∃ ds, rest = '/' :: ds := ⟨_, hrest.symm⟩
      -- A text that starts with two slashes has been read as a line comment, and is trimmed.
      have hline : (scanLexeme '/' ('/' :: ds)).kind.text.toList =
          Text.trimEnd (scanLexeme '/' ('/' :: ds)).text := by
        rw [scanLexeme_line]
        exact String.toList_ofList
      rw [← hslashes, ← hline, htext]
    · rfl
  · rw [htext, hkind]
    exact String.toList_ofList

/-- No lexeme is the end of input or an inserted semicolon. -/
theorem scanLexeme_ne_textless (c : Char) (rest : List Char) :
    ¬((scanLexeme c rest).kind = .eof ∨ (scanLexeme c rest).kind = .semicolon true) := by
  intro h
  have hfault : ∀ f, (scanLexeme c rest).kind ≠ .fault f := by
    rcases h with h | h <;> rw [h] <;> exact nofun
  obtain ⟨d, cs, htext, hscan⟩ := legible_scanLexeme hfault
  rcases h with h | h <;> rw [h] at htext hscan
  · cases htext
  · obtain ⟨rfl, rfl⟩ := List.cons.inj (htext : [';'] = d :: cs)
    cases hscan

/-- A token is read from its own text. -/
theorem readFrom_scanLexeme (c : Char) (rest : List Char) :
    ReadFrom (scanLexeme c rest).kind (scanLexeme c rest).text :=
  ⟨iff_of_false (scanLexeme_ne_nil c rest) (scanLexeme_ne_textless c rest),
    fun hfault _ => keptText_scanLexeme hfault⟩

/-! ## Texts and gaps in turn -/

/-- From a place on, a text is gaps and the texts of tokens in turn, up to the end of input. -/
inductive Tiles : Place → List Char → List Token → Prop
  | last {p : Place} (gap : List Char) (hgap : gap ⊆ gapChars) :
    Tiles p gap [Token.at (p.after gap) .eof []]
  | cons {p : Place} (gap text : List Char) {rest : List Char} {kind : TokenKind} {ts : List Token}
    (hgap : gap ⊆ gapChars) (heof : kind ≠ .eof) (hread : ReadFrom kind text)
    (hts : Tiles (p.after (gap ++ text)) rest ts) :
    Tiles p (gap ++ text ++ rest) (Token.at (p.after gap) kind text :: ts)

namespace Tiles

variable {p : Place} {cs : List Char} {ts : List Token}

/-- A gap may go on before a text. -/
theorem skip {c : Char} (hc : c ∈ gapChars) (h : Tiles (p.next c) cs ts) :
    Tiles p (c :: cs) ts := by
  cases h with
  | last _ hgap => exact .last (c :: cs) (List.cons_subset.mpr ⟨hc, hgap⟩)
  | cons gap text hgap heof hread hts =>
    exact .cons (c :: gap) text (List.cons_subset.mpr ⟨hc, hgap⟩) heof hread hts

/-- A semicolon may be inserted before a text. -/
theorem insert (h : Tiles p cs ts) : Tiles p cs (Token.inserted p :: ts) :=
  .cons [] [] (List.nil_subset _) nofun readFrom_inserted h

/-- A lexeme before a text. -/
theorem lexeme {c : Char} {rest : List Char}
    (h : Tiles (p.after (scanLexeme c rest).text) (scanLexeme c rest).rest ts) :
    Tiles p (c :: rest) (Token.at p (scanLexeme c rest).kind (scanLexeme c rest).text :: ts) := by
  have heof : (scanLexeme c rest).kind ≠ .eof := fun h => scanLexeme_ne_textless c rest (.inl h)
  have htiles : Tiles p ([] ++ _ ++ _) _ :=
    .cons [] _ (List.nil_subset _) heof (readFrom_scanLexeme c rest) h
  rwa [List.nil_append, scanLexeme_append] at htiles

end Tiles

/-- From anywhere on, the texts of tokens and the gaps between them make up the source. -/
theorem tokensFrom_tiles (p : Place) (semi : Bool) (cs : List Char) :
    Tiles p cs (tokensFrom p semi cs) := by
  fun_induction tokensFrom p semi cs with
  | case1 p => exact (Tiles.last [] (List.nil_subset _)).insert
  | case2 p semi hsemi => exact .last [] (List.nil_subset _)
  | case3 p c rest hnewline ih =>
    obtain rfl := beq_iff_eq.mp hnewline
    exact (ih.skip (by decide)).insert
  | case4 p semi c rest hnewline hsemi ih =>
    obtain rfl := beq_iff_eq.mp hnewline
    exact ih.skip (by decide)
  | case5 p semi c rest hnewline hblank ih =>
    have hc : c ∈ gapChars := by
      simp only [Bool.or_eq_true, beq_iff_eq] at hblank
      rcases hblank with (rfl | rfl) | rfl <;> decide
    exact ih.skip hc
  | case6 p semi c rest hnewline hblank lexeme hlength token after htrivia hsemi ih =>
    exact .lexeme ih.insert
  | case7 p semi c rest hnewline hblank lexeme hlength token after htrivia hsemi ih =>
    exact .lexeme ih
  | case8 p semi c rest hnewline hblank lexeme hlength token after htrivia ih => exact .lexeme ih

/-! ## The tokens of a source -/

/-- A token of a source, behind the text `before`. -/
structure Token.StandsBehind (t : Token) (source before : List Char) : Prop where
  text : before ++ t.text <+: source
  start : t.span.start = utf8Len before
  stop : t.span.stop = utf8Len (before ++ t.text)
  line : t.span.line = 1 + before.count '\n'
  column : t.span.column = 1 + (lastLine (dropByteOrderMark before).2).length
  endLine : t.endLine = 1 + (before ++ t.text).count '\n'
  read : ReadFrom t.kind t.text

/-- The tokens of a source lie in it one behind the other. What they leave are blanks and a byte
order mark. -/
structure Covers (source : List Char) (ts : List Token) : Prop where
  stands : ∀ t ∈ ts, ∃ before, t.StandsBehind source before
  ordered : ts.Pairwise fun t u => t.span.stop ≤ u.span.start
  before : ∀ t ∈ ts.head?, ∃ gap, StandsBetween source gap 0 t.span.start ∧
    (dropByteOrderMark gap).2 ⊆ gapChars
  between : ts.IsChain fun t u => ∃ gap, StandsBetween source gap t.span.stop u.span.start ∧
    gap ⊆ gapChars
  /-- The end of input comes last and nowhere else, and is empty at the end of the source. -/
  ends : ∃ us t, ts = us ++ [t] ∧ (∀ u ∈ us, u.kind ≠ .eof) ∧ t.kind = .eof ∧
    t.span.start = utf8Len source ∧ t.span.stop = utf8Len source

namespace Reaches

variable {source before gap text rest : List Char} {p : Place} {kind : TokenKind}

/-- The next token, behind a gap. -/
theorem standsBehind (h : Reaches source before (gap ++ text ++ rest) p)
    (hread : ReadFrom kind text) :
    (Token.at (p.after gap) kind text).StandsBehind source (before ++ gap) := by
  rw [List.append_assoc] at h
  have hplace := h.append.place_eq
  have hafter := h.append.append.place_eq
  refine ⟨?_, ?_, ?_, ?_, ?_, ?_, hread⟩
  · rw [h.append.source]
    exact (List.append_assoc .. ▸ List.prefix_append _ rest)
  · exact congrArg Place.offset hplace
  · exact congrArg Place.offset hafter
  · exact congrArg Place.line hplace
  · exact congrArg Place.column hplace
  · show (p.after gap).line + _ = _
    rw [hplace, List.count_append, ← Nat.add_assoc]
    rfl

end Reaches

namespace Tiles

variable {source before cs : List Char} {p : Place} {ts : List Token}

/-- Every token stands in the source, and no earlier than where reading started. -/
theorem stands (h : Tiles p cs ts) (hp : Reaches source before cs p) :
    ∀ t ∈ ts, ∃ gap, t.StandsBehind source (before ++ gap) := by
  induction h generalizing before with
  | @last p gap hgap =>
    refine List.forall_mem_singleton.mpr ⟨gap, ?_⟩
    have hend : Reaches source before (gap ++ [] ++ []) p := by simpa using hp
    exact hend.standsBehind readFrom_eof
  | @cons p gap text rest kind ts hgap heof hread hts ih =>
    refine List.forall_mem_cons.mpr ⟨⟨gap, hp.standsBehind hread⟩, fun t ht => ?_⟩
    obtain ⟨gap', hstands⟩ := ih hp.append t ht
    exact ⟨gap ++ text ++ gap', by rwa [← List.append_assoc]⟩

/-- There is a first token, behind a gap. -/
theorem first (h : Tiles p cs ts) :
    ∃ t us gap rest, ts = t :: us ∧ cs = gap ++ rest ∧ gap ⊆ gapChars ∧
      t.span.start = (p.after gap).offset := by
  cases h with
  | @last _ gap hgap => exact ⟨_, _, cs, [], rfl, (List.append_nil cs).symm, hgap, rfl⟩
  | @cons _ gap text rest kind ts hgap heof hread hts =>
    exact ⟨_, _, gap, text ++ rest, rfl, List.append_assoc .., hgap, rfl⟩

/-- There are only gaps between tokens. -/
theorem between (h : Tiles p cs ts) (hp : Reaches source before cs p) :
    ts.IsChain fun t u => ∃ gap, StandsBetween source gap t.span.stop u.span.start ∧
      gap ⊆ gapChars := by
  induction h generalizing before with
  | last gap hgap => exact .singleton _
  | @cons p gap text rest kind ts hgap heof hread hts ih =>
    obtain ⟨u, us, gap', rest', rfl, rfl, hblank, hstart⟩ := hts.first
    refine .cons_cons ⟨gap', ?_, hblank⟩ (ih hp.append)
    have hbetween := hp.append.standsBetween
    rw [← hstart, Place.after_append] at hbetween
    exact hbetween

/-- No token starts before an earlier one stops. -/
theorem ordered (h : Tiles p cs ts) (hp : Reaches source before cs p) :
    ts.Pairwise fun t u => t.span.stop ≤ u.span.start := by
  induction h generalizing before with
  | last gap hgap => exact List.pairwise_singleton _ _
  | @cons p gap text rest kind ts hgap heof hread hts ih =>
    refine .cons (fun u hu => ?_) (ih hp.append)
    obtain ⟨gap', hu⟩ := hts.stands hp.append u hu
    calc (Token.at (p.after gap) kind text).span.stop
        = utf8Len (before ++ gap ++ text) := (hp.standsBehind hread).stop
      _ = utf8Len (before ++ (gap ++ text)) := by rw [List.append_assoc]
      _ ≤ utf8Len (before ++ (gap ++ text) ++ gap') := by
        rw [String.utf8Len_append _ gap']
        exact Nat.le_add_right _ _
      _ = u.span.start := hu.start.symm

/-- The end of input comes last and nowhere else, behind everything. -/
theorem ends (h : Tiles p cs ts) (hp : Reaches source before cs p) :
    ∃ us t, ts = us ++ [t] ∧ (∀ u ∈ us, u.kind ≠ .eof) ∧ t.kind = .eof ∧
      t.span.start = utf8Len source ∧ t.span.stop = utf8Len source := by
  induction h generalizing before with
  | @last p gap hgap =>
    have hend : p.after gap = placeBehind source := by
      rw [hp.source]
      exact hp.places gap [] (List.append_nil gap).symm
    have hoffset : (p.after gap).offset = utf8Len source := congrArg Place.offset hend
    exact ⟨[], _, rfl, List.forall_mem_nil _, rfl, hoffset, hoffset⟩
  | @cons p gap text rest kind ts hgap heof hread hts ih =>
    obtain ⟨us, t, rfl, hus, ht⟩ := ih hp.append
    exact ⟨_ :: us, t, rfl, List.forall_mem_cons.mpr ⟨heof, hus⟩, ht⟩

end Tiles

/-- The tokens of a source cover it. -/
theorem tokenize_covers (source : List Char) : Covers source (tokenize source) := by
  obtain ⟨mark, hp, hkept⟩ := exists_reaches source
  have htiles : Tiles (dropByteOrderMark source).1 (dropByteOrderMark source).2 (tokenize source) :=
    tokensFrom_tiles _ _ _
  refine ⟨fun t ht => ?_, htiles.ordered hp, ?_, htiles.between hp, htiles.ends hp⟩
  · obtain ⟨gap, h⟩ := htiles.stands hp t ht
    exact ⟨mark ++ gap, h⟩
  · obtain ⟨t, us, gap, rest, hts, hrest, hgap, hstart⟩ := htiles.first
    rw [hts]
    rintro _ ⟨⟩
    refine ⟨mark ++ gap, ⟨[], rest, ?_, rfl, ?_⟩, ?_⟩
    · rw [List.nil_append, List.append_assoc, ← hrest]
      exact hp.source
    · rw [hstart, hp.places gap rest hrest]
      rfl
    · rw [hkept gap rest hrest]
      exact hgap

end HandlerSplit
