import HandlerSplit.Proofs.Lexer.Cutting
import Mathlib.Data.List.DropRight
/-!
# Reading a token from its own text

A token is legible if its text, read by itself, gives the token back. The tokens of a source text
are legible. A legible token is also read from a text that starts with its own and is clear of the
token behind it.
-/

namespace HandlerSplit

/-- A token that is read from its own text. -/
def TokenKind.Legible (k : TokenKind) : Prop :=
  ∃ c cs, k.text.toList = c :: cs ∧ scanLexeme c cs = ⟨k, c :: cs, []⟩

/-- What can be read from its own text is no fault. -/
theorem TokenKind.Legible.ne_fault {k : TokenKind} (hk : k.Legible) (f : LexFault) :
    k ≠ .fault f := by
  rintro rfl
  obtain ⟨c, cs, htext, -⟩ := hk
  cases htext

/-! ## The branches of the scanner -/

/-- A text that starts with neither a comment nor a quoted literal. -/
def StartsPlain (c : Char) (rest : List Char) : Prop :=
  c ∉ ['"', '\x60', '\''] ∧ (c = '/' → ∀ d ∈ rest.head?, d ≠ '/' ∧ d ≠ '*')

/-- Whether a number starts with `c`, before `rest`. -/
def startsNumber (c : Char) (rest : List Char) : Bool :=
  c.isDigit || (c == '.' && (rest.head?.map Char.isDigit).getD false)

/-- A plain start is scanned as a number, a word, a literal or a mark. -/
theorem scanLexeme_of_plain {c : Char} {rest : List Char} (h : StartsPlain c rest) :
    scanLexeme c rest =
      if startsNumber c rest then scanNumber (c :: rest)
      else if Text.startsIdent c then
        let word := (c :: rest).takeWhile Text.continuesIdent
        ⟨wordKind word, word, (c :: rest).dropWhile Text.continuesIdent⟩
      else
        match operator? (c :: rest) with
        | some (kind, n) => ⟨kind, (c :: rest).take n, (c :: rest).drop n⟩
        | none => ⟨.fault (.strayCharacter c), [c], rest⟩ := by
  obtain ⟨hquote, hslash⟩ := h
  unfold scanLexeme
  split
  · exact absurd rfl (hslash rfl _ rfl).1
  · exact absurd rfl (hslash rfl _ rfl).2
  · exact absurd (by decide) hquote
  · exact absurd (by decide) hquote
  · exact absurd (by decide) hquote
  · rfl

theorem startsPlain_of_startsNumber {c : Char} {rest : List Char}
    (h : startsNumber c rest = true) : StartsPlain c rest := by
  have hc : c.isDigit = true ∨ c = '.' := by
    rw [startsNumber, Bool.or_eq_true, Bool.and_eq_true, beq_iff_eq] at h
    exact h.imp_right And.left
  refine ⟨fun hquote => ?_, ?_⟩
  · simp only [List.mem_cons, List.not_mem_nil, or_false] at hquote
    rcases hquote with rfl | rfl | rfl <;> exact absurd hc (by decide)
  · rintro rfl
    exact absurd hc (by decide)

/-- Where a number starts, the rest of the text need not be known. -/
theorem startsNumber_append {c : Char} {cs : List Char} (h : startsNumber c cs = true)
    (rest : List Char) : startsNumber c (cs ++ rest) = true := by
  cases cs with
  | nil =>
    rw [startsNumber, Bool.or_eq_true] at h ⊢
    refine h.imp_right fun hpoint => ?_
    rw [List.head?_nil, Option.map_none, Option.getD_none, Bool.and_false] at hpoint
    cases hpoint
  | cons d ds => exact h

/-- Two slashes start a comment to the end of the line. -/
theorem scanLexeme_line (rest : List Char) :
    scanLexeme '/' ('/' :: rest) =
      let text := ('/' :: '/' :: rest).takeWhile (· != '\n')
      ⟨.comment (String.ofList (Text.trimEnd text)), text,
        ('/' :: '/' :: rest).dropWhile (· != '\n')⟩ :=
  rfl

/-- A slash and a star start a comment to the next star and slash. -/
theorem scanLexeme_block (body : List Char) :
    scanLexeme '/' ('*' :: body) =
      match takeBlockComment body with
      | some (taken, left) =>
        ⟨.comment (String.ofList ('/' :: '*' :: taken)), '/' :: '*' :: taken, left⟩
      | none => ⟨.fault .commentOpen, '/' :: '*' :: body, []⟩ :=
  rfl

/-- A text starts plainly, or with a comment, or with a quote. -/
theorem startsPlain_or (c : Char) (rest : List Char) :
    StartsPlain c rest ∨ (c = '/' ∧ ∃ d ds, rest = d :: ds ∧ (d = '/' ∨ d = '*')) ∨
      c ∈ ['"', '\x60', '\''] := by
  by_cases hquote : c ∈ ['"', '\x60', '\'']
  · exact .inr (.inr hquote)
  · cases rest with
    | nil => exact .inl ⟨hquote, fun _ => nofun⟩
    | cons d ds =>
      by_cases hcomment : c = '/' ∧ (d = '/' ∨ d = '*')
      · exact .inr (.inl ⟨hcomment.1, d, ds, rfl, hcomment.2⟩)
      · refine .inl ⟨hquote, fun hc e he => ?_⟩
        cases he
        exact not_or.mp fun h => hcomment ⟨hc, h⟩

/-! ## The scanner -/

/-- A token that the text behind it does not go on with. -/
def TokenKind.ClearOf (k : TokenKind) (rest : List Char) : Prop :=
  ∀ d ∈ rest.head?, k.joins d = false ∧ k.fuses d = false

/-- The characters that only a line comment reads on. -/
def endsAll (c : Char) : Bool :=
  [' ', '\t', '\n', ',', ';', ')', ']', '}'].contains c

/-- What ends every token joins none but a comment to the end of the line. -/
theorem joins_of_endsAll {k : TokenKind} {c : Char} (hline : k.isLineComment = false)
    (hc : endsAll c = true) : k.joins c = false := by
  simp only [endsAll, List.contains_iff_mem, List.mem_cons, List.not_mem_nil, or_false] at hc
  have hident : Text.continuesIdent c = false := by
    rcases hc with rfl | rfl | rfl | rfl | rfl | rfl | rfl | rfl <;> decide
  cases k with
  | ident n => exact hident
  | literal kind t => cases kind <;> first | exact hident | rfl
  | keyword w => exact hident
  | op o =>
    rcases hc with rfl | rfl | rfl | rfl | rfl | rfl | rfl | rfl <;> cases o <;> decide
  | opAssign o => rfl
  | punct m =>
    rcases hc with rfl | rfl | rfl | rfl | rfl | rfl | rfl | rfl <;> cases m <;> decide
  | semicolon auto => rfl
  | comment t => rw [TokenKind.joins, hline]; rfl
  | eof => rfl
  | fault f => rfl

theorem fuses_of_endsAll (k : TokenKind) {c : Char} (hc : endsAll c = true) :
    k.fuses c = false := by
  have hnone : c ≠ '.' ∧ c ≠ '+' ∧ c ≠ '-' := by
    refine ⟨?_, ?_, ?_⟩ <;> rintro rfl <;> cases hc
  cases k with
  | literal kind t => cases kind <;> simp [TokenKind.fuses, hnone]
  | _ => rfl

/-- A token is clear of a text that starts with a character that only a line comment reads on. -/
theorem TokenKind.clearOf_of_endsAll {k : TokenKind} (hline : k.isLineComment = false) {c : Char}
    (hc : endsAll c = true) (rest : List Char) : k.ClearOf (c :: rest) := by
  rintro _ ⟨⟩
  exact ⟨joins_of_endsAll hline hc, fuses_of_endsAll k hc⟩

/-- What is taken does not depend on what follows, as long as it stops there. -/
theorem takeWhile_swap {p : Char → Bool} {u rest rest' : List Char}
    (htake : (u ++ rest).takeWhile p = u) (hrest : ∀ d ∈ rest'.head?, p d = false) :
    (u ++ rest').takeWhile p = u ∧ (u ++ rest').dropWhile p = rest' := by
  have hall : ∀ d ∈ u, p d = true := by
    intro d hd
    rw [← htake] at hd
    exact List.all_eq_true.mp List.all_takeWhile d hd
  have hown : rest'.takeWhile p = [] ∧ rest'.dropWhile p = rest' := by
    cases rest' with
    | nil => exact ⟨rfl, rfl⟩
    | cons d ds =>
      have hd := hrest d rfl
      exact ⟨List.takeWhile_cons_of_neg (by simp [hd]), List.dropWhile_cons_of_neg (by simp [hd])⟩
  rw [List.takeWhile_append_of_pos hall, List.dropWhile_append_of_pos hall, hown.1, hown.2,
    List.append_nil]
  exact ⟨rfl, rfl⟩

/-- Only what continues an identifier joins a word. -/
theorem joins_wordKind (word : List Char) (d : Char) :
    (wordKind word).joins d = Text.continuesIdent d := by
  simp only [wordKind]
  split <;> rfl

theorem startsIdent_of_isDigit {c : Char} (h : c.isDigit = true) : Text.startsIdent c = false := by
  simp only [Char.isDigit, Bool.and_eq_true, decide_eq_true_eq, ge_iff_le,
    UInt32.le_iff_toNat_le] at h
  obtain ⟨hlow, hhigh⟩ := h
  have hlow' : 48 ≤ c.val.toNat := hlow
  have hhigh' : c.val.toNat ≤ 57 := hhigh
  have hascii : c.toNat < 0x80 := Nat.lt_of_le_of_lt hhigh' (by decide)
  rw [Text.startsIdent, Text.isLetter, if_pos hascii, Bool.or_eq_false_iff]
  constructor
  · refine Bool.eq_false_iff.mpr fun hunder => ?_
    rw [beq_iff_eq] at hunder
    subst hunder
    exact absurd hhigh' (by decide)
  · change (decide (c.val ≥ 65 ∧ c.val ≤ 90) ||
      decide (c.val ≥ 97) && decide (c.val ≤ 122)) = false
    simp only [Bool.or_eq_false_iff, Bool.and_eq_false_iff, decide_eq_false_iff_not, ge_iff_le,
      UInt32.le_iff_toNat_le]
    constructor
    · rintro ⟨h, -⟩
      have h' : 65 ≤ c.val.toNat := h
      omega
    · refine .inl fun h => ?_
      have h' : 97 ≤ c.val.toNat := h
      omega

theorem dropEndWhile_cons {p : Char → Bool} {c : Char} (hc : p c = false) (cs : List Char) :
    Text.dropEndWhile p (c :: cs) = c :: Text.dropEndWhile p cs := by
  rw [Text.dropEndWhile, Text.dropEndWhile, List.reverse_cons, List.dropWhile_append]
  split
  · rename_i hempty
    rw [List.isEmpty_iff.mp hempty, List.dropWhile_cons_of_neg (by simp [hc])]
    rfl
  · rw [List.reverse_append]
    rfl

/-- A comment that starts with two slashes ends with its line. -/
theorem isLineComment_of_slashes (u : List Char) :
    (TokenKind.comment (String.ofList (Text.trimEnd ('/' :: '/' :: u)))).isLineComment = true := by
  rw [TokenKind.isLineComment, String.toList_ofList, Text.trimEnd, dropEndWhile_cons rfl,
    dropEndWhile_cons rfl]
  rfl

section Swap

variable {c : Char} {u rest rest' : List Char} {k : TokenKind}

/-- A number of the scanner. -/
theorem scanDigits_swap (hnumber : startsNumber c (u ++ rest) = true)
    (h : scanNumber (c :: (u ++ rest)) = ⟨k, c :: u, rest⟩) (hrest : k.ClearOf rest') :
    scanLexeme c (u ++ rest') = ⟨k, c :: u, rest'⟩ := by
  have hown : scanNumber (c :: (u ++ rest')) = ⟨k, c :: u, rest'⟩ :=
    scanNumber_swap (List.cons_ne_nil c u) h hrest
  rw [startsNumber, Bool.or_eq_true, Bool.and_eq_true, beq_iff_eq] at hnumber
  have hnumber' : startsNumber c (u ++ rest') = true := by
    rw [startsNumber, Bool.or_eq_true, Bool.and_eq_true, beq_iff_eq]
    refine hnumber.imp_right fun ⟨hpoint, hdigit⟩ => ⟨hpoint, ?_⟩
    cases u with
    | nil =>
      cases rest with
      | nil => cases hdigit
      | cons d ds =>
        have hd : d.isDigit = true := hdigit
        have htaken : (takeNumber false .float false (d :: ds)).2.1 ≠ [] :=
          takeNumber_ne_nil (by rw [hd, Bool.true_or])
        subst hpoint
        have htext : '.' :: (takeNumber false .float false (d :: ds)).2.1 = ['.'] :=
          congrArg Lexeme.text h
        exact absurd (List.cons.inj htext).2 htaken
    | cons d ds => exact hdigit
  rw [scanLexeme_of_plain (startsPlain_of_startsNumber hnumber'), if_pos hnumber', hown]

/-- A word of the scanner. -/
theorem scanWord_swap (hident : Text.startsIdent c = true)
    (htake : (c :: (u ++ rest)).takeWhile Text.continuesIdent = c :: u)
    (hrest : (wordKind (c :: u)).ClearOf rest') :
    scanLexeme c (u ++ rest') = ⟨wordKind (c :: u), c :: u, rest'⟩ := by
  have hstops : ∀ d ∈ rest'.head?, Text.continuesIdent d = false := by
    intro d hd
    rw [← joins_wordKind (c :: u)]
    exact (hrest d hd).1
  have hplain : StartsPlain c (u ++ rest') := by
    refine ⟨fun hquote => ?_, ?_⟩
    · simp only [List.mem_cons, List.not_mem_nil, or_false] at hquote
      rcases hquote with rfl | rfl | rfl <;> exact absurd hident (by decide)
    · rintro rfl
      exact absurd hident (by decide)
  have hnumber : ¬startsNumber c (u ++ rest') = true := by
    rw [startsNumber, Bool.or_eq_true, Bool.and_eq_true]
    rintro (hdigit | ⟨hpoint, -⟩)
    · rw [startsIdent_of_isDigit hdigit] at hident
      cases hident
    · rw [beq_iff_eq] at hpoint
      subst hpoint
      exact absurd hident (by decide)
  obtain ⟨htake', hdrop'⟩ := takeWhile_swap (u := c :: u) htake hstops
  rw [scanLexeme_of_plain hplain, if_neg hnumber, if_pos hident]
  simp only [List.cons_append] at htake' hdrop'
  simp only [htake', hdrop']

/-- A mark of the scanner. -/
theorem scanMark_swap (hplain : StartsPlain c (u ++ rest))
    (hnumber : startsNumber c (u ++ rest) = false) (hident : Text.startsIdent c = false) {n : Nat}
    (hop : operator? (c :: (u ++ rest)) = some (k, n)) (htext : (c :: (u ++ rest)).take n = c :: u)
    (hrest : k.ClearOf rest') : scanLexeme c (u ++ rest') = ⟨k, c :: u, rest'⟩ := by
  obtain ⟨hmark, hkind, hown, hlength⟩ := operator?_text hop
  rw [htext] at hkind
  have hop' : operator? (c :: (u ++ rest')) = some (k, (c :: u).length) := by
    rw [← List.cons_append, ← hkind]
    exact operator?_append hmark (by rw [hown, hlength]) fun d hd => (hrest d hd).1
  have hplain' : StartsPlain c (u ++ rest') := by
    refine ⟨hplain.1, ?_⟩
    rintro rfl d hd
    cases u with
    | nil =>
      rw [hkind] at hown
      obtain ⟨rfl, -⟩ := Prod.mk.inj (Option.some.inj hown)
      have hjoins : BinaryOp.quo.joins.contains d = false := (hrest d hd).1
      simp [BinaryOp.joins] at hjoins
      exact ⟨hjoins.1, hjoins.2.1⟩
    | cons e es => exact hplain.2 rfl d hd
  have hnumber' : ¬startsNumber c (u ++ rest') = true := by
    rw [startsNumber, Bool.or_eq_false_iff] at hnumber
    rw [startsNumber, hnumber.1, Bool.false_or, Bool.and_eq_true, beq_iff_eq]
    rintro ⟨rfl, hdigit⟩
    cases u with
    | nil =>
      rw [hkind] at hown
      obtain ⟨rfl, -⟩ := Prod.mk.inj (Option.some.inj hown)
      cases rest' with
      | nil => cases hdigit
      | cons d ds =>
        have hjoins : (d == '.' || d.isDigit) = false := (hrest d rfl).1
        have hdigit' : d.isDigit = true := hdigit
        rw [hdigit', Bool.or_true] at hjoins
        cases hjoins
    | cons e es =>
      have hhead : (((e :: es) ++ rest).head?.map Char.isDigit).getD false = true := hdigit
      rw [hhead] at hnumber
      cases hnumber.2
  rw [scanLexeme_of_plain hplain', if_neg hnumber', if_neg (by simp [hident]), hop']
  have htake : (c :: (u ++ rest')).take (c :: u).length = c :: u := List.take_left
  have hdrop : (c :: (u ++ rest')).drop (c :: u).length = rest' := List.drop_left
  simp only [htake, hdrop]

/-- A comment is scanned as it is before any text that is clear of it. -/
theorem scanComment_swap {d : Char} {ds : List Char} (hcs : u ++ rest = d :: ds)
    (hd : d = '/' ∨ d = '*') (hfault : ∀ f, k ≠ .fault f)
    (h : scanLexeme '/' (u ++ rest) = ⟨k, '/' :: u, rest⟩) (hrest : k.ClearOf rest') :
    scanLexeme '/' (u ++ rest') = ⟨k, '/' :: u, rest'⟩ := by
  rcases u with _ | ⟨e, u⟩
  · have htext : (scanLexeme '/' (d :: ds)).text = ['/'] := by
      rw [← hcs, h]
    rcases hd with rfl | rfl
    · cases htext
    · rw [scanLexeme_block] at htext
      split at htext <;> cases htext
  obtain ⟨rfl, rfl⟩ := List.cons.inj hcs
  rcases hd with rfl | rfl
  · rw [List.cons_append, scanLexeme_line] at h ⊢
    simp only [Lexeme.mk.injEq] at h
    obtain ⟨rfl, htake, -⟩ := h
    have hends : ∀ d ∈ rest'.head?, (d != '\n') = false := by
      intro d hd
      have hjoins := (hrest d hd).1
      rw [htake, TokenKind.joins, isLineComment_of_slashes] at hjoins
      exact hjoins
    obtain ⟨htake', hdrop'⟩ := takeWhile_swap (u := '/' :: '/' :: u) htake hends
    simp only [List.cons_append] at htake' hdrop'
    simp only [htake, htake', hdrop']
  · rw [List.cons_append, scanLexeme_block] at h ⊢
    split at h
    · rename_i taken left htaken
      simp only [Lexeme.mk.injEq, List.cons.injEq, true_and] at h
      obtain ⟨rfl, rfl, rfl⟩ := h
      rw [takeBlockComment_swap rest' htaken]
    · simp only [Lexeme.mk.injEq] at h
      exact absurd h.1.symm (hfault _)

/-- A quoted literal is scanned as it is before any text. -/
theorem scanQuoted_swap (hquote : c ∈ ['"', '\x60', '\'']) (hfault : ∀ f, k ≠ .fault f)
    (h : scanLexeme c (u ++ rest) = ⟨k, c :: u, rest⟩) :
    scanLexeme c (u ++ rest') = ⟨k, c :: u, rest'⟩ := by
  simp only [List.mem_cons, List.not_mem_nil, or_false] at hquote
  rcases hquote with rfl | rfl | rfl
  · rw [scanLexeme] at h ⊢
    split at h
    · rename_i taken left htaken
      simp only [Lexeme.mk.injEq, List.cons.injEq, true_and] at h
      obtain ⟨rfl, rfl, rfl⟩ := h
      rw [takeQuoted_swap rest' htaken]
    · simp only [Lexeme.mk.injEq] at h
      exact absurd h.1.symm (hfault _)
  · rw [scanLexeme] at h ⊢
    split at h
    · rename_i taken left htaken
      simp only [Lexeme.mk.injEq, List.cons.injEq, true_and] at h
      obtain ⟨rfl, rfl, rfl⟩ := h
      rw [takeRaw_swap rest' htaken]
    · simp only [Lexeme.mk.injEq] at h
      exact absurd h.1.symm (hfault _)
  · rw [scanLexeme] at h ⊢
    split at h
    · rename_i taken left htaken
      simp only [Lexeme.mk.injEq, List.cons.injEq, true_and] at h
      obtain ⟨rfl, rfl, rfl⟩ := h
      rw [takeQuoted_swap rest' htaken]
    · simp only [Lexeme.mk.injEq] at h
      exact absurd h.1.symm (hfault _)

end Swap

/-- Which lexeme stands at the start of a text does not depend on what follows it, as long as the
text does not go on with the lexeme. -/
theorem scanLexeme_swap {c : Char} {u rest rest' : List Char} {k : TokenKind}
    (hfault : ∀ f, k ≠ .fault f) (h : scanLexeme c (u ++ rest) = ⟨k, c :: u, rest⟩)
    (hrest : k.ClearOf rest') : scanLexeme c (u ++ rest') = ⟨k, c :: u, rest'⟩ := by
  rcases startsPlain_or c (u ++ rest) with hplain | ⟨rfl, d, ds, hcs, hd⟩ | hquote
  · rw [scanLexeme_of_plain hplain] at h
    split at h
    · rename_i hnumber
      exact scanDigits_swap hnumber h hrest
    · rename_i hnumber
      split at h
      · rename_i hident
        simp only [Lexeme.mk.injEq] at h
        obtain ⟨rfl, htake, -⟩ := h
        rw [htake] at hrest ⊢
        exact scanWord_swap hident htake hrest
      · rename_i hident
        split at h
        · rename_i kind n hop
          simp only [Lexeme.mk.injEq] at h
          obtain ⟨rfl, htake, -⟩ := h
          exact scanMark_swap hplain (by simpa using hnumber) (by simpa using hident) hop htake
            hrest
        · simp only [Lexeme.mk.injEq] at h
          exact absurd h.1.symm (hfault _)
  · exact scanComment_swap hcs hd hfault h hrest
  · exact scanQuoted_swap hquote hfault h

/-- What a lexeme is, by its first character. -/
inductive ScannedAs (c : Char) (rest : List Char) : TokenKind → Prop where
  | comment (hc : c = '/') (t : String) : ScannedAs c rest (.comment t)
  | quoted (hc : c ∈ ['"', '\x60', '\'']) {kind : LitKind} (hkind : kind = .string ∨ kind = .char)
    (t : String) : ScannedAs c rest (.literal kind t)
  | number (hc : startsNumber c rest = true) (kind : LitKind) (t : String) :
    ScannedAs c rest (.literal kind t)
  | word (hc : Text.startsIdent c = true) (word : List Char) : ScannedAs c rest (wordKind word)
  | mark {k : TokenKind} {n : Nat} (hop : operator? (c :: rest) = some (k, n)) : ScannedAs c rest k
  | fault (f : LexFault) : ScannedAs c rest (.fault f)

theorem scannedAs (c : Char) (rest : List Char) :
    ScannedAs c rest (scanLexeme c rest).kind := by
  rcases startsPlain_or c rest with hplain | ⟨rfl, d, ds, rfl, rfl | rfl⟩ | hquote
  · rw [scanLexeme_of_plain hplain]
    split
    · rename_i hnumber
      exact .number hnumber _ _
    · split
      · rename_i hident
        exact .word hident _
      · split
        · rename_i hop
          exact .mark hop
        · exact .fault _
  · exact .comment rfl _
  · rw [scanLexeme_block]
    split
    · exact .comment rfl _
    · exact .fault _
  · have hquote' := hquote
    simp only [List.mem_cons, List.not_mem_nil, or_false] at hquote'
    rcases hquote' with rfl | rfl | rfl <;> rw [scanLexeme]
    all_goals
      split
      · exact .quoted hquote (by decide) _
      · exact .fault _

/-! ## Tokens of a text -/

/-- A word is written as it is read. -/
theorem text_wordKind (word : List Char) : (wordKind word).text.toList = word := by
  simp only [wordKind]
  split
  · rename_i k hk
    have hspelling : (k.spelling == String.ofList word) = true := by
      simpa using List.find?_some hk
    rw [TokenKind.text, beq_iff_eq.mp hspelling, String.toList_ofList]
  · exact String.toList_ofList

/-- What is written for a token is what it was read from, save for the white space at the end of a
line comment. -/
theorem text_scanLexeme {c : Char} {rest : List Char}
    (hfault : ∀ f, (scanLexeme c rest).kind ≠ .fault f) :
    (scanLexeme c rest).kind.text.toList = (scanLexeme c rest).text ∨
      ∃ u, (∀ d ∈ u, d ≠ '\n') ∧ (scanLexeme c rest).text = '/' :: '/' :: u ∧
        (scanLexeme c rest).kind = .comment (String.ofList (Text.trimEnd ('/' :: '/' :: u))) := by
  rcases startsPlain_or c rest with hplain | ⟨rfl, d, ds, rfl, rfl | rfl⟩ | hquote
  · rw [scanLexeme_of_plain hplain] at hfault ⊢
    left
    split
    · exact String.toList_ofList
    · rename_i hnumber
      rw [if_neg hnumber] at hfault
      split
      · exact text_wordKind _
      · rename_i hident
        rw [if_neg hident] at hfault
        split
        · rename_i kind n hop
          exact (operator?_text hop).2.1
        · rename_i hop
          rw [hop] at hfault
          exact absurd rfl (hfault _)
  · right
    refine ⟨ds.takeWhile (· != '\n'), fun e he => ?_, rfl, rfl⟩
    simpa using List.all_eq_true.mp List.all_takeWhile e he
  · left
    rw [scanLexeme_block] at hfault ⊢
    split
    · exact String.toList_ofList
    · rename_i htaken
      rw [htaken] at hfault
      exact absurd rfl (hfault _)
  · left
    simp only [List.mem_cons, List.not_mem_nil, or_false] at hquote
    rcases hquote with rfl | rfl | rfl <;> rw [scanLexeme] at hfault ⊢
    all_goals
      split
      · exact String.toList_ofList
      · rename_i htaken
        rw [htaken] at hfault
        exact absurd rfl (hfault _)

theorem trimEnd_trimEnd (cs : List Char) : Text.trimEnd (Text.trimEnd cs) = Text.trimEnd cs := by
  rw [Text.trimEnd, Text.trimEnd, Text.dropEndWhile, Text.dropEndWhile, List.reverse_reverse,
    List.dropWhile_idempotent]

/-- A line comment without white space at its end is legible. -/
theorem legible_trimEnd {u : List Char} (hu : ∀ d ∈ u, d ≠ '\n') :
    (TokenKind.comment (String.ofList (Text.trimEnd ('/' :: '/' :: u)))).Legible := by
  obtain ⟨tail, htail, -⟩ := Text.dropEndWhile_append Text.isBlank u
  have htrim : Text.trimEnd ('/' :: '/' :: u) = '/' :: '/' :: Text.trimEnd u := by
    rw [Text.trimEnd, dropEndWhile_cons rfl, dropEndWhile_cons rfl]
    rfl
  have hline : ∀ d ∈ '/' :: '/' :: Text.trimEnd u, (d != '\n') = true := by
    intro d hd
    simp only [List.mem_cons] at hd
    rcases hd with rfl | rfl | hd
    · rfl
    · rfl
    · have hmem : d ∈ u := by
        rw [htail]
        exact List.mem_append_left tail hd
      simpa using hu d hmem
  refine ⟨'/', '/' :: Text.trimEnd u, ?_, ?_⟩
  · rw [TokenKind.text, String.toList_ofList, htrim]
  · rw [scanLexeme_line]
    have htake : ('/' :: '/' :: Text.trimEnd u).takeWhile (· != '\n') = _ :=
      List.takeWhile_eq_self_iff.mpr hline
    have hdrop : ('/' :: '/' :: Text.trimEnd u).dropWhile (· != '\n') = [] :=
      List.dropWhile_eq_nil_iff.mpr hline
    simp only [htake, hdrop]
    rw [← htrim, trimEnd_trimEnd]

/-- The tokens of a text are legible. -/
theorem legible_scanLexeme {c : Char} {rest : List Char}
    (hfault : ∀ f, (scanLexeme c rest).kind ≠ .fault f) : (scanLexeme c rest).kind.Legible := by
  have happend := scanLexeme_append c rest
  have hne := scanLexeme_ne_nil c rest
  have htext := text_scanLexeme hfault
  rcases hscan : scanLexeme c rest with ⟨k, text, left⟩
  rw [hscan] at happend hne hfault htext
  obtain ⟨d, u, rfl⟩ := List.exists_cons_of_ne_nil hne
  obtain ⟨rfl, rfl⟩ := List.cons.inj happend
  have hown : scanLexeme d (u ++ []) = ⟨k, d :: u, []⟩ := scanLexeme_swap hfault hscan nofun
  rw [List.append_nil] at hown
  rcases htext with htext | ⟨v, hline, -, hk⟩
  · exact ⟨d, u, htext, hown⟩
  · have hk : k = _ := hk
    rw [hk]
    exact legible_trimEnd hline

/-- A legible token is read from every text that starts with its own and is clear of it. -/
theorem TokenKind.Legible.scan {k : TokenKind} (hk : k.Legible) {rest : List Char}
    (hrest : k.ClearOf rest) :
    ∃ c cs, k.text.toList = c :: cs ∧ scanLexeme c (cs ++ rest) = ⟨k, c :: cs, rest⟩ := by
  have hfault := hk.ne_fault
  obtain ⟨c, cs, htext, hscan⟩ := hk
  have hown : scanLexeme c (cs ++ []) = ⟨k, c :: cs, []⟩ := by rwa [List.append_nil]
  exact ⟨c, cs, htext, scanLexeme_swap hfault hown hrest⟩

/-- What fuses with another character is a number. -/
theorem TokenKind.Legible.number {k : TokenKind} (hk : k.Legible) {d : Char}
    (hfuses : k.fuses d = true) :
    ∃ c cs, k.text.toList = c :: cs ∧ startsNumber c cs = true := by
  obtain ⟨c, cs, htext, hscan⟩ := hk
  refine ⟨c, cs, htext, ?_⟩
  have hcase := scannedAs c cs
  rw [hscan] at hcase
  cases hcase with
  | comment => cases hfuses
  | quoted _ hkind => rcases hkind with rfl | rfl <;> cases hfuses
  | number hc => exact hc
  | word hc word => split at hfuses <;> cases hfuses
  | mark hop =>
    have hmark := (operator?_text hop).1
    cases k with
    | literal => cases hmark
    | _ => cases hfuses
  | fault => cases hfuses

/-- Before a character that fuses with it, a number is read as another number. -/
theorem TokenKind.Legible.fused {k : TokenKind} (hk : k.Legible) {rest : List Char} {d : Char}
    (hd : d ∈ rest.head?) (hfuses : k.fuses d = true) :
    ∃ c cs kind t, k.text.toList = c :: cs ∧
      (scanLexeme c (cs ++ rest)).kind = .literal kind t ∧ .literal kind t ≠ k := by
  obtain ⟨c, cs, htext, hnumber⟩ := hk.number hfuses
  have hplain := startsPlain_of_startsNumber (startsNumber_append hnumber rest)
  have hlexeme : scanLexeme c (cs ++ rest) = scanNumber ((c :: cs) ++ rest) := by
    rw [scanLexeme_of_plain hplain, if_pos (startsNumber_append hnumber rest)]
    rfl
  rcases hcut : scanNumber ((c :: cs) ++ rest) with ⟨k', t, left⟩
  have happend := scanNumber_append ((c :: cs) ++ rest)
  obtain ⟨kind, hkind⟩ : ∃ kind, k' = .literal kind (String.ofList t) := by
    rw [scanNumber] at hcut
    obtain ⟨rfl, rfl, -⟩ := Lexeme.mk.inj hcut
    exact ⟨_, rfl⟩
  rw [hcut] at happend
  refine ⟨c, cs, _, _, htext, by rw [hlexeme, hcut, hkind], fun heq => ?_⟩
  have ht : t = c :: cs := by
    rw [← htext, ← heq]
    exact String.toList_ofList.symm
  rw [ht] at happend hcut
  have hleft : left = rest := List.append_cancel_left happend
  rw [hleft, hkind, heq] at hcut
  have hclear := scanNumber_fuses (List.cons_ne_nil c cs) hcut d hd
  rw [hclear] at hfuses
  cases hfuses

end HandlerSplit
