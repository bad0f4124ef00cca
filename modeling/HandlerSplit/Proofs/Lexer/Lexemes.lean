import HandlerSplit.Proofs.Lexer.Legible
/-!
# Names and literals

The texts that are names, decimal integers and interpreted strings. Each of them is a token by
itself, and stands on one line.
-/

namespace HandlerSplit

/-! ## Texts -/

/-- An identifier that is no keyword. -/
def isName (text : String) : Bool :=
  match text.toList with
  | [] => false
  | c :: cs => Text.startsIdent c && cs.all Text.continuesIdent && (Keyword.ofWord? text).isNone

/-- A digit, or the underscore that groups digits. -/
def isDigitMark (c : Char) : Bool :=
  c.isDigit || c == '_'

/-- A decimal integer, whose digits may be grouped by underscores. -/
def isDecimal (text : String) : Bool :=
  match text.toList with
  | [] => false
  | c :: cs => c.isDigit && cs.all isDigitMark

/-- Whether a text closes an interpreted string at its end and not before. A backslash takes the
next character with it. -/
def closesQuote : List Char → Bool
  | [] => false
  | ['"'] => true
  | '\\' :: c :: cs => c != '\n' && closesQuote cs
  | c :: cs => c != '"' && c != '\n' && c != '\\' && closesQuote cs

/-- An interpreted string literal. -/
def isInterpreted (text : String) : Bool :=
  match text.toList with
  | '"' :: cs => closesQuote cs
  | _ => false

/-! ## Tokens -/

namespace TokenKind

/-- A token that is read from its own text, is part of the grammar and stands on one line. Only a
point is read on with it where it is a number. -/
structure Plain (k : TokenKind) : Prop where
  legible : k.Legible
  trivia : k.isTrivia = false
  line : '\n' ∉ k.text.toList
  fuses : ∀ c, c ≠ '.' → k.fuses c = false

/-- A token that is not read on with the token right behind it, as a number might be. -/
def Parted (k k' : TokenKind) : Prop :=
  ∀ c ∈ k'.text.toList.head?, k.fuses c = false

/-- Whether the token starts with a point. -/
def StartsPoint (k : TokenKind) : Prop :=
  '.' ∈ k.text.toList.head?

instance (k : TokenKind) : Decidable k.StartsPoint :=
  inferInstanceAs (Decidable ('.' ∈ k.text.toList.head?))

/-- A plain token is parted from whatever does not start with a point. -/
theorem Plain.parted {k k' : TokenKind} (hk : k.Plain) (hk' : ¬k'.StartsPoint) : k.Parted k' := by
  intro c hc
  refine hk.fuses c ?_
  rintro rfl
  exact hk' hc

end TokenKind

/-- A name is an identifier that is no reserved word. -/
theorem isName_iff {text : String} : isName text = true ↔ ∃ c cs, text.toList = c :: cs ∧
    Text.startsIdent c = true ∧ cs.all Text.continuesIdent = true ∧ Keyword.ofWord? text = none := by
  rw [isName]
  cases text.toList with
  | nil => simp
  | cons c cs => simp [and_assoc]

/-- A name is plain. -/
theorem plain_ident {name : String} (h : isName name = true) : (TokenKind.ident name).Plain := by
  obtain ⟨c, cs, htext, hstart, hall, hword⟩ := isName_iff.mp h
  have hall' : ∀ d ∈ c :: cs, Text.continuesIdent d = true :=
    List.forall_mem_cons.mpr ⟨Text.continuesIdent_of_startsIdent hstart, List.all_eq_true.mp hall⟩
  have hkind : wordKind (c :: cs) = .ident name := by
    have hname : String.ofList (c :: cs) = name := by
      rw [← htext, String.ofList_toList]
    rw [wordKind, hname]
    simp only [hword]
  refine ⟨⟨c, cs, htext, ?_⟩, rfl, fun hline => ?_, fun _ _ => rfl⟩
  · have htake : (c :: (cs ++ [])).takeWhile Text.continuesIdent = c :: cs := by
      rw [List.append_nil]
      exact List.takeWhile_eq_self_iff.mpr hall'
    have hclear : (wordKind (c :: cs)).ClearOf [] := by
      intro d hd
      cases hd
    have hscan := scanWord_swap hstart htake hclear
    rwa [List.append_nil, hkind] at hscan
  · have htoken : (TokenKind.ident name).text.toList = c :: cs := htext
    rw [htoken] at hline
    exact absurd (hall' _ hline) (by decide)

theorem not_startsPoint_ident {name : String} (h : isName name = true) :
    ¬(TokenKind.ident name).StartsPoint := by
  obtain ⟨c, cs, htext, hstart, -⟩ := isName_iff.mp h
  have htoken : (TokenKind.ident name).text.toList = c :: cs := htext
  rw [TokenKind.StartsPoint, htoken]
  rintro ⟨⟩
  cases hstart

/-- A decimal integer is a digit and further digits. -/
theorem isDecimal_iff {text : String} : isDecimal text = true ↔
    ∃ c cs, text.toList = c :: cs ∧ c.isDigit = true ∧ cs.all isDigitMark = true := by
  rw [isDecimal]
  cases text.toList with
  | nil => simp
  | cons c cs => simp

theorem beq_of_isDigitMark {c d : Char} (hc : isDigitMark c = true) (hd : isDigitMark d = false) :
    (c == d) = false := by
  refine beq_eq_false_iff_ne.mpr ?_
  rintro rfl
  rw [hc] at hd
  cases hd

/-- Digits and underscores are no exponent, no point, no sign and no imaginary mark. -/
theorem takeNumber_digits {cs : List Char} (h : ∀ d ∈ cs, isDigitMark d = true) :
    takeNumber false .int false cs = (.int, cs, []) := by
  induction cs with
  | nil => rfl
  | cons c cs ih =>
    obtain ⟨hc, hcs⟩ := List.forall_mem_cons.mp h
    have hne (d : Char) (hd : isDigitMark d = false) := beq_of_isDigitMark hc hd
    have halpha : (c.isAlphanum || c == '_') = true := by
      rw [isDigitMark, Bool.or_eq_true] at hc
      rw [Bool.or_eq_true, Char.isAlphanum, Bool.or_eq_true]
      exact hc.imp_left .inr
    rw [takeNumber]
    simp only [hne _ (rfl : isDigitMark 'e' = false), hne _ (rfl : isDigitMark 'E' = false),
      hne _ (rfl : isDigitMark '.' = false), hne _ (rfl : isDigitMark 'i' = false), halpha,
      Bool.false_and, Bool.or_self, Bool.false_eq_true, if_false, if_true, ih hcs, consTaken]

theorem takeBase_digits {cs : List Char} (h : ∀ d ∈ cs, isDigitMark d = true) :
    takeBase cs = (false, [], cs) := by
  unfold takeBase
  split
  · exact absurd (h 'x' (by simp)) (by decide)
  · exact absurd (h 'X' (by simp)) (by decide)
  · rfl

/-- A decimal integer does not end with an exponent mark. -/
theorem fuses_int {text : String} (h : isDecimal text = true) (d : Char) (hd : d ≠ '.') :
    (TokenKind.literal .int text).fuses d = false := by
  obtain ⟨c, cs, htext, hdigit, hall⟩ := isDecimal_iff.mp h
  have hall' : ∀ d ∈ c :: cs, isDigitMark d = true :=
    List.forall_mem_cons.mpr ⟨by rw [isDigitMark, hdigit, Bool.true_or], List.all_eq_true.mp hall⟩
  have hends : endsInExponent text.toList = false := by
    rw [endsInExponent, htext, takeBase_digits hall', awaitsSign]
    cases hlast : (c :: cs).getLast? with
    | none => rfl
    | some d =>
      have hd := hall' d (List.mem_of_getLast? hlast)
      show (d == 'e' || d == 'E') = false
      rw [beq_of_isDigitMark hd rfl, beq_of_isDigitMark hd rfl]
      rfl
  rw [TokenKind.fuses, hends, Bool.false_and, Bool.or_false, beq_eq_false_iff_ne]
  exact hd

/-- A decimal integer is plain. -/
theorem plain_int {text : String} (h : isDecimal text = true) :
    (TokenKind.literal .int text).Plain := by
  obtain ⟨c, cs, htext, hdigit, hall⟩ := isDecimal_iff.mp h
  have hall' : ∀ d ∈ c :: cs, isDigitMark d = true :=
    List.forall_mem_cons.mpr ⟨by rw [isDigitMark, hdigit, Bool.true_or], List.all_eq_true.mp hall⟩
  have hnumber : startsNumber c cs = true := by
    rw [startsNumber, hdigit, Bool.true_or]
  refine ⟨⟨c, cs, htext, ?_⟩, rfl, fun hline => ?_, fuses_int h⟩
  · have hown : String.ofList (c :: cs) = text := by
      rw [← htext, String.ofList_toList]
    rw [scanLexeme_of_plain (startsPlain_of_startsNumber hnumber), if_pos hnumber, scanNumber,
      takeBase_digits hall']
    simp only [takeNumber_digits hall', List.nil_append, hown]
  · have htoken : (TokenKind.literal .int text).text.toList = c :: cs := htext
    rw [htoken] at hline
    exact absurd (hall' _ hline) (by decide)

theorem not_startsPoint_int {text : String} (h : isDecimal text = true) :
    ¬(TokenKind.literal .int text).StartsPoint := by
  obtain ⟨c, cs, htext, hdigit, -⟩ := isDecimal_iff.mp h
  have htoken : (TokenKind.literal .int text).text.toList = c :: cs := htext
  rw [TokenKind.StartsPoint, htoken]
  rintro ⟨⟩
  cases hdigit

/-- An interpreted string is closed by its last quote. -/
theorem isInterpreted_iff {text : String} : isInterpreted text = true ↔
    ∃ cs, text.toList = '"' :: cs ∧ closesQuote cs = true := by
  rw [isInterpreted]
  split
  · rename_i cs htext
    simp [htext]
  · rename_i htext
    simp only [Bool.false_eq_true, false_iff, not_exists, not_and]
    exact fun cs h => absurd h (htext cs)

/-- A string is taken up to the quote that closes it. -/
theorem takeQuoted_of_closesQuote {cs : List Char} (h : closesQuote cs = true) :
    takeQuoted '"' cs = (true, cs, []) := by
  fun_induction closesQuote cs with
  | case1 => cases h
  | case2 => rfl
  | case3 c cs ih =>
    rw [Bool.and_eq_true, bne_iff_ne] at h
    rw [takeQuoted.eq_def]
    simp [h.1, ih h.2, consTaken]
  | case4 c cs _ _ ih =>
    simp only [Bool.and_eq_true, bne_iff_ne] at h
    obtain ⟨⟨⟨hquote, hline⟩, hslash⟩, hcs⟩ := h
    rw [takeQuoted.eq_def]
    simp [hquote, hline, hslash, ih hcs, consTaken]

/-- An interpreted string stands on one line. -/
theorem not_mem_of_closesQuote {cs : List Char} (h : closesQuote cs = true) : '\n' ∉ cs := by
  fun_induction closesQuote cs with
  | case1 => cases h
  | case2 => decide
  | case3 c cs ih =>
    rw [Bool.and_eq_true, bne_iff_ne] at h
    simp [h.1.symm, ih h.2]
  | case4 c cs _ _ ih =>
    simp only [Bool.and_eq_true, bne_iff_ne] at h
    obtain ⟨⟨⟨hquote, hline⟩, hslash⟩, hcs⟩ := h
    simp [hline.symm, ih hcs]

/-- An interpreted string is plain. -/
theorem plain_string {text : String} (h : isInterpreted text = true) :
    (TokenKind.literal .string text).Plain := by
  obtain ⟨cs, htext, hcloses⟩ := isInterpreted_iff.mp h
  refine ⟨⟨'"', cs, htext, ?_⟩, rfl, ?_, fun _ _ => rfl⟩
  · have hown : String.ofList ('"' :: cs) = text := by
      rw [← htext, String.ofList_toList]
    rw [scanLexeme, takeQuoted_of_closesQuote hcloses]
    simp only [hown]
  · have htoken : (TokenKind.literal .string text).text.toList = '"' :: cs := htext
    rw [htoken, List.mem_cons, not_or]
    exact ⟨by decide, not_mem_of_closesQuote hcloses⟩

theorem not_startsPoint_string {text : String} (h : isInterpreted text = true) :
    ¬(TokenKind.literal .string text).StartsPoint := by
  obtain ⟨cs, htext, -⟩ := isInterpreted_iff.mp h
  have htoken : (TokenKind.literal .string text).text.toList = '"' :: cs := htext
  rw [TokenKind.StartsPoint, htoken]
  exact nofun

theorem plain_keyword (w : Keyword) : (TokenKind.keyword w).Plain := by
  cases w <;> exact ⟨⟨_, _, rfl, rfl⟩, rfl, by decide, fun _ _ => rfl⟩

/-- An operator is plain. -/
theorem plain_op (o : BinaryOp) : (TokenKind.op o).Plain := by
  cases o <;> exact ⟨⟨_, _, rfl, rfl⟩, rfl, by decide, fun _ _ => rfl⟩

theorem plain_punct (m : Punct) : (TokenKind.punct m).Plain := by
  cases m <;> exact ⟨⟨_, _, rfl, rfl⟩, rfl, by decide, fun _ _ => rfl⟩

theorem plain_semicolon : (TokenKind.semicolon false).Plain :=
  ⟨⟨_, _, rfl, rfl⟩, rfl, by decide, fun _ _ => rfl⟩

/-- An arithmetic operator with `=` behind it is one token. -/
theorem plain_opAssign {o : BinaryOp} (ho : 4 ≤ o.precedence) : (TokenKind.opAssign o).Plain := by
  cases o with
  | add | sub | mul | quo | rem | and | or | xor | shl | shr | andNot =>
    exact ⟨⟨_, _, rfl, rfl⟩, rfl, by decide, fun _ _ => rfl⟩
  | _ => exact absurd ho (by decide)

end HandlerSplit
