import HandlerSplit.Text.Blank
import HandlerSplit.Text.Letter
import HandlerSplit.Token
/-!
# Reading tokens

`tokenize` cuts a Go source into tokens. One lexeme is cut off at a time (`scanLexeme`), and
between lexemes only spaces, tabs, carriage returns and newlines are passed over. A newline
that follows a token which may end a statement inserts a semicolon there; so does the end of
the text, and a block comment that covers a newline inserts one directly after itself.
-/

namespace HandlerSplit

/-! ## Lexemes

Each function below cuts a beginning off a text and answers it with what is left. -/

/-- Puts a character in front of what has been taken. -/
def consTaken {α : Type} (c : Char) (cut : α × List Char × List Char) :
    α × List Char × List Char :=
  (cut.1, c :: cut.2.1, cut.2.2)

/-- Up to the first `*/`, which is taken along; `none` if there is none. -/
def takeBlockComment : List Char → Option (List Char × List Char)
  | '*' :: '/' :: rest => some (['*', '/'], rest)
  | c :: rest => (takeBlockComment rest).map fun (taken, rest) => (c :: taken, rest)
  | [] => none

/-- Up to the quote that closes an interpreted literal, which is taken along. A backslash
takes the next character with it. The literal is open (`false`) at a newline or at the end
of the text, which are left. -/
def takeQuoted (quote : Char) : List Char → Bool × List Char × List Char
  | [] => (false, [], [])
  | c :: rest =>
    if c == quote then (true, [c], rest)
    else if c == '\n' then (false, [], c :: rest)
    else if c == '\\' then
      match rest with
      | [] => (false, [c], [])
      | d :: rest' =>
        if d == '\n' then (false, [c], d :: rest')
        else
          consTaken c (consTaken d (takeQuoted quote rest'))
    else
      consTaken c (takeQuoted quote rest)

/-- Up to the back quote that closes a raw string, which is taken along. -/
def takeRaw : List Char → Bool × List Char × List Char
  | [] => (false, [], [])
  | c :: rest =>
    if c == '\x60' then (true, [c], rest)
    else consTaken c (takeRaw rest)

/-- The rest of a number, of which `kind` is known so far. Letters and underscores belong to
it, an `i` ends it as an imaginary number, and a point or an exponent makes it a float. A
sign belongs to it directly after an exponent mark (`signed`). -/
def takeNumber (hex : Bool) : LitKind → Bool → List Char → LitKind × List Char × List Char
  | kind, _, [] => (kind, [], [])
  | kind, signed, c :: rest =>
    if signed && (c == '+' || c == '-') then
      consTaken c (takeNumber hex kind false rest)
    else if (if hex then c == 'p' || c == 'P' else c == 'e' || c == 'E') then
      consTaken c (takeNumber hex .float true rest)
    else if c == '.' then
      consTaken c (takeNumber hex .float false rest)
    else if c.isAlphanum || c == '_' then
      if c == 'i' then (.imag, [c], rest)
      else consTaken c (takeNumber hex kind false rest)
    else (kind, [], c :: rest)

/-- The binary operators of one character that may be followed by `=`. -/
def simpleBinary? : Char → Option BinaryOp
  | '+' => some .add
  | '-' => some .sub
  | '*' => some .mul
  | '/' => some .quo
  | '%' => some .rem
  | '&' => some .and
  | '|' => some .or
  | '^' => some .xor
  | _ => none

/-- The longest operator or mark at the start of a text, with its length. -/
def operator? : List Char → Option (TokenKind × Nat)
  | '.' :: '.' :: '.' :: _ => some (.punct .ellipsis, 3)
  | '<' :: '<' :: '=' :: _ => some (.opAssign .shl, 3)
  | '>' :: '>' :: '=' :: _ => some (.opAssign .shr, 3)
  | '&' :: '^' :: '=' :: _ => some (.opAssign .andNot, 3)
  | '&' :: '&' :: _ => some (.op .logAnd, 2)
  | '|' :: '|' :: _ => some (.op .logOr, 2)
  | '<' :: '<' :: _ => some (.op .shl, 2)
  | '>' :: '>' :: _ => some (.op .shr, 2)
  | '&' :: '^' :: _ => some (.op .andNot, 2)
  | '<' :: '-' :: _ => some (.punct .arrow, 2)
  | '+' :: '+' :: _ => some (.punct .inc, 2)
  | '-' :: '-' :: _ => some (.punct .dec, 2)
  | '=' :: '=' :: _ => some (.op .eql, 2)
  | '!' :: '=' :: _ => some (.op .neq, 2)
  | '<' :: '=' :: _ => some (.op .leq, 2)
  | '>' :: '=' :: _ => some (.op .geq, 2)
  | ':' :: '=' :: _ => some (.punct .define, 2)
  | '<' :: _ => some (.op .lss, 1)
  | '>' :: _ => some (.op .gtr, 1)
  | '=' :: _ => some (.punct .assign, 1)
  | '!' :: _ => some (.punct .not, 1)
  | '~' :: _ => some (.punct .tilde, 1)
  | '(' :: _ => some (.punct .lparen, 1)
  | ')' :: _ => some (.punct .rparen, 1)
  | '[' :: _ => some (.punct .lbracket, 1)
  | ']' :: _ => some (.punct .rbracket, 1)
  | '\x7b' :: _ => some (.punct .lbrace, 1)
  | '\x7d' :: _ => some (.punct .rbrace, 1)
  | ',' :: _ => some (.punct .comma, 1)
  | '.' :: _ => some (.punct .period, 1)
  | ':' :: _ => some (.punct .colon, 1)
  | ';' :: _ => some (.semicolon false, 1)
  | c :: rest =>
    match simpleBinary? c, rest with
    | some o, '=' :: _ => some (.opAssign o, 2)
    | some o, _ => some (.op o, 1)
    | none, _ => none
  | [] => none

/-- The keyword or identifier a word is. -/
def wordKind (word : List Char) : TokenKind :=
  let text := String.ofList word
  match Keyword.ofWord? text with
  | some k => .keyword k
  | none => .ident text

/-- A lexeme cut off the start of a text. -/
structure Lexeme where
  kind : TokenKind
  text : List Char
  rest : List Char

/-- The hexadecimal mark of a number, if it has one. -/
def takeBase : List Char → Bool × List Char × List Char
  | '0' :: 'x' :: rest => (true, ['0', 'x'], rest)
  | '0' :: 'X' :: rest => (true, ['0', 'X'], rest)
  | cs => (false, [], cs)

/-- A number, whose first character is a digit or a point before a digit. -/
def scanNumber (cs : List Char) : Lexeme :=
  let base := takeBase cs
  let digits := takeNumber base.1 .int false base.2.2
  let text := base.2.1 ++ digits.2.1
  ⟨.literal digits.1 (String.ofList text), text, digits.2.2⟩

/-- The lexeme that starts with the character `c`, before `rest`. -/
def scanLexeme (c : Char) (rest : List Char) : Lexeme :=
  match c, rest with
  | '/', '/' :: _ =>
    let text := (c :: rest).takeWhile (· != '\n')
    ⟨.comment (String.ofList (Text.trimEnd text)), text, (c :: rest).dropWhile (· != '\n')⟩
  | '/', '*' :: body =>
    match takeBlockComment body with
    | some (taken, left) =>
      let text := '/' :: '*' :: taken
      ⟨.comment (String.ofList text), text, left⟩
    | none => ⟨.fault .commentOpen, c :: rest, []⟩
  | '"', _ =>
    match takeQuoted '"' rest with
    | (true, taken, left) => ⟨.literal .string (String.ofList (c :: taken)), c :: taken, left⟩
    | (false, taken, left) => ⟨.fault .stringOpen, c :: taken, left⟩
  | '\x60', _ =>
    match takeRaw rest with
    | (true, taken, left) => ⟨.literal .string (String.ofList (c :: taken)), c :: taken, left⟩
    | (false, taken, left) => ⟨.fault .rawStringOpen, c :: taken, left⟩
  | '\'', _ =>
    match takeQuoted '\'' rest with
    | (true, taken, left) => ⟨.literal .char (String.ofList (c :: taken)), c :: taken, left⟩
    | (false, taken, left) => ⟨.fault .runeOpen, c :: taken, left⟩
  | _, _ =>
    if c.isDigit || (c == '.' && (rest.head?.map Char.isDigit).getD false) then
      scanNumber (c :: rest)
    else if Text.startsIdent c then
      let word := (c :: rest).takeWhile Text.continuesIdent
      ⟨wordKind word, word, (c :: rest).dropWhile Text.continuesIdent⟩
    else
      match operator? (c :: rest) with
      | some (kind, n) => ⟨kind, (c :: rest).take n, (c :: rest).drop n⟩
      | none => ⟨.fault (.strayCharacter c), [c], rest⟩

/-! ## Places -/

/-- A place in the source: byte offset, line and column. Lines and columns are counted without a
bound: counters of 32 bits agree with them on every source of less than `2 ^ 32` lines with less
than `2 ^ 32` characters each. -/
structure Place where
  offset : Nat
  line : Nat
  column : Nat
  deriving DecidableEq, Repr

/-- The place after one more character. -/
def Place.next (p : Place) (c : Char) : Place :=
  if c == '\n' then ⟨p.offset + c.utf8Size, p.line + 1, 1⟩
  else ⟨p.offset + c.utf8Size, p.line, p.column + 1⟩

/-- The place after a text. -/
def Place.after (p : Place) (cs : List Char) : Place :=
  cs.foldl Place.next p

/-- A token that starts at `p` with the given text. -/
def Token.at (p : Place) (kind : TokenKind) (text : List Char) : Token :=
  ⟨kind, text, ⟨p.offset, (p.after text).offset, p.line, p.column⟩⟩

/-! ## Nothing is lost

A lexeme and what is left of the text make up the text again, and no lexeme is empty. -/

theorem takeBlockComment_eq_append {cs taken left : List Char}
    (h : takeBlockComment cs = some (taken, left)) : cs = taken ++ left := by
  fun_induction takeBlockComment cs generalizing taken left with
  | case1 rest =>
    obtain ⟨rfl, rfl⟩ := Prod.mk.inj (Option.some.inj h)
    rfl
  | case2 c rest _ ih =>
    obtain ⟨⟨t, l⟩, hp, heq⟩ := Option.map_eq_some_iff.1 h
    obtain ⟨rfl, rfl⟩ := Prod.mk.inj heq
    rw [ih hp, List.cons_append]
  | case3 => simp at h

theorem takeQuoted_append (q : Char) (cs : List Char) :
    (takeQuoted q cs).2.1 ++ (takeQuoted q cs).2.2 = cs := by
  fun_induction takeQuoted q cs <;> simp_all [consTaken]

theorem takeRaw_append (cs : List Char) : (takeRaw cs).2.1 ++ (takeRaw cs).2.2 = cs := by
  fun_induction takeRaw cs <;> simp_all [consTaken]

theorem takeNumber_append (hex : Bool) (k : LitKind) (signed : Bool) (cs : List Char) :
    (takeNumber hex k signed cs).2.1 ++ (takeNumber hex k signed cs).2.2 = cs := by
  fun_induction takeNumber hex k signed cs <;> simp_all [consTaken]

theorem takeBase_append (cs : List Char) : (takeBase cs).2.1 ++ (takeBase cs).2.2 = cs := by
  unfold takeBase
  split <;> rfl

theorem scanNumber_append (cs : List Char) :
    (scanNumber cs).text ++ (scanNumber cs).rest = cs := by
  simp only [scanNumber, List.append_assoc, takeNumber_append, takeBase_append]

theorem operator?_pos {cs : List Char} {k : TokenKind} {n : Nat}
    (h : operator? cs = some (k, n)) : 0 < n := by
  unfold operator? at h
  split at h
  all_goals first
    | (obtain ⟨rfl, rfl⟩ := Prod.mk.inj (Option.some.inj h); decide)
    | skip
  · split at h
    all_goals first
      | (obtain ⟨rfl, rfl⟩ := Prod.mk.inj (Option.some.inj h); decide)
      | simp at h
  · simp at h

/-- A lexeme and what it leaves are the text it was cut off. -/
theorem scanLexeme_append (c : Char) (rest : List Char) :
    (scanLexeme c rest).text ++ (scanLexeme c rest).rest = c :: rest := by
  unfold scanLexeme
  split
  · exact List.takeWhile_append_dropWhile
  · split
    · rename_i h
      simp [takeBlockComment_eq_append h]
    · simp
  · have := takeQuoted_append '"' rest
    split <;> simp_all
  · have := takeRaw_append rest
    split <;> simp_all
  · have := takeQuoted_append '\'' rest
    split <;> simp_all
  · split
    · exact scanNumber_append _
    · split
      · exact List.takeWhile_append_dropWhile
      · split
        · exact List.take_append_drop _ _
        · rfl

theorem takeNumber_ne_nil {hex : Bool} {k : LitKind} {c : Char} {rest : List Char}
    (h : (c.isDigit || c == '.') = true) : (takeNumber hex k false (c :: rest)).2.1 ≠ [] := by
  unfold takeNumber
  repeat' split
  all_goals simp_all [consTaken, Char.isAlphanum]

theorem scanNumber_ne_nil {c : Char} {rest : List Char} (h : (c.isDigit || c == '.') = true) :
    (scanNumber (c :: rest)).text ≠ [] := by
  simp only [scanNumber]
  unfold takeBase
  split
  · simp
  · simp
  · simpa using takeNumber_ne_nil h

/-- No lexeme is empty. -/
theorem scanLexeme_ne_nil (c : Char) (rest : List Char) : (scanLexeme c rest).text ≠ [] := by
  unfold scanLexeme
  split
  · simp
  · split <;> simp
  · split <;> simp
  · split <;> simp
  · split <;> simp
  · split
    · rename_i h
      refine scanNumber_ne_nil ?_
      simp only [Bool.or_eq_true, Bool.and_eq_true] at h ⊢
      exact h.imp_right And.left
    · split
      · rename_i h
        simp [Text.continuesIdent_of_startsIdent h]
      · split
        · rename_i h
          have := operator?_pos h
          simp [Nat.ne_of_gt this]
        · simp

theorem length_scanLexeme_rest (c : Char) (rest : List Char) :
    (scanLexeme c rest).rest.length < (c :: rest).length := by
  have happ := congrArg List.length (scanLexeme_append c rest)
  have hpos := List.length_pos_iff.2 (scanLexeme_ne_nil c rest)
  rw [List.length_append] at happ
  omega

/-! ## Token sequences -/

/-- The semicolon inserted at a place. -/
def Token.inserted (p : Place) : Token :=
  Token.at p (.semicolon true) []

/-- The tokens of a text that starts at `p`. The flag `semi` says that a newline at this
point ends a statement. -/
def tokensFrom (p : Place) (semi : Bool) : List Char → List Token
  | [] =>
    if semi then [Token.inserted p, Token.at p .eof []] else [Token.at p .eof []]
  | c :: rest =>
    if c == '\n' then
      if semi then Token.inserted p :: tokensFrom (p.next c) false rest
      else tokensFrom (p.next c) false rest
    else if c == ' ' || c == '\t' || c == '\r' then tokensFrom (p.next c) semi rest
    else
      let lexeme := scanLexeme c rest
      have := length_scanLexeme_rest c rest
      let token := Token.at p lexeme.kind lexeme.text
      let after := p.after lexeme.text
      if lexeme.kind.isTrivia then
        if semi && lexeme.text.contains '\n' then
          token :: Token.inserted after :: tokensFrom after false lexeme.rest
        else token :: tokensFrom after semi lexeme.rest
      else token :: tokensFrom after lexeme.kind.endsStatement lexeme.rest
termination_by cs => cs.length
decreasing_by all_goals simp_all

/-- A leading byte order mark is no part of the text. -/
def dropByteOrderMark : List Char → Place × List Char
  | '\ufeff' :: rest => (⟨'\ufeff'.utf8Size, 1, 1⟩, rest)
  | cs => (⟨0, 1, 1⟩, cs)

/-- The tokens of a source text, comments and inserted semicolons included. The last one,
and no other, is the end of input. -/
def tokenize (source : List Char) : List Token :=
  let (start, body) := dropByteOrderMark source
  tokensFrom start false body

end HandlerSplit
