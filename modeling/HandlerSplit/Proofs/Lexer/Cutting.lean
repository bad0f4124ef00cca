import HandlerSplit.Lexer
/-!
# Cutting off the start of a text

Where a literal, comment, number or mark ends does not depend on all of what follows it: the same
start is cut off when another text follows, as long as this one does not go on with what was cut
off. A character goes on with a token if it joins it. A number also takes a point, and a sign behind
an exponent mark; these fuse with it.
-/

namespace HandlerSplit

/-! ## Texts of tokens -/

/-- What is written for a token. -/
def TokenKind.text : TokenKind → String
  | ident n => n
  | literal _ t => t
  | keyword w => w.spelling
  | op o => o.spelling
  | opAssign o => o.spelling ++ "="
  | punct mark => mark.spelling
  | semicolon _ => ";"
  | comment t => t
  | eof => ""
  | fault _ => ""

/-- A comment that ends with its line. -/
def TokenKind.isLineComment : TokenKind → Bool
  | comment t => t.toList.take 2 == ['/', '/']
  | _ => false

/-- The characters that, right behind a binary operator, make it another one. -/
def BinaryOp.joins : BinaryOp → List Char
  | add => ['+', '=']
  | sub => ['-', '=']
  | quo => ['/', '*', '=']
  | and => ['&', '^', '=']
  | or => ['|', '=']
  | lss => ['<', '-', '=']
  | gtr => ['>', '=']
  | mul | rem | xor | shl | shr | andNot => ['=']
  | logAnd | logOr | eql | neq | leq | geq => []

/-- Whether a mark, with the character right behind it, is read as another. -/
def Punct.joins : Punct → Char → Bool
  | not, c | assign, c | colon, c => c == '='
  | period, c => c == '.' || c.isDigit
  | _, _ => false

/-- Whether a character right behind a token is read on with it. -/
def TokenKind.joins : TokenKind → Char → Bool
  | ident _, c | keyword _, c => Text.continuesIdent c
  | literal .char _, _ | literal .string _, _ => false
  | literal _ _, c => Text.continuesIdent c
  | op o, c => o.joins.contains c
  | punct mark, c => mark.joins c
  | comment t, c => (comment t).isLineComment && c != '\n'
  | _, _ => false

/-- Whether a character marks an exponent. -/
def isExponentMark (hex : Bool) (c : Char) : Bool :=
  if hex then c == 'p' || c == 'P' else c == 'e' || c == 'E'

/-- Whether a sign may go on with digits, where `signed` says so of the digits before them. -/
def awaitsSign (hex signed : Bool) (digits : List Char) : Bool :=
  (digits.getLast?.map (isExponentMark hex)).getD signed

/-- Whether a number ends with an exponent mark. -/
def endsInExponent (number : List Char) : Bool :=
  let base := takeBase number
  awaitsSign base.1 false base.2.2

/-- Whether a character that joins no other token is read on with a number. -/
def TokenKind.fuses : TokenKind → Char → Bool
  | literal .int t, c | literal .float t, c =>
    c == '.' || (endsInExponent t.toList && (c == '+' || c == '-'))
  | _, _ => false

/-! ## Literals and comments -/

/-- A stretch is taken up to where the text behind it stops it. -/
theorem takeWhile_append_of_stops {p : Char → Bool} {u rest : List Char} (hu : u.takeWhile p = u)
    (hrest : ∀ d ∈ rest.head?, p d = false) :
    (u ++ rest).takeWhile p = u ∧ (u ++ rest).dropWhile p = rest := by
  have hall : ∀ c ∈ u, p c = true := by
    intro c hc
    rw [← hu] at hc
    exact List.all_eq_true.mp List.all_takeWhile c hc
  have htake : rest.takeWhile p = [] := by
    cases rest with
    | nil => rfl
    | cons d ds => exact List.takeWhile_cons_of_neg (by simp [hrest d rfl])
  have hdrop : rest.dropWhile p = rest := by
    cases rest with
    | nil => rfl
    | cons d ds => exact List.dropWhile_cons_of_neg (by simp [hrest d rfl])
  constructor
  · rw [List.takeWhile_append_of_pos hall, htake, List.append_nil]
  · rw [List.dropWhile_append_of_pos hall, hdrop]

theorem consTaken_eq {α : Type} {c : Char} {cut : α × List Char × List Char} {a : α}
    {u rest : List Char} (h : consTaken c cut = (a, u, rest)) :
    ∃ v, u = c :: v ∧ cut = (a, v, rest) := by
  cases h
  exact ⟨cut.2.1, rfl, rfl⟩

/-- A closed literal is taken whatever follows. -/
theorem takeQuoted_swap {q : Char} {u rest : List Char} (rest' : List Char)
    (h : takeQuoted q (u ++ rest) = (true, u, rest)) :
    takeQuoted q (u ++ rest') = (true, u, rest') := by
  generalize hcs : u ++ rest = cs at h
  fun_induction takeQuoted q cs generalizing u with
  | case1 => cases h
  | case2 c left hq =>
    obtain ⟨-, h⟩ := Prod.mk.inj h
    obtain ⟨rfl, -⟩ := Prod.mk.inj h
    rw [List.singleton_append, takeQuoted.eq_def]
    exact if_pos hq
  | case3 => cases h
  | case4 => cases h
  | case5 => cases h
  | case6 c hq hn hb d left hd ih =>
    obtain ⟨v, rfl, hv⟩ := consTaken_eq h
    obtain ⟨w, rfl, hw⟩ := consTaken_eq hv
    have hleft : w ++ rest = left := by simpa using hcs
    rw [List.cons_append, List.cons_append, takeQuoted.eq_def]
    simp only [if_neg hq, if_neg hn, if_pos hb, if_neg hd, ih hleft hw, consTaken]
  | case7 c left hq hn hb ih =>
    obtain ⟨v, rfl, hv⟩ := consTaken_eq h
    have hleft : v ++ rest = left := by simpa using hcs
    rw [List.cons_append, takeQuoted.eq_def]
    simp only [if_neg hq, if_neg hn, if_neg hb, ih hleft hv, consTaken]

/-- A closed raw string is taken whatever follows. -/
theorem takeRaw_swap {u rest : List Char} (rest' : List Char)
    (h : takeRaw (u ++ rest) = (true, u, rest)) : takeRaw (u ++ rest') = (true, u, rest') := by
  generalize hcs : u ++ rest = cs at h
  fun_induction takeRaw cs generalizing u with
  | case1 => cases h
  | case2 c left hq =>
    obtain ⟨-, h⟩ := Prod.mk.inj h
    obtain ⟨rfl, -⟩ := Prod.mk.inj h
    rw [List.singleton_append, takeRaw, if_pos hq]
  | case3 c left hq ih =>
    obtain ⟨v, rfl, hv⟩ := consTaken_eq h
    have hleft : v ++ rest = left := by simpa using hcs
    rw [List.cons_append, takeRaw, if_neg hq, ih hleft hv]
    rfl

theorem takeBlockComment_ne_nil {cs rest : List Char} (h : takeBlockComment cs = some ([], rest)) :
    False := by
  unfold takeBlockComment at h
  split at h
  · cases h
  · obtain ⟨p, -, h⟩ := Option.map_eq_some_iff.mp h
    cases h
  · cases h

/-- A closed comment is taken whatever follows. -/
theorem takeBlockComment_swap {u rest : List Char} (rest' : List Char)
    (h : takeBlockComment (u ++ rest) = some (u, rest)) :
    takeBlockComment (u ++ rest') = some (u, rest') := by
  generalize hcs : u ++ rest = cs at h
  fun_induction takeBlockComment cs generalizing u with
  | case1 left =>
    obtain ⟨rfl, -⟩ := Prod.mk.inj (Option.some.inj h)
    rfl
  | case2 c left hstar ih =>
    obtain ⟨⟨v, left'⟩, hv, h⟩ := Option.map_eq_some_iff.mp h
    obtain ⟨rfl, rfl⟩ := Prod.mk.inj h
    have hleft : v ++ left' = left := by simpa using hcs
    have hopen : ∀ ds, c = '*' → v ++ rest' = '/' :: ds → False := by
      intro ds hc
      cases v with
      | nil => exact (takeBlockComment_ne_nil hv).elim
      | cons d v =>
        rintro ⟨⟩
        exact hstar _ hc (by rw [← hleft]; rfl)
    rw [List.cons_append, takeBlockComment, ih hleft hv]
    · rfl
    · exact hopen
  | case3 => cases h

/-! ## Numbers -/

/-- A sign may follow the mark of an exponent. -/
theorem awaitsSign_cons (hex signed : Bool) (c : Char) (cs : List Char) :
    awaitsSign hex signed (c :: cs) = awaitsSign hex (isExponentMark hex c) cs := by
  cases cs with
  | nil => rfl
  | cons d ds => 
    rw [awaitsSign, awaitsSign, List.getLast?_cons_cons]
    simp [List.getLast?_eq_some_getLast]

/-- A text that does not go on with a number. -/
def StopsNumber (signed : Bool) (cs : List Char) : Prop :=
  ∀ d ∈ cs.head?, (d.isAlphanum || d == '_') = false ∧ d ≠ '.' ∧
    (signed = true → (d == '+' || d == '-') = false)

theorem isAlphanum_of_isExponentMark {hex : Bool} {c : Char} (h : isExponentMark hex c = true) :
    c.isAlphanum = true := by
  cases hex <;> simp [isExponentMark] at h <;> rcases h with rfl | rfl <;> rfl

theorem isExponentMark_of_sign {hex : Bool} {c : Char} (h : (c == '+' || c == '-') = true) :
    isExponentMark hex c = false := by
  simp only [Bool.or_eq_true, beq_iff_eq] at h
  rcases h with rfl | rfl <;> cases hex <;> rfl

/-- Nothing is taken where a number stops. -/
theorem takeNumber_of_stops {hex : Bool} {kind : LitKind} {signed : Bool} {cs : List Char}
    (h : StopsNumber signed cs) : takeNumber hex kind signed cs = (kind, [], cs) := by
  cases cs with
  | nil => rfl
  | cons d ds =>
    obtain ⟨halnum, hpoint, hsign⟩ := h d rfl
    have hexp : ¬(if hex then d == 'p' || d == 'P' else d == 'e' || d == 'E') = true := by
      intro hexp
      rw [isAlphanum_of_isExponentMark hexp] at halnum
      cases halnum
    rw [takeNumber, if_neg, if_neg hexp, if_neg, if_neg]
    · rw [halnum]; exact Bool.false_ne_true
    · simpa using hpoint
    · intro h
      obtain ⟨hsigned, h⟩ := Bool.and_eq_true_iff.mp h
      rw [hsign hsigned] at h
      cases h

/-- A number is taken as it is before any text that stops it. -/
theorem takeNumber_swap {hex : Bool} {kind kind' : LitKind} {signed : Bool}
    {u rest rest' : List Char} (hkind : kind ≠ .imag)
    (h : takeNumber hex kind signed (u ++ rest) = (kind', u, rest))
    (hrest : kind' ≠ .imag → StopsNumber (awaitsSign hex signed u) rest') :
    takeNumber hex kind signed (u ++ rest') = (kind', u, rest') := by
  generalize hcs : u ++ rest = cs at h
  fun_induction takeNumber hex kind signed cs generalizing u with
  | case1 kind signed =>
    obtain ⟨hkinds, h⟩ := Prod.mk.inj h
    obtain ⟨rfl, -⟩ := Prod.mk.inj h
    subst hkinds
    exact takeNumber_of_stops (hrest hkind)
  | case2 kind signed c left hsign ih =>
    obtain ⟨v, rfl, hv⟩ := consTaken_eq h
    have hleft : v ++ rest = left := by simpa using hcs
    have hmark : isExponentMark hex c = false :=
      isExponentMark_of_sign (Bool.and_eq_true_iff.mp hsign).2
    rw [awaitsSign_cons, hmark] at hrest
    rw [List.cons_append, takeNumber, if_pos hsign, ih hkind hrest hleft hv]
    rfl
  | case3 kind signed c left hsign hexp ih =>
    obtain ⟨v, rfl, hv⟩ := consTaken_eq h
    have hleft : v ++ rest = left := by simpa using hcs
    have hmark : isExponentMark hex c = true := hexp
    rw [awaitsSign_cons, hmark] at hrest
    rw [List.cons_append, takeNumber, if_neg hsign, if_pos hexp, ih nofun hrest hleft hv]
    rfl
  | case4 kind signed c left hsign hexp hpoint ih =>
    obtain ⟨v, rfl, hv⟩ := consTaken_eq h
    have hleft : v ++ rest = left := by simpa using hcs
    have hmark : isExponentMark hex c = false := Bool.eq_false_iff.mpr hexp
    rw [awaitsSign_cons, hmark] at hrest
    rw [List.cons_append, takeNumber, if_neg hsign, if_neg hexp, if_pos hpoint,
      ih nofun hrest hleft hv]
    rfl
  | case5 kind signed c left hsign hexp hpoint halnum hi =>
    obtain ⟨hkinds, h⟩ := Prod.mk.inj h
    obtain ⟨rfl, -⟩ := Prod.mk.inj h
    subst hkinds
    rw [List.singleton_append, takeNumber, if_neg hsign, if_neg hexp, if_neg hpoint, if_pos halnum,
      if_pos hi]
  | case6 kind signed c left hsign hexp hpoint halnum hi ih =>
    obtain ⟨v, rfl, hv⟩ := consTaken_eq h
    have hleft : v ++ rest = left := by simpa using hcs
    have hmark : isExponentMark hex c = false := Bool.eq_false_iff.mpr hexp
    rw [awaitsSign_cons, hmark] at hrest
    rw [List.cons_append, takeNumber, if_neg hsign, if_neg hexp, if_neg hpoint, if_pos halnum,
      if_neg hi, ih hkind hrest hleft hv]
    rfl
  | case7 kind signed c left hsign hexp hpoint halnum =>
    obtain ⟨hkinds, h⟩ := Prod.mk.inj h
    obtain ⟨rfl, -⟩ := Prod.mk.inj h
    subst hkinds
    exact takeNumber_of_stops (hrest hkind)

/-- What is left behind digits does not go on with them. -/
theorem takeNumber_stops {hex : Bool} {kind kind' : LitKind} {signed : Bool} {u rest cs : List Char}
    (h : takeNumber hex kind signed cs = (kind', u, rest)) (himag : kind' ≠ .imag) :
    StopsNumber (awaitsSign hex signed u) rest := by
  fun_induction takeNumber hex kind signed cs generalizing u with
  | case1 kind signed =>
    obtain ⟨-, h⟩ := Prod.mk.inj h
    obtain ⟨-, rfl⟩ := Prod.mk.inj h
    intro d hd
    cases hd
  | case2 kind signed c left hsign ih =>
    obtain ⟨v, rfl, hv⟩ := consTaken_eq h
    have hmark : isExponentMark hex c = false :=
      isExponentMark_of_sign (Bool.and_eq_true_iff.mp hsign).2
    rw [awaitsSign_cons, hmark]
    exact ih hv
  | case3 kind signed c left hsign hexp ih =>
    obtain ⟨v, rfl, hv⟩ := consTaken_eq h
    have hmark : isExponentMark hex c = true := hexp
    rw [awaitsSign_cons, hmark]
    exact ih hv
  | case4 kind signed c left hsign hexp hpoint ih =>
    obtain ⟨v, rfl, hv⟩ := consTaken_eq h
    have hmark : isExponentMark hex c = false := Bool.eq_false_iff.mpr hexp
    rw [awaitsSign_cons, hmark]
    exact ih hv
  | case5 kind signed c left hsign hexp hpoint halnum hi =>
    exact absurd (Prod.mk.inj h).1.symm himag
  | case6 kind signed c left hsign hexp hpoint halnum hi ih =>
    obtain ⟨v, rfl, hv⟩ := consTaken_eq h
    have hmark : isExponentMark hex c = false := Bool.eq_false_iff.mpr hexp
    rw [awaitsSign_cons, hmark]
    exact ih hv
  | case7 kind signed c left hsign hexp hpoint halnum =>
    obtain ⟨-, h⟩ := Prod.mk.inj h
    obtain ⟨rfl, rfl⟩ := Prod.mk.inj h
    intro d hd
    obtain rfl : c = d := Option.some.inj hd
    refine ⟨Bool.eq_false_iff.mpr halnum, by simpa using hpoint, fun hawaits => ?_⟩
    have hsigned : signed = true := hawaits
    rw [hsigned, Bool.true_and] at hsign
    exact Bool.eq_false_iff.mpr hsign

theorem continuesIdent_of_isAlphanum {c : Char} (h : c.isAlphanum = true) :
    Text.continuesIdent c = true := by
  have hascii : c.toNat < 0x80 := by
    change ((decide (c.val ≥ 65 ∧ c.val ≤ 90) || decide (c.val ≥ 97) && decide (c.val ≤ 122)) ||
      (decide (c.val ≥ 48) && decide (c.val ≤ 57))) = true at h
    simp only [Bool.or_eq_true, Bool.and_eq_true, decide_eq_true_eq, ge_iff_le,
      UInt32.le_iff_toNat_le] at h
    show c.val.toNat < 128
    rcases h with (⟨-, h⟩ | ⟨-, h⟩) | ⟨-, h⟩ <;> exact Nat.lt_of_le_of_lt h (by decide)
  rw [Char.isAlphanum, Bool.or_eq_true] at h
  rw [Text.continuesIdent, Text.isLetter, Text.isNumeral, if_pos hascii, if_pos hascii]
  rcases h with h | h <;> simp [h]

/-- The prefix of a number is taken as it is before any text that is no letter or digit. -/
theorem takeBase_swap {hex : Bool} {mark u rest rest' : List Char} (hne : mark ++ u ≠ [])
    (h : takeBase (mark ++ (u ++ rest)) = (hex, mark, u ++ rest))
    (hrest : ∀ d ∈ rest'.head?, d.isAlphanum = false) :
    takeBase (mark ++ (u ++ rest')) = (hex, mark, u ++ rest') := by
  generalize hcs : mark ++ (u ++ rest) = cs at h
  unfold takeBase at h
  split at h
  · simp only [Prod.mk.injEq] at h
    obtain ⟨rfl, rfl, -⟩ := h
    rfl
  · simp only [Prod.mk.injEq] at h
    obtain ⟨rfl, rfl, -⟩ := h
    rfl
  · rename_i hx hX
    simp only [Prod.mk.injEq] at h
    obtain ⟨rfl, rfl, -⟩ := h
    rcases u with _ | ⟨c, _ | ⟨d, u⟩⟩
    · exact absurd rfl hne
    · cases rest' with
      | nil =>
        show takeBase [c] = _
        unfold takeBase
        split
        · rename_i heq
          cases heq
        · rename_i heq
          cases heq
        · rfl
      | cons d ds =>
        have hd := hrest d rfl
        show takeBase (c :: d :: ds) = _
        unfold takeBase
        split
        · rename_i heq
          cases heq
          exact absurd hd (by decide)
        · rename_i heq
          cases heq
          exact absurd hd (by decide)
        · rfl
    · show takeBase (c :: d :: (u ++ rest')) = _
      unfold takeBase
      split
      · rename_i heq
        cases heq
        exact (hx _ hcs.symm).elim
      · rename_i heq
        cases heq
        exact (hX _ hcs.symm).elim
      · rfl

/-- What is taken of a number is no character and no string. -/
theorem takeNumber_kind (hex signed : Bool) (cs : List Char) {kind : LitKind}
    (h : kind ≠ .char ∧ kind ≠ .string) :
    (takeNumber hex kind signed cs).1 ≠ .char ∧ (takeNumber hex kind signed cs).1 ≠ .string := by
  fun_induction takeNumber hex kind signed cs with
  | case1 => exact h
  | case2 kind signed c left hsign ih => exact ih h
  | case3 kind signed c left hsign hexp ih => exact ih ⟨by decide, by decide⟩
  | case4 kind signed c left hsign hexp hpoint ih => exact ih ⟨by decide, by decide⟩
  | case5 => exact ⟨(by decide : LitKind.imag ≠ .char), (by decide : LitKind.imag ≠ .string)⟩
  | case6 kind signed c left hsign hexp hpoint halnum hi ih => exact ih h
  | case7 => exact h

/-- The kinds of numbers, other than imaginary ones, fuse with points and signs. -/
theorem fuses_number {kind : LitKind} (himag : kind ≠ .imag)
    (hkind : kind ≠ .char ∧ kind ≠ .string) (t : List Char) (d : Char) :
    (TokenKind.literal kind (String.ofList t)).fuses d =
      (d == '.' || (endsInExponent t && (d == '+' || d == '-'))) := by
  have ht : (String.ofList t).toList = t := String.toList_ofList
  cases kind with
  | int => rw [TokenKind.fuses, ht]
  | float => rw [TokenKind.fuses, ht]
  | imag => exact absurd rfl himag
  | char => exact absurd rfl hkind.1
  | string => exact absurd rfl hkind.2

/-- What a number is cut into: its base and its digits. -/
theorem scanNumber_parts {k : TokenKind} {t rest : List Char} (hne : t ≠ [])
    (h : scanNumber (t ++ rest) = ⟨k, t, rest⟩) :
    ∃ hex mark u kind, t = mark ++ u ∧ k = .literal kind (String.ofList t) ∧
      (kind ≠ .char ∧ kind ≠ .string) ∧ takeBase (t ++ rest) = (hex, mark, u ++ rest) ∧
      takeBase t = (hex, mark, u) ∧ takeNumber hex .int false (u ++ rest) = (kind, u, rest) := by
  rcases hbase : takeBase (t ++ rest) with ⟨hex, mark, left⟩
  have hleft := takeNumber_append hex .int false left
  have hkind : (takeNumber hex .int false left).1 ≠ .char ∧ _ :=
    takeNumber_kind hex false left ⟨by decide, by decide⟩
  rcases hdigits : takeNumber hex .int false left with ⟨kind, u, rest₁⟩
  rw [scanNumber, hbase, hdigits] at h
  rw [hdigits] at hleft hkind
  simp only [Lexeme.mk.injEq] at h
  obtain ⟨rfl, rfl, rfl⟩ := h
  obtain rfl : u ++ rest₁ = left := hleft
  have hown : takeBase (mark ++ (u ++ [])) = (hex, mark, u ++ []) := by
    rw [List.append_assoc] at hbase
    exact takeBase_swap hne hbase fun d hd => by cases hd
  rw [List.append_nil] at hown
  exact ⟨hex, mark, u, kind, rfl, rfl, hkind, rfl, hown, hdigits⟩

/-- The number at the start of a text does not depend on what follows it. -/
theorem scanNumber_swap {k : TokenKind} {t rest rest' : List Char} (hne : t ≠ [])
    (h : scanNumber (t ++ rest) = ⟨k, t, rest⟩)
    (hrest : ∀ d ∈ rest'.head?, k.joins d = false ∧ k.fuses d = false) :
    scanNumber (t ++ rest') = ⟨k, t, rest'⟩ := by
  obtain ⟨hex, mark, u, kind, rfl, rfl, hkind, hbase, hown, hdigits⟩ := scanNumber_parts hne h
  have hident : ∀ d ∈ rest'.head?, Text.continuesIdent d = false := by
    intro d hd
    have hjoins := (hrest d hd).1
    cases kind <;> first | exact hjoins | exact absurd rfl hkind.1 | exact absurd rfl hkind.2
  have halnum : ∀ d ∈ rest'.head?, d.isAlphanum = false := by
    intro d hd
    refine Bool.eq_false_iff.mpr fun h => ?_
    have hcont := hident d hd
    rw [continuesIdent_of_isAlphanum h] at hcont
    cases hcont
  have hstops : kind ≠ .imag → StopsNumber (awaitsSign hex false u) rest' := by
    intro himag d hd
    have hfuses := (hrest d hd).2
    rw [fuses_number himag hkind, endsInExponent, hown, Bool.or_eq_false_iff] at hfuses
    obtain ⟨hpoint, hsign⟩ := hfuses
    have hunder : d ≠ '_' := by
      rintro rfl
      exact absurd (hident _ hd) (by decide)
    refine ⟨by simp [halnum d hd, hunder], by simpa using hpoint, fun hawaits => ?_⟩
    rwa [hawaits, Bool.true_and] at hsign
  have hnumber : takeNumber hex .int false (u ++ rest') = (kind, u, rest') :=
    takeNumber_swap (fun h => by cases h) hdigits hstops
  rw [List.append_assoc] at hbase
  rw [scanNumber, List.append_assoc, takeBase_swap hne hbase halnum]
  simp only [hnumber]

/-- Nothing that would fuse with a number is left behind it. -/
theorem scanNumber_fuses {k : TokenKind} {t rest : List Char} (hne : t ≠ [])
    (h : scanNumber (t ++ rest) = ⟨k, t, rest⟩) : ∀ d ∈ rest.head?, k.fuses d = false := by
  obtain ⟨hex, mark, u, kind, rfl, rfl, hkind, -, hown, hdigits⟩ := scanNumber_parts hne h
  intro d hd
  by_cases himag : kind = .imag
  · rw [himag]
    rfl
  · obtain ⟨-, hpoint, hsign⟩ := takeNumber_stops hdigits himag d hd
    rw [fuses_number himag hkind, endsInExponent, hown, Bool.or_eq_false_iff]
    refine ⟨by simpa using hpoint, ?_⟩
    rcases hawaits : awaitsSign hex false u with _ | _
    · rfl
    · rw [hsign hawaits]
      rfl

/-! ## Marks -/

/-- Operators and other marks. -/
def TokenKind.isMark : TokenKind → Bool
  | op _ | opAssign _ | punct _ | semicolon _ => true
  | _ => false

/-- The longest mark at the start of a text does not depend on what does not join it. -/
theorem operator?_append {k : TokenKind} (hmark : k.isMark = true)
    (h : operator? k.text.toList = some (k, k.text.toList.length)) {rest : List Char}
    (hrest : ∀ d ∈ rest.head?, k.joins d = false) :
    operator? (k.text.toList ++ rest) = some (k, k.text.toList.length) := by
  cases rest with
  | nil => rwa [List.append_nil]
  | cons d ds =>
    have hd := hrest d rfl
    cases k with
    | op o =>
      cases o <;> first
        | rfl
        | simp [TokenKind.joins, BinaryOp.joins] at hd
          simp [operator?, simpleBinary?, TokenKind.text, BinaryOp.spelling, hd]
    | opAssign o => cases o <;> first | rfl | cases h
    | punct mark =>
      cases mark <;> first
        | rfl
        | simp [TokenKind.joins, Punct.joins] at hd
          simp [operator?, TokenKind.text, Punct.spelling, hd]
    | semicolon auto =>
      cases auto with
      | false => rfl
      | true => cases h
    | _ => cases hmark

/-- What a mark at the start of a text is, and that it is read from its own text. -/
theorem operator?_text {cs : List Char} {k : TokenKind} {n : Nat}
    (h : operator? cs = some (k, n)) :
    k.isMark = true ∧ k.text.toList = cs.take n ∧ operator? k.text.toList = some (k, n) ∧
      n = k.text.toList.length := by
  unfold operator? at h
  split at h
  all_goals first
    | (obtain ⟨rfl, rfl⟩ := Prod.mk.inj (Option.some.inj h); exact ⟨rfl, rfl, rfl, rfl⟩)
    | skip
  · split at h
    all_goals first
      | (obtain ⟨rfl, rfl⟩ := Prod.mk.inj (Option.some.inj h))
      | cases h
    all_goals
      have hsimple := ‹simpleBinary? _ = some _›
      unfold simpleBinary? at hsimple
      split at hsimple <;> cases hsimple <;> exact ⟨rfl, rfl, rfl, rfl⟩
  · cases h

end HandlerSplit
