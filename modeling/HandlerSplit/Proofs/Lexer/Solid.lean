import HandlerSplit.Proofs.Lexer.Legible
/-!
# Solid characters

Names, numbers and operators are written in solid characters: a lexeme that starts with one holds no
others. So it is no comment, and it ends before the next bracket, quote or white space, even where
two tokens have been written together and are read as others. How solid characters are cut into
lexemes does not depend on what stands behind them (`scanLexeme_cut`).
-/

namespace HandlerSplit

/-- White space and the byte order mark. -/
def strays : List Char :=
  '\ufeff' :: Text.blankRanges.flatMap fun (low, high) =>
    (List.range' low (high + 1 - low)).map Char.ofNat

/-- Blanks and byte order marks are stray characters. -/
theorem mem_strays {c : Char} (hc : Text.isBlank c = true ∨ c = '\ufeff') : c ∈ strays := by
  rw [strays, List.mem_cons]
  refine hc.symm.imp_right fun hblank => ?_
  obtain ⟨⟨low, high⟩, hrange, hin⟩ := List.any_eq_true.mp hblank
  simp only [Bool.and_eq_true, decide_eq_true_eq] at hin
  refine List.mem_flatMap.mpr ⟨(low, high), hrange, List.mem_map.mpr ⟨c.toNat, ?_, c.ofNat_toNat⟩⟩
  rw [List.mem_range'_1]
  omega

/-- The characters that only a quoted literal or a comment goes on with. -/
def separators : List Char :=
  ['"', '\'', '\x60', '/', '(', ')', '[', ']', '\x7b', '\x7d', ',', ';'] ++ strays

/-- A character of names, numbers and operators. -/
def isSolid (c : Char) : Bool :=
  !separators.contains c

theorem isSolid_of {p : Char → Bool} {c : Char} (hc : p c = true)
    (hp : separators.all (fun d => !p d) = true) : isSolid c = true := by
  rw [isSolid, Bool.not_eq_true', Bool.eq_false_iff, Ne, List.contains_iff_mem]
  intro hmem
  have hnot := List.all_eq_true.mp hp c hmem
  rw [hc] at hnot
  cases hnot

/-- Characters of identifiers are solid. -/
theorem isSolid_of_continuesIdent {c : Char} (hc : Text.continuesIdent c = true) :
    isSolid c = true :=
  isSolid_of hc (by decide +kernel)

theorem isSolid_of_startsNumber {c : Char} {cs : List Char} (h : startsNumber c cs = true) :
    isSolid c = true := by
  rw [startsNumber, Bool.or_eq_true, Bool.and_eq_true] at h
  rcases h with hdigit | ⟨hpoint, -⟩
  · exact isSolid_of hdigit (by decide)
  · rw [beq_iff_eq.mp hpoint]
    decide

/-- A solid character is no separator. -/
theorem not_mem_of_isSolid {c : Char} (hc : isSolid c = true) : c ∉ separators := by
  rwa [isSolid, Bool.not_eq_true', Bool.eq_false_iff, Ne, List.contains_iff_mem] at hc

/-- A solid character is no blank. -/
theorem isBlank_of_isSolid {c : Char} (hc : isSolid c = true) : Text.isBlank c = false :=
  Bool.eq_false_iff.mpr fun hblank =>
    not_mem_of_isSolid hc (List.mem_append_right _ (mem_strays (.inl hblank)))

theorem startsPlain_of_isSolid {c : Char} (hc : isSolid c = true) (rest : List Char) :
    StartsPlain c rest := by
  constructor
  · intro hquote
    simp only [List.mem_cons, List.not_mem_nil, or_false] at hquote
    rcases hquote with rfl | rfl | rfl <;> exact absurd hc (by decide)
  · rintro rfl
    exact absurd hc (by decide)

/-! ## Characters of lexemes -/

section

variable {q : Char → Bool} (hident : ∀ d, Text.continuesIdent d = true → q d = true)
  (hsign : ['.', '+', '-'].all q = true)

include hident hsign

/-- The characters of numbers. -/
theorem all_takeNumber (hex : Bool) (kind : LitKind) (signed : Bool) (cs : List Char) :
    ∀ d ∈ (takeNumber hex kind signed cs).2.1, q d = true := by
  have hmarks := List.all_eq_true.mp hsign
  have step {c : Char} {cut : LitKind × List Char × List Char} (hc : q c = true)
      (hcut : ∀ d ∈ cut.2.1, q d = true) : ∀ d ∈ (consTaken c cut).2.1, q d = true :=
    List.forall_mem_cons.mpr ⟨hc, hcut⟩
  have hdigit {c : Char} (hc : (c.isAlphanum || c == '_') = true) : q c = true := by
    rcases Bool.or_eq_true_iff.mp hc with hc | hc
    · exact hident c (continuesIdent_of_isAlphanum hc)
    · rw [beq_iff_eq.mp hc]
      exact hident '_' (by decide)
  fun_induction takeNumber hex kind signed cs with
  | case1 => exact List.forall_mem_nil _
  | case2 kind signed c left hsign ih =>
    refine step (hmarks c ?_) ih
    rcases Bool.or_eq_true_iff.mp (Bool.and_eq_true_iff.mp hsign).2 with hc | hc <;>
      rw [beq_iff_eq.mp hc] <;> decide
  | case3 kind signed c left hsign hexp ih =>
    exact step (hident c (continuesIdent_of_isAlphanum (isAlphanum_of_isExponentMark hexp))) ih
  | case4 kind signed c left hsign hexp hpoint ih =>
    refine step (hmarks c ?_) ih
    rw [beq_iff_eq.mp hpoint]
    decide
  | case5 kind signed c left hsign hexp hpoint halnum hi =>
    exact List.forall_mem_singleton.mpr (hdigit halnum)
  | case6 kind signed c left hsign hexp hpoint halnum hi ih => exact step (hdigit halnum) ih
  | case7 => exact List.forall_mem_nil _

omit hsign in
/-- What holds of all characters of a text holds of those that are taken. -/
theorem all_takeBase (cs : List Char) : ∀ d ∈ (takeBase cs).2.1, q d = true := by
  have hword {c : Char} (hc : c ∈ ['0', 'x', 'X']) : q c = true :=
    hident c (List.all_eq_true.mp (by decide : ['0', 'x', 'X'].all Text.continuesIdent = true) c hc)
  unfold takeBase
  split
  · exact List.forall_mem_cons.mpr ⟨hword (by decide), List.forall_mem_singleton.mpr (hword (by decide))⟩
  · exact List.forall_mem_cons.mpr ⟨hword (by decide), List.forall_mem_singleton.mpr (hword (by decide))⟩
  · exact List.forall_mem_nil _

/-- The characters of a lexeme that is no comment and no quoted literal. -/
theorem all_scanLexeme {c : Char} {rest : List Char} (hplain : StartsPlain c rest) (hc : q c = true)
    (hmark : ∀ k : TokenKind, k.isMark = true → k.text.toList.head? = some c →
      ∀ d ∈ k.text.toList, q d = true) :
    (scanLexeme c rest).kind.isTrivia = false ∧ ∀ d ∈ (scanLexeme c rest).text, q d = true := by
  rw [scanLexeme_of_plain hplain]
  split
  · refine ⟨rfl, fun d hd => ?_⟩
    rcases List.mem_append.mp hd with hd | hd
    · exact all_takeBase hident _ d hd
    · exact all_takeNumber hident hsign _ _ _ _ d hd
  · split
    · refine ⟨?_, fun d hd => hident d (List.all_eq_true.mp List.all_takeWhile d hd)⟩
      simp only [wordKind]
      split <;> rfl
    · split
      · rename_i kind n hop
        obtain ⟨hk, htext, -, hlength⟩ := operator?_text hop
        have htrivia : kind.isTrivia = false := by
          cases kind with
          | comment t => cases hk
          | _ => rfl
        refine ⟨htrivia, ?_⟩
        show ∀ d ∈ (c :: rest).take n, _
        rw [← htext]
        refine hmark kind hk ?_
        obtain ⟨m, rfl⟩ := Nat.exists_eq_succ_of_ne_zero (Nat.ne_of_gt (operator?_pos hop))
        rw [htext]
        rfl
      · exact ⟨rfl, List.forall_mem_singleton.mpr hc⟩

end

/-- The characters of marks. -/
theorem isSolid_mark {k : TokenKind} (hmark : k.isMark = true)
    (hhead : ∀ d ∈ k.text.toList.head?, isSolid d = true) : ∀ d ∈ k.text.toList, isSolid d = true := by
  have hall (h : k.text.toList.head?.all isSolid = true → k.text.toList.all isSolid = true) :
      ∀ d ∈ k.text.toList, isSolid d = true :=
    List.all_eq_true.mp (h ((Option.all_eq_true _ _).mpr hhead))
  cases k with
  | op o => cases o <;> exact hall (by decide)
  | opAssign o => cases o <;> exact hall (by decide)
  | punct m => cases m <;> exact hall (by decide)
  | semicolon auto => cases auto <;> exact hall (by decide)
  | _ => cases hmark

/-- A lexeme that starts with a solid character is solid. -/
theorem isSolid_scanLexeme {c : Char} (hc : isSolid c = true) (rest : List Char) :
    (scanLexeme c rest).kind.isTrivia = false ∧
      ∀ d ∈ (scanLexeme c rest).text, isSolid d = true := by
  refine all_scanLexeme (fun d => isSolid_of_continuesIdent) (by decide)
    (startsPlain_of_isSolid hc rest) hc fun k hk hhead => isSolid_mark hk fun d hd => ?_
  rw [hhead] at hd
  rwa [← Option.some.inj hd]

/-- What starts plainly and not with a solid character is a mark. -/
theorem isMark_of_not_solid {c : Char} {cs : List Char} (hplain : StartsPlain c cs)
    (hsolid : ¬isSolid c = true) {k : TokenKind} (hk : ∀ f, k ≠ .fault f)
    (hscan : (scanLexeme c cs).kind = k) : k.isMark = true := by
  have hnumber : startsNumber c cs = false :=
    Bool.eq_false_iff.mpr fun hnumber => hsolid (isSolid_of_startsNumber hnumber)
  have hident : Text.startsIdent c = false := by
    refine Bool.eq_false_iff.mpr fun hident => hsolid ?_
    exact isSolid_of_continuesIdent (Text.continuesIdent_of_startsIdent hident)
  rw [scanLexeme_of_plain hplain, hnumber, hident] at hscan
  simp only [Bool.false_eq_true, if_false] at hscan
  split at hscan
  · rename_i hop
    rw [← hscan]
    exact (operator?_text hop).1
  · exact absurd hscan.symm (hk _)

/-! ## Ends of tokens -/

/-- A quoted literal ends with its quote. -/
theorem takeQuoted_last {q : Char} {cs taken left : List Char}
    (h : takeQuoted q cs = (true, taken, left)) : taken.getLast? = some q := by
  fun_induction takeQuoted q cs generalizing taken with
  | case1 => cases h
  | case2 c left' hq =>
    obtain ⟨-, h⟩ := Prod.mk.inj h
    obtain ⟨rfl, -⟩ := Prod.mk.inj h
    rw [beq_iff_eq.mp hq]
    rfl
  | case3 => cases h
  | case4 => cases h
  | case5 => cases h
  | case6 c hq hn hb d left' hd ih =>
    obtain ⟨v, rfl, hv⟩ := consTaken_eq h
    obtain ⟨w, rfl, hw⟩ := consTaken_eq hv
    rw [List.getLast?_cons, List.getLast?_cons, ih hw]
    rfl
  | case7 c left' hq hn hb ih =>
    obtain ⟨v, rfl, hv⟩ := consTaken_eq h
    rw [List.getLast?_cons, ih hv]
    rfl

theorem takeRaw_last {cs taken left : List Char} (h : takeRaw cs = (true, taken, left)) :
    taken.getLast? = some '\x60' := by
  fun_induction takeRaw cs generalizing taken with
  | case1 => cases h
  | case2 c left' hq =>
    obtain ⟨-, h⟩ := Prod.mk.inj h
    obtain ⟨rfl, -⟩ := Prod.mk.inj h
    rw [beq_iff_eq.mp hq]
    rfl
  | case3 c left' hq ih =>
    obtain ⟨v, rfl, hv⟩ := consTaken_eq h
    rw [List.getLast?_cons, ih hv]
    rfl

/-- A comment ends with a slash. -/
theorem takeBlockComment_last {cs taken left : List Char}
    (h : takeBlockComment cs = some (taken, left)) : taken.getLast? = some '/' := by
  fun_induction takeBlockComment cs generalizing taken left with
  | case1 left' =>
    obtain ⟨rfl, -⟩ := Prod.mk.inj (Option.some.inj h)
    rfl
  | case2 c left' hstar ih =>
    obtain ⟨⟨v, w⟩, hv, h⟩ := Option.map_eq_some_iff.mp h
    obtain ⟨rfl, rfl⟩ := Prod.mk.inj h
    rw [List.getLast?_cons, ih hv]
    rfl
  | case3 => cases h

/-- No white space and no byte order mark stands in a mark. -/
theorem not_mem_mark {k : TokenKind} (hmark : k.isMark = true) :
    ∀ d ∈ k.text.toList, d ∉ strays := by
  have hall : (k.text.toList.all fun d => !strays.contains d) = true := by
    cases k with
    | op o => cases o <;> decide
    | opAssign o => cases o <;> decide
    | punct m => cases m <;> decide
    | semicolon auto => cases auto <;> decide
    | _ => cases hmark
  simpa using hall

/-- What has been trimmed does not end with a blank. -/
theorem last_trimEnd (cs : List Char) : ∀ d ∈ (Text.trimEnd cs).getLast?, Text.isBlank d = false := by
  intro d hd
  rw [Text.trimEnd, Text.dropEndWhile, List.getLast?_reverse] at hd
  have hnot := List.head?_dropWhile_not Text.isBlank cs.reverse
  rw [Option.mem_def.mp hd] at hnot
  exact hnot

/-- A legible token does not end with white space. -/
theorem TokenKind.Legible.last {k : TokenKind} (hk : k.Legible) :
    ∀ d ∈ k.text.toList.getLast?, Text.isBlank d = false := by
  have hfault := hk.ne_fault
  obtain ⟨c, cs, htext, hscan⟩ := hk
  intro d hd
  rcases startsPlain_or c cs with hplain | ⟨rfl, e, es, rfl, rfl | rfl⟩ | hquote
  · by_cases hsolid : isSolid c = true
    · have hall := (isSolid_scanLexeme hsolid cs).2
      rw [hscan, ← htext] at hall
      exact isBlank_of_isSolid (hall d (List.mem_of_mem_getLast? hd))
    · have hmark := isMark_of_not_solid hplain hsolid hfault (by rw [hscan])
      exact Bool.eq_false_iff.mpr fun hblank =>
        not_mem_mark hmark d (List.mem_of_mem_getLast? hd) (mem_strays (.inl hblank))
  · rw [scanLexeme_line] at hscan
    obtain ⟨rfl, -, -⟩ := Lexeme.mk.inj hscan
    rw [TokenKind.text, String.toList_ofList] at hd
    exact last_trimEnd _ d hd
  · rw [scanLexeme_block] at hscan
    split at hscan
    · rename_i taken left htaken
      obtain ⟨-, htake, -⟩ := Lexeme.mk.inj hscan
      rw [htext, ← htake, List.getLast?_cons, List.getLast?_cons, takeBlockComment_last htaken] at hd
      cases hd
      decide
    · obtain ⟨rfl, -, -⟩ := Lexeme.mk.inj hscan
      cases htext
  · have hlast : k.text.toList.getLast? = some c := by
      simp only [List.mem_cons, List.not_mem_nil, or_false] at hquote
      rcases hquote with rfl | rfl | rfl <;> rw [scanLexeme] at hscan
      all_goals
        split at hscan
        · rename_i htaken
          obtain ⟨-, htake, -⟩ := Lexeme.mk.inj hscan
          rw [htext, ← htake, List.getLast?_cons]
          first
            | rw [takeQuoted_last htaken]
            | rw [takeRaw_last htaken]
          rfl
        · obtain ⟨rfl, -, -⟩ := Lexeme.mk.inj hscan
          cases htext
    rw [hlast] at hd
    cases hd
    simp only [List.mem_cons, List.not_mem_nil, or_false] at hquote
    rcases hquote with rfl | rfl | rfl <;> decide

/-! ## Beginnings of tokens -/

/-- No legible token starts with white space or a byte order mark. -/
theorem TokenKind.Legible.head {k : TokenKind} (hk : k.Legible) :
    ∀ d ∈ k.text.toList.head?, d ∉ strays := by
  obtain ⟨c, cs, htext, hscan⟩ := hk
  have hsolid (hc : isSolid c = true) : c ∉ strays := fun hmem =>
    not_mem_of_isSolid hc (List.mem_append_right _ hmem)
  have hcase := scannedAs c cs
  rw [hscan] at hcase
  intro d hd
  have hdc : c = d := by
    rw [htext] at hd
    exact Option.some.inj hd
  subst hdc
  cases hcase with
  | comment hc =>
    rw [hc]
    decide
  | quoted hquote =>
    simp only [List.mem_cons, List.not_mem_nil, or_false] at hquote
    rcases hquote with rfl | rfl | rfl <;> decide
  | number hnumber => exact hsolid (isSolid_of_startsNumber hnumber)
  | word hident =>
    exact hsolid (isSolid_of_continuesIdent (Text.continuesIdent_of_startsIdent hident))
  | mark hop => exact not_mem_mark (operator?_text hop).1 c (List.mem_of_mem_head? hd)
  | fault => cases htext

/-- A legible token is solid, or starts with a separator and fuses with nothing. -/
theorem TokenKind.Legible.solid_or {k : TokenKind} (hk : k.Legible) :
    (k.isTrivia = false ∧ ∀ d ∈ k.text.toList, isSolid d = true) ∨
      (∀ d ∈ k.text.toList.head?, isSolid d = false) ∧ ∀ d, k.fuses d = false := by
  obtain ⟨c, cs, htext, hscan⟩ := id hk
  by_cases hsolid : isSolid c = true
  · have hall := isSolid_scanLexeme hsolid cs
    rw [hscan, ← htext] at hall
    exact .inl hall
  · refine .inr ⟨fun d hd => ?_, fun d => Bool.eq_false_iff.mpr fun hfuses => hsolid ?_⟩
    · rw [htext] at hd
      rw [← Option.some.inj hd]
      exact Bool.eq_false_iff.mpr hsolid
    · obtain ⟨c', cs', htext', hnumber⟩ := hk.number hfuses
      rw [(List.cons.inj (htext.symm.trans htext')).1]
      exact isSolid_of_startsNumber hnumber

/-! ## Cutting behind solid characters -/

section

variable {r : List Char}

/-- The characters that a mark of several characters goes on with. -/
def extendsMark (c : Char) : Bool :=
  ['=', '<', '>', '&', '|', '^', '+', '-', '.'].contains c

/-- A separator extends no mark. -/
theorem extendsMark_of_not_solid {c : Char} (hc : isSolid c = false) : extendsMark c = false := by
  refine Bool.eq_false_iff.mpr fun hextends => ?_
  rw [isSolid_of hextends (by decide)] at hc
  cases hc

theorem cons_of_append_eq_cons {d : Char} {t tail : List Char}
    (hr : ∀ e ∈ r.head?, extendsMark e = false) (hd : extendsMark d = true)
    (h : t ++ r = d :: tail) : ∃ tail', t = d :: tail' ∧ tail' ++ r = tail := by
  cases t with
  | nil =>
    rw [hr d (by rw [show r = d :: tail from h]; rfl)] at hd
    cases hd
  | cons e t =>
    obtain ⟨rfl, rfl⟩ := List.cons.inj h
    exact ⟨t, rfl, rfl⟩

/-- The longest mark at the start of a text does not depend on what follows the text, unless a mark
goes on with it. -/
theorem operator?_cut {cs : List Char} (hcs : cs ≠ [])
    (hr : ∀ e ∈ r.head?, extendsMark e = false) : operator? (cs ++ r) = operator? cs := by
  -- What does not stand at the start of a text does not stand there if `r` follows.
  have hone {p : Prop} {d : Char} {t : List Char} (hd : extendsMark d = true)
      (h : ∀ tail, p → t = d :: tail → False) (tail : List Char) :
      p → t ++ r = d :: tail → False := by
    intro hp ht
    obtain ⟨tail', rfl, -⟩ := cons_of_append_eq_cons hr hd ht
    exact h tail' hp rfl
  have htwo {p : Prop} {d e : Char} {t : List Char} (hd : extendsMark d = true)
      (he : extendsMark e = true) (h : ∀ tail, p → t = d :: e :: tail → False) (tail : List Char) :
      p → t ++ r = d :: e :: tail → False := by
    intro hp ht
    obtain ⟨tail', rfl, ht'⟩ := cons_of_append_eq_cons hr hd ht
    obtain ⟨tail'', rfl, -⟩ := cons_of_append_eq_cons hr he ht'
    exact h tail'' hp rfl
  have hone' {d : Char} {t : List Char} (hd : extendsMark d = true)
      (h : ∀ tail, t = d :: tail → False) (tail : List Char) : t ++ r = d :: tail → False :=
    hone hd (fun tail _ => h tail) tail trivial
  have htwo' {d e : Char} {t : List Char} (hd : extendsMark d = true) (he : extendsMark e = true)
      (h : ∀ tail, t = d :: e :: tail → False) (tail : List Char) :
      t ++ r = d :: e :: tail → False :=
    htwo hd he (fun tail _ => h tail) tail trivial
  fun_cases operator? cs
  all_goals try rfl
  case case7 => exact operator?.eq_7 _ (hone' rfl (by assumption))
  case case8 => exact operator?.eq_8 _ (hone' rfl (by assumption))
  case case9 => exact operator?.eq_9 _ (hone' rfl (by assumption))
  case case33 =>
    rename_i ho _ _ _ _ _ _ _ _ _ _ _ _ _ _ _ _ _
    unfold simpleBinary? at ho
    split at ho <;> cases ho <;> rfl
  case case36 => exact absurd rfl hcs
  all_goals
    rw [List.cons_append]
    first
      | apply operator?.eq_18
      | apply operator?.eq_19
      | apply operator?.eq_20
      | apply operator?.eq_21
      | apply operator?.eq_30
      | apply operator?.eq_31
      | apply operator?.eq_34
      | apply operator?.eq_35
    all_goals first
      | assumption
      | exact hone' rfl (by assumption)
      | exact htwo' rfl rfl (by assumption)
      | exact hone rfl (by assumption)
      | exact htwo rfl rfl (by assumption)

/-- A number ends where the text behind it does not go on with it. -/
theorem takeNumber_cut (hr : StopsNumber true r) (hex : Bool) (kind : LitKind) (signed : Bool)
    (cs : List Char) : takeNumber hex kind signed (cs ++ r) =
      ((takeNumber hex kind signed cs).1, (takeNumber hex kind signed cs).2.1,
        (takeNumber hex kind signed cs).2.2 ++ r) := by
  fun_induction takeNumber hex kind signed cs with
  | case1 kind signed =>
    refine takeNumber_of_stops fun d hd => ?_
    obtain ⟨halnum, hpoint, hsign⟩ := hr d hd
    exact ⟨halnum, hpoint, fun _ => hsign rfl⟩
  | case2 kind signed c left hsign ih =>
    rw [List.cons_append, takeNumber, if_pos hsign, ih]
    rfl
  | case3 kind signed c left hsign hexp ih =>
    rw [List.cons_append, takeNumber, if_neg hsign, if_pos hexp, ih]
    rfl
  | case4 kind signed c left hsign hexp hpoint ih =>
    rw [List.cons_append, takeNumber, if_neg hsign, if_neg hexp, if_pos hpoint, ih]
    rfl
  | case5 kind signed c left hsign hexp hpoint halnum hi =>
    rw [List.cons_append, takeNumber, if_neg hsign, if_neg hexp, if_neg hpoint, if_pos halnum,
      if_pos hi]
  | case6 kind signed c left hsign hexp hpoint halnum hi ih =>
    rw [List.cons_append, takeNumber, if_neg hsign, if_neg hexp, if_neg hpoint, if_pos halnum,
      if_neg hi, ih]
    rfl
  | case7 kind signed c left hsign hexp hpoint halnum =>
    rw [List.cons_append, takeNumber, if_neg hsign, if_neg hexp, if_neg hpoint, if_neg halnum]

/-- A prefix of a number is taken as it is before any text that is no part of it. -/
theorem takeBase_cut {cs : List Char} (hcs : cs ≠ []) (hr : ∀ d ∈ r.head?, d ≠ 'x' ∧ d ≠ 'X') :
    takeBase (cs ++ r) =
      ((takeBase cs).1, (takeBase cs).2.1, (takeBase cs).2.2 ++ r) := by
  have hmark {m : Char} (hm : ∀ d ∈ r.head?, d ≠ m) {left : List Char}
      (h : cs ++ r = '0' :: m :: left) : ∃ left', cs = '0' :: m :: left' := by
    rcases cs with _ | ⟨c, _ | ⟨d, cs⟩⟩
    · exact absurd rfl hcs
    · have hhead : r = m :: left := (List.cons.inj h).2
      exact absurd rfl (hm m (by rw [hhead]; rfl))
    · obtain ⟨rfl, htail⟩ := List.cons.inj h
      exact ⟨cs, by rw [(List.cons.inj htail).1]⟩
  fun_cases takeBase cs with
  | case1 | case2 => rfl
  | case3 _ hlower hupper =>
    rw [takeBase]
    · intro left h
      obtain ⟨left', rfl⟩ := hmark (fun d hd => (hr d hd).1) h
      exact hlower left' rfl
    · intro left h
      obtain ⟨left', rfl⟩ := hmark (fun d hd => (hr d hd).2) h
      exact hupper left' rfl

/-- What is taken of a text before another does not reach into the other. -/
theorem takeWhile_cut {p : Char → Bool} (hr : ∀ d ∈ r.head?, p d = false) (cs : List Char) :
    (cs ++ r).takeWhile p = cs.takeWhile p ∧ (cs ++ r).dropWhile p = cs.dropWhile p ++ r := by
  induction cs with
  | nil =>
    cases r with
    | nil => exact ⟨rfl, rfl⟩
    | cons d r => simp [hr d rfl]
  | cons c cs ih =>
    rw [List.cons_append]
    cases hc : p c with
    | true => simp [hc, ih]
    | false => simp [hc]

/-- How a text that starts with a solid character is cut does not depend on what stands behind it,
if that is not solid. -/
theorem scanLexeme_cut {c : Char} (hc : isSolid c = true) (cs : List Char)
    (hr : ∀ d ∈ r.head?, isSolid d = false) :
    scanLexeme c (cs ++ r) =
      ⟨(scanLexeme c cs).kind, (scanLexeme c cs).text, (scanLexeme c cs).rest ++ r⟩ := by
  have hends {p : Char → Bool} (hp : separators.all (fun d => !p d) = true) {d : Char}
      (hd : d ∈ r.head?) : p d = false := by
    refine Bool.eq_false_iff.mpr fun hd' => ?_
    have hnot := hr d hd
    rw [isSolid_of hd' hp] at hnot
    cases hnot
  have hident {d : Char} (hd : d ∈ r.head?) : Text.continuesIdent d = false := by
    refine Bool.eq_false_iff.mpr fun hd' => ?_
    have hnot := hr d hd
    rw [isSolid_of_continuesIdent hd'] at hnot
    cases hnot
  have hnumber : startsNumber c (cs ++ r) = startsNumber c cs := by
    cases cs with
    | cons d ds => rfl
    | nil =>
      cases r with
      | nil => rfl
      | cons d ds =>
        have hd : d.isDigit = false := hends (by decide) rfl
        simp [startsNumber, hd]
  rw [scanLexeme_of_plain (startsPlain_of_isSolid hc _), scanLexeme_of_plain (startsPlain_of_isSolid hc _),
    hnumber, ← List.cons_append]
  split
  · rw [scanNumber, takeBase_cut (List.cons_ne_nil c cs) fun d hd => ?_, takeNumber_cut fun d hd => ?_]
    · rfl
    · refine ⟨hends (p := fun d => d.isAlphanum || d == '_') (by decide) hd, ?_, fun _ =>
        hends (p := fun d => d == '+' || d == '-') (by decide) hd⟩
      exact beq_eq_false_iff_ne.mp (hends (p := (· == '.')) (by decide) hd)
    · exact ⟨beq_eq_false_iff_ne.mp (hends (p := (· == 'x')) (by decide) hd),
        beq_eq_false_iff_ne.mp (hends (p := (· == 'X')) (by decide) hd)⟩
  · split
    · obtain ⟨htake, hdrop⟩ := takeWhile_cut (fun d hd => hident hd) (c :: cs)
      simp only [htake, hdrop]
    · rw [operator?_cut (List.cons_ne_nil c cs) fun d hd => extendsMark_of_not_solid (hr d hd)]
      split
      · rename_i kind n hop
        obtain ⟨-, htext, -, hn⟩ := operator?_text hop
        have hle : n ≤ (c :: cs).length := by
          rw [hn, htext, List.length_take]
          exact Nat.min_le_right _ _
        rw [List.take_append_of_le_length hle, List.drop_append_of_le_length hle]
      · rfl

end

end HandlerSplit
