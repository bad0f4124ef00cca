import HandlerSplit.Proofs.Print.Layout
/-!
# What a laid-out text looks like

An output that is laid out as a file is, from the start of a text to the start of a line, is a text
in layout normal form (`laidOut_of_neat`).
-/

namespace HandlerSplit

/-! ## Tokens of several lines -/

theorem not_mem_takeQuoted {q : Char} (hq : q ≠ '\n') (cs : List Char) :
    '\n' ∉ (takeQuoted q cs).2.1 := by
  fun_induction takeQuoted q cs with
  | case1 => exact List.not_mem_nil
  | case2 c rest hc => simpa [beq_iff_eq.mp hc] using hq.symm
  | case3 => exact List.not_mem_nil
  | case4 c hc hn hb => simpa using Ne.symm (ne_of_beq_false (Bool.eq_false_iff.mpr hn))
  | case5 c hc hn hb d rest hd => simpa using Ne.symm (ne_of_beq_false (Bool.eq_false_iff.mpr hn))
  | case6 c hc hn hb d rest hd ih =>
    exact List.not_mem_cons_of_ne_of_not_mem
      (Ne.symm (ne_of_beq_false (Bool.eq_false_iff.mpr hn)))
      (List.not_mem_cons_of_ne_of_not_mem
        (Ne.symm (ne_of_beq_false (Bool.eq_false_iff.mpr hd))) ih)
  | case7 c rest hc hn hb ih =>
    exact List.not_mem_cons_of_ne_of_not_mem
      (Ne.symm (ne_of_beq_false (Bool.eq_false_iff.mpr hn))) ih

/-- A token of several lines is a raw string or a block comment. -/
theorem TokenKind.Legible.multiline {k : TokenKind} (hk : k.Legible) (h : '\n' ∈ k.text.toList) :
    k.text.toList.head? = some '\x60' ∨ ['/', '*'] <+: k.text.toList := by
  have hfault := hk.ne_fault
  obtain ⟨c, cs, htext, hscan⟩ := hk
  rcases startsPlain_or c cs with hplain | ⟨rfl, e, es, rfl, rfl | rfl⟩ | hquote
  · exfalso
    by_cases hsolid : isSolid c = true
    · have hall := (isSolid_scanLexeme hsolid cs).2
      rw [hscan, ← htext] at hall
      exact absurd (hall _ h) (by decide)
    · have hmark := isMark_of_not_solid hplain hsolid hfault (by rw [hscan])
      exact not_mem_mark hmark _ h (mem_strays (.inl rfl))
  · exfalso
    rw [scanLexeme_line] at hscan
    obtain ⟨-, htaken, -⟩ := Lexeme.mk.inj hscan
    rw [htext, ← htaken] at h
    exact absurd (List.mem_takeWhile_imp h) (by decide)
  · exact .inr ⟨es, htext.symm⟩
  · have outside {q : Char} (hq : q ≠ '\n') (hne : '\n' ≠ c) (htaken : (takeQuoted q cs).2.1 = cs) :
        False := by
      have hnot := not_mem_takeQuoted hq cs
      rw [htaken] at hnot
      rw [htext] at h
      exact hnot ((List.mem_cons.mp h).resolve_left hne)
    simp only [List.mem_cons, List.not_mem_nil, or_false] at hquote
    rcases hquote with rfl | rfl | rfl
    · refine (outside (q := '"') (by decide) (by decide) ?_).elim
      rw [scanLexeme] at hscan
      split at hscan
      · rename_i heq
        rw [heq]
        exact (List.cons.inj (Lexeme.mk.inj hscan).2.1).2
      · exact absurd (Lexeme.mk.inj hscan).1.symm (hfault _)
    · exact .inl (by rw [htext]; rfl)
    · refine (outside (q := '\'') (by decide) (by decide) ?_).elim
      rw [scanLexeme] at hscan
      split at hscan
      · rename_i heq
        rw [heq]
        exact (List.cons.inj (Lexeme.mk.inj hscan).2.1).2
      · exact absurd (Lexeme.mk.inj hscan).1.symm (hfault _)

namespace Print

open Spot

/-! ## Characters -/

theorem nonblank_last {t : String} (h : ∃ k : TokenKind, k.Legible ∧ k.text = t) :
    ∃ c, t.toList.getLast? = some c ∧ Text.isBlank c = false := by
  obtain ⟨k, hk, rfl⟩ := h
  obtain ⟨c, cs, htext, -⟩ := id hk
  obtain ⟨d, hd⟩ : ∃ d, k.text.toList.getLast? = some d := by
    rw [htext]
    exact ⟨_, List.getLast?_cons⟩
  exact ⟨d, hd, hk.last d hd⟩

theorem nonblank_head {t : String} (h : ∃ k : TokenKind, k.Legible ∧ k.text = t) :
    ∃ c, t.toList.head? = some c ∧ c ≠ '\n' := by
  obtain ⟨k, hk, rfl⟩ := h
  obtain ⟨c, cs, htext, -⟩ := id hk
  have hhead : k.text.toList.head? = some c := by rw [htext]; rfl
  refine ⟨c, hhead, ?_⟩
  rintro rfl
  exact hk.head _ hhead (mem_strays (.inl (by decide)))

theorem chars_gap {p : Piece} (hp : p.isGap = true) :
    ∃ n c, p.chars = List.replicate n c ∧ (c = ' ' ∨ c = '\t') := by
  cases p with
  | spaces n => exact ⟨n, ' ', chars_spaces n, .inl rfl⟩
  | tabs n => exact ⟨n, '\t', chars_tabs n, .inr rfl⟩
  | _ => cases hp

theorem spot_gap {p : Piece} (hp : p.isGap = true) (s : Spot) : p.spot s = s.blanked := by
  cases p with
  | spaces n => rfl
  | tabs n => rfl
  | _ => cases hp

namespace Output

variable {o : Output} {s : Spot} {n : Nat}

theorem chars_concat (o : Output) (p : Piece) : chars (o ++ [p]) = chars o ++ p.chars := by
  rw [chars_append]
  exact congrArg (chars o ++ ·) (List.append_nil _)

/-- Where no white space stands right before, the text before does not end with any. -/
theorem Neat.last (h : Neat s o) (hblank : (spot s o).blank = false) :
    ∀ c ∈ o.chars.getLast?, c ≠ ' ' ∧ c ≠ '\t' := by
  induction o using List.reverseRecOn with
  | nil => exact nofun
  | append_singleton o p ih =>
    rw [neat_append] at h
    rw [spot_append] at hblank
    intro c hc
    rw [chars_concat] at hc
    cases p with
    | word t =>
      obtain ⟨d, hd, hnot⟩ := nonblank_last h.2.1.1
      rw [show Piece.chars (.word t) = t.toList from rfl, List.getLast?_append, hd] at hc
      cases hc
      constructor <;> rintro rfl <;> exact absurd hnot (by decide)
    | newline =>
      rw [show Piece.chars .newline = ['\n'] from rfl, List.getLast?_concat] at hc
      cases hc
      decide
    | spaces n => cases hblank
    | tabs n => cases hblank

/-- Line breaks at the end of the text before a place have been counted. -/
theorem Neat.breaks_at_end (h : Neat s o) (hn : List.replicate n '\n' <:+ o.chars) :
    n ≤ (spot s o).breaks := by
  induction o using List.reverseRecOn generalizing n with
  | nil =>
    have hnil : List.replicate n '\n' = [] := List.suffix_nil.mp hn
    obtain rfl : n = 0 := by simpa using hnil
    exact Nat.zero_le _
  | append_singleton o p ih =>
    rcases n with _ | n
    · exact Nat.zero_le _
    rw [neat_append] at h
    rw [spot_append]
    obtain ⟨front, hfront⟩ := id hn
    rw [chars_concat, List.replicate_succ', ← List.append_assoc] at hfront
    have hlast : (chars o ++ p.chars).getLast? = some '\n' := by
      rw [← hfront, List.getLast?_concat]
    cases hgap : p.isGap with
    | true =>
      obtain ⟨k, c, hk, hc⟩ := chars_gap hgap
      rcases k with _ | k
      · rw [chars_concat, hk, List.replicate_zero, List.append_nil] at hn
        show n + 1 ≤ (p.spot (spot s o)).breaks
        rw [spot_gap hgap]
        exact ih h.1 hn
      · rw [hk, List.replicate_succ', ← List.append_assoc, List.getLast?_concat] at hlast
        obtain rfl := Option.some.inj hlast
        exact absurd hc (by decide)
    | false =>
      cases p with
      | word t =>
        obtain ⟨d, hd, hnot⟩ := nonblank_last h.2.1.1
        rw [show Piece.chars (.word t) = t.toList from rfl, List.getLast?_append, hd] at hlast
        cases hlast
        exact absurd hnot (by decide)
      | newline =>
        exact Nat.succ_le_succ (ih h.1 ⟨front, List.append_cancel_right hfront⟩)
      | _ => cases hgap

/-- Behind an opening bracket comes one line break at most. -/
theorem Neat.breaks_at_start (h : Neat s o) (hopened : s.opened = true)
    (hn : List.replicate n '\n' <+: o.chars) : n = 0 ∨ s.breaks + n ≤ 1 := by
  induction o generalizing s n with
  | nil =>
    have hnil : List.replicate n '\n' = [] := List.prefix_nil.mp hn
    exact .inl (by simpa using hnil)
  | cons p o ih =>
    rcases n with _ | n
    · exact .inl rfl
    obtain ⟨left, hleft⟩ := id hn
    have hleft : '\n' :: (List.replicate n '\n' ++ left) = p.chars ++ chars o := hleft
    have hhead : (p.chars ++ chars o).head? = some '\n' := by
      rw [← hleft]
      rfl
    cases hgap : p.isGap with
    | true =>
      obtain ⟨k, c, hk, hc⟩ := chars_gap hgap
      rcases k with _ | k
      · have hrest : List.replicate (n + 1) '\n' <+: chars o := by
          rw [show chars (p :: o) = p.chars ++ chars o from rfl, hk] at hn
          exact hn
        have hneat := h.2
        rw [spot_gap hgap] at hneat
        exact ih (s := s.blanked) hneat hopened hrest
      · rw [hk] at hhead
        obtain rfl := Option.some.inj hhead
        exact absurd hc (by decide)
    | false =>
      cases p with
      | word t =>
        obtain ⟨d, hd, hnot⟩ := nonblank_head h.1.1
        rw [show Piece.chars (.word t) = t.toList from rfl, List.head?_append, hd] at hhead
        exact absurd (Option.some.inj hhead) hnot
      | newline =>
        have hzero := h.1.2.2 hopened
        have hrest := (List.cons.inj hleft).2
        rcases ih h.2 hopened ⟨left, hrest⟩ with rfl | hle
        · exact .inr (by rw [hzero])
        · have hle : s.breaks + 1 + n ≤ 1 := hle
          exact .inr (by omega)
      | _ => cases hgap

/-- An output that goes on behind a word ends with one. -/
theorem ends_of_atWord (hs : s.breaks = 1) (hword : AtWord (spot s o)) :
    ∃ front t, o = front ++ [.word t] := by
  obtain ⟨hblank, hbreaks⟩ := hword
  rcases List.eq_nil_or_concat' o with rfl | ⟨front, p, rfl⟩
  · exact absurd (hs.symm.trans hbreaks) (by decide)
  · rw [spot_append] at hblank hbreaks
    cases p with
    | word t => exact ⟨front, t, rfl⟩
    | newline => cases hbreaks
    | spaces n => cases hblank
    | tabs n => cases hblank

/-- An output from the start of a line to the start of a line ends with a word and a line break. -/
theorem Neat.ends (h : Neat s o) (hs : s.breaks = 1) (hline : AtLine (spot s o)) (hne : o ≠ []) :
    ∃ front t, o = front ++ [.word t, .newline] := by
  obtain ⟨hblank, hbreaks⟩ := hline
  obtain ⟨o, p, rfl⟩ := List.eq_nil_or_concat' o |>.resolve_left hne
  rw [spot_append] at hblank hbreaks
  rw [neat_append] at h
  cases p with
  | newline =>
    obtain ⟨front, t, rfl⟩ := ends_of_atWord hs ⟨h.2.1.1, Nat.succ.inj hbreaks⟩
    exact ⟨front, t, List.append_assoc _ _ _⟩
  | word t => cases hbreaks
  | spaces n => cases hblank
  | tabs n => cases hblank

/-- Behind an opening bracket, white space and comments leave it the last word but comments. -/
theorem spot_behind {mid : Output} (hs : s.opened = true ∧ s.breaks = 0)
    (hmid : ∀ p ∈ mid, p.isGap = true ∨ ∃ t, p = .word t ∧ (kindOf t).isTrivia = true) :
    (spot s mid).opened = true ∧ (spot s mid).breaks = 0 := by
  induction mid generalizing s with
  | nil => exact hs
  | cons p mid ih =>
    obtain ⟨hp, hmid⟩ := List.forall_mem_cons.mp hmid
    refine ih ?_ hmid
    rcases hp with hgap | ⟨t, rfl, ht⟩
    · rw [spot_gap hgap]
      exact hs
    · refine ⟨?_, rfl⟩
      show (_ || (_ && _)) = true
      rw [ht, hs.1, hs.2]
      exact Bool.or_true _

theorem breaks_gaps {gaps : Output} (h : ∀ p ∈ gaps, p.isGap = true) :
    (spot s gaps).breaks = s.breaks := by
  induction gaps generalizing s with
  | nil => rfl
  | cons p gaps ih =>
    obtain ⟨hp, hgaps⟩ := List.forall_mem_cons.mp h
    refine (ih hgaps).trans ?_
    rw [spot_gap hp]
    rfl

end Output

/-! ## Layout normal form -/

/-- A text in layout normal form. Its line breaks are the pieces between its words, but for those
inside raw strings and block comments. -/
structure LaidOut (o : Output) : Prop where
  /-- Every word is a token or a comment, and reads as such. -/
  legible : o.Legible
  /-- Only raw strings and block comments hold line breaks. -/
  multiline : ∀ t, Piece.word t ∈ o → '\n' ∈ t.toList →
    t.toList.head? = some '\x60' ∨ ['/', '*'] <+: t.toList
  /-- The text ends with one line break. -/
  ends : ∃ text c, o.chars = text ++ [c, '\n'] ∧ Text.isBlank c = false
  /-- It does not start with one. -/
  starts : ∀ c ∈ o.chars.head?, c ≠ '\n'
  /-- No line ends with white space. -/
  trailing : ∀ before after : Output, o = before ++ .newline :: after →
    ∀ c ∈ before.chars.getLast?, c ≠ ' ' ∧ c ≠ '\t'
  /-- There are no two empty lines together. -/
  single : ∀ before after : Output, o = before ++ .newline :: after →
    ¬['\n', '\n'] <:+ before.chars
  /-- Behind an opening bracket, and the comments on its line, there is no empty line. -/
  opening : ∀ (before : Output) (t : String) (mid after : Output), o = before ++ .word t :: (mid ++ after) →
    (kindOf t).opens = true →
    (∀ p ∈ mid, p.isGap = true ∨ ∃ c, p = .word c ∧ (kindOf c).isTrivia = true) →
    ¬['\n', '\n'] <+: after.chars
  /-- Before a closing bracket there is no empty line. -/
  closing : ∀ (before gaps : Output) (t : String) (after : Output), o = before ++ (gaps ++ .word t :: after) →
    (kindOf t).closes = true → (∀ p ∈ gaps, p.isGap = true) → ¬['\n', '\n'] <:+ before.chars

/-- An output that is laid out from the start of a text to the start of a line. -/
theorem laidOut_of_neat {o : Output} (h : o.Neat Spot.start) (hline : AtLine (o.spot Spot.start))
    (hne : o ≠ []) : LaidOut o where
  legible := h.legible
  multiline t ht hline := by
    obtain ⟨k, hk, rfl⟩ := h.legible t ht
    exact hk.multiline hline
  ends := by
    obtain ⟨front, t, rfl⟩ := h.ends rfl hline hne
    obtain ⟨c, hc, hnot⟩ := nonblank_last (h.legible t (by simp))
    obtain ⟨cs, hcs⟩ := List.getLast?_eq_some_iff.mp hc
    refine ⟨Output.chars front ++ cs, c, ?_, hnot⟩
    rw [Output.chars_append, List.append_assoc]
    refine congrArg (Output.chars front ++ ·) ?_
    show t.toList ++ (['\n'] ++ []) = _
    rw [hcs, List.append_assoc]
    rfl
  starts := by
    rintro c hc rfl
    have hprefix : List.replicate 1 '\n' <+: o.chars := by
      obtain ⟨rest, hrest⟩ := List.head?_eq_some_iff.mp hc
      exact ⟨rest, hrest.symm⟩
    exact absurd (h.breaks_at_start rfl hprefix) (by decide)
  trailing before after heq := by
    rw [heq, Output.neat_append] at h
    exact h.1.last h.2.1.1
  single before after heq hsuffix := by
    rw [heq, Output.neat_append] at h
    exact absurd ((h.1.breaks_at_end (n := 2) hsuffix).trans h.2.1.2.1) (by decide)
  opening before t mid after heq hopens hmid hprefix := by
    rw [heq, Output.neat_append] at h
    have hbehind := h.2.2
    rw [Output.neat_append] at hbehind
    have hopened : ((Piece.word t).spot (Output.spot Spot.start before)).opened = true :=
      Bool.or_eq_true_iff.mpr (.inl hopens)
    obtain ⟨hstill, hzero⟩ := Output.spot_behind ⟨hopened, rfl⟩ hmid
    have hle := hbehind.2.breaks_at_start (n := 2) hstill hprefix
    rw [hzero] at hle
    exact absurd hle (by decide)
  closing before gaps t after heq hcloses hgaps hsuffix := by
    rw [heq, Output.neat_append, Output.neat_append] at h
    have hle := h.2.2.1.2 hcloses
    rw [Output.breaks_gaps hgaps] at hle
    exact absurd ((h.1.breaks_at_end (n := 2) hsuffix).trans hle) (by decide)

end Print

end HandlerSplit
