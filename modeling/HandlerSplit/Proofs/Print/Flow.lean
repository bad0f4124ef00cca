import HandlerSplit.Proofs.Print.Columns
import HandlerSplit.Proofs.Print.Lexed
/-!
# The flow of an output

The flow of an output is its words with a mark where white space parts them: which white space it
is, and how much of it, is not in the flow (`Output.flow`). Brackets, quotes and comments are parted
from what they touch anyway, and a semicolon does no more than part. The tokens of a text are those
of its flow, where semicolons are left out (`lexemesOf_chars`).
-/

namespace HandlerSplit

namespace Text

/-- Of blanks nothing is left when they are trimmed. -/
theorem trimEnd_of_blank {cs : List Char} (h : ∀ c ∈ cs, isBlank c = true) : trimEnd cs = [] := by
  rw [trimEnd, dropEndWhile, List.dropWhile_eq_nil_iff.mpr fun c hc => h c (List.mem_reverse.mp hc)]
  rfl

/-- White space that is dropped at the end would be trimmed. -/
theorem trimEnd_append_of_blank (cs : List Char) {tail : List Char}
    (h : ∀ c ∈ tail, isBlank c = true) : trimEnd (cs ++ tail) = trimEnd cs := by
  rw [trimEnd, dropEndWhile, List.reverse_append,
    List.dropWhile_append_of_pos fun c hc => h c (List.mem_reverse.mp hc)]
  rfl

end Text

namespace Print

/-! ## Glyphs -/

/-- A word, or white space between words. -/
inductive Glyph where
  | gap
  | word (text : List Char)
  deriving DecidableEq, Repr

/-- The glyphs of a text without white space at its end. -/
def wordGlyphs (text : List Char) : List Glyph :=
  if text = [] then []
  else if text = [';'] then [.gap]
  else if text.all isSolid then [.word text]
  else [.gap, .word text, .gap]

/-- The glyphs of a piece. -/
def Piece.glyphs (p : Piece) : List Glyph :=
  wordGlyphs (Text.trimEnd p.chars) ++ if Text.trimEnd p.chars = p.chars then [] else [.gap]

/-- A glyph before others. Two gaps are one. -/
def push : Glyph → List Glyph → List Glyph
  | .gap, .gap :: gs => .gap :: gs
  | g, gs => g :: gs

/-- A gap before other glyphs. -/
def gap (gs : List Glyph) : List Glyph :=
  push .gap gs

/-- The glyphs of an output before other glyphs. -/
def Output.flow (o : Output) (rest : List Glyph) : List Glyph :=
  (o.flatMap Piece.glyphs).foldr push rest

/-- Two marks of white space are one. -/
@[simp] theorem gap_gap (gs : List Glyph) : gap (gap gs) = gap gs := by
  rcases gs with _ | ⟨_ | _, _⟩ <;> rfl

namespace Output

@[simp] theorem flow_nil (rest : List Glyph) : flow [] rest = rest :=
  rfl

/-- The flow of two outputs is that of the first before that of the second. -/
@[simp] theorem flow_append (a b : Output) (rest : List Glyph) :
    flow (a ++ b) rest = flow a (flow b rest) := by
  rw [flow, List.flatMap_append, List.foldr_append]
  rfl

theorem flow_cons (p : Piece) (o : Output) (rest : List Glyph) :
    flow (p :: o) rest = flow [p] (flow o rest) :=
  flow_append [p] o rest

/-- The glyphs of a piece are pushed before what follows. -/
theorem flow_singleton (p : Piece) (rest : List Glyph) :
    flow [p] rest = p.glyphs.foldr push rest := by
  rw [flow, List.flatMap_singleton]

/-- Two outputs with the same flow. -/
abbrev SameFlow (a b : Output) : Prop :=
  a.flow = b.flow

/-- Outputs of the same flow make wholes of the same flow. -/
theorem SameFlow.append {a a' b b' : Output} (ha : a.SameFlow a') (hb : b.SameFlow b') :
    (a ++ b).SameFlow (a' ++ b') := by
  funext rest
  rw [flow_append, flow_append, ha, hb]

theorem SameFlow.cons (p : Piece) {o o' : Output} (h : o.SameFlow o') :
    SameFlow (p :: o) (p :: o') :=
  append (a := [p]) rfl h

/-! ### White space -/

@[simp] theorem flow_space (rest : List Glyph) : flow [.space] rest = gap rest :=
  rfl

@[simp] theorem flow_newline (rest : List Glyph) : flow [.newline] rest = gap rest :=
  rfl

/-- A blank piece is a mark of white space, if it is not empty. -/
theorem glyphs_of_blank {p : Piece} (h : ∀ c ∈ p.chars, Text.isBlank c = true) :
    p.glyphs = if [] = p.chars then [] else [.gap] := by
  simp only [Piece.glyphs, Text.trimEnd_of_blank h]
  rfl

theorem flow_spaces {n : Nat} (h : n ≠ 0) (rest : List Glyph) :
    flow [.spaces n] rest = gap rest := by
  have hne : [] ≠ (Piece.spaces n).chars := fun hnil => h <| by
    rw [← List.length_replicate (n := n) (a := ' '), ← chars_spaces, ← hnil]
    rfl
  rw [flow_singleton, glyphs_of_blank (isBlank_of_mem_chars rfl), if_neg hne]
  rfl

/-- Behind a gap what stands at the end of a piece does not matter. -/
theorem flow_singleton_gap (p : Piece) (rest : List Glyph) :
    flow [p] (gap rest) = (wordGlyphs (Text.trimEnd p.chars)).foldr push (gap rest) := by
  rw [flow_singleton, Piece.glyphs, List.foldr_append]
  split
  · rfl
  · exact congrArg (List.foldr push · _) (gap_gap rest)

/-- Pieces of white space before a gap. -/
theorem flow_blank_gap {o : Output} (h : ∀ c ∈ o.chars, Text.isBlank c = true)
    (rest : List Glyph) : flow o (gap rest) = gap rest := by
  induction o with
  | nil => rfl
  | cons p o ih =>
    have hchars : chars (p :: o) = p.chars ++ chars o := rfl
    rw [hchars] at h
    obtain ⟨hp, ho⟩ := List.forall_mem_append.mp h
    rw [flow_cons, ih ho, flow_singleton_gap, Text.trimEnd_of_blank hp]
    rfl

/-- What is dropped at the end of an output is a gap. -/
theorem flow_dropEnd {c : Char} (hc : Text.isBlank c = true) (o : Output) (rest : List Glyph) :
    flow (o.dropEnd c) (gap rest) = flow o (gap rest) := by
  suffices h : ∀ ps : List Piece, flow (dropFromLast c ps).reverse (gap rest) = flow ps.reverse (gap rest) by
    rw [dropEnd, h, List.reverse_reverse]
  intro ps
  induction ps with
  | nil => rfl
  | cons p ps ih =>
    obtain ⟨tail, htail, hdropped⟩ := Text.dropEndWhile_append (· == c) p.chars
    have hblank : ∀ d ∈ tail, Text.isBlank d = true := fun d hd => by
      rwa [beq_iff_eq.mp (hdropped d hd)]
    have htrim : Text.trimEnd p.chars = Text.trimEnd (Text.dropEndWhile (· == c) p.chars) := by
      conv_lhs => rw [htail]
      exact Text.trimEnd_append_of_blank _ hblank
    rw [dropFromLast, List.reverse_cons, flow_append]
    split
    · rename_i hempty
      rw [ih, flow_singleton_gap, htrim, List.isEmpty_iff.mp hempty]
      rfl
    · split
      · rw [List.reverse_cons, flow_append]
      · have hword : (Piece.word (String.ofList (Text.dropEndWhile (· == c) p.chars))).chars =
            Text.dropEndWhile (· == c) p.chars := String.toList_ofList
        rw [List.reverse_cons, flow_append, flow_singleton_gap, flow_singleton_gap, hword, ← htrim]

end Output

/-! ## Brackets -/

/-- A word that is parted from what it touches. -/
def Lone (t : String) : Prop :=
  (Piece.word t).glyphs = [.gap, .word t.toList, .gap]

namespace Lone

variable {t : String} (h : Lone t) (rest : List Glyph)

include h

/-- A bracket is parted from what stands on either side. -/
theorem flow_eq : Output.flow [.word t] rest = gap (push (.word t.toList) (gap rest)) := by
  rw [Output.flow_singleton, h]
  rfl

/-- White space before a bracket makes no difference. -/
theorem gap_flow : gap (Output.flow [.word t] rest) = Output.flow [.word t] rest := by
  rw [h.flow_eq, gap_gap]

/-- White space behind a bracket makes no difference. -/
theorem flow_gap : Output.flow [.word t] (gap rest) = Output.flow [.word t] rest := by
  rw [h.flow_eq, h.flow_eq, gap_gap]

end Lone

/-! ## The tokens of a flow -/

/-- The tokens of glyphs behind the solid characters `u`. -/
def kindsFrom (u : List Char) : List Glyph → List TokenKind
  | [] => Ink.kinds (inksOf u)
  | .gap :: gs => Ink.kinds (inksOf u) ++ kindsFrom [] gs
  | .word t :: gs =>
    if t.all isSolid then kindsFrom (u ++ t) gs
    else Ink.kinds (inksOf u) ++ kindOf (String.ofList t) :: kindsFrom [] gs

/-- Pushing a glyph has no effect on the tokens. -/
theorem kindsFrom_push (u : List Char) (g : Glyph) (gs : List Glyph) :
    kindsFrom u (push g gs) = kindsFrom u (g :: gs) := by
  unfold push
  split
  · rw [kindsFrom, kindsFrom, kindsFrom, inksOf_nil]
    rfl
  · rfl

/-- The tokens of a flow are those of its glyphs. -/
theorem kindsFrom_flow (u : List Char) (o : Output) :
    kindsFrom u (o.flow []) = kindsFrom u (o.flatMap Piece.glyphs) := by
  rw [Output.flow]
  induction o.flatMap Piece.glyphs generalizing u with
  | nil => rfl
  | cons g gs ih =>
    rw [List.foldr_cons, kindsFrom_push]
    cases g with
    | gap => rw [kindsFrom, kindsFrom, ih]
    | word t => rw [kindsFrom, kindsFrom, ih, ih]

/-- A mark of white space ends the token before it. -/
theorem kindsFrom_gap (u : List Char) (gs : List Glyph) :
    kindsFrom u (.gap :: gs) = Ink.kinds (inksOf u) ++ kindsFrom [] gs :=
  rfl

theorem kindsFrom_gap_nil (gs : List Glyph) : kindsFrom [] (.gap :: gs) = kindsFrom [] gs := by
  rw [kindsFrom_gap, inksOf_nil]
  rfl

/-- A legible token is the glyphs of its text. -/
theorem glyphs_of_legible {t : String} {k : TokenKind} (hk : k.Legible) (ht : k.text = t) :
    (Piece.word t).glyphs = wordGlyphs t.toList := by
  have htrim : Text.trimEnd (Piece.word t).chars = t.toList := by
    rw [← ht]
    exact Output.dropEndWhile_of_last hk.last
  have hchars : (Piece.word t).chars = t.toList := rfl
  rw [Piece.glyphs, htrim, if_pos hchars.symm, List.append_nil]

/-- A blank piece ends the token before it, if it is not empty. -/
theorem kinds_inksFrom_blank {piece : Piece} (hpiece : piece.kind? = none) (u : List Char) (o : Output) :
    Ink.kinds (Output.inksFrom u (piece :: o)) =
      if [] = piece.chars then Ink.kinds (o.inksFrom u)
      else Ink.kinds (inksOf u) ++ Ink.kinds (Output.inksFrom [] o) := by
  have hblank (n : Nat) (is : List Ink) :
      Ink.kinds (inksOf u ++ (List.replicate n .blank ++ is)) =
        Ink.kinds (inksOf u) ++ Ink.kinds is := by
    have hnone : Ink.kinds (List.replicate n .blank) = [] :=
      List.filterMap_eq_nil_iff.mpr fun i hi => by rw [List.eq_of_mem_replicate hi]; rfl
    rw [Ink.kinds_append, Ink.kinds_append, hnone]
    rfl
  cases piece with
  | word t => cases hpiece
  | newline => exact Ink.kinds_append _ _
  | spaces n =>
    rw [chars_spaces]
    cases n with
    | zero => rfl
    | succ n => exact hblank (n + 1) _
  | tabs n =>
    rw [chars_tabs]
    cases n with
    | zero => rfl
    | succ n => exact hblank (n + 1) _

/-- A legible token is a semicolon if it is written as one. -/
theorem isSemicolon_iff {t : String} {k : TokenKind} (hk : k.Legible) (ht : k.text = t) :
    k.isSemicolon = true ↔ t.toList = [';'] := by
  constructor
  · intro hsemicolon
    cases k with
    | semicolon auto => rw [← ht, TokenKind.text]; rfl
    | _ => cases hsemicolon
  · intro hlist
    have hword : t = ";" := String.toList_injective hlist
    rw [← kindOf_text hk, ht, hword]
    rfl

/-- The lexemes of an output are the tokens of its flow. -/
theorem kinds_inksFrom {o : Output} (hlegible : o.Legible) (u : List Char) :
    Ink.kinds (o.inksFrom u) = kindsFrom u (o.flatMap Piece.glyphs) := by
  induction o generalizing u with
  | nil => rfl
  | cons piece o ih =>
    have ih := ih fun t ht => hlegible t (List.mem_cons_of_mem _ ht)
    rw [List.flatMap_cons]
    cases hpiece : piece.kind? with
    | none =>
      rw [kinds_inksFrom_blank hpiece, Output.glyphs_of_blank (isBlank_of_mem_chars hpiece)]
      split
      · exact ih u
      · rw [ih, List.singleton_append, kindsFrom]
    | some j =>
      obtain ⟨t, rfl⟩ := word_of_kind? hpiece
      obtain ⟨k, hk, htext⟩ := hlegible t List.mem_cons_self
      have hkind : kindOf t = k := by rw [← htext, kindOf_text hk]
      have hsemicolon := isSemicolon_iff hk htext
      have hne : t.toList ≠ [] := by
        obtain ⟨c, cs, hlist, -⟩ := hk
        rw [← htext, hlist]
        exact List.cons_ne_nil c cs
      rw [glyphs_of_legible hk htext, Output.inksFrom, wordGlyphs, if_neg hne, hkind]
      by_cases hlist : t.toList = [';']
      · have hall : ¬t.toList.all isSolid = true := by
          rw [hlist]
          decide
        have hnone : [k].filter (!·.isSemicolon) = [] := by
          simp [hsemicolon.mpr hlist]
        rw [if_pos hlist, if_neg hall, Ink.kinds_append, Ink.kinds_lexeme, hnone, ih]
        rfl
      rw [if_neg hlist]
      split
      · rename_i hall
        rw [ih, List.singleton_append, kindsFrom, if_pos hall]
      · rename_i hall
        have hone : [k].filter (!·.isSemicolon) = [k] :=
          List.filter_cons_of_pos (by simpa using mt hsemicolon.mp hlist)
        have hglyphs : [.gap, .word t.toList, .gap] ++ o.flatMap Piece.glyphs =
            .gap :: .word t.toList :: .gap :: o.flatMap Piece.glyphs := rfl
        rw [Ink.kinds_append, Ink.kinds_lexeme, hone, ih, hglyphs, kindsFrom_gap, kindsFrom,
          if_neg hall, String.ofList_toList, hkind, kindsFrom_gap_nil, inksOf_nil]
        rfl

/-- The tokens of the text of an output are those of its flow, where semicolons are left out. -/
theorem lexemesOf_chars {o : Output} (hlegible : o.Legible) (hapart : o.Apart none) (p : Place) (semi : Bool) :
    lexemesOf (tokensFrom p semi o.chars) = kindsFrom [] (o.flow []) ++ [.eof] := by
  have hinks := inksOf_chars hlegible hapart (List.forall_mem_nil _)
  rw [List.nil_append] at hinks
  rw [lexemesOf_tokensFrom, hinks, kinds_inksFrom hlegible, kindsFrom_flow]

end Print

end HandlerSplit
