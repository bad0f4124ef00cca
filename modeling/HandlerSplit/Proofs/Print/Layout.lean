import HandlerSplit.Proofs.Lexer.Lexemes
import HandlerSplit.Proofs.Lexer.Solid
import HandlerSplit.Proofs.Print.Writing
/-!
# Laying out

Where a line break may be written depends on what stands before it: nothing blank, no empty line,
and no opening bracket that a line ends with already. Before a closing bracket there may be one line
break at most. `Lays P o Q` says that a part `o` of an output keeps to this, whatever stands before
it, as long as `P` holds of that; `Q` holds of what then stands before the next part. A text that is
laid out in this way has no line that ends with white space and no empty lines but single ones
between others (`laidOut_of_neat`).
-/

namespace HandlerSplit

/-- An opening bracket. -/
def TokenKind.opens : TokenKind → Bool
  | punct .lparen | punct .lbracket | punct .lbrace => true
  | _ => false

/-- A closing bracket. -/
def TokenKind.closes : TokenKind → Bool
  | punct .rparen | punct .rbracket | punct .rbrace => true
  | _ => false

/-- No bracket is both. -/
theorem TokenKind.opens_or_closes (k : TokenKind) : k.opens = false ∨ k.closes = false := by
  cases k with
  | punct m => cases m <;> first | exact .inl rfl | exact .inr rfl
  | _ => exact .inl rfl

namespace Print

/-! ## What stands before a place -/

/-- What layout asks about the output before a place. -/
structure Spot where
  /-- White space stands right before, on the same line. -/
  blank : Bool
  /-- The number of line breaks since the last word. -/
  breaks : Nat
  /-- The last word is an opening bracket, or a comment behind one on its line. -/
  opened : Bool

namespace Spot

/-- The start of a text, where no empty line is written, as behind an opening bracket. -/
def start : Spot :=
  ⟨false, 1, true⟩

/-- Behind a word. -/
def ink : Spot :=
  ⟨false, 0, false⟩

/-- The same place behind white space. -/
def blanked (s : Spot) : Spot :=
  { s with blank := true }

/-! ### Conditions on a place -/

/-- Anywhere. -/
def Anywhere (_ : Spot) : Prop :=
  True

/-- Behind a word that is no opening bracket. -/
def Inked (s : Spot) : Prop :=
  s = ink

/-- Behind an opening bracket. -/
def Opened (s : Spot) : Prop :=
  s = ⟨false, 0, true⟩

/-- Behind a word. -/
def AtWord (s : Spot) : Prop :=
  s.blank = false ∧ s.breaks = 0

/-- At the start of a line, with no empty line before it. -/
def AtLine (s : Spot) : Prop :=
  s.blank = false ∧ s.breaks = 1

/-- At the start of a line below a word that is no opening bracket. -/
def Under (s : Spot) : Prop :=
  s = ⟨false, 1, false⟩

/-- At the start of a line. -/
def Below (s : Spot) : Prop :=
  s.blank = false ∧ 0 < s.breaks

/-- A closing bracket may be written. -/
def Near (s : Spot) : Prop :=
  s.breaks ≤ 1

/-- A comment does not stand behind an opening bracket on its line. -/
def Fresh (s : Spot) : Prop :=
  s.opened = true → 0 < s.breaks

/-- A condition that implies another. -/
class Entails (P Q : Spot → Prop) : Prop where
  entails : ∀ s, P s → Q s

variable {P : Spot → Prop}

instance : Entails P P := ⟨fun _ h => h⟩
instance : Entails P Anywhere := ⟨fun _ _ => trivial⟩
instance : Entails Inked AtWord := ⟨by rintro _ rfl; exact ⟨rfl, rfl⟩⟩
instance : Entails Inked Near := ⟨by rintro _ rfl; exact Nat.zero_le 1⟩
instance : Entails Inked Fresh := ⟨by rintro _ rfl; exact nofun⟩
instance : Entails Opened AtWord := ⟨by rintro _ rfl; exact ⟨rfl, rfl⟩⟩
instance : Entails Opened Near := ⟨by rintro _ rfl; exact Nat.zero_le 1⟩
instance : Entails AtWord Near := ⟨fun s h => show s.breaks ≤ 1 by rw [h.2]; exact Nat.zero_le 1⟩
instance : Entails Under AtLine := ⟨by rintro _ rfl; exact ⟨rfl, rfl⟩⟩
instance : Entails Under Below := ⟨by rintro _ rfl; exact ⟨rfl, Nat.one_pos⟩⟩
instance : Entails AtLine Near := ⟨fun _ h => h.2.le⟩
instance : Entails AtLine Below := ⟨fun s h => ⟨h.1, by rw [h.2]; exact Nat.one_pos⟩⟩
instance : Entails Below Fresh := ⟨fun _ h _ => h.2⟩

/-- A condition that white space on the line does not touch. -/
class Blind (P : Spot → Prop) : Prop where
  blanked : ∀ s, P s → P s.blanked

instance : Blind Anywhere := ⟨fun _ h => h⟩
instance : Blind Near := ⟨fun _ h => h⟩
instance : Blind Fresh := ⟨fun _ h => h⟩

end Spot

open Spot

/-! ## Pieces in their places -/

namespace Piece

/-- Spaces or tabs. -/
def isGap : Piece → Bool
  | spaces _ | tabs _ => true
  | _ => false

/-- What stands before the place behind a piece. -/
def spot (s : Spot) : Piece → Spot
  | word t =>
    ⟨false, 0, (kindOf t).opens || (s.opened && s.breaks == 0 && (kindOf t).isTrivia)⟩
  | newline => ⟨false, s.breaks + 1, s.opened⟩
  | _ => s.blanked

/-- Whether a piece may be written at a place. -/
def Neat (s : Spot) : Piece → Prop
  | word t =>
    (∃ k : TokenKind, k.Legible ∧ k.text = t) ∧ ((kindOf t).closes = true → s.breaks ≤ 1)
  | newline => s.blank = false ∧ s.breaks ≤ 1 ∧ (s.opened = true → s.breaks = 0)
  | _ => True

end Piece

namespace Output

/-- What stands before the place behind an output. -/
def spot (s : Spot) (o : Output) : Spot :=
  o.foldl Piece.spot s

/-- Every piece may be written where it stands. -/
def Neat : Spot → Output → Prop
  | _, [] => True
  | s, p :: o => p.Neat s ∧ Neat (p.spot s) o

theorem spot_append (a b : Output) (s : Spot) : spot s (a ++ b) = spot (spot s a) b :=
  List.foldl_append

theorem neat_append (a b : Output) (s : Spot) : Neat s (a ++ b) ↔ Neat s a ∧ Neat (spot s a) b := by
  induction a generalizing s with
  | nil => exact (iff_of_eq (true_and (Neat s b))).symm
  | cons p a ih => exact (and_congr_right fun _ => ih (p.spot s)).trans and_assoc.symm

/-- Every word is read from its own text. -/
theorem Neat.legible {o : Output} {s : Spot} (h : Neat s o) : o.Legible := by
  induction o generalizing s with
  | nil => exact nofun
  | cons p o ih =>
    intro t ht
    rcases List.mem_cons.mp ht with rfl | ht
    · exact h.1.1
    · exact ih h.2 t ht

end Output

/-! ## Laying out part by part -/

/-- An output that is laid out wherever `P` holds, and behind which `Q` holds. -/
def Lays (P : Spot → Prop) (o : Output) (Q : Spot → Prop) : Prop :=
  ∀ s, P s → o.Neat s ∧ Q (o.spot s)

/-- An output that may stand anywhere, and behind which anything may stand. -/
abbrev Firm (o : Output) : Prop :=
  Lays Anywhere o Inked

namespace Lays

variable {P P' Q Q' R : Spot → Prop} {a b o : Output}

theorem nil : Lays P [] P :=
  fun _ hs => ⟨trivial, hs⟩

theorem append (ha : Lays P a Q) (hb : Lays Q' b R) [hQ : Entails Q Q'] : Lays P (a ++ b) R := by
  intro s hs
  obtain ⟨hneat, hafter⟩ := ha s hs
  obtain ⟨hrest, hend⟩ := hb _ (hQ.entails _ hafter)
  exact ⟨(Output.neat_append a b s).mpr ⟨hneat, hrest⟩, by rwa [Output.spot_append]⟩

theorem before (h : Lays P o Q) [hP : Entails P' P] : Lays P' o Q :=
  fun s hs => h s (hP.entails s hs)

theorem behind (h : Lays P o Q) [hQ : Entails Q Q'] : Lays P o Q' :=
  fun s hs => (h s hs).imp_right (hQ.entails _)

/-- Spaces and tabs. -/
theorem gap [hP : Blind P] {p : Piece} (hp : p.isGap = true) : Lays P [p] P := by
  intro s hs
  cases p with
  | spaces n => exact ⟨⟨trivial, trivial⟩, hP.blanked s hs⟩
  | tabs n => exact ⟨⟨trivial, trivial⟩, hP.blanked s hs⟩
  | _ => cases hp

theorem space [Blind P] : Lays P [.space] P :=
  gap rfl

theorem tabs [Blind P] (n : Nat) : Lays P [.tabs n] P :=
  gap rfl

/-- A line ends behind a word. -/
theorem newline : Lays AtWord [.newline] AtLine := by
  rintro ⟨blank, breaks, opened⟩ ⟨rfl, rfl⟩
  exact ⟨⟨⟨rfl, Nat.zero_le 1, fun _ => rfl⟩, trivial⟩, rfl, rfl⟩

theorem lineEnd : Lays Inked [.newline] Under := by
  rintro _ rfl
  exact ⟨⟨⟨rfl, Nat.zero_le 1, nofun⟩, trivial⟩, rfl⟩

/-- An empty line. -/
theorem emptyLine : Lays Under [.newline] Below := by
  rintro _ rfl
  exact ⟨⟨⟨rfl, le_rfl, nofun⟩, trivial⟩, rfl, Nat.two_pos⟩

end Lays

section

variable {P Q R : Spot → Prop} {a b o : Output}

/-- Behind anything stands what may stand anywhere. -/
theorem Lays.then (ha : Lays P a Q) (hb : Lays Anywhere b R) : Lays P (a ++ b) R :=
  ha.append hb

/-- What may stand anywhere keeps what holds behind every word. -/
theorem Firm.keeps [Entails Inked P] (h : Firm o) : Lays P o P :=
  Lays.behind h.before

end

/-! ### Words -/

section Words

variable {t : String} {k : TokenKind}

/-- A word that is neither a bracket nor a comment. -/
structure Plainly (t : String) : Prop where
  legible : ∃ k : TokenKind, k.Legible ∧ k.text = t
  opens : (kindOf t).opens = false
  closes : (kindOf t).closes = false
  trivia : (kindOf t).isTrivia = false

theorem Plainly.of_legible (hk : k.Legible) (hopens : k.opens = false) (hcloses : k.closes = false)
    (htrivia : k.isTrivia = false) : Plainly k.text := by
  have hkind := kindOf_text hk
  exact ⟨⟨k, hk, rfl⟩, by rwa [hkind], by rwa [hkind], by rwa [hkind]⟩

theorem Plainly.firm (h : Plainly t) : Firm [.word t] := by
  intro s _
  refine ⟨⟨⟨h.legible, fun hcloses => ?_⟩, trivial⟩, ?_⟩
  · rw [h.closes] at hcloses
    cases hcloses
  · show Spot.mk false 0 (_ || _) = ink
    rw [h.opens, h.trivia, Bool.and_false]
    rfl

theorem Firm.ident {n : String} (h : (TokenKind.ident n).Legible) : Firm [.word n] :=
  (Plainly.of_legible h rfl rfl rfl).firm

theorem Firm.literal {kind : LitKind} (h : (TokenKind.literal kind t).Legible) : Firm [.word t] :=
  (Plainly.of_legible h rfl rfl rfl).firm

theorem Firm.keyword (w : Keyword) : Firm [.word w.spelling] :=
  (Plainly.of_legible (plain_keyword w).legible rfl rfl rfl).firm

theorem Firm.mark (m : Punct) (hopens : (TokenKind.punct m).opens = false)
    (hcloses : (TokenKind.punct m).closes = false) : Firm [.word m.spelling] :=
  (Plainly.of_legible (legible_punct m) hopens hcloses rfl).firm

theorem Firm.semicolon : Firm [.word ";"] :=
  (Plainly.of_legible (k := .semicolon false) plain_semicolon.legible rfl rfl rfl).firm

end Words

namespace Lays

theorem opening {m : Punct} (h : (TokenKind.punct m).opens = true) :
    Lays Anywhere [.word m.spelling] Opened := by
  have hkind : kindOf m.spelling = .punct m := kindOf_text (legible_punct m)
  intro s _
  refine ⟨⟨⟨⟨_, legible_punct m, rfl⟩, fun hcloses => ?_⟩, trivial⟩, ?_⟩
  · rcases (TokenKind.punct m).opens_or_closes with hopens | hnot
    · exact absurd (h.symm.trans hopens) (by decide)
    · exact absurd (hcloses.symm.trans ((congrArg _ hkind).trans hnot)) (by decide)
  · show Spot.mk false 0 (_ || _) = _
    rw [hkind, h]
    rfl

theorem closing {m : Punct} (h : (TokenKind.punct m).closes = true) :
    Lays Near [.word m.spelling] Inked := by
  have hkind : kindOf m.spelling = .punct m := kindOf_text (legible_punct m)
  intro s hs
  refine ⟨⟨⟨⟨_, legible_punct m, rfl⟩, fun _ => hs⟩, trivial⟩, ?_⟩
  have hopens : (TokenKind.punct m).opens = false :=
    (TokenKind.punct m).opens_or_closes.resolve_right fun hnot => absurd (h.symm.trans hnot) (by decide)
  show Spot.mk false 0 (_ || _) = ink
  rw [hkind, hopens, show (TokenKind.punct m).isTrivia = false from rfl, Bool.and_false]
  rfl

section Comments

variable {t : String} (h : (TokenKind.comment t).Legible)

include h

theorem comment_neat (s : Spot) : Output.Neat s [.word t] ∧
    Output.spot s [.word t] = ⟨false, 0, s.opened && s.breaks == 0⟩ := by
  have hkind : kindOf t = .comment t := kindOf_text h
  refine ⟨⟨⟨⟨_, h, rfl⟩, fun hcloses => ?_⟩, trivial⟩, ?_⟩
  · rw [hkind] at hcloses
    cases hcloses
  · show Spot.mk false 0 (_ || (_ && _)) = _
    rw [hkind, show (TokenKind.comment t).isTrivia = true from rfl, Bool.and_true]
    rfl

/-- A comment that is not behind an opening bracket. -/
theorem comment : Lays Fresh [.word t] Inked := by
  intro s hs
  obtain ⟨hneat, hspot⟩ := comment_neat h s
  refine ⟨hneat, hspot.trans ?_⟩
  cases hopened : s.opened with
  | false => rfl
  | true => rw [beq_false_of_ne (hs hopened).ne']; rfl

/-- A comment anywhere. -/
theorem anyComment : Lays Anywhere [.word t] AtWord := by
  intro s _
  obtain ⟨hneat, hspot⟩ := comment_neat h s
  exact ⟨hneat, by rw [hspot]; exact ⟨rfl, rfl⟩⟩

/-- A comment behind an opening bracket, on its line. -/
theorem openComment : Lays Opened [.space, .word t] Opened := by
  rintro _ rfl
  obtain ⟨hneat, hspot⟩ := comment_neat h ⟨true, 0, true⟩
  exact ⟨⟨trivial, hneat⟩, hspot⟩

end Comments

end Lays

end Print

end HandlerSplit
