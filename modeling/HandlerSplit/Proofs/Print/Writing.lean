import HandlerSplit.Print.Piece
import HandlerSplit.Proofs.Lexer.Legible
import HandlerSplit.Proofs.Tree.Words
/-!
# What an output writes

The words of an output are read back as tokens if every piece is clear of the word right before
it. `Writes P o Q ws cs` says this of a part `o` of an output: the tokens `ws` and the comments
`cs` are written, whatever stands before it, as long as `P` holds of that; `Q` holds of what then
stands before the next part. Both are conditions on the word that the next piece follows directly,
if there is one. Commas, parentheses, semicolons and `...` count for what they touch, and not
among the words.
-/

namespace HandlerSplit

/-- The text of a comment. -/
def TokenKind.comment? : TokenKind → Option String
  | comment text => some text
  | _ => none

namespace Print

/-! ## The tokens of an output -/

/-- The token a word is read as. -/
def kindOf (word : String) : TokenKind :=
  match word.toList with
  | [] => .eof
  | c :: cs => (scanLexeme c cs).kind

/-- A token that can be read from its own text is read from it. -/
theorem kindOf_text {k : TokenKind} (h : k.Legible) : kindOf k.text = k := by
  obtain ⟨c, cs, htext, hscan⟩ := h
  rw [kindOf, htext]
  exact congrArg Lexeme.kind hscan

theorem chars_spaces (n : Nat) : (Piece.spaces n).chars = List.replicate n ' ' :=
  String.toList_ofList

theorem chars_tabs (n : Nat) : (Piece.tabs n).chars = List.replicate n '\t' :=
  String.toList_ofList

/-- The token right before a place, if no white space stands between. -/
abbrev Before := Option TokenKind

namespace Piece

/-- The token a piece is, if it is a word. -/
def kind? : Piece → Option TokenKind
  | word t => some (kindOf t)
  | _ => none

/-- What stands before the place behind a piece. -/
def after (s : Before) : Piece → Before
  | word t => some (kindOf t)
  | p => if p.chars.isEmpty then s else none

/-- A piece that is not read on with what stands before it. -/
def Fits (s : Before) (p : Piece) : Prop :=
  ∀ k ∈ s, ∀ c ∈ p.chars.head?, k.joins c = false

/-- What stands before an empty piece stands before the place behind it. -/
theorem after_of_empty (p : Piece) (hp : p.chars = []) (s : Before)
    (hword : p ≠ .word "") : p.after s = s := by
  cases p with
  | word t =>
    have ht : t = "" := String.toList_eq_nil_iff.mp hp
    exact absurd (congrArg Piece.word ht) hword
  | spaces n => exact if_pos (by rw [hp]; rfl)
  | tabs n => exact if_pos (by rw [hp]; rfl)
  | newline => cases hp

/-- Behind a piece that writes something, what stood before it does not matter. -/
theorem after_eq (p : Piece) (hp : p.chars ≠ []) (s : Before) : p.after s = p.after none := by
  have hempty : ¬p.chars.isEmpty = true := by simpa using hp
  cases p with
  | word t => rfl
  | _ =>
    rw [after, after, if_neg hempty, if_neg hempty]
    all_goals exact nofun

end Piece

namespace Output

/-- The tokens of an output. -/
def kinds (o : Output) : List TokenKind :=
  o.filterMap Piece.kind?

/-- The words of an output. -/
def words (o : Output) : List TokenKind :=
  o.kinds.filter (·.isWord)

/-- The comments of an output. -/
def comments (o : Output) : List String :=
  o.kinds.filterMap TokenKind.comment?

/-- What stands before the place behind an output. -/
def after (s : Before) (o : Output) : Before :=
  o.foldl Piece.after s

/-- No piece is read on with the word before it. -/
def Apart : Before → Output → Prop
  | _, [] => True
  | s, p :: o => p.Fits s ∧ Apart (p.after s) o

/-- Every word is a token that is read from its own text. -/
def Legible (o : Output) : Prop :=
  ∀ t, Piece.word t ∈ o → ∃ k : TokenKind, k.Legible ∧ k.text = t

section Append

variable (a b : Output)

@[simp] theorem kinds_append : kinds (a ++ b) = kinds a ++ kinds b :=
  List.filterMap_append

/-- The words of two outputs follow one another. -/
@[simp] theorem words_append : words (a ++ b) = words a ++ words b := by
  rw [words, kinds_append, List.filter_append]
  rfl

/-- The comments of two outputs follow one another. -/
@[simp] theorem comments_append : comments (a ++ b) = comments a ++ comments b := by
  rw [comments, kinds_append, List.filterMap_append]
  rfl

@[simp] theorem chars_append : chars (a ++ b) = chars a ++ chars b :=
  List.flatMap_append

/-- What stands before the next part is told part by part. -/
theorem after_append (s : Before) : after s (a ++ b) = after (after s a) b :=
  List.foldl_append

/-- Pieces are apart if they are within both parts and between them. -/
theorem apart_append (s : Before) : Apart s (a ++ b) ↔ Apart s a ∧ Apart (after s a) b := by
  induction a generalizing s with
  | nil => simp [Apart, after]
  | cons p a ih =>
    show _ ∧ Apart _ (a ++ b) ↔ (_ ∧ _) ∧ _
    rw [ih, and_assoc]
    rfl

/-- All pieces of two outputs are legible if those of each are. -/
theorem legible_append : Legible (a ++ b) ↔ Legible a ∧ Legible b := by
  simp only [Legible, List.mem_append, or_imp, forall_and]

end Append

theorem firstChar?_eq (o : Output) : o.firstChar? = o.chars.head? := by
  induction o with
  | nil => rfl
  | cons p o ih =>
    have hchars : chars (p :: o) = p.chars ++ chars o := rfl
    rw [firstChar?, hchars]
    split
    · rename_i c cs hp
      rw [hp]
      rfl
    · rename_i hp
      rw [hp, ih]
      rfl

/-- An output is apart from what stands before it if its first character is. -/
theorem apart_iff (s : Before) {o : Output} (hlegible : o.Legible) :
    Apart s o ↔ Apart none o ∧ ∀ k ∈ s, ∀ c ∈ o.firstChar?, k.joins c = false := by
  induction o generalizing s with
  | nil => simp [Apart, firstChar?]
  | cons p o ih =>
    have hrest : Legible o := fun t ht => hlegible t (List.mem_cons_of_mem p ht)
    have hword : p ≠ .word "" := by
      rintro rfl
      obtain ⟨k, ⟨c, cs, htext, -⟩, hk⟩ := hlegible "" List.mem_cons_self
      rw [hk] at htext
      cases htext
    have hfirst : firstChar? (p :: o) = (p.chars ++ chars o).head? := firstChar?_eq _
    show p.Fits s ∧ Apart (p.after s) o ↔ (p.Fits none ∧ Apart (p.after none) o) ∧ _
    rw [hfirst]
    rcases hp : p.chars with _ | ⟨c, cs⟩
    · have hfits (s : Before) : p.Fits s := fun k _ c hc => by simp [hp] at hc
      rw [p.after_of_empty hp s hword, p.after_of_empty hp none hword, ih s hrest, List.nil_append,
        ← firstChar?_eq]
      simp [hfits]
    · have hnone : p.Fits none := fun k hk => by cases hk
      rw [p.after_eq (by rw [hp]; exact List.cons_ne_nil c cs) s]
      simp only [Piece.Fits, hp, List.cons_append, List.head?_cons] at hnone ⊢
      tauto

/-- Behind an output that writes something, what stood before it does not matter. -/
theorem after_eq (s : Before) {o : Output} (hlegible : o.Legible) (hne : o.chars ≠ []) :
    after s o = after none o := by
  induction o generalizing s with
  | nil => exact absurd rfl hne
  | cons p o ih =>
    have hrest : Legible o := fun t ht => hlegible t (List.mem_cons_of_mem p ht)
    show after (p.after s) o = after (p.after none) o
    by_cases hp : p.chars = []
    · have hne' : chars o ≠ [] := by
        have hchars : chars (p :: o) = p.chars ++ chars o := rfl
        rwa [hchars, hp] at hne
      rw [ih (p.after s) hrest hne', ih (p.after none) hrest hne']
    · rw [p.after_eq hp s]

end Output

/-! ## Writing -/

/-- The words `ws` and the comments `cs` can be read from their own texts. -/
def Genuine (ws : List TokenKind) (cs : List String) : Prop :=
  (∀ k ∈ ws, (∀ f, k ≠ .fault f) → k.Legible) ∧ ∀ t ∈ cs, (TokenKind.comment t).Legible

/-- What an output writes, and what stands before its end. -/
structure Written (P : Before → Prop) (o : Output) (Q : Before → Prop) (ws : List TokenKind)
    (cs : List String) : Prop where
  words : o.words = ws
  comments : o.comments = cs
  legible : o.Legible
  apart : ∀ s, P s → o.Apart s ∧ Q (o.after s)

/-- An output that writes words and comments, if they are genuine. -/
def Writes (P : Before → Prop) (o : Output) (Q : Before → Prop) (ws : List TokenKind)
    (cs : List String) : Prop :=
  Genuine ws cs → Written P o Q ws cs

/-- Words and comments are genuine part by part. -/
theorem Genuine.append_iff {ws ws' : List TokenKind} {cs cs' : List String} :
    Genuine (ws ++ ws') (cs ++ cs') ↔ Genuine ws cs ∧ Genuine ws' cs' := by
  simp only [Genuine, List.mem_append, or_imp, forall_and]
  exact and_and_and_comm

/-! ### What may stand before -/

/-- No condition. -/
def Any (_ : Before) : Prop :=
  True

/-- White space, or a line's start. -/
def Start (s : Before) : Prop :=
  s = none

/-- Nothing is read on with what stands before. -/
def Free (s : Before) : Prop :=
  ∀ k ∈ s, ∀ c, k.joins c = false

/-- The characters that no phrase starts with. -/
def opensPhrase (c : Char) : Bool :=
  !(['=', '|', '>', '/'].contains c)

/-- No start of a phrase is read on with what stands before. -/
def Open (s : Before) : Prop :=
  ∀ k ∈ s, ∀ c, opensPhrase c = true → k.joins c = false

/-- Only an identifier would be read on with what stands before. -/
def Closed (s : Before) : Prop :=
  ∀ k ∈ s, ∀ c, Text.continuesIdent c = false → k.joins c = false

/-- What stands before is not a comment that goes on to the end of the line. -/
def Ended (s : Before) : Prop :=
  ∀ k ∈ s, k.isLineComment = false

/-- Right before stands a token that nothing is read on with. -/
def Clear (s : Before) : Prop :=
  ∃ k, s = some k ∧ ∀ c, k.joins c = false

/-- Right before stands a token that only an identifier would be read on with. -/
def Shut (s : Before) : Prop :=
  ∃ k, s = some k ∧ ∀ c, Text.continuesIdent c = false → k.joins c = false

/-- A condition that implies another. -/
class Leads (P Q : Before → Prop) : Prop where
  leads : ∀ s, P s → Q s

instance (P : Before → Prop) : Leads P P := ⟨fun _ h => h⟩

instance (P : Before → Prop) : Leads P Any := ⟨fun _ _ => trivial⟩

/-- What a phrase may start behind is no comment to the end of the line. -/
theorem Open.ended {s : Before} (h : Open s) : Ended s := by
  intro k hk
  have hspace := h k hk ' ' rfl
  refine Bool.eq_false_iff.mpr fun hline => ?_
  cases k with
  | comment t =>
    rw [TokenKind.joins, hline] at hspace
    cases hspace
  | _ => cases hline

theorem Closed.ended {s : Before} (h : Closed s) : Ended s := by
  intro k hk
  have hspace := h k hk ' ' (by decide)
  refine Bool.eq_false_iff.mpr fun hline => ?_
  cases k with
  | comment t =>
    rw [TokenKind.joins, hline] at hspace
    cases hspace
  | _ => cases hline

theorem Start.free {s : Before} (h : Start s) : Free s := by
  rw [h]
  exact nofun

/-- Where nothing is read on, no start of a phrase is. -/
theorem Free.open {s : Before} (h : Free s) : Open s :=
  fun k hk c _ => h k hk c

theorem Free.closed {s : Before} (h : Free s) : Closed s :=
  fun k hk c _ => h k hk c

theorem Clear.free {s : Before} (h : Clear s) : Free s := by
  obtain ⟨k, rfl, hk⟩ := h
  rintro j ⟨⟩
  exact hk

/-- A token that nothing is read on with is one that only an identifier would be. -/
theorem Clear.shut {s : Before} (h : Clear s) : Shut s :=
  h.imp fun _ ⟨hs, hk⟩ => ⟨hs, fun c _ => hk c⟩

theorem Shut.closed {s : Before} (h : Shut s) : Closed s := by
  obtain ⟨k, rfl, hk⟩ := h
  rintro j ⟨⟩
  exact hk

instance : Leads Start Free := ⟨fun _ h => h.free⟩
instance : Leads Start Open := ⟨fun _ h => h.free.open⟩
instance : Leads Start Closed := ⟨fun _ h => h.free.closed⟩
instance : Leads Start Ended := ⟨fun _ h => h.free.open.ended⟩
instance : Leads Free Open := ⟨fun _ h => h.open⟩
instance : Leads Free Closed := ⟨fun _ h => h.closed⟩
instance : Leads Free Ended := ⟨fun _ h => h.open.ended⟩
instance : Leads Open Ended := ⟨fun _ h => h.ended⟩
instance : Leads Closed Ended := ⟨fun _ h => h.ended⟩
instance : Leads Clear Free := ⟨fun _ h => h.free⟩
instance : Leads Clear Open := ⟨fun _ h => h.free.open⟩
instance : Leads Clear Closed := ⟨fun _ h => h.free.closed⟩
instance : Leads Clear Ended := ⟨fun _ h => h.free.open.ended⟩
instance : Leads Clear Shut := ⟨fun _ h => h.shut⟩
instance : Leads Shut Closed := ⟨fun _ h => h.closed⟩
instance : Leads Shut Ended := ⟨fun _ h => h.closed.ended⟩

/-! ### Rules -/

section Rules

variable {P P' Q Q' R : Before → Prop} {a b o : Output} {ws ws' : List TokenKind}
  {cs cs' : List String}

/-- Nothing is written by nothing. -/
theorem Writes.nil : Writes P [] P [] [] :=
  fun _ => ⟨rfl, rfl, nofun, fun _ hs => ⟨trivial, hs⟩⟩

/-- Two parts write their words and comments in order, if what stands behind the first may stand
before the second. -/
theorem Writes.append [hlead : Leads Q Q'] (ha : Writes P a Q ws cs) (hb : Writes Q' b R ws' cs') :
    Writes P (a ++ b) R (ws ++ ws') (cs ++ cs') := by
  intro hgenuine
  obtain ⟨hgenuine₁, hgenuine₂⟩ := Genuine.append_iff.mp hgenuine
  have ha' := ha hgenuine₁
  have hb' := hb hgenuine₂
  refine ⟨?_, ?_, (Output.legible_append a b).mpr ⟨ha'.legible, hb'.legible⟩, fun s hs => ?_⟩
  · rw [Output.words_append, ha'.words, hb'.words]
  · rw [Output.comments_append, ha'.comments, hb'.comments]
  · obtain ⟨hapart₁, hafter₁⟩ := ha'.apart s hs
    obtain ⟨hapart₂, hafter₂⟩ := hb'.apart _ (hlead.leads _ hafter₁)
    rw [Output.apart_append, Output.after_append]
    exact ⟨⟨hapart₁, hapart₂⟩, hafter₂⟩

/-- A part may be asked to stand behind less. -/
theorem Writes.before [hlead : Leads P' P] (h : Writes P o Q ws cs) : Writes P' o Q ws cs := by
  intro hgenuine
  have h' := h hgenuine
  exact ⟨h'.words, h'.comments, h'.legible, fun s hs => h'.apart s (hlead.leads s hs)⟩

/-- Less may be said of what stands behind a part. -/
theorem Writes.behind [hlead : Leads Q Q'] (h : Writes P o Q ws cs) : Writes P o Q' ws cs := by
  intro hgenuine
  have h' := h hgenuine
  exact ⟨h'.words, h'.comments, h'.legible,
    fun s hs => (h'.apart s hs).imp_right (hlead.leads _)⟩

/-- The words and comments in another form. -/
theorem Writes.cast (h : Writes P o Q ws cs) (hws : ws = ws') (hcs : cs = cs') :
    Writes P o Q ws' cs' := by
  rwa [← hws, ← hcs]

/-- The words of a single token. -/
def wordOf (k : TokenKind) : List TokenKind :=
  [k].filter (·.isWord)

/-- A single token that is no comment. -/
theorem Writes.token {k : TokenKind} (hcomment : k.comment? = none)
    (hlegible : k.isWord = true ∧ (∀ f, k ≠ .fault f) ∨ k.Legible)
    (hP : k.Legible → ∀ s, P s → ∀ j ∈ s, ∀ c ∈ k.text.toList.head?, j.joins c = false)
    (hQ : Q (some k)) : Writes P [.word k.text] Q (wordOf k) [] := by
  intro hgenuine
  have hk : k.Legible := by
    rcases hlegible with ⟨hword, hfault⟩ | hk
    · refine hgenuine.1 k ?_ hfault
      rw [wordOf, List.filter_cons_of_pos hword]
      exact List.mem_cons_self
    · exact hk
  have hkinds : Output.kinds [.word k.text] = [k] := by
    show [kindOf k.text] = [k]
    rw [kindOf_text hk]
  refine ⟨?_, ?_, ?_, fun s hs => ⟨⟨hP hk s hs, trivial⟩, ?_⟩⟩
  · rw [Output.words, hkinds]
    rfl
  · rw [Output.comments, hkinds, List.filterMap_cons_none hcomment]
    rfl
  · intro t ht
    rw [List.mem_singleton] at ht
    cases ht
    exact ⟨k, hk, rfl⟩
  · show Q (some (kindOf k.text))
    rwa [kindOf_text hk]

/-- A comment. -/
theorem Writes.comment (t : String) (hQ : Q (some (.comment t))) :
    Writes Start [.word t] Q [] [t] := by
  intro hgenuine
  have hk := hgenuine.2 t List.mem_cons_self
  have hkinds : Output.kinds [.word t] = [.comment t] := by
    show [kindOf t] = _
    exact congrArg (fun k => [k]) (kindOf_text hk)
  refine ⟨?_, ?_, ?_, fun s hs => ⟨⟨?_, trivial⟩, ?_⟩⟩
  · rw [Output.words, hkinds]
    rfl
  · rw [Output.comments, hkinds]
    rfl
  · intro t' ht
    rw [List.mem_singleton] at ht
    cases ht
    exact ⟨_, hk, rfl⟩
  · rw [hs]
    exact nofun
  · show Q (some (kindOf (TokenKind.comment t).text))
    rwa [kindOf_text hk]

/-- A comment that does not go on to the end of the line. -/
theorem Writes.blockComment {c : Comment} (hc : c.isLine = false) :
    Writes Start [.word c.text] Clear [] [c.text] := by
  refine .comment c.text ⟨_, rfl, fun d => ?_⟩
  have hline : (TokenKind.comment c.text).isLineComment = false := hc
  rw [TokenKind.joins, hline]
  rfl

/-- White space. -/
theorem Writes.blank {p : Piece} (hp : p.kind? = none) (hne : p.chars ≠ [])
    (hP : ∀ s, P s → ∀ k ∈ s, ∀ c ∈ p.chars, k.joins c = false) : Writes P [p] Start [] [] := by
  intro _
  have hkinds : Output.kinds [p] = [] := List.filterMap_cons_none hp
  refine ⟨?_, ?_, ?_, fun s hs => ⟨⟨fun k hk c hc => ?_, trivial⟩, ?_⟩⟩
  · rw [Output.words, hkinds]
    rfl
  · rw [Output.comments, hkinds]
    rfl
  · intro t ht
    rw [List.mem_singleton] at ht
    subst ht
    cases hp
  · exact hP s hs k hk c (List.mem_of_mem_head? hc)
  · have hempty : ¬p.chars.isEmpty = true := by simpa using hne
    show p.after s = none
    cases p with
    | word t => cases hp
    | _ =>
      rw [Piece.after, if_neg hempty]
      exact nofun

/-- A space may stand behind anything but a comment to the end of the line. -/
theorem Writes.space : Writes Ended [.space] Start [] [] :=
  .blank rfl (by decide) fun _ hs k hk _ hc => by
    cases List.mem_singleton.mp hc
    exact joins_of_endsAll (hs k hk) rfl

/-- No token goes on behind a line break. -/
theorem joins_newline (k : TokenKind) : k.joins '\n' = false := by
  by_cases hline : k.isLineComment = true
  · cases k with
    | comment t => rw [TokenKind.joins, hline]; rfl
    | _ => cases hline
  · exact joins_of_endsAll (Bool.eq_false_iff.mpr hline) rfl

/-- A line break may stand behind anything. -/
theorem Writes.newline : Writes Any [.newline] Start [] [] :=
  .blank rfl (by decide) fun _ _ k _ _ hc => by
    cases List.mem_singleton.mp hc
    exact joins_newline k

/-- Indentation at the start of a line. -/
theorem Writes.tabs (n : Nat) : Writes Start [.tabs n] Start [] [] := by
  intro _
  refine ⟨rfl, rfl, ?_, ?_⟩
  · intro t ht
    exact Piece.noConfusion (List.mem_singleton.mp ht)
  · rintro s rfl
    refine ⟨⟨nofun, trivial⟩, ?_⟩
    show (if (Piece.tabs n).chars.isEmpty then none else none) = none
    split <;> rfl

end Rules

/-! ### Marks -/

theorem legible_punct (m : Punct) : (TokenKind.punct m).Legible := by
  cases m <;> exact ⟨_, _, rfl, rfl⟩

/-- A mark behind anything that only an identifier would go on with. -/
theorem Writes.mark (m : Punct) (hm : m ≠ .period) :
    Writes Closed [.word m.spelling] Open (wordOf (.punct m)) [] := by
  refine Writes.token rfl (.inr (legible_punct m)) (fun _ s hs j hj c hc => hs j hj c ?_) ?_
  · cases m <;> cases hc <;> decide
  · rintro k ⟨⟩ c hc
    cases m with
    | period => exact absurd rfl hm
    | not | assign | colon =>
      refine Bool.eq_false_iff.mpr fun hjoins => ?_
      rw [beq_iff_eq.mp hjoins] at hc
      cases hc
    | _ => rfl

/-- A mark that nothing goes on with. -/
theorem Writes.bracket {m : Punct} (hm : ∀ c, m.joins c = false) :
    Writes Closed [.word m.spelling] Clear (wordOf (.punct m)) [] := by
  refine Writes.token rfl (.inr (legible_punct m)) (fun _ s hs j hj c hc => hs j hj c ?_)
    ⟨_, rfl, hm⟩
  cases m <;> cases hc <;> decide

/-- A closing bracket or a comma, behind anything but a comment that goes on to the end of the
line. -/
theorem Writes.closing {m : Punct} (hends : m.spelling.toList.all endsAll = true)
    (hm : ∀ c, m.joins c = false) :
    Writes Ended [.word m.spelling] Clear (wordOf (.punct m)) [] := by
  refine Writes.token rfl (.inr (legible_punct m)) (fun _ s hs j hj c hc => ?_) ⟨_, rfl, hm⟩
  exact joins_of_endsAll (hs j hj) (List.all_eq_true.mp hends c (List.mem_of_mem_head? hc))

/-- A semicolon is not among the words, and nothing is read on with it. -/
theorem Writes.semicolon : Writes Ended [.word ";"] Clear [] [] := by
  refine Writes.token (k := .semicolon false) rfl (.inr ⟨_, _, rfl, rfl⟩)
    (fun _ s hs j hj c hc => ?_) ⟨_, rfl, fun _ => rfl⟩
  cases hc
  exact joins_of_endsAll (hs j hj) rfl

/-! ### Words -/

/-- Names, literals and reserved words are what a phrase may start with. -/
theorem opens_of_legible {k : TokenKind} (hk : k.Legible) (hmark : k.isMark = false)
    (hcomment : k.comment? = none) :
    ∃ c cs, k.text.toList = c :: cs ∧ opensPhrase c = true := by
  obtain ⟨c, cs, htext, hscan⟩ := hk
  refine ⟨c, cs, htext, ?_⟩
  have hcase := scannedAs c cs
  rw [hscan] at hcase
  have hopens : ∀ d ∈ ['=', '|', '>', '/'], c = d → opensPhrase c = true := by
    intro d hd hc
    subst hc
    simp only [List.mem_cons, List.not_mem_nil, or_false] at hd
    cases hcase with
    | comment => cases hcomment
    | quoted hquote => rcases hd with rfl | rfl | rfl | rfl <;> exact absurd hquote (by decide)
    | number hnumber =>
      rw [startsNumber, Bool.or_eq_true, Bool.and_eq_true] at hnumber
      have hc : c.isDigit = true ∨ (c == '.') = true := hnumber.imp_right And.left
      rcases hd with rfl | rfl | rfl | rfl <;> exact absurd hc (by decide)
    | word hident => rcases hd with rfl | rfl | rfl | rfl <;> exact absurd hident (by decide)
    | mark hop =>
      rw [(operator?_text hop).1] at hmark
      cases hmark
    | fault => cases htext
  by_cases hmem : c ∈ ['=', '|', '>', '/']
  · exact hopens c hmem rfl
  · rw [opensPhrase, Bool.not_eq_true', Bool.eq_false_iff, Ne, List.contains_iff_mem]
    exact hmem

/-- A name starts with a letter or an underscore. -/
theorem startsIdent_of_legible {n : String} (hn : (TokenKind.ident n).Legible) :
    ∃ c cs, n.toList = c :: cs ∧ Text.startsIdent c = true := by
  obtain ⟨c, cs, htext, hscan⟩ := hn
  refine ⟨c, cs, htext, ?_⟩
  have hcase := scannedAs c cs
  rw [hscan] at hcase
  generalize hk : TokenKind.ident n = k at hcase
  cases hcase with
  | word hident => exact hident
  | mark hop =>
    have hmark := (operator?_text hop).1
    rw [← hk] at hmark
    cases hmark
  | _ => cases hk

/-- A reserved word, name or literal, where a phrase may start. -/
theorem Writes.opening {k : TokenKind} (hword : k.isWord = true) (hmark : k.isMark = false)
    (hcomment : k.comment? = none) (hfault : ∀ f, k ≠ .fault f)
    (hshut : ∀ c, Text.continuesIdent c = false → k.joins c = false) :
    Writes Open [.word k.text] Shut [k] [] := by
  have hws : wordOf k = [k] := List.filter_cons_of_pos hword
  rw [← hws]
  refine Writes.token hcomment (.inl ⟨hword, hfault⟩) (fun hk s hs j hj c hc => ?_)
    ⟨k, rfl, hshut⟩
  obtain ⟨d, cs, htext, hopens⟩ := opens_of_legible hk hmark hcomment
  rw [htext, List.head?_cons, Option.mem_some_iff] at hc
  subst hc
  exact hs j hj d hopens

/-- A reserved word starts as a phrase, and only an identifier would be read on with it. -/
theorem Writes.keyword (w : Keyword) : Writes Open [.word w.spelling] Shut [.keyword w] [] :=
  Writes.opening (k := .keyword w) rfl rfl rfl nofun fun _ hc => hc

/-- A name starts as a phrase, and only an identifier would be read on with it. -/
theorem Writes.ident (n : String) : Writes Open [.word n] Shut [.ident n] [] :=
  Writes.opening (k := .ident n) rfl rfl rfl nofun fun _ hc => hc

/-- A literal starts as a phrase, and only an identifier would be read on with it. -/
theorem Writes.literal (kind : LitKind) (t : String) :
    Writes Open [.word t] Shut [.literal kind t] [] := by
  refine Writes.opening (k := .literal kind t) rfl rfl rfl nofun fun c hc => ?_
  cases kind <;> first | exact hc | rfl

/-- The name that is selected stands right behind the point. -/
theorem Writes.selected (n : String) :
    Writes Closed [.word ".", .word n] Shut [.punct .period, .ident n] [] := by
  have hpoint : Writes Closed [.word "."] (· = some (.punct .period)) [.punct .period] [] := by
    refine Writes.token (k := .punct .period) rfl (.inr (legible_punct _))
      (fun _ s hs j hj c hc => hs j hj c ?_) rfl
    cases hc
    decide
  have hname : Writes (· = some (.punct .period)) [.word n] Shut [.ident n] [] := by
    refine Writes.token (k := .ident n) rfl (.inl ⟨rfl, nofun⟩) (fun hn s hs j hj c hc => ?_)
      ⟨_, rfl, fun _ hc => hc⟩
    obtain ⟨d, cs, htext, hident⟩ := startsIdent_of_legible hn
    have hd : d = c := by
      rw [TokenKind.text, htext] at hc
      exact Option.some.inj hc
    subst hd
    rw [hs] at hj
    cases hj
    have hdigit : d.isDigit = false := by
      refine Bool.eq_false_iff.mpr fun hdigit => ?_
      rw [startsIdent_of_isDigit hdigit] at hident
      cases hident
    have hpoint : (d == '.') = false := by
      refine Bool.eq_false_iff.mpr fun hpoint => ?_
      rw [beq_iff_eq.mp hpoint] at hident
      exact absurd hident (by decide)
    show (d == '.' || d.isDigit) = false
    rw [hpoint, hdigit]
    rfl
  exact hpoint.append hname

/-! ### Phrases -/

/-- An expression or type: it may stand right behind an opening bracket or an operator, and a
closing bracket, point or operator may stand right behind it. -/
def Phrase (o : Output) (ws : List TokenKind) (cs : List String) : Prop :=
  Genuine ws cs → Written Start o Shut ws cs ∧ ∃ c, o.firstChar? = some c ∧ opensPhrase c = true

namespace Phrase

variable {P Q : Before → Prop} {a b o : Output} {ws ws' : List TokenKind} {cs cs' : List String}

/-- A phrase behind anything that its first character does not go on with. -/
theorem after (h : Phrase o ws cs)
    (hP : ∀ s, P s → ∀ k ∈ s, ∀ c ∈ o.firstChar?, opensPhrase c = true → k.joins c = false) :
    Writes P o Shut ws cs := by
  intro hgenuine
  obtain ⟨hwritten, c, hfirst, hopens⟩ := h hgenuine
  obtain ⟨hapart, hafter⟩ := hwritten.apart none rfl
  refine ⟨hwritten.words, hwritten.comments, hwritten.legible, fun s hs => ⟨?_, ?_⟩⟩
  · refine (Output.apart_iff s hwritten.legible).mpr ⟨hapart, fun k hk d hd => ?_⟩
    refine hP s hs k hk d hd ?_
    rw [hfirst] at hd
    cases hd
    exact hopens
  · have hne : o.chars ≠ [] := by
      rw [Output.firstChar?_eq] at hfirst
      exact List.ne_nil_of_mem (List.mem_of_mem_head? hfirst)
    rw [Output.after_eq s hwritten.legible hne]
    exact hafter

/-- A phrase starts as a word and ends as one. -/
theorem writes (h : Phrase o ws cs) : Writes Open o Shut ws cs :=
  h.after fun _ hs k hk c _ hc => hs k hk c hc

/-- The words and comments in another form. -/
theorem cast (h : Phrase o ws cs) (hws : ws = ws') (hcs : cs = cs') : Phrase o ws' cs' := by
  rwa [← hws, ← hcs]

/-- A phrase and what follows it make a phrase. -/
theorem append [Leads Shut P] [Leads Q Shut] (ha : Phrase a ws cs) (hb : Writes P b Q ws' cs') :
    Phrase (a ++ b) (ws ++ ws') (cs ++ cs') := by
  intro hgenuine
  obtain ⟨hgenuine₁, hgenuine₂⟩ := Genuine.append_iff.mp hgenuine
  have hwrites : Writes Start (a ++ b) Shut (ws ++ ws') (cs ++ cs') :=
    ha.writes.before.append hb.behind
  obtain ⟨-, c, hfirst, hopens⟩ := ha hgenuine₁
  refine ⟨hwrites hgenuine, c, ?_, hopens⟩
  rw [Output.firstChar?_eq] at hfirst ⊢
  rw [Output.chars_append, List.head?_append, hfirst]
  rfl

/-- What starts with a given word. -/
theorem ofWord {t : String} (h : Writes Start (.word t :: b) Shut ws cs)
    (hopens : Genuine ws cs → ∃ c ds, t.toList = c :: ds ∧ opensPhrase c = true) :
    Phrase (.word t :: b) ws cs := by
  intro hgenuine
  obtain ⟨c, ds, htext, hc⟩ := hopens hgenuine
  refine ⟨h hgenuine, c, ?_, hc⟩
  rw [Output.firstChar?_eq]
  show (t.toList ++ _).head? = some c
  rw [htext]
  rfl

end Phrase

end Print

end HandlerSplit
