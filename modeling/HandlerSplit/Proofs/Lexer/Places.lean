import HandlerSplit.Lexer
import Mathlib.Data.List.DropRight
import Mathlib.Data.String.Basic
/-!
# Places in a source

A place is counted by the scanner one character at a time. Here it is told by the text before it:
the bytes of that text, its newlines, and the characters of its last line. A leading byte order mark
has bytes and no column.
-/

namespace HandlerSplit

open String (utf8Len)

/-! ## Texts between offsets -/

/-- `text` stands in `source` between two byte offsets. -/
def StandsBetween (source text : List Char) (start stop : Nat) : Prop :=
  ∃ before behind, source = before ++ text ++ behind ∧ utf8Len before = start ∧
    utf8Len (before ++ text) = stop

/-- Two beginnings of one text with as many bytes are the same. -/
theorem append_inj_of_utf8Len {a b a' b' : List Char} (h : a ++ b = a' ++ b')
    (hlen : utf8Len a = utf8Len a') : a = a' ∧ b = b' := by
  induction a generalizing a' with
  | nil =>
    obtain rfl := String.utf8Len_eq_zero.mp hlen.symm
    exact ⟨rfl, h⟩
  | cons c a ih =>
    cases a' with
    | nil =>
      have hpos := c.utf8Size_pos
      simp only [String.utf8Len_cons, String.utf8Len_nil] at hlen
      omega
    | cons c' a' =>
      obtain ⟨rfl, htail⟩ := List.cons.inj h
      obtain ⟨rfl, rfl⟩ := ih htail (Nat.add_right_cancel hlen)
      exact ⟨rfl, rfl⟩

namespace StandsBetween

variable {source text text' : List Char} {start stop : Nat}

/-- There is one text between two offsets. -/
theorem unique (h : StandsBetween source text start stop)
    (h' : StandsBetween source text' start stop) : text = text' := by
  obtain ⟨before, behind, hsource, hstart, hstop⟩ := h
  obtain ⟨before', behind', hsource', hstart', hstop'⟩ := h'
  rw [hsource] at hsource'
  obtain ⟨htexts, -⟩ := append_inj_of_utf8Len hsource' (hstop.trans hstop'.symm)
  exact (append_inj_of_utf8Len htexts (hstart.trans hstart'.symm)).2

end StandsBetween

/-! ## Lines and columns -/

/-- The last line of a text. -/
def lastLine (cs : List Char) : List Char :=
  cs.rtakeWhile (· != '\n')

/-- A line break starts a new last line. -/
theorem lastLine_concat (cs : List Char) (c : Char) :
    lastLine (cs ++ [c]) = if c == '\n' then [] else lastLine cs ++ [c] := by
  by_cases h : c = '\n'
  · rw [h]
    exact List.rtakeWhile_concat_neg _ _ _ (by decide)
  · rw [if_neg (by simpa using h)]
    exact List.rtakeWhile_concat_pos _ _ _ (by simpa using h)

/-- The place behind a text at the start of a source. -/
def placeBehind (before : List Char) : Place :=
  ⟨utf8Len before, 1 + before.count '\n', 1 + (lastLine (dropByteOrderMark before).2).length⟩

/-- The place behind two texts is the place behind the second, from the place behind the first. -/
theorem Place.after_append (p : Place) (cs ds : List Char) :
    p.after (cs ++ ds) = (p.after cs).after ds :=
  List.foldl_append

/-- The place after a text, from the first column of a line. -/
theorem Place.after_eq (offset line : Nat) (cs : List Char) :
    Place.after ⟨offset, line, 1⟩ cs =
      ⟨offset + utf8Len cs, line + cs.count '\n', 1 + (lastLine cs).length⟩ := by
  induction cs using List.reverseRecOn with
  | nil => rfl
  | append_singleton cs c ih =>
    rw [after_append, ih, lastLine_concat, String.utf8Len_append, List.count_append,
      List.count_singleton]
    show next _ c = _
    rw [next]
    split <;> simp [Nat.add_assoc, Nat.add_comm, Nat.add_left_comm]

/-! ## On the way through a source -/

/-- The scanner has come to the place `p` of a source, behind `before`, with `cs` still to be
read. -/
structure Reaches (source before cs : List Char) (p : Place) : Prop where
  source : source = before ++ cs
  places : ∀ ds es, cs = ds ++ es → p.after ds = placeBehind (before ++ ds)

namespace Reaches

variable {source before cs ds : List Char} {p : Place}

theorem append (h : Reaches source before (cs ++ ds) p) :
    Reaches source (before ++ cs) ds (p.after cs) where
  source := by rw [h.source, List.append_assoc]
  places es es' hds := by
    rw [← Place.after_append, h.places (cs ++ es) es' (by rw [hds, List.append_assoc]),
      List.append_assoc]

theorem place_eq (h : Reaches source before cs p) : p = placeBehind before := by
  rw [← List.append_nil before]
  exact h.places [] cs rfl

/-- What is read next stands where the place says. -/
theorem standsBetween (h : Reaches source before (cs ++ ds) p) :
    StandsBetween source cs p.offset (p.after cs).offset := by
  refine ⟨before, ds, by rw [h.source, List.append_assoc], ?_, ?_⟩
  · rw [h.place_eq]
    rfl
  · rw [h.append.place_eq]
    rfl

end Reaches

/-- Reading starts behind a byte order mark, which is in no line. -/
theorem exists_reaches (source : List Char) :
    ∃ mark, Reaches source mark (dropByteOrderMark source).2 (dropByteOrderMark source).1 ∧
      ∀ cs ds, (dropByteOrderMark source).2 = cs ++ ds →
        (dropByteOrderMark (mark ++ cs)).2 = cs := by
  unfold dropByteOrderMark
  split
  · refine ⟨['\ufeff'], ⟨rfl, fun cs ds _ => ?_⟩, fun _ _ _ => rfl⟩
    show Place.after ⟨_, 1, 1⟩ cs = _
    have hmark : ['\ufeff'].count '\n' = 0 := rfl
    rw [Place.after_eq, placeBehind, String.utf8Len_append, List.count_append, hmark, Nat.zero_add]
    rfl
  · rename_i hmark
    have hkept (cs ds : List Char) (hcs : source = cs ++ ds) : (dropByteOrderMark cs).2 = cs := by
      unfold dropByteOrderMark
      split
      · exact absurd hcs (hmark _)
      · rfl
    refine ⟨[], ⟨rfl, fun cs ds hcs => ?_⟩, hkept⟩
    show Place.after ⟨0, 1, 1⟩ cs = _
    rw [Place.after_eq, placeBehind, List.nil_append, hkept cs ds hcs, Nat.zero_add]

end HandlerSplit
