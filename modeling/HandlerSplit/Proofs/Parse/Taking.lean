import HandlerSplit.Proofs.Tree.Marks
import HandlerSplit.Token
/-!
# What is taken from a text

A text is a sequence of marks, and a phrase takes marks from its front: names in order, and
comments in order. A comment may be taken after names that follow it, since it waits until a
node can hold it. Before a joined name no comment waits, and the comments that stand there are
lost (`Takes`).
-/

namespace HandlerSplit

/-! ## Comments and names among marks -/

namespace Mark

/-- The text of a comment. -/
def text? : Mark → Option String
  | comment text => some text
  | name _ _ => none

/-- The name, if the mark is one. -/
def name? : Mark → Option String
  | comment _ => none
  | name n _ => some n

/-- Whether a name is joined. -/
def joined? : Mark → Option Bool
  | comment _ => none
  | name _ joined => some joined

end Mark

/-- The texts of the comments. -/
def textsOf (ms : List Mark) : List String :=
  ms.filterMap Mark.text?

/-- The names. -/
def namesOf (ms : List Mark) : List String :=
  ms.filterMap Mark.name?

/-- For each name whether it is joined. -/
def joinsOf (ms : List Mark) : List Bool :=
  ms.filterMap Mark.joined?

/-- The comments whose next name is joined, or is not, as `joined` asks; `joins` tells it for
each name of the marks. There is no joined name after the last. -/
def textsBefore (joined : Bool) : List Bool → List Mark → List String
  | _, [] => []
  | joins, .comment text :: ms =>
    if joins.headD false = joined then text :: textsBefore joined joins ms
    else textsBefore joined joins ms
  | joins, .name _ _ :: ms => textsBefore joined joins.tail ms

section

variable (joins : List Bool) (ms ms' : List Mark) (cs : List Comment)

@[simp] theorem textsOf_append : textsOf (ms ++ ms') = textsOf ms ++ textsOf ms' :=
  List.filterMap_append

@[simp] theorem namesOf_append : namesOf (ms ++ ms') = namesOf ms ++ namesOf ms' :=
  List.filterMap_append

@[simp] theorem joinsOf_append : joinsOf (ms ++ ms') = joinsOf ms ++ joinsOf ms' :=
  List.filterMap_append

@[simp] theorem textsOf_commentMarks : textsOf (commentMarks cs) = cs.map (·.text) := by
  rw [textsOf, commentMarks, List.filterMap_map]
  exact congrFun (List.filterMap_eq_map (f := Comment.text)) cs

@[simp] theorem namesOf_commentMarks : namesOf (commentMarks cs) = [] := by
  rw [namesOf, commentMarks, List.filterMap_map]
  exact List.filterMap_eq_nil_iff.mpr fun _ _ => rfl

@[simp] theorem joinsOf_commentMarks : joinsOf (commentMarks cs) = [] := by
  rw [joinsOf, commentMarks, List.filterMap_map]
  exact List.filterMap_eq_nil_iff.mpr fun _ _ => rfl

/-- Comments in front, if the next name is not joined. -/
theorem textsBefore_commentMarks_append (h : joins.headD false = false) :
    textsBefore false joins (commentMarks cs ++ ms) =
      cs.map (·.text) ++ textsBefore false joins ms := by
  induction cs with
  | nil => rfl
  | cons c cs ih =>
    show textsBefore false joins (.comment c.text :: (commentMarks cs ++ ms)) = _
    rw [textsBefore, if_pos h, ih, List.map_cons, List.cons_append]

/-- Comments in front of a joined name. -/
theorem textsBefore_commentMarks_append_joined (h : joins.headD false = true) :
    textsBefore false joins (commentMarks cs ++ ms) = textsBefore false joins ms := by
  induction cs with
  | nil => rfl
  | cons c cs ih =>
    show textsBefore false joins (.comment c.text :: (commentMarks cs ++ ms)) = _
    rw [textsBefore, if_neg (by rw [h]; exact Bool.noConfusion), ih]

/-- A comment stands before a joined name or does not. -/
theorem length_textsBefore :
    (textsBefore false joins ms).length + (textsBefore true joins ms).length =
      (textsOf ms).length := by
  induction ms generalizing joins with
  | nil => rfl
  | cons m ms ih =>
    cases m with
    | name n joined => exact ih joins.tail
    | comment text =>
      have htexts : textsOf (.comment text :: ms) = text :: textsOf ms := rfl
      rw [textsBefore, textsBefore, htexts, List.length_cons]
      cases joins.headD false <;> simp [← ih joins] <;> omega

/-- The comments before joined names, or before others, are some of the comments. -/
theorem textsBefore_sublist (joined : Bool) :
    (textsBefore joined joins ms).Sublist (textsOf ms) := by
  induction ms generalizing joins with
  | nil => exact .slnil
  | cons m ms ih =>
    cases m with
    | name n joined => exact ih joins.tail
    | comment text =>
      rw [textsBefore]
      split
      · exact (ih joins).cons_cons text
      · exact (ih joins).cons text

/-- All comments are kept if and only if none stands before a joined name. -/
theorem textsBefore_eq_textsOf_iff :
    textsBefore false joins ms = textsOf ms ↔ textsBefore true joins ms = [] := by
  have hlength := length_textsBefore joins ms
  constructor
  · intro h
    rw [h] at hlength
    exact List.length_eq_zero_iff.mp (by omega)
  · intro h
    rw [h, List.length_nil, Nat.add_zero] at hlength
    exact (textsBefore_sublist joins ms false).eq_of_length hlength

/-- Where no name is joined, no comment stands before a joined name. -/
theorem textsBefore_eq_nil (h : ∀ joined ∈ joins, joined = false) :
    textsBefore true joins ms = [] := by
  induction ms generalizing joins with
  | nil => rfl
  | cons m ms ih =>
    cases m with
    | name n joined => exact ih joins.tail fun j hj => h j (List.mem_of_mem_tail hj)
    | comment text =>
      have hhead : joins.headD false = false := by
        cases joins with
        | nil => rfl
        | cons j joins => exact h j List.mem_cons_self
      rw [textsBefore, if_neg (by rw [hhead]; exact Bool.noConfusion)]
      exact ih joins h

end

/-! ## Taking marks -/

/-- The marks `ms` are taken from the front of `s`, and `s'` is left. What stands before the
joined names among them is lost. -/
structure TakesJoined (s ms s' : List Mark) : Prop where
  names : namesOf s = namesOf ms ++ namesOf s'
  texts : ∀ joins : List Bool, joins.headD false = false →
    textsBefore false (joinsOf ms ++ joins) s = textsOf ms ++ textsBefore false joins s'

/-- The marks `ms` are taken from the front of `s`, and `s'` is left; the first name is not
joined to one before it. -/
structure Takes (s ms s' : List Mark) : Prop extends TakesJoined s ms s' where
  starts : (joinsOf ms).headD false = false

section

variable {s s' s'' ms ms' : List Mark}

/-- No joined name comes first in a row if none does in its two parts. -/
theorem headD_append {joins joins' : List Bool} (h : joins.headD false = false)
    (h' : joins'.headD false = false) : (joins ++ joins').headD false = false := by
  cases joins with
  | nil => exact h'
  | cons _ _ => exact h

/-- What is taken first and what is taken then is taken together. -/
theorem TakesJoined.trans (h : TakesJoined s ms s') (h' : Takes s' ms' s'') :
    TakesJoined s (ms ++ ms') s'' where
  names := by rw [h.names, h'.names, namesOf_append, List.append_assoc]
  texts joins hjoins := by
    rw [joinsOf_append, List.append_assoc, h.texts _ (headD_append h'.starts hjoins),
      h'.texts _ hjoins, textsOf_append, List.append_assoc]

/-- Comments before a joined name are lost. -/
theorem TakesJoined.lost (h : TakesJoined s ms s') (hjoined : (joinsOf ms).headD false = true)
    (cs : List Comment) : TakesJoined (commentMarks cs ++ s) ms s' where
  names := by rw [namesOf_append, namesOf_commentMarks, List.nil_append, h.names]
  texts joins hjoins := by
    rw [textsBefore_commentMarks_append_joined, h.texts joins hjoins]
    cases hms : joinsOf ms with
    | nil => rw [hms] at hjoined; cases hjoined
    | cons joined _ => rw [hms] at hjoined; exact hjoined

/-- What is kept of a name and the comments before it: a joined name loses them. -/
def keptName (cs : List Comment) (n : String) (joined : Bool) : List Mark :=
  (if joined then [] else commentMarks cs) ++ [.name n joined]

/-- The comments before a name are kept unless it is joined. -/
@[simp] theorem textsOf_keptName (cs : List Comment) (n : String) (joined : Bool) :
    textsOf (keptName cs n joined) = if joined then [] else cs.map (·.text) := by
  cases joined with
  | false =>
    rw [keptName, if_neg Bool.false_ne_true, textsOf_append, textsOf_commentMarks]
    exact List.append_nil _
  | true => rfl

@[simp] theorem namesOf_keptName (cs : List Comment) (n : String) (joined : Bool) :
    namesOf (keptName cs n joined) = [n] := by
  cases joined with
  | false =>
    rw [keptName, if_neg Bool.false_ne_true, namesOf_append, namesOf_commentMarks]
    rfl
  | true => rfl

@[simp] theorem joinsOf_keptName (cs : List Comment) (n : String) (joined : Bool) :
    joinsOf (keptName cs n joined) = [joined] := by
  cases joined with
  | false =>
    rw [keptName, if_neg Bool.false_ne_true, joinsOf_append, joinsOf_commentMarks]
    rfl
  | true => rfl

/-- A name in front of what is taken, with the comments before it unless it is joined. -/
theorem TakesJoined.name (h : TakesJoined s ms s') (cs : List Comment) (n : String)
    (joined : Bool) :
    TakesJoined (commentMarks cs ++ .name n false :: s) (keptName cs n joined ++ ms) s' where
  names := by
    rw [namesOf_append, namesOf_append, namesOf_commentMarks, namesOf_keptName]
    exact congrArg (n :: ·) h.names
  texts joins hjoins := by
    have hrest := h.texts joins hjoins
    rw [joinsOf_append, joinsOf_keptName, textsOf_append, textsOf_keptName]
    cases joined with
    | false =>
      refine (textsBefore_commentMarks_append _ _ _ rfl).trans ?_
      refine (congrArg (cs.map (·.text) ++ ·) hrest).trans ?_
      exact (List.append_assoc _ _ _).symm
    | true => exact (textsBefore_commentMarks_append_joined _ _ _ rfl).trans hrest

namespace Takes

/-- Nothing is taken. -/
theorem refl (s : List Mark) : Takes s [] s :=
  ⟨⟨rfl, fun _ _ => rfl⟩, rfl⟩

/-- What is taken in two steps is taken in one. -/
theorem trans (h : Takes s ms s') (h' : Takes s' ms' s'') : Takes s (ms ++ ms') s'' where
  toTakesJoined := h.toTakesJoined.trans h'
  starts := by rw [joinsOf_append]; exact headD_append h.starts h'.starts

/-- Comments at the front. -/
theorem comments (cs : List Comment) (s : List Mark) :
    Takes (commentMarks cs ++ s) (commentMarks cs) s where
  names := by rw [namesOf_append]
  texts joins hjoins := by
    rw [joinsOf_commentMarks, List.nil_append, textsBefore_commentMarks_append _ _ _ hjoins,
      textsOf_commentMarks]
  starts := by rw [joinsOf_commentMarks]; rfl

/-- A name behind comments, which go on waiting. -/
theorem name (cs : List Comment) (n : String) (joined : Bool) (s : List Mark) :
    Takes (commentMarks cs ++ .name n joined :: s) [.name n false] (commentMarks cs ++ s) where
  names := by
    rw [namesOf_append, namesOf_append, namesOf_commentMarks]
    rfl
  texts joins hjoins := by
    have hjoins' : joinsOf [.name n false] ++ joins = false :: joins := rfl
    rw [hjoins', textsBefore_commentMarks_append _ _ _ rfl,
      textsBefore_commentMarks_append _ _ _ hjoins]
    rfl
  starts := rfl

end Takes

end

end HandlerSplit
