import HandlerSplit.Parse.Expr
import HandlerSplit.Proofs.Parse.Marks.Types
/-!
# Comments and names of expressions

Expressions hold the comments and names they were read from, in order. What an expression
begins with has been read when it is extended.
-/

namespace HandlerSplit.Parse

/-- A unary operator is no mark. -/
theorem mark?_of_unaryOp {kind : TokenKind} {op : UnaryOp}
    (h : Grammar.unaryOp? kind = some op) : kind.mark? = none := by
  cases kind <;> first | rfl | cases h

/-- The marks of arguments. -/
def argMarks (r : List Element × Bool × Enclosure) : List Mark :=
  r.2.2.around (r.1.flatMap Element.marks)

/-- The marks of the elements of a literal. -/
def literalMarks (r : List Element × Enclosure) : List Mark :=
  r.2.around (r.1.flatMap Element.marks)

/-- The marks of bounds; without a colon there is one bound only. -/
def Bounds.marks (b : Bounds) : List Mark :=
  if b.colons == 0 then optExprMarks b.low
  else optExprMarks b.low ++ (optExprMarks b.high ++ optExprMarks b.max)

namespace Grammar.Keeps

variable {g : Grammar} {K : TokenKind → Prop}

/-! ## Bracketed lists -/

/-- The end of an element, with what trails it. -/
theorem elementTurn {α : Type} {e : α → List Mark} {make : Decorations → α} {ms : List Mark}
    {decs : Decorations} (hdecs : decs.trailing = none) (h : ∀ d, e (make d) = d.around ms) :
    Reads K (commentMarks decs.leading ++ ms) (Turn.marks e) (elementTurn decs make) := by
  refine .atPunct (.next rfl (.claimTrailing fun trailing => .pure (h _))) (.pure ?_)
  exact (h decs).trans (decs.around_of_trailing_none hdecs ms)

variable (hg : g.Keeps)

include hg

/-- The comments at the parentheses and the marks of the arguments. -/
theorem callArgs (opening : Span) : Reads K [] argMarks (g.callArgs opening) := by
  refine .claimTrailing fun comment => ?_
  refine .bind (.entries (e := fun a => a.1.marks) (.peekKind fun kind _ => ?_) _)
    fun args => .closeEnclosure _ fun b hb => .pure ?_
  · split
    · exact .pure rfl
    · exact .rejectAt _ _
    · refine .startDecorations fun d hd => .bind hg.expr fun x => ?_
      have turn (spread : Bool) : Reads Anything (commentMarks d.leading ++ x.marks)
          (Turn.marks fun a : Element × Bool => a.1.marks)
          (Grammar.elementTurn d fun d => (⟨x, d⟩, spread)) := elementTurn hd fun _ => rfl
      exact .atPunct (.next rfl (turn true)) (turn false).weaken
  · rw [argMarks, ← hb, Enclosure.around, List.flatMap_map]
    rfl

/-- The marks of the arguments come behind those of the function. -/
theorem call (fn : Expr) : Reads K fn.marks Expr.marks (g.call fn) := by
  refine .peek fun t => .skip (.expectPunct _) ?_
  refine .bind (.bracketed (hg.callArgs _)) fun r => .skip (.expectPunct _) (.pure ?_)
  rw [Expr.marks, elementMarks_eq]
  rfl

theorem element : Reads K [] Expr.marks g.element := by
  refine .bind hg.elementValue fun x => .atPunct ?_ (.pure rfl)
  exact .next rfl (.bind hg.elementValue fun y => .pure rfl)

/-- The comments at the braces and the marks of the elements. -/
theorem elements (opening : Span) : Reads K [] literalMarks (g.elements opening) := by
  refine .claimTrailing fun comment => ?_
  refine .bind (.entries (e := Element.marks) (.peekKind fun kind _ => ?_) _)
    fun es => .closeEnclosure _ fun b hb => .pure ?_
  · split
    · exact .pure rfl
    · exact .rejectAt _ _
    · refine .startDecorations fun d hd => .bind hg.element fun x => ?_
      exact elementTurn hd fun _ => rfl
  · rw [literalMarks, ← hb, Enclosure.around]
    rfl

/-- The marks of the elements come behind those of the type. -/
theorem composite (type : Option Expr) :
    Reads K (optExprMarks type) Expr.marks (g.composite type) := by
  refine .peek fun t => .skip (.expectPunct _) ?_
  refine .bind (.bracketed (hg.elements _)) fun r => .skip (.expectPunct _) (.pure ?_)
  rw [Expr.marks, elementMarks_eq]
  rfl

theorem elementValueHere : Reads K [] Expr.marks g.elementValueHere :=
  .atPunct (.nested (hg.composite none)) hg.expr

/-! ## Operands -/

theorem bound : Reads K [] optExprMarks g.bound := by
  refine .peekKind fun kind _ => ?_
  split
  · exact .pure rfl
  · exact .pure rfl
  · exact .bind hg.expr fun _ => .pure rfl

/-- The marks of the bounds that are there. -/
theorem bounds : Reads K [] Bounds.marks g.bounds := by
  refine .bind (e := optExprMarks) (.atPunct (.pure rfl) (.bind hg.expr fun _ => .pure rfl))
    fun low => .atPunct ?_ (.pure rfl)
  refine .next rfl (.bind hg.bound fun high => .atPunct ?_ (.pure ?_))
  · exact .next rfl (.bind hg.bound fun max => .pure (List.append_assoc _ _ _).symm)
  · exact congrArg (optExprMarks low ++ ·) (List.append_nil _)

/-- What stands in brackets comes behind what is indexed. -/
theorem indexOrSlice (x : Expr) : Reads K x.marks Expr.marks (g.indexOrSlice x) := by
  refine .skip (.expectPunct _) (.bind (.bracketed hg.bounds) fun b => .skip (.expectPunct _) ?_)
  split
  · rename_i hcolons
    split
    · rename_i key hlow
      refine .pure ?_
      rw [Bounds.marks, if_pos hcolons, hlow]
      rfl
    · exact .reject _
  · rename_i hcolons
    split
    · exact .reject _
    · refine .pure ?_
      rw [Bounds.marks, if_neg hcolons]
      simp only [Expr.marks, List.append_assoc]

/-- The selected name or the asserted type comes behind its expression. -/
theorem selectorOrAssertion (x : Expr) :
    Reads K x.marks Expr.marks (g.selectorOrAssertion x) := by
  refine .peekKind fun kind _ => ?_
  split
  · exact .name (.pure rfl)
  · refine .next rfl (.bind (e := optExprMarks) (.at? ?_ ?_)
      fun type => .skip (.expectPunct _) (.pure rfl))
    · exact .next rfl (.pure rfl)
    · exact .bind hg.type fun _ => .pure rfl
  · exact .unexpected _

/-- The forms of operands, told apart by their first token. -/
theorem operand : Reads K [] Expr.marks g.operand := by
  refine .peekKind fun kind _ => ?_
  split
  · exact .name (.pure rfl)
  · exact .next rfl (.pure rfl)
  · exact .next rfl (.bind (.bracketed hg.expr) fun x => .skip (.expectPunct _) (.pure rfl))
  · refine .next rfl (.bind hg.signature fun s => .atPunct ?_ (.pure rfl))
    exact .bind (.bracketed hg.block) fun b => .pure rfl
  all_goals first
    | exact hg.nestedType
    | exact .unexpected _

/-- The expression as it has grown holds what has been read, or it is as it was. -/
theorem postfixed (x : Expr) :
    Reads K x.marks (fun y => (y.getD x).marks) (g.postfixed x) := by
  refine .peekKind fun kind _ => ?_
  split
  · exact .next rfl (.seq (hg.selectorOrAssertion x) fun _ => .pure rfl)
  · exact .seq (hg.indexOrSlice x) fun _ => .pure rfl
  · exact .seq (hg.call x) fun _ => .pure rfl
  · refine .get fun c => ?_
    split
    · exact .seq (hg.composite (some x)) fun _ => .pure rfl
    · exact .pure rfl
  · exact .pure rfl

/-- The marks of an operand and of what follows it. -/
theorem primary : Reads K [] Expr.marks g.primary :=
  .bind hg.operand fun x => .growing hg.postfixed _ x

/-! ## Operators -/

theorem prefixed : Reads K [] Expr.marks g.prefixed := by
  refine .peekKind fun kind _ => ?_
  split
  · exact .next rfl (.bind hg.unary fun x => .pure rfl)
  · refine .next rfl (.at? ?_ (.bind hg.unary fun x => .pure rfl))
    exact .next rfl (.bind hg.type fun x => .pure rfl)
  · split
    · rename_i hop
      exact .next (mark?_of_unaryOp hop) (.bind hg.unary fun x => .pure rfl)
    · exact hg.primary

/-- A unary expression, one level of nesting down. -/
theorem nestedUnary : Reads K [] Expr.marks g.nestedUnary :=
  .nested hg.prefixed

/-- The marks of the right operand come behind those of the left. -/
theorem extended (strength : Nat) (x : Expr) :
    Reads K x.marks (fun y => (y.getD x).marks) (g.extended strength x) := by
  refine .peekKind fun kind _ => ?_
  split
  · split
    · exact .pure rfl
    · exact .next rfl (.get fun c => .bind (hg.binary _) fun y => .pure rfl)
  · exact .pure rfl

/-- The marks of both operands, since operators are no marks. -/
theorem binaryFrom (strength : Nat) : Reads K [] Expr.marks (g.binaryFrom strength) :=
  .bind hg.nestedUnary fun x => .growing (hg.extended strength) _ x

end Grammar.Keeps

end HandlerSplit.Parse
