import HandlerSplit.Parse.Expr
import HandlerSplit.Proofs.Parse.Progress.Types
/-!
# Progress in expressions

An expression takes a token before it enters the level below, an operand or a unary operator. Only a
key or value of a composite literal may be an expression of the level below, but one token has been
taken for the brace before it.
-/

namespace HandlerSplit.Parse

namespace Grammar

/-! ## Turns of loops -/

variable (g : Grammar)

/-- An argument of a call with the comma behind it if there is one. -/
def argTurn (opening : Span) : Parser (Turn (Element × Bool)) := do
  match ← peekKind with
  | .punct .rparen => return .stop
  | .eof => rejectAt opening (.unterminated .argumentList)
  | _ =>
    let decs ← startDecorations
    let x ← g.expr
    let spread ← atPunct .ellipsis
    if spread then advance
    elementTurn decs fun decs => (Element.mk x decs, spread)

/-- An element of a composite literal with the comma behind it if there is one. -/
def literalTurn (opening : Span) : Parser (Turn Element) := do
  match ← peekKind with
  | .punct .rbrace => return .stop
  | .eof => rejectAt opening (.unterminated .compositeLiteral)
  | _ =>
    let decs ← startDecorations
    let x ← g.element
    elementTurn decs fun decs => Element.mk x decs

/-- The arguments of a call are a loop with one argument to each turn. -/
theorem callArgs_eq (opening : Span) :
    g.callArgs opening = (do
      let openComment ← claimTrailing
      let args ← g.entries (g.argTurn opening)
      let enclosure ← closeEnclosure openComment
      return (args.map (·.1), args.any (·.2), enclosure)) :=
  rfl

/-- The elements of a composite literal are a loop with one element to each turn. -/
theorem elements_eq (opening : Span) :
    g.elements opening = (do
      let openComment ← claimTrailing
      let elements ← g.entries (g.literalTurn opening)
      return (elements, ← closeEnclosure openComment)) :=
  rfl

namespace Serves

variable {g : Grammar} {K : TokenKind → Prop} {n : Nat}

/-! ## Bracketed lists -/

/-- The comma behind an element may be missing. -/
theorem elementTurn {α : Type} (decs : Decorations) (make : Decorations → α) :
    Proceeds K n Never (elementTurn decs make) := by
  refine .atPunct ?_ .answer
  exact .past (.advance nofun) fun _ => .claimTrailing fun trailing => .answer

variable (hg : g.Serves n)

include hg

/-- A turn that goes on has taken an argument. -/
theorem argTurn (opening : Span) : Proceeds K n Turn.GoesOn (g.argTurn opening) := by
  refine .peekKind fun kind => ?_
  split
  · exact .pure id
  · exact .rejectAt _ nofun
  · refine .startDecorations fun d => .past hg.expr fun x => ?_
    have turn (spread : Bool) : Proceeds Anything n Never
        (Grammar.elementTurn d fun d => (Element.mk x d, spread)) := elementTurn d _
    exact .atPunct (.past (.advance nofun) fun _ => turn true) (turn false)

/-- There may be no arguments. -/
theorem callArgs (opening : Span) : Proceeds K n Never (g.callArgs opening) := by
  rw [callArgs_eq]
  refine .claimTrailing fun comment => .bind (hg.entries (hg.argTurn opening)) fun args => ?_
  exact .closeEnclosure fun b => .answer

/-- A call takes its parenthesis. -/
theorem call {M : Expr → Prop} (fn : Expr) : Proceeds K n M (g.call fn) := by
  refine .peek fun t => .past .expectPunct fun _ => ?_
  exact .bind (.bracketed (hg.callArgs _)) fun r => .past .expectPunct fun _ => .answer

/-- A keyed or plain element, on one token less, since the brace before it has been taken. -/
theorem element {M : Expr → Prop} : Proceeds K (n - 1) M g.element := by
  refine .past hg.elementValue fun x => .atPunct ?_ .answer
  exact .past (.advance nofun) fun _ => .past hg.elementValue fun y => .answer

/-- A turn that goes on has taken an element. -/
theorem literalTurn (opening : Span) : Proceeds K (n - 1) Turn.GoesOn (g.literalTurn opening) := by
  refine .peekKind fun kind => ?_
  split
  · exact .pure id
  · exact .rejectAt _ nofun
  · exact .startDecorations fun d => .past hg.element fun x => elementTurn _ _

/-- There may be no elements. -/
theorem elements (opening : Span) : Proceeds K (n - 1) Never (g.elements opening) := by
  rw [elements_eq]
  refine .claimTrailing fun comment => .bind (.entries (hg.literalTurn opening) ?_) fun es => ?_
  · exact Nat.le_trans (Nat.sub_le n 1) hg.turns
  · exact .closeEnclosure fun b => .answer

/-- A composite literal takes its brace and so has a token to spare for its elements. -/
theorem composite {M : Expr → Prop} (type : Option Expr) : Proceeds K n M (g.composite type) := by
  refine .peek fun t => .below .expectPunct fun _ => ?_
  exact .bind (.bracketed (hg.elements _)) fun r => .past .expectPunct fun _ => .answer

/-- A value takes a token, as a literal without a type or as an expression. -/
theorem elementValueHere {M : Expr → Prop} : Proceeds K n M g.elementValueHere :=
  .atPunct (.nested (hg.composite none)) hg.expr

/-! ## Operands -/

/-- A bound of a slice may be missing. -/
theorem bound : Proceeds K n Never g.bound := by
  refine .peekKind fun kind => ?_
  split
  · exact .answer
  · exact .answer
  · exact .past hg.expr fun _ => .answer

/-- All bounds of a slice may be missing. -/
theorem bounds : Proceeds K n Never g.bounds := by
  refine .bind (.atPunct .answer (.past hg.expr fun _ => .answer)) fun low => ?_
  refine .atPunct (.past (.advance nofun) fun _ => .bind hg.bound fun high => ?_) .answer
  refine .atPunct (.past (.advance nofun) fun _ => .bind hg.bound fun max => ?_) .answer
  exact .answer

/-- An index or a slice takes its bracket. -/
theorem indexOrSlice {M : Expr → Prop} (x : Expr) : Proceeds K n M (g.indexOrSlice x) := by
  refine .past .expectPunct fun _ => .bind (.bracketed hg.bounds) fun b => ?_
  refine .past .expectPunct fun _ => ?_
  split
  · split
    · exact .answer
    · exact .reject nofun
  · split
    · exact .reject nofun
    · exact .answer

/-- A selector or a type assertion takes its dot. -/
theorem selectorOrAssertion {M : Expr → Prop} (x : Expr) :
    Proceeds K n M (g.selectorOrAssertion x) := by
  refine .peekKind fun kind => ?_
  split
  · exact .past (.advance nofun) fun _ => .answer
  · refine .past (.advance nofun) fun _ => .bind (.at? ?_ ?_) fun type => ?_
    · exact .past (.advance nofun) fun _ => .answer
    · exact .past hg.type fun _ => .answer
    · exact .past .expectPunct fun _ => .answer
  · exact .unexpected _

/-- An operand takes its first token before it enters the level. -/
theorem operand {M : Expr → Prop} : Proceeds K (n + 1) M g.operand := by
  refine .peekKind fun kind => ?_
  split
  · exact .past (.advance nofun) fun _ => .answer
  · exact .past (.advance nofun) fun _ => .answer
  · refine .below (.advance nofun) fun _ => .past (.bracketed hg.expr) fun x => ?_
    exact .past .expectPunct fun _ => .answer
  · refine .below (.advance nofun) fun _ => .below hg.signature fun s => .atPunct ?_ .answer
    exact .past (.bracketed hg.block) fun b => .answer
  all_goals first
    | exact hg.nestedType
    | exact .unexpected _

/-- If the operand has grown, a token has been taken. -/
theorem postfixed (x : Expr) : Proceeds K n (·.isSome = true) (g.postfixed x) := by
  refine .peekKind fun kind => ?_
  split
  · exact .past (.advance nofun) fun _ => .past (hg.selectorOrAssertion x) fun _ => .answer
  · exact .past (hg.indexOrSlice x) fun _ => .answer
  · exact .past (hg.call x) fun _ => .answer
  · refine .get fun c => ?_
    split
    · exact .past (hg.composite (some x)) fun _ => .answer
    · exact .pure nofun
  · exact .pure nofun

/-- An operand takes a token, and what follows it may be nothing. -/
theorem primary {M : Expr → Prop} : Proceeds K (n + 1) M g.primary :=
  .below hg.operand fun x => .growing hg.postfixed hg.turns x

/-! ## Operators -/

/-- A unary operator is taken before the level is entered. -/
theorem prefixed {M : Expr → Prop} : Proceeds K (n + 1) M g.prefixed := by
  refine .peekKind fun kind => ?_
  split
  · exact .below (.advance nofun) fun _ => .past hg.unary fun x => .answer
  · refine .below (.advance nofun) fun _ => .at? ?_ (.past hg.unary fun x => .answer)
    exact .past (.advance nofun) fun _ => .past hg.type fun x => .answer
  · split
    · rename_i hop
      refine .below (.advance fun heof => ?_) fun _ => .past hg.unary fun x => .answer
      rw [heof] at hop
      cases hop
    · exact hg.primary

/-- A unary expression, one level of nesting down. -/
theorem nestedUnary {M : Expr → Prop} : Proceeds K (n + 1) M g.nestedUnary :=
  .nested hg.prefixed

/-- If the left operand has grown, the operator has been taken. -/
theorem extended (strength : Nat) (x : Expr) :
    Proceeds K n (·.isSome = true) (g.extended strength x) := by
  refine .peekKind fun kind => ?_
  split
  · split
    · exact .pure nofun
    · exact .past (.advance nofun) fun _ => .get fun c => .past (hg.binary _) fun y => .answer
  · exact .pure nofun

/-- A binary expression takes a token, for its first operand at least. -/
theorem binaryFrom {M : Expr → Prop} (strength : Nat) :
    Proceeds K (n + 1) M (g.binaryFrom strength) :=
  .below hg.nestedUnary fun x => .growing (hg.extended strength) hg.turns x

end Serves

end Grammar

end HandlerSplit.Parse
