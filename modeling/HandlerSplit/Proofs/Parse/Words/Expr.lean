import HandlerSplit.Parse.Expr
import HandlerSplit.Proofs.Parse.Words.Types
/-!
# Words of expressions

Expressions consume their words. What an expression begins with has been consumed when it is
extended.
-/

namespace HandlerSplit.Parse

/-- A unary operator is written as the token it was read from. -/
theorem kind_of_unaryOp {kind : TokenKind} {op : UnaryOp}
    (h : Grammar.unaryOp? kind = some op) : kind = op.kind := by
  unfold Grammar.unaryOp? at h
  split at h <;> cases h <;> rfl

/-- The words between the brackets of an index or slice. -/
def Bounds.words (b : Bounds) : List TokenKind :=
  if b.colons == 0 then optExprWords b.low
  else optExprWords b.low ++ [.punct .colon] ++ optExprWords b.high ++
    if b.colons == 2 then [.punct .colon] ++ optExprWords b.max else maxWords b.max

/-- The words of the elements of a list. -/
def listedWords {β : Type} (r : List Element × β) : List TokenKind :=
  elementWords r.1

namespace Grammar.Exact

variable {g : Grammar} {K : TokenKind → Prop}

/-! ## Bracketed lists -/

/-- The end of an element. -/
theorem elementTurn {α : Type} {e : α → List TokenKind} {make : Decorations → α}
    {ws : List TokenKind} (decs : Decorations) (h : ∀ d, e (make d) = ws) :
    Consumes K ws (Turn.words e) (elementTurn decs make) := by
  refine .atPunct ?_ (.pure (h _))
  exact .next rfl (.claimTrailing fun trailing => .pure (h _))

variable (hg : g.Exact)

include hg

/-- The words of arguments in order, without commas. -/
theorem callArgs (opening : Span) : Consumes K [] listedWords (g.callArgs opening) := by
  refine .claimTrailing fun comment => ?_
  refine .bind (.entries (e := fun a => a.1.expr.words) (.peekKind fun kind _ => ?_) _)
    fun args => .closeEnclosure _ fun b => .pure ?_
  · split
    · exact .pure rfl
    · exact .rejectAt _ _
    · refine .startDecorations fun d => .bind hg.expr fun x => ?_
      have turn (spread : Bool) : Consumes Anything x.words
          (Turn.words fun a : Element × Bool => a.1.expr.words)
          (Grammar.elementTurn d fun d => (⟨x, d⟩, spread)) := elementTurn d fun _ => rfl
      exact .atPunct (.next rfl (turn true)) (turn false).weaken
  · rw [listedWords, elementWords_eq, List.flatMap_map]
    rfl

/-- The words of the arguments come behind those of the function. -/
theorem call (fn : Expr) : Consumes K fn.words Expr.words (g.call fn) := by
  refine .peek fun t => .skip (.expectFree rfl) ?_
  exact .bind (.bracketed (hg.callArgs _)) fun r => .skip (.expectFree rfl) (.pure rfl)

theorem element : Consumes K [] Expr.words g.element := by
  refine .bind hg.elementValue fun x => .atPunct ?_ (.pure rfl)
  exact .word rfl (.bind hg.elementValue fun y => .pure rfl)

/-- The words of elements in order, without commas. -/
theorem elements (opening : Span) : Consumes K [] listedWords (g.elements opening) := by
  refine .claimTrailing fun comment => ?_
  refine .bind (.entries (e := fun a => a.expr.words) (.peekKind fun kind _ => ?_) _)
    fun es => .closeEnclosure _ fun b => .pure ?_
  · split
    · exact .pure rfl
    · exact .rejectAt _ _
    · refine .startDecorations fun d => .bind hg.element fun x => ?_
      exact elementTurn d fun _ => rfl
  · rw [listedWords, elementWords_eq]
    rfl

/-- The words of the elements come behind those of the type. -/
theorem composite (type : Option Expr) :
    Consumes K (optExprWords type) Expr.words (g.composite type) := by
  refine .peek fun t => .expectMark rfl ?_
  exact .bind (.bracketed (hg.elements _)) fun r => .expectMark rfl (.pure rfl)

/-- A literal without a type, or an expression. -/
theorem elementValueHere : Consumes K [] Expr.words g.elementValueHere :=
  .atPunct (.nested (hg.composite none)) hg.expr

/-! ## Operands -/

/-- A bound of a slice has its words, if it is there. -/
theorem bound : Consumes K [] optExprWords g.bound := by
  refine .peekKind fun kind _ => ?_
  split
  · exact .pure rfl
  · exact .pure rfl
  · exact .bind hg.expr fun _ => .pure rfl

theorem bounds : Consumes K [] Bounds.words g.bounds := by
  refine .bind (e := optExprWords) (.atPunct (.pure rfl) (.bind hg.expr fun _ => .pure rfl))
    fun low => .atPunct ?_ (.pure rfl)
  refine .word rfl (.bind hg.bound fun high => .atPunct ?_ (.pure ?_))
  · refine .word rfl (.bind hg.bound fun max => .pure ?_)
    simp [Bounds.words]
  · simp [Bounds.words, maxWords]

/-- What stands in brackets comes behind the words of what is indexed. -/
theorem indexOrSlice (x : Expr) : Consumes K x.words Expr.words (g.indexOrSlice x) := by
  refine .expectMark rfl (.bind (.bracketed hg.bounds) fun b => .expectMark rfl ?_)
  split
  · rename_i hcolons
    split
    · rename_i key hlow
      refine .pure ?_
      rw [Bounds.words, if_pos hcolons, hlow]
      rfl
    · exact .reject _
  · rename_i hcolons
    split
    · exact .reject _
    · rename_i hbounds
      refine .pure ?_
      rw [Bounds.words, if_neg hcolons, Expr.words]
      cases hmax : b.max with
      | some max => simp [maxWords, optExprWords]
      | none =>
        have htwo : (b.colons == 2) = false := by simpa [hmax] using hbounds
        rw [htwo]
        rfl

/-- The dot has been consumed before the name or the parenthesis. -/
theorem selectorOrAssertion (x : Expr) :
    Consumes K (x.words ++ [.punct .period]) Expr.words (g.selectorOrAssertion x) := by
  refine .peekKind fun kind _ => ?_
  split
  · exact .word rfl (.pure rfl)
  · refine .next rfl (.bind (e := fun t => (t.map Expr.words).getD [.keyword .type]) (.at? ?_ ?_)
      fun type => .skip (.expectFree rfl) (.pure ?_))
    · exact .word rfl (.pure rfl)
    · exact .bind hg.type fun _ => .pure rfl
    · cases type <;> rfl
  · exact .unexpected _

/-- The forms of operands, told apart by their first token. -/
theorem operand : Consumes K [] Expr.words g.operand := by
  refine .peekKind fun kind _ => ?_
  split
  · exact .word rfl (.pure rfl)
  · exact .word rfl (.pure rfl)
  · exact .next rfl (.bind (.bracketed hg.expr) fun x => .skip (.expectFree rfl) (.pure rfl))
  · refine .word rfl (.bind hg.signature fun s => .atPunct ?_ (.pure rfl))
    exact .bind (.bracketed hg.block) fun b => .pure rfl
  all_goals first
    | exact hg.nestedType
    | exact .unexpected _

/-- The expression as it has grown has the words that were consumed, or it is as it was. -/
theorem postfixed (x : Expr) :
    Consumes K x.words (fun y => (y.getD x).words) (g.postfixed x) := by
  refine .peekKind fun kind _ => ?_
  split
  · exact .word rfl (.seq (hg.selectorOrAssertion x) fun _ => .pure rfl)
  · exact .seq (hg.indexOrSlice x) fun _ => .pure rfl
  · exact .seq (hg.call x) fun _ => .pure rfl
  · refine .get fun c => ?_
    split
    · exact .seq (hg.composite (some x)) fun _ => .pure rfl
    · exact .pure rfl
  · exact .pure rfl

theorem primary : Consumes K [] Expr.words g.primary :=
  .bind hg.operand fun x => .growing hg.postfixed _ x

/-! ## Operators -/

theorem prefixed : Consumes K [] Expr.words g.prefixed := by
  refine .peekKind fun kind _ => ?_
  split
  · exact .word rfl (.bind hg.unary fun x => .pure rfl)
  · refine .word rfl (.at? ?_ (.bind hg.unary fun x => .pure rfl))
    exact .word rfl (.bind hg.type fun x => .pure rfl)
  · split
    · rename_i op hop
      obtain rfl := kind_of_unaryOp hop
      exact .word op.isWord_kind (.bind hg.unary fun x => .pure rfl)
    · exact hg.primary

/-- A unary expression, one level of nesting down. -/
theorem nestedUnary : Consumes K [] Expr.words g.nestedUnary :=
  .nested hg.prefixed

/-- The operator and the words of the right operand come behind those of the left. -/
theorem extended (strength : Nat) (x : Expr) :
    Consumes K x.words (fun y => (y.getD x).words) (g.extended strength x) := by
  refine .peekKind fun kind _ => ?_
  split
  · split
    · exact .pure rfl
    · exact .word rfl (.get fun c => .bind (hg.binary _) fun y => .pure rfl)
  · exact .pure rfl

theorem binaryFrom (strength : Nat) : Consumes K [] Expr.words (g.binaryFrom strength) :=
  .bind hg.nestedUnary fun x => .growing (hg.extended strength) _ x

end Grammar.Exact

end HandlerSplit.Parse
