import HandlerSplit.Parse.Expr
import HandlerSplit.Proofs.Parse.Layout.Types
/-!
# Layout and expressions

Expressions are read without regard to layout. What has been read decides one thing only,
whether a brace opens a literal, and for that its layout is not looked at. The one layout flag
an expression has, a line break after an operator, is read from the cursor and kept.
-/

namespace HandlerSplit.Parse

/-- Parentheses can be taken off before layout is forgotten, or after. -/
theorem unparen_bare (x : Expr) : x.bare.unparen = x.unparen.bare := by
  fun_induction Expr.unparen x with
  | case1 x ih => rw [Expr.bare, Expr.unparen, ih]
  | case2 x hx =>
    cases x with
    | paren x => exact absurd rfl (hx x)
    | _ => rfl

/-- Whether a brace opens a literal does not depend on layout. -/
theorem opensComposite_bare (level : Int) (x : Expr) :
    opensComposite level x.bare = opensComposite level x := by
  rw [opensComposite, opensComposite, unparen_bare]
  cases x.unparen <;> rfl

/-- Expressions that differ in layout open literals alike. -/
theorem opensComposite_congr (level : Int) {x x' : Expr} (h : x.bare = x'.bare) :
    opensComposite level x = opensComposite level x' := by
  rw [← opensComposite_bare, h, opensComposite_bare]

/-- Bounds without layout. -/
def Bounds.bare (b : Bounds) : Bounds :=
  ⟨b.low.map Expr.bare, b.high.map Expr.bare, b.max.map Expr.bare, b.colons⟩

/-- The arguments of a call without layout. -/
def bareArgs (r : List Element × Bool × Enclosure) : List Element × Bool :=
  (r.1.map Element.bare, r.2.1)

/-- The elements of a literal without layout. -/
def bareLiteral (r : List Element × Enclosure) : List Element :=
  r.1.map Element.bare

namespace Grammar.LayoutBlind

variable {g : Grammar} (hg : g.LayoutBlind)

/-! ## Bracketed lists -/

/-- The comments around an element and its comma are layout. -/
theorem elementTurn {α β : Type} {e : α → β} {make make' : Decorations → α}
    (h : ∀ d d', e (make d) = e (make' d')) (decs decs' : Decorations) :
    Agree (Turn.map e) (elementTurn decs make) (elementTurn decs' make') := by
  refine .atPunct fun b => ?_
  split
  · exact .next .advance (.bind .claimTrailing fun _ _ _ => .pure (congrArg Turn.more (h _ _)))
  · exact .pure (congrArg Turn.last (h _ _))

include hg

/-- Where the arguments are opened is layout. -/
theorem callArgs (s s' : Span) : Agree bareArgs (g.callArgs s) (g.callArgs s') := by
  refine .bind .claimTrailing fun c c' _ => ?_
  refine .bind (.entries (e := Prod.map Element.bare id) (.peekKind fun kind => ?_) _)
    fun as as' has => .bind (.closeEnclosure c c') fun _ _ _ => .pure ?_
  · split
    · exact .pure rfl
    · exact .rejectAt _ _ _
    · refine .bind .startDecorations fun d d' _ => .bind hg.expr fun x x' hx => ?_
      refine .atPunct fun spread => ?_
      have turn : Agree (Turn.map (Prod.map Element.bare id))
          (Grammar.elementTurn d fun d => (⟨x, d⟩, spread))
          (Grammar.elementTurn d' fun d => (⟨x', d⟩, spread)) :=
        elementTurn (fun _ _ => by simp only [Prod.map, Element.bare, hx]) d d'
      split
      · exact .next .advance turn
      · exact turn
  · have hargs := congrArg (List.map Prod.fst) has
    have hspread := congrArg (List.any · Prod.snd) has
    simp only [List.map_map, List.any_map, Function.comp_def, Prod.map_fst, Prod.map_snd,
      id_eq] at hargs hspread
    simp only [bareArgs, List.map_map, Function.comp_def, hargs, hspread]

/-- A call of functions that differ in layout only. -/
theorem call {fn fn' : Expr} (h : fn.bare = fn'.bare) :
    Agree Expr.bare (g.call fn) (g.call fn') := by
  refine .peek fun t t' _ => .next (.expectPunct _) ?_
  refine .bind (.bracketed (hg.callArgs _ _)) fun as as' has => .next (.expectPunct _) (.pure ?_)
  obtain ⟨hargs, hvariadic⟩ := Prod.mk.inj has
  simp only [Expr.bare, bareElements_eq_map, h, hargs, hvariadic]

theorem element : Blind Expr.bare g.element := by
  refine .bind hg.elementValue fun x x' hx => .atPunct fun b => ?_
  split
  · refine .next .advance (.bind hg.elementValue fun y y' hy => .pure ?_)
    simp only [Expr.bare, hx, hy]
  · exact .pure hx

/-- Where the elements are opened is layout. -/
theorem elements (s s' : Span) : Agree bareLiteral (g.elements s) (g.elements s') := by
  refine .bind .claimTrailing fun c c' _ => ?_
  refine .bind (.entries (e := Element.bare) (.peekKind fun kind => ?_) _)
    fun es es' hes => .bind (.closeEnclosure c c') fun _ _ _ => .pure hes
  split
  · exact .pure rfl
  · exact .rejectAt _ _ _
  · refine .bind .startDecorations fun d d' _ => .bind hg.element fun x x' hx => ?_
    exact elementTurn (fun _ _ => by simp only [Element.bare, hx]) _ _

/-- Literals whose types differ in layout only. -/
theorem composite {type type' : Option Expr} (h : type.map Expr.bare = type'.map Expr.bare) :
    Agree Expr.bare (g.composite type) (g.composite type') := by
  refine .peek fun t t' _ => .next (.expectPunct _) ?_
  refine .bind (.bracketed (hg.elements _ _)) fun es es' hes => .next (.expectPunct _) (.pure ?_)
  simp only [Expr.bare, bareOptExpr_eq_map, bareElements_eq_map, h, ← bareLiteral.eq_1, hes]

theorem elementValueHere : Blind Expr.bare g.elementValueHere := by
  refine .atPunct fun b => ?_
  split
  · exact .nested (hg.composite rfl)
  · exact hg.expr

/-! ## Operands -/

theorem bound : Blind (Option.map Expr.bare) g.bound := by
  refine .peekKind fun kind => ?_
  split
  · exact .pure rfl
  · exact .pure rfl
  · exact .bind hg.expr fun _ _ h => .pure (congrArg some h)

theorem bounds : Blind Bounds.bare g.bounds := by
  refine .bind (e := Option.map Expr.bare) (.atPunct fun b => ?_) fun low low' hlow => ?_
  · split
    · exact .pure rfl
    · exact .bind hg.expr fun _ _ h => .pure (congrArg some h)
  refine .atPunct fun b => ?_
  split
  · exact .pure (by simp only [Bounds.bare, hlow])
  refine .next .advance (.bind hg.bound fun high high' hhigh => .atPunct fun b => ?_)
  split
  · exact .pure (by simp only [Bounds.bare, hlow, hhigh])
  refine .next .advance (.bind hg.bound fun max max' hmax => .pure ?_)
  simp only [Bounds.bare, hlow, hhigh, hmax]

/-- An index or a slice of expressions that differ in layout only. -/
theorem indexOrSlice {x x' : Expr} (hx : x.bare = x'.bare) :
    Agree Expr.bare (g.indexOrSlice x) (g.indexOrSlice x') := by
  refine .next (.expectPunct _) (.bind (.bracketed hg.bounds) fun b b' hb => ?_)
  refine .next (.expectPunct _) ?_
  obtain ⟨low, high, max, colons⟩ := b
  obtain ⟨low', high', max', colons'⟩ := b'
  obtain ⟨hlow, hhigh, hmax, rfl⟩ := Bounds.mk.inj hb
  have hmissing : (high.isNone || max.isNone) = (high'.isNone || max'.isNone) := by
    have h := congrArg Option.isNone hhigh
    have h' := congrArg Option.isNone hmax
    simp only [Option.isNone_map] at h h'
    rw [h, h']
  simp only [hmissing]
  split
  · rcases low with _ | low <;> rcases low' with _ | low' <;>
      simp only [Option.map_some, Option.map_none, reduceCtorEq, Option.some.injEq] at hlow
    · exact .reject _
    · exact .pure (by simp only [Expr.bare, hx, hlow])
  · split
    · exact .reject _
    · exact .pure (by simp only [Expr.bare, bareOptExpr_eq_map, hx, hlow, hhigh, hmax])

/-- A selector or assertion on expressions that differ in layout only. -/
theorem selectorOrAssertion {x x' : Expr} (hx : x.bare = x'.bare) :
    Agree Expr.bare (g.selectorOrAssertion x) (g.selectorOrAssertion x') := by
  refine .peekKind fun kind => ?_
  split
  · exact .next .advance (.pure (by simp only [Expr.bare, hx]))
  · refine .next .advance (.bind (e := Option.map Expr.bare) (.at? fun b => ?_)
      fun type type' htype => .next (.expectPunct _) (.pure ?_))
    · split
      · exact .next .advance (.pure rfl)
      · exact .bind hg.type fun _ _ h => .pure (congrArg some h)
    · simp only [Expr.bare, bareOptExpr_eq_map, hx, htype]
  · exact .unexpected _

/-- The forms of operands, told apart by the kind of their first token. -/
theorem operand : Blind Expr.bare g.operand := by
  refine .peekKind fun kind => ?_
  split
  · exact .next .advance (.pure rfl)
  · exact .next .advance (.pure rfl)
  · refine .next .advance (.bind (.bracketed hg.expr) fun x x' hx => ?_)
    exact .next (.expectPunct _) (.pure (by simp only [Expr.bare, hx]))
  · refine .next .advance (.bind hg.signature fun s s' hs => .atPunct fun b => ?_)
    split
    · refine .bind (.bracketed hg.block) fun b b' hb => .pure ?_
      simp only [Expr.bare, hs, hb]
    · exact .pure (by simp only [Expr.bare, hs])
  all_goals first
    | exact hg.nestedType
    | exact .unexpected _

/-- Expressions that differ in layout only grow alike. -/
theorem postfixed {x x' : Expr} (hx : x.bare = x'.bare) :
    Agree (Option.map Expr.bare) (g.postfixed x) (g.postfixed x') := by
  refine .peekKind fun kind => ?_
  split
  · exact .next .advance (.bind (hg.selectorOrAssertion hx) fun _ _ h => .pure (congrArg some h))
  · exact .bind (hg.indexOrSlice hx) fun _ _ h => .pure (congrArg some h)
  · exact .bind (hg.call hx) fun _ _ h => .pure (congrArg some h)
  · refine .get fun c c' hc => ?_
    rw [hc, opensComposite_congr _ hx]
    split
    · refine .bind (hg.composite ?_) fun _ _ h => .pure (congrArg some h)
      exact congrArg some hx
    · exact .pure rfl
  · exact .pure rfl

/-- An operand and what follows it. -/
theorem primary : Blind Expr.bare g.primary :=
  .bind hg.operand fun _ _ h => .growing (fun _ _ => hg.postfixed) _ h

/-! ## Operators -/

/-- A unary operator and its operand, or an operand. -/
theorem prefixed : Blind Expr.bare g.prefixed := by
  refine .peekKind fun kind => ?_
  split
  · refine .next .advance (.bind hg.unary fun x x' hx => .pure ?_)
    simp only [Expr.bare, hx]
  · refine .next .advance (.at? fun b => ?_)
    split
    · refine .next .advance (.bind hg.type fun x x' hx => .pure ?_)
      simp only [Expr.bare, hx]
    · refine .bind hg.unary fun x x' hx => .pure ?_
      simp only [Expr.bare, hx]
  · split
    · refine .next .advance (.bind hg.unary fun x x' hx => .pure ?_)
      simp only [Expr.bare, hx]
    · exact hg.primary

/-- A unary expression, one level of nesting down in both runs. -/
theorem nestedUnary : Blind Expr.bare g.nestedUnary :=
  .nested hg.prefixed

/-- Operators join on to expressions that differ in layout only alike. -/
theorem extended (strength : Nat) {x x' : Expr} (hx : x.bare = x'.bare) :
    Agree (Option.map Expr.bare) (g.extended strength x) (g.extended strength x') := by
  refine .peekKind fun kind => ?_
  split
  · split
    · exact .pure rfl
    · refine .next .advance (.get fun c c' _ => .bind (hg.binary _) fun y y' hy => .pure ?_)
      simp only [Option.map_some, Expr.bare, hx, hy]
  · exact .pure rfl

/-- A binary expression of a given strength. -/
theorem binaryFrom (strength : Nat) : Blind Expr.bare (g.binaryFrom strength) :=
  .bind hg.nestedUnary fun _ _ h => .growing (fun _ _ => hg.extended strength) _ h

end Grammar.LayoutBlind

end HandlerSplit.Parse
