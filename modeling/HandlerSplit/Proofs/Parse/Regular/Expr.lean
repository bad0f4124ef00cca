import HandlerSplit.Proofs.Parse.Regular.Types
/-!
# Expressions are read regular

What an expression begins with is regular when it is extended.
-/

namespace HandlerSplit.Parse

/-- Bounds that are regular. -/
def Bounds.Regular (b : Bounds) : Prop :=
  optExprRegular b.low ∧ optExprRegular b.high ∧ optExprRegular b.max

namespace Grammar.Regular

variable {g : Grammar} (hg : g.Regular)

include hg

/-! ## Bracketed lists -/

omit hg in
/-- The comma behind an element leaves it as it is. -/
theorem elementTurn {P : α → Prop} {make : Decorations → α} (decs : Decorations)
    (h : ∀ d, P (make d)) : Answers (Turn.All P) (elementTurn decs make) := by
  refine .after fun comma => ?_
  split
  · exact .after fun _ => .after fun trailing => .pure (h _)
  · exact .pure (h _)

/-- The arguments of a call are regular expressions. -/
theorem callArgs (opening : Span) :
    Answers (fun r : List Element × Bool × Enclosure => elementsRegular r.1)
      (g.callArgs opening) := by
  refine .after fun comment => ?_
  refine .bind (P := fun as => ∀ a ∈ as, a.1.expr.Regular) (.entries (.after fun kind => ?_) _)
    fun args hargs => .after fun b => .pure ?_
  · split
    · exact .pure trivial
    · exact .rejectAt _ _
    · refine .after fun d => .bind hg.expr fun x hx => .after fun spread => ?_
      have turn : Answers (Turn.All fun a : Element × Bool => a.1.expr.Regular)
          (Grammar.elementTurn d fun d => (⟨x, d⟩, spread)) := elementTurn d fun _ => hx
      split
      · exact .after fun _ => turn
      · exact turn
  · refine elementsRegular_iff.mpr fun e he => ?_
    obtain ⟨a, ha, rfl⟩ := List.mem_map.mp he
    exact hargs a ha

/-- A call of a regular function. -/
theorem call {fn : Expr} (hfn : fn.Regular) : Answers Expr.Regular (g.call fn) := by
  refine .after fun t => .after fun _ => ?_
  exact .bind (.bracketed (hg.callArgs _)) fun r hr => .after fun _ => .pure ⟨hfn, hr⟩

theorem element : Answers Expr.Regular g.element := by
  refine .bind hg.elementValue fun x hx => .after fun colon => ?_
  split
  · exact .after fun _ => .bind hg.elementValue fun y hy => .pure ⟨hx, hy⟩
  · exact .pure hx

/-- The elements of a literal are regular expressions. -/
theorem elements (opening : Span) :
    Answers (fun r : List Element × Enclosure => elementsRegular r.1) (g.elements opening) := by
  refine .after fun comment => ?_
  refine .bind (P := fun es => ∀ e ∈ es, e.expr.Regular) (.entries (.after fun kind => ?_) _)
    fun es hes => .after fun b => .pure (elementsRegular_iff.mpr hes)
  split
  · exact .pure trivial
  · exact .rejectAt _ _
  · exact .after fun d => .bind hg.element fun x hx => elementTurn d fun _ => hx

/-- A literal whose type is regular, or missing. -/
theorem composite {type : Option Expr} (htype : optExprRegular type) :
    Answers Expr.Regular (g.composite type) := by
  refine .after fun t => .after fun _ => ?_
  exact .bind (.bracketed (hg.elements _)) fun r hr => .after fun _ => .pure ⟨htype, hr⟩

theorem elementValueHere : Answers Expr.Regular g.elementValueHere := by
  refine .after fun brace => ?_
  split
  · exact .nested (hg.composite trivial)
  · exact hg.expr

theorem bound : Answers optExprRegular g.bound := by
  refine .after fun kind => ?_
  split
  · exact .pure trivial
  · exact .pure trivial
  · exact .bind hg.expr fun x hx => .pure hx

theorem bounds : Answers Bounds.Regular g.bounds := by
  refine .bind (P := optExprRegular) (.after fun colon => ?_) fun low hlow =>
    .after fun colon => ?_
  · split
    · exact .pure trivial
    · exact .bind hg.expr fun x hx => .pure hx
  · split
    · exact .pure ⟨hlow, trivial, trivial⟩
    · refine .after fun _ => .bind hg.bound fun high hhigh => .after fun colon => ?_
      split
      · exact .pure ⟨hlow, hhigh, trivial⟩
      · exact .after fun _ => .bind hg.bound fun max hmax => .pure ⟨hlow, hhigh, hmax⟩

/-- An index or a slice of a regular expression. -/
theorem indexOrSlice {x : Expr} (hx : x.Regular) : Answers Expr.Regular (g.indexOrSlice x) := by
  refine .after fun _ => .bind (.bracketed hg.bounds) fun b hb => .after fun _ => ?_
  obtain ⟨hlow, hhigh, hmax⟩ := hb
  split
  · split
    · rename_i key hkey
      rw [hkey] at hlow
      exact .pure ⟨hx, hlow⟩
    · exact .reject _
  · split
    · exact .reject _
    · exact .pure ⟨hx, hlow, hhigh, hmax⟩

/-- A selector or assertion on a regular expression. -/
theorem selectorOrAssertion {x : Expr} (hx : x.Regular) :
    Answers Expr.Regular (g.selectorOrAssertion x) := by
  refine .after fun kind => ?_
  split
  · exact .after fun _ => .pure hx
  · refine .after fun _ => .bind (P := optExprRegular) (.after fun guard => ?_) fun type htype =>
      .after fun _ => .pure ⟨hx, htype⟩
    split
    · exact .after fun _ => .pure trivial
    · exact .bind hg.type fun t ht => .pure ht
  · exact .unexpected _

/-- The forms of operands, told apart by their first token. -/
theorem operand : Answers Expr.Regular g.operand := by
  refine .after fun kind => ?_
  split
  · exact .after fun _ => .pure trivial
  · exact .after fun _ => .pure trivial
  · exact .after fun _ => .bind (.bracketed hg.expr) fun x hx => .after fun _ => .pure hx
  · refine .after fun _ => .bind hg.signature fun s hs => .after fun brace => ?_
    split
    · exact .bind (.bracketed hg.block) fun b hb => .pure ⟨hs, hb⟩
    · exact .pure hs
  all_goals first
    | exact hg.nestedType
    | exact .unexpected _

/-- What grows from a regular expression is regular. -/
theorem postfixed (x : Expr) (hx : x.Regular) :
    Answers (fun y => ∀ z ∈ y, Expr.Regular z) (g.postfixed x) := by
  have grown {y : Expr} (hy : y.Regular) : ∀ z ∈ some y, z.Regular := by
    intro z hz
    cases hz
    exact hy
  refine .after fun kind => ?_
  split
  · exact .after fun _ => .bind (hg.selectorOrAssertion hx) fun y hy => .pure (grown hy)
  · exact .bind (hg.indexOrSlice hx) fun y hy => .pure (grown hy)
  · exact .bind (hg.call hx) fun y hy => .pure (grown hy)
  · refine .after fun c => ?_
    split
    · exact .bind (hg.composite (optExprRegular_iff.mpr (grown hx))) fun y hy => .pure (grown hy)
    · exact .pure nofun
  · exact .pure nofun

theorem primary : Answers Expr.Regular g.primary :=
  .bind hg.operand fun _ hx => .growing hg.postfixed _ hx

theorem prefixed : Answers Expr.Regular g.prefixed := by
  refine .after fun kind => ?_
  split
  · exact .after fun _ => .bind hg.unary fun x hx => .pure hx
  · refine .after fun _ => .after fun chan => ?_
    split
    · exact .after fun _ => .bind hg.type fun x hx => .pure hx
    · exact .bind hg.unary fun x hx => .pure hx
  · split
    · exact .after fun _ => .bind hg.unary fun x hx => .pure hx
    · exact hg.primary

theorem nestedUnary : Answers Expr.Regular g.nestedUnary :=
  .nested hg.prefixed

/-- Operators join regular operands. -/
theorem extended (strength : Nat) (x : Expr) (hx : x.Regular) :
    Answers (fun y => ∀ z ∈ y, Expr.Regular z) (g.extended strength x) := by
  refine .after fun kind => ?_
  split
  · split
    · exact .pure nofun
    · refine .after fun _ => .after fun c => .bind (hg.binary _) fun y hy => .pure fun z hz => ?_
      cases hz
      exact ⟨hx, hy⟩
  · exact .pure nofun

theorem binaryFrom (strength : Nat) : Answers Expr.Regular (g.binaryFrom strength) :=
  .bind hg.nestedUnary fun _ hx => .growing (hg.extended strength) _ hx

end Grammar.Regular

end HandlerSplit.Parse
