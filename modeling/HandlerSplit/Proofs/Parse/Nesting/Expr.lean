import HandlerSplit.Proofs.Parse.Nesting.Types
/-!
# The nesting of what expressions hold

Inside an operand there is room for what it holds, and the operand with its unary operators takes
the level that `nested` gives it. Blocks of function literals stand at the level of the operand.
-/

namespace HandlerSplit.Parse

open Event (Under Deepens)

/-- Bounds of an index or slice expression. -/
def Bounds.Shallow (k : Nat) (b : Bounds) : Prop :=
  Event.Shallow k (optExprEvents b.low) ∧ Event.Shallow k (optExprEvents b.high) ∧
    Event.Shallow k (optExprEvents b.max)

namespace Grammar.Shallow

variable {α : Type} {g : Grammar} (hg : g.Shallow) (x : Context)

include hg

/-! ## Bracketed lists -/

omit hg in
/-- The comma behind an element leaves it as it is. -/
theorem elementTurn {P : α → Prop} {make : Decorations → α} (decs : Decorations)
    (h : ∀ d, P (make d)) : AnswersIn x (Turn.All P) (Grammar.elementTurn decs make) := by
  refine .after fun comma => ?_
  split
  · exact .after fun _ => .after fun trailing => .pure (h _)
  · exact .pure (h _)

/-- Arguments hold no deeper nesting than there is room. -/
theorem callArgs (opening : Span) :
    AnswersIn x
      (fun r : List Element × Bool × Enclosure => Event.Shallow x.room (elementEvents r.1))
      (g.callArgs opening) := by
  refine .after fun comment => ?_
  refine .bind (P := fun as => ∀ a ∈ as, Event.Shallow x.room a.1.expr.inside)
    (.entries (.after fun kind => ?_) _) fun args hargs => .after fun b =>
      .pure (Deepens.elements ?_)
  · split
    · exact .pure trivial
    · exact .rejectAt _ _
    · refine .after fun d => .bind (hg.expr x) fun e he => .after fun spread => ?_
      have turn : AnswersIn x
          (Turn.All fun a : Element × Bool => Event.Shallow x.room a.1.expr.inside)
          (Grammar.elementTurn d fun d => (⟨e, d⟩, spread)) := elementTurn x d fun _ => he.shallow
      split
      · exact .after fun _ => turn
      · exact turn
  · intro e he
    obtain ⟨a, ha, rfl⟩ := List.mem_map.mp he
    exact hargs a ha

/-- A call nests its arguments as deep as its function. -/
theorem call {fn : Expr} (hfn : Event.Shallow x.room fn.inside) :
    AnswersIn x (fun e => Event.Shallow x.room e.inside) (g.call fn) := by
  refine .after fun t => .after fun _ => .bind (.bracketed (hg.callArgs _ _)) fun r hr =>
    .after fun _ => .pure ?_
  exact (hfn.aroundExpr fn).append hr

theorem element : AnswersIn x (fun e => Event.Shallow x.room e.inside) g.element := by
  refine .bind (hg.elementValue x) fun k hk => .after fun colon => ?_
  split
  · exact .after fun _ => .bind (hg.elementValue x) fun v hv =>
      .pure ((hk.aroundExpr k).append (hv.aroundExpr v)).shallow
  · exact .pure hk.shallow

/-- Elements hold no deeper nesting than there is room. -/
theorem elements (opening : Span) :
    AnswersIn x (fun r : List Element × Enclosure => Event.Shallow x.room (elementEvents r.1))
      (g.elements opening) := by
  refine .after fun comment => ?_
  refine .bind (P := fun ds => ∀ d ∈ ds, Event.Shallow x.room d.expr.inside)
    (.entries (.after fun kind => ?_) _) fun ds hds => .after fun b => .pure (Deepens.elements hds)
  split
  · exact .pure trivial
  · exact .rejectAt _ _
  · exact .after fun d => .bind (hg.element x) fun e he => elementTurn x d fun _ => he

/-- A literal nests its elements as deep as its type. -/
theorem composite {type : Option Expr} (htype : Event.Shallow x.room (optExprEvents type)) :
    AnswersIn x (fun e => Event.Shallow x.room e.inside) (g.composite type) := by
  refine .after fun t => .after fun _ => .bind (.bracketed (hg.elements _ _)) fun r hr =>
    .after fun _ => .pure ?_
  exact htype.append hr

/-- A literal without a type takes a level, as an expression does. -/
theorem elementValueHere : AnswersIn x (fun e => Under x.room e.inside) g.elementValueHere := by
  refine .after fun brace => ?_
  split
  · exact .nested_room (P := fun k (e : Expr) => Event.Shallow k e.inside)
      fun y => hg.composite y Deepens.nil
  · exact hg.expr x

theorem bound : AnswersIn x (fun o => Event.Shallow x.room (optExprEvents o)) g.bound := by
  refine .after fun kind => ?_
  split
  · exact .pure Deepens.nil
  · exact .pure Deepens.nil
  · exact .bind (hg.expr x) fun e he => .pure (he.aroundExpr e).shallow

theorem bounds : AnswersIn x (Bounds.Shallow x.room) g.bounds := by
  refine .bind (P := fun low => Event.Shallow x.room (optExprEvents low)) (.after fun colon => ?_)
    fun low hlow => .after fun colon => ?_
  · split
    · exact .pure Deepens.nil
    · exact .bind (hg.expr x) fun e he => .pure (he.aroundExpr e).shallow
  · split
    · exact .pure ⟨hlow, Deepens.nil, Deepens.nil⟩
    · refine .after fun _ => .bind (hg.bound x) fun high hhigh => .after fun colon => ?_
      split
      · exact .pure ⟨hlow, hhigh, Deepens.nil⟩
      · exact .after fun _ => .bind (hg.bound x) fun max hmax => .pure ⟨hlow, hhigh, hmax⟩

theorem indexOrSlice {e : Expr} (he : Event.Shallow x.room e.inside) :
    AnswersIn x (fun e => Event.Shallow x.room e.inside) (g.indexOrSlice e) := by
  refine .after fun _ => .bind (.bracketed (hg.bounds _)) fun b hb => .after fun _ => ?_
  obtain ⟨hlow, hhigh, hmax⟩ := hb
  have hbase := he.aroundExpr e
  split
  · split
    · rename_i key hkey
      rw [hkey] at hlow
      exact .pure (hbase.append hlow)
    · exact .reject _
  · split
    · exact .reject _
    · exact .pure (((hbase.append hlow).append hhigh).append hmax)

theorem selectorOrAssertion {e : Expr} (he : Event.Shallow x.room e.inside) :
    AnswersIn x (fun e => Event.Shallow x.room e.inside) (g.selectorOrAssertion e) := by
  have hbase := he.aroundExpr e
  refine .after fun kind => ?_
  split
  · rename_i name
    exact .after fun _ => .pure (hbase.append (Deepens.names [name]))
  · refine .after fun _ => .bind (P := fun t => Event.Shallow x.room (optExprEvents t))
      (.after fun guard => ?_) fun type htype => .after fun _ => .pure (hbase.append htype)
    split
    · exact .after fun _ => .pure Deepens.nil
    · exact .bind (hg.type x) fun t ht => .pure (ht.aroundExpr t).shallow
  · exact .unexpected _

/-! ## Operands -/

/-- What an operand holds has all the room there is. -/
theorem operand : AnswersIn x (fun e => Event.Shallow x.room e.inside) g.operand := by
  refine .after fun kind => ?_
  split
  · rename_i name
    exact .after fun _ => .pure (Deepens.names [name])
  · exact .after fun _ => .pure Deepens.nil
  · exact .after fun _ => .bind (.bracketed (hg.expr _)) fun e he => .after fun _ =>
      .pure (he.aroundExpr e).shallow
  · refine .after fun _ => .bind (hg.signature x) fun s hs => .after fun brace => ?_
    split
    · exact .bind (.bracketed (hg.block _)) fun b hb => .pure (hs.append hb)
    · exact .pure hs
  all_goals first
    | exact (hg.nestedType x).weaken fun e he => he.shallow
    | exact .unexpected _

/-- What follows an operand takes no level of its own. -/
theorem postfixed (e : Expr) (he : Event.Shallow x.room e.inside) :
    AnswersIn x (fun o => ∀ e ∈ o, Event.Shallow x.room e.inside) (g.postfixed e) := by
  have grown {e : Expr} (he : Event.Shallow x.room e.inside) :
      ∀ y ∈ some e, Event.Shallow x.room y.inside := by
    rintro _ ⟨⟩
    exact he
  refine .after fun kind => ?_
  split
  · exact .after fun _ => .bind (hg.selectorOrAssertion x he) fun y hy => .pure (grown hy)
  · exact .bind (hg.indexOrSlice x he) fun y hy => .pure (grown hy)
  · exact .bind (hg.call x he) fun y hy => .pure (grown hy)
  · refine .after fun c => ?_
    split
    · exact .bind (hg.composite x (he.aroundExpr e)) fun y hy => .pure (grown hy)
    · exact .pure nofun
  · exact .pure nofun

theorem primary : AnswersIn x (fun e => Event.Shallow x.room e.inside) g.primary :=
  .bind (hg.operand x) fun _ he => .growing (hg.postfixed x) _ he

/-! ## Operators -/

/-- What an operand with its unary operators holds has all the room there is. -/
theorem prefixed : AnswersIn x (fun e => Event.Shallow x.room e.inside) g.prefixed := by
  refine .after fun kind => ?_
  split
  · exact .after fun _ => .bind (hg.unary x) fun e he => .pure (he.aroundExpr e).shallow
  · refine .after fun _ => .after fun chan => ?_
    split
    · exact .after fun _ => .bind (hg.type x) fun e he => .pure (he.aroundExpr e).shallow
    · exact .bind (hg.unary x) fun e he => .pure (he.aroundExpr e).shallow
  · split
    · exact .after fun _ => .bind (hg.unary x) fun e he => .pure (he.aroundExpr e).shallow
    · exact hg.primary x

/-- A unary expression takes the level that `nested` gives it. -/
theorem nestedUnary : AnswersIn x (fun e => Under x.room e.inside) g.nestedUnary :=
  .nested_room (P := fun k (e : Expr) => Event.Shallow k e.inside) hg.prefixed

/-- The right operand stands at the level of the left. -/
theorem extended (strength : Nat) (e : Expr) (he : Under x.room e.inside) :
    AnswersIn x (fun o => ∀ e ∈ o, Under x.room e.inside) (g.extended strength e) := by
  refine .after fun kind => ?_
  split
  · split
    · exact .pure nofun
    · refine .after fun _ => .after fun c => .bind (hg.binary x _) fun y hy => .pure ?_
      rintro _ ⟨⟩
      exact (he.aroundExpr e).append (hy.aroundExpr y)
  · exact .pure nofun

/-- Binary operators take no level. -/
theorem binaryFrom (strength : Nat) :
    AnswersIn x (fun e => Under x.room e.inside) (g.binaryFrom strength) :=
  .bind (hg.nestedUnary x) fun _ he => .growing (hg.extended x strength) _ he

end Grammar.Shallow

end HandlerSplit.Parse
