import HandlerSplit.Proofs.Parse.Built.Types
/-!
# How the parser builds expressions

What follows an operand leaves an operand, and what is in brackets may hold anything. The operator
loop of `binaryFrom` goes on as long as an operator binds strongly enough, so the right operand it
reads ends before an operator that binds no stronger than the one before it, and that is why the
next turn finds a left operand that binds at least as strongly (`growing_extended`).
-/

namespace HandlerSplit.Parse

open Event (AllBuilt Nodes)

/-- Bounds of an index or slice expression, read in a text. -/
structure Bounds.Built (ts : List TokenKind) (b : Bounds) : Prop where
  low : AllBuilt ts (optExprEvents b.low)
  high : AllBuilt ts (optExprEvents b.high)
  max : AllBuilt ts (optExprEvents b.max)

/-- An operand read in a text. -/
structure BuiltOperand (ts : List TokenKind) (x : Context) (e : Expr) : Prop extends
    BuiltExpr ts x e where
  isOperand : e.isOperand = true

/-- Where names are not taken for types, what opens a composite literal is no name. -/
theorem mayNameType_of_opensComposite {level : Int} {t : Expr} (h : opensComposite level t = true)
    (hlevel : level < 0) : t.mayNameType = false := by
  have hnot : ¬level ≥ 0 := Int.not_le.mpr hlevel
  unfold opensComposite at h
  unfold Expr.mayNameType
  split at h
  iterate 3 exact absurd (of_decide_eq_true h) hnot
  iterate 3
    · rename_i htype
      rw [htype]
  · cases h

/-- A type that opens a composite literal is a type name or holds none outside of brackets. -/
theorem openTypes_of_opensComposite {level : Int} {t : Expr} (h : opensComposite level t = true)
    (htyped : t.Typed) (hname : t.mayNameType = false) : t.openTypes = [] := by
  cases t with
  | paren => rfl
  | arrayType => exact htyped
  | structType => exact htyped
  | mapType => exact List.append_eq_nil_iff.mpr htyped
  | ident => cases hname
  | selector => cases hname
  | index => cases hname
  | _ => cases h

namespace Grammar.Built

variable {g : Grammar} (hg : g.Built) (ts : List TokenKind) (x : Context)

include hg

/-! ## Bracketed lists -/

omit hg in
/-- The comma behind an element leaves it as it is. -/
theorem elementTurn {α : Type} {P : α → Prop} {make : Decorations → α} (decs : Decorations)
    (h : ∀ d, P (make d)) : AnswersAt ts x (Turn.All P) (Grammar.elementTurn decs make) := by
  refine .after fun comma => ?_
  split
  · exact .after fun _ => .after fun trailing => .pure (h _)
  · exact .pure (h _)

/-- What stands between the parentheses of a call may hold anything. -/
theorem callArgs (opening : Span) :
    AnswersAt ts x (fun r : List Element × Bool × Enclosure => AllBuilt ts (elementEvents r.1))
      (g.callArgs opening) := by
  refine .after fun comment => ?_
  refine .bind (P := fun as => ∀ a ∈ as, AllBuilt ts a.1.expr.events)
    (.entries (.after fun kind => ?_) _) fun args hargs => .after fun b => .pure (.elements ?_)
  · split
    · exact .pure trivial
    · exact .rejectAt _ _
    · refine .after fun d => .bind (hg.expr ts x) fun e he => .after fun spread => ?_
      have turn : AnswersAt ts x
          (Turn.All fun a : Element × Bool => AllBuilt ts a.1.expr.events)
          (Grammar.elementTurn d fun d => (⟨e, d⟩, spread)) := elementTurn ts x d fun _ => he.all
      split
      · exact .after fun _ => turn
      · exact turn
  · intro e he
    obtain ⟨a, ha, rfl⟩ := List.mem_map.mp he
    exact hargs a ha

/-- A call puts its parentheses into the text, with the arguments between them. -/
theorem call {fn : Expr} (hfn : BuiltOperand ts x fn) :
    AnswersAt ts x (BuiltOperand ts x) (g.call fn) := by
  have parts : AnswersAt ts x (fun y => AllBuilt ts y.inside) (g.call fn) :=
    .after fun t => .after fun _ => .bind (.bracketed (hg.callArgs ts _ _)) fun r hr =>
      .after fun _ => .pure (Nodes.append hfn.all hr)
  intro c y c' hc hrun
  obtain ⟨hc', hinside⟩ := parts c y c' hc hrun
  have hmoves := hg.moves
  obtain ⟨args, variadic, parens, items, spreads, ks, rfl, hlist, hitems, hvariadic, hkinds⟩ :=
    call_passes hc.proper hrun
  obtain ⟨n, hlevel⟩ := hg.level
  have hwritten : Written ts args spreads := by
    refine ⟨g.budget, n, items, ks, ?_, hlist, hlevel ▸ hitems⟩
    exact .trans ⟨[], c'.kinds, by rw [hkinds]; rfl⟩ hc.kinds.isInfix
  refine ⟨hc', ⟨hinside.aroundExpr ⟨hfn.isOperand, trivial, spreads, hwritten, hvariadic⟩, ?_⟩, rfl⟩
  exact hfn.covered

theorem element : AnswersAt ts x (fun e => AllBuilt ts e.events) g.element := by
  refine .bind (hg.elementValue ts x) fun k hk => .after fun colon => ?_
  split
  · exact .after fun _ => .bind (hg.elementValue ts x) fun v hv =>
      .pure (Nodes.aroundExpr (Nodes.append hk hv) ⟨trivial, trivial, trivial⟩)
  · exact .pure hk

/-- What stands between the braces of a literal may hold anything. -/
theorem elements (opening : Span) :
    AnswersAt ts x (fun r : List Element × Enclosure => AllBuilt ts (elementEvents r.1))
      (g.elements opening) := by
  refine .after fun comment => ?_
  refine .bind (P := fun ds => ∀ d ∈ ds, AllBuilt ts d.expr.events)
    (.entries (.after fun kind => ?_) _) fun ds hds => .after fun b => .pure (.elements hds)
  split
  · exact .pure trivial
  · exact .rejectAt _ _
  · exact .after fun d => .bind (hg.element ts x) fun e he => elementTurn ts x d fun _ => he

/-- A composite literal without a type, as an element of another. -/
theorem untyped : AnswersAt ts x (fun e => AllBuilt ts e.events) (g.composite none) := by
  refine .after fun t => .after fun _ => .bind (.bracketed (hg.elements ts _ _)) fun r hr =>
    .after fun _ => .pure ?_
  exact Nodes.aroundExpr (Nodes.append .nil hr) ⟨trivial, trivial, trivial⟩

/-- A composite literal of a type that may open one. -/
theorem composite {t : Expr} (ht : BuiltOperand ts x t)
    (hopens : opensComposite x.exprLevel t = true) :
    AnswersAt ts x (BuiltOperand ts x) (g.composite (some t)) := by
  refine .after fun _ => .after fun _ => .bind (.bracketed (hg.elements ts _ _)) fun r hr =>
    .after fun _ => .pure ?_
  have htyped : t.mayNameType = false → t.openTypes = [] :=
    openTypes_of_opensComposite hopens ht.all.head.typed
  refine ⟨⟨Nodes.aroundExpr (Nodes.append ht.all hr) ⟨ht.isOperand, htyped, trivial⟩,
    fun hlevel => ?_⟩, rfl⟩
  exact List.forall_mem_cons.mpr ⟨mayNameType_of_opensComposite hopens hlevel, ht.covered hlevel⟩

theorem elementValueHere : AnswersAt ts x (fun e => AllBuilt ts e.events) g.elementValueHere := by
  refine .after fun brace => ?_
  split
  · exact .nested (hg.untyped ts _)
  · exact (hg.expr ts x).weaken fun e he => he.all

theorem bound : AnswersAt ts x (fun o => AllBuilt ts (optExprEvents o)) g.bound := by
  refine .after fun kind => ?_
  split
  · exact .pure Nodes.nil
  · exact .pure Nodes.nil
  · exact .bind (hg.expr ts x) fun e he => .pure he.all

/-- What stands between the brackets of an index may hold anything. -/
theorem bounds : AnswersAt ts x (Bounds.Built ts) g.bounds := by
  refine .bind (P := fun low => AllBuilt ts (optExprEvents low)) (.after fun colon => ?_)
    fun low hlow => .after fun colon => ?_
  · split
    · exact .pure Nodes.nil
    · exact .bind (hg.expr ts x) fun e he => .pure he.all
  · split
    · exact .pure ⟨hlow, Nodes.nil, Nodes.nil⟩
    · refine .after fun _ => .bind (hg.bound ts x) fun high hhigh => .after fun colon => ?_
      split
      · exact .pure ⟨hlow, hhigh, Nodes.nil⟩
      · exact .after fun _ => .bind (hg.bound ts x) fun max hmax => .pure ⟨hlow, hhigh, hmax⟩

/-- An index of an operand is an operand. -/
theorem indexOrSlice {e : Expr} (he : BuiltOperand ts x e) :
    AnswersAt ts x (BuiltOperand ts x) (g.indexOrSlice e) := by
  refine .after fun _ => .bind (.bracketed (hg.bounds ts _)) fun b hb => .after fun _ => ?_
  split
  · split
    · rename_i key hkey
      have hlow := hb.low
      rw [hkey] at hlow
      exact .pure ⟨⟨Nodes.aroundExpr (Nodes.append he.all hlow)
        ⟨he.isOperand, trivial, trivial⟩, he.covered⟩, rfl⟩
    · exact .reject _
  · split
    · exact .reject _
    · exact .pure ⟨⟨Nodes.aroundExpr (((Nodes.append he.all hb.low).append hb.high).append
        hb.max) ⟨he.isOperand, trivial, trivial⟩, he.covered⟩, rfl⟩

/-- A selector or assertion on an operand is an operand. -/
theorem selectorOrAssertion {e : Expr} (he : BuiltOperand ts x e) :
    AnswersAt ts x (BuiltOperand ts x) (g.selectorOrAssertion e) := by
  refine .after fun kind => ?_
  split
  · rename_i name
    exact .after fun _ => .pure ⟨⟨Nodes.aroundExpr (Nodes.append he.all (.names [name]))
      ⟨he.isOperand, trivial, trivial⟩, he.covered⟩, rfl⟩
  · refine .after fun _ => .bind
      (P := fun t => AllBuilt ts (optExprEvents t) ∧ optOpenTypes t = [])
      (.after fun guard => ?_) fun type htype => .after fun _ => .pure ?_
    · split
      · exact .after fun _ => .pure ⟨.nil, rfl⟩
      · exact .bind (hg.type ts x) fun t ht => .pure ⟨ht.all, ht.closed⟩
    · refine ⟨⟨Nodes.aroundExpr (Nodes.append he.all htype.1)
        ⟨he.isOperand, htype.2, trivial⟩, fun hlevel => ?_⟩, rfl⟩
      show ∀ t ∈ e.openTypes ++ optOpenTypes type, _
      rw [htype.2, List.append_nil]
      exact he.covered hlevel
  · exact .unexpected _

/-! ## Operands -/

omit hg ts x in
/-- A type that does not start with a star is an operand. -/
theorem typeInner_isOperand {c c' : Cursor} {t : Expr} (hstar : c.current.kind ≠ .op .mul)
    (hrun : g.typeInner.run c = (.ok t, c')) : t.isOperand = true := by
  rw [Grammar.typeInner, peekKind_bind_run] at hrun
  have branch {p : Parser Expr} (hp : Answers (fun t => t.isOperand = true) p)
      (hrun : p.run c = (.ok t, c')) : t.isOperand = true := hp c t c' hrun
  split at hrun
  · refine branch (.after fun _ => .after fun point => ?_) hrun
    split
    · exact .after fun _ => .after fun _ => .pure rfl
    · exact .pure rfl
  · exact branch (.after fun _ => .after fun _ => .after fun _ => .pure rfl) hrun
  · exact branch (.after fun _ => .after fun _ => .after fun _ => .after fun _ => .pure rfl) hrun
  · exact branch (.after fun _ => .after fun _ => .pure rfl) hrun
  · exact branch (.after fun _ => .after fun _ => .pure rfl) hrun
  · refine branch (.after fun _ => .after fun _ => .after fun _ => .after fun _ => ?_) hrun
    exact .after fun _ => .pure rfl
  · exact branch (.after fun _ => .after fun _ => .pure rfl) hrun
  · exact branch (.after fun _ => .after fun _ => .pure rfl) hrun
  · exact branch (.after fun _ => .after fun _ => .pure rfl) hrun
  · rename_i hkind
    exact absurd hkind hstar
  · exact branch (.unexpected _) hrun

/-- A type literal as an operand. -/
theorem typeOperand {c c' : Cursor} {t : Expr} (hc : c.Stands ts x)
    (hstar : c.current.kind ≠ .op .mul) (hrun : g.nestedType.run c = (.ok t, c')) :
    c'.Stands ts x ∧ BuiltOperand ts x t := by
  obtain ⟨hc', ht⟩ := hg.nestedType ts x c t c' hc hrun
  refine ⟨hc', ⟨ht.all, fun _ => t.covered_of_openTypes ht.closed⟩, ?_⟩
  rw [Grammar.nestedType, nested_run] at hrun
  split at hrun
  · cases hrun
  · rcases hinner : g.typeInner.run { c with depth := c.depth + 1 } with ⟨r, d⟩
    rw [hinner] at hrun
    obtain ⟨rfl, -⟩ := Prod.mk.inj hrun
    exact typeInner_isOperand (c := { c with depth := c.depth + 1 }) hstar hinner

/-- The forms of operands, told apart by their first token. -/
theorem operand : AnswersAt ts x (BuiltOperand ts x) g.operand := by
  intro c e c' hc hrun
  rw [Grammar.operand, peekKind_bind_run] at hrun
  have branch {p : Parser Expr} (hp : AnswersAt ts x (BuiltOperand ts x) p)
      (hrun : p.run c = (.ok e, c')) : c'.Stands ts x ∧ BuiltOperand ts x e := hp c e c' hc hrun
  split at hrun
  · rename_i name _
    have hname := builtType_ident ts name
    refine branch (.after fun _ => ?_) hrun
    exact .pure ⟨⟨hname.all, fun _ => Expr.covered_of_openTypes rfl⟩, rfl⟩
  · refine branch (.after fun _ => ?_) hrun
    exact .pure ⟨⟨Nodes.nil.aroundExpr ⟨trivial, trivial, trivial⟩,
      fun _ => Expr.covered_of_openTypes rfl⟩, rfl⟩
  · refine branch (.after fun _ => .bind (.bracketed (hg.expr ts _)) fun y hy => ?_) hrun
    exact .after fun _ => .pure ⟨⟨Nodes.aroundExpr hy.all ⟨trivial, trivial, trivial⟩,
      fun _ => Expr.covered_of_openTypes rfl⟩, rfl⟩
  · refine branch (.after fun _ => .bind (hg.signature ts x) fun s hs => .after fun brace => ?_) hrun
    have hcovered {e : Expr} (he : e.openTypes = s.openTypes) : x.exprLevel < 0 → e.Covered :=
      fun _ => Expr.covered_of_openTypes (he.trans hs.closed)
    split
    · exact .bind (.bracketed (hg.block ts _)) fun b hb =>
        .pure ⟨⟨Nodes.aroundExpr (hs.all.append hb) ⟨trivial, hs.closed, trivial⟩,
          hcovered rfl⟩, rfl⟩
    · exact .pure ⟨⟨Nodes.aroundExpr hs.all ⟨trivial, hs.closed, trivial⟩, hcovered rfl⟩, rfl⟩
  iterate 5
    · rename_i hkind
      exact hg.typeOperand ts x hc (by rw [hkind]; exact nofun) hrun
  · exact branch (.unexpected _) hrun

/-- What grows from an operand is an operand. -/
theorem postfixed (e : Expr) (he : BuiltOperand ts x e) :
    AnswersAt ts x (fun o => ∀ e ∈ o, BuiltOperand ts x e) (g.postfixed e) := by
  have grown {e : Expr} (he : BuiltOperand ts x e) : ∀ y ∈ some e, BuiltOperand ts x y := by
    rintro _ ⟨⟩
    exact he
  refine .after fun kind => ?_
  split
  · exact .after fun _ => .bind (hg.selectorOrAssertion ts x he) fun y hy => .pure (grown hy)
  · exact .bind (hg.indexOrSlice ts x he) fun y hy => .pure (grown hy)
  · exact .bind (hg.call ts x he) fun y hy => .pure (grown hy)
  · refine .get fun c hlevel => ?_
    split
    · rename_i hopens
      exact .bind (hg.composite ts x he (hlevel ▸ hopens)) fun y hy => .pure (grown hy)
    · exact .pure nofun
  · exact .pure nofun

theorem primary : AnswersAt ts x (BuiltOperand ts x) g.primary :=
  .bind (hg.operand ts x) fun _ he => .growing (hg.postfixed ts x) _ he

/-! ## Operators -/

omit hg in
/-- A unary operator before an operand. -/
theorem unaryExpr {e : Expr} (h : BuiltExpr ts x e ∧ e.binaryOp? = none) (op : UnaryOp) :
    BuiltExpr ts x (.unary op e) ∧ (Expr.unary op e).binaryOp? = none :=
  ⟨⟨Nodes.aroundExpr h.1.all ⟨h.2, trivial, trivial⟩, h.1.covered⟩, rfl⟩

/-- A unary expression is no binary expression. -/
theorem prefixed :
    AnswersAt ts x (fun e => BuiltExpr ts x e ∧ e.binaryOp? = none) g.prefixed := by
  refine .after fun kind => ?_
  split
  · exact .after fun _ => .bind (hg.unary ts x) fun e he =>
      .pure ⟨⟨Nodes.aroundExpr he.1.all ⟨he.2, trivial, trivial⟩, he.1.covered⟩, rfl⟩
  · refine .after fun _ => .after fun chan => ?_
    split
    · refine .after fun _ => (hg.chanType ts x .recv).weaken fun t ht => ?_
      exact ⟨⟨ht.all, fun _ => t.covered_of_openTypes ht.closed⟩, ht.plain⟩
    · exact .bind (hg.unary ts x) fun e he => .pure (unaryExpr ts x he _)
  · split
    · exact .after fun _ => .bind (hg.unary ts x) fun e he => .pure (unaryExpr ts x he _)
    · exact (hg.primary ts x).weaken fun e he =>
        ⟨he.toBuiltExpr, Expr.binaryOp?_of_isOperand he.isOperand⟩

/-- A unary expression, one level of nesting down. -/
theorem nestedUnary :
    AnswersAt ts x (fun e => BuiltExpr ts x e ∧ e.binaryOp? = none) g.nestedUnary :=
  .nested ((hg.prefixed ts _).weaken fun _ he => ⟨⟨he.1.all, he.1.covered⟩, he.2⟩)

omit hg ts x in
/-- The loop ends where no operator follows, or one that binds weaker than asked for. -/
theorem binaryFrom_stops {strength : Nat} {c c' : Cursor} {y : Expr}
    (hrun : (g.binaryFrom strength).run c = (.ok y, c')) :
    ∀ op, c'.current.kind = .op op → op.precedence < strength := by
  obtain ⟨e, d, -, hrun⟩ := bind_ok hrun
  generalize g.budget = n at hrun
  induction n generalizing d e with
  | zero => cases hrun
  | succ n ih =>
    obtain ⟨o, f, hturn, hrun⟩ := bind_ok hrun
    cases o with
    | some z => exact ih z f hrun
    | none =>
      obtain ⟨rfl, rfl⟩ := pure_ok hrun
      rw [Grammar.extended, peekKind_bind_run] at hturn
      split at hturn
      · rename_i op hop
        split at hturn
        · rename_i hweak
          obtain ⟨-, rfl⟩ := pure_ok hturn
          intro op' hop'
          obtain rfl : op = op' := TokenKind.op.inj (hop.symm.trans hop')
          exact hweak
        · have answers : Answers (fun o : Option Expr => o ≠ none) (do
              advance
              let lineBreak := (← get).newlineBefore
              return some (.binary y op (← g.binary (op.precedence + 1)) lineBreak)) :=
            .after fun _ => .after fun _ => .after fun _ => .pure nofun
          exact absurd rfl (answers d none _ hturn)
      · rename_i hkind
        obtain ⟨-, rfl⟩ := pure_ok hturn
        exact fun op hop => absurd hop (hkind op)

omit ts x in
/-- An operator with its right operand moves on in the text. -/
theorem extended_moves (strength : Nat) (e : Expr) : Moves (g.extended strength e) := by
  refine .of_answers fun ts x => .after fun kind => ?_
  split
  · split
    · exact .pure trivial
    · exact .after fun _ => .after fun _ => .bind (hg.binary ts x _) fun _ _ => .pure trivial
  · exact .pure trivial

/-- A left operand is read with one more operator. Where it stops no operator follows that binds
stronger than the one read. -/
theorem extended {strength : Nat} {c c' : Cursor} {e y : Expr} (hc : c.Stands ts x)
    (he : BuiltExpr ts x e) (hnext : ∀ op, c.current.kind = .op op → e.Binds op.precedence)
    (hrun : (g.extended strength e).run c = (.ok (some y), c')) :
    c'.Stands ts x ∧ BuiltExpr ts x y ∧ y.Binds strength ∧
      ∀ op, c'.current.kind = .op op → y.Binds op.precedence := by
  rw [Grammar.extended, peekKind_bind_run] at hrun
  split at hrun
  · rename_i op hop
    split at hrun
    · cases hrun
    · rename_i hstrong
      obtain ⟨u, d, hadvance, hrun⟩ := bind_ok hrun
      obtain rfl : c.advance = d := congrArg Prod.snd hadvance
      obtain ⟨f, f', hget, hrun⟩ := bind_ok hrun
      obtain ⟨rfl, rfl⟩ : c.advance = f ∧ c.advance = f' := by
        cases hget
        exact ⟨rfl, rfl⟩
      obtain ⟨right, d, hright, hrun⟩ := bind_ok hrun
      obtain ⟨hanswer, rfl⟩ := pure_ok hrun
      obtain rfl := Option.some.inj hanswer
      obtain ⟨hd, hbuilt, hbinds⟩ := hg.binary ts x _ _ right _ hc.advance hright
      refine ⟨hd, ⟨Nodes.aroundExpr (Nodes.append he.all hbuilt.all)
        ⟨⟨hnext op hop, hbinds⟩, trivial, trivial⟩, fun hlevel => ?_⟩, ?_, fun op' hop' => ?_⟩
      · exact List.forall_mem_append.mpr ⟨he.covered hlevel, hbuilt.covered hlevel⟩
      · rintro _ ⟨⟩
        exact Nat.not_lt.mp hstrong
      · rintro _ ⟨⟩
        exact Nat.lt_succ_iff.mp (hg.stops _ _ _ _ hright op' hop')
  · cases hrun

/-- The operator loop: its left operand binds at least as strongly as asked for, and as the operator
that follows. -/
theorem growing_extended {strength : Nat} (n : Nat) {c c' : Cursor} {e y : Expr}
    (hc : c.Stands ts x) (he : BuiltExpr ts x e) (hbinds : e.Binds strength)
    (hnext : ∀ op, c.current.kind = .op op → e.Binds op.precedence)
    (hrun : (Parse.growing (g.extended strength) n e).run c = (.ok y, c')) :
    c'.Stands ts x ∧ BuiltExpr ts x y ∧ y.Binds strength := by
  induction n generalizing c e with
  | zero => cases hrun
  | succ n ih =>
    obtain ⟨o, d, hturn, hrun⟩ := bind_ok hrun
    cases o with
    | none =>
      obtain ⟨rfl, rfl⟩ := pure_ok hrun
      have hmoves : Moves (g.extended strength y) := hg.extended_moves strength y
      exact ⟨hmoves.stands_run ts x _ _ _ hc hturn, he, hbinds⟩
    | some z =>
      obtain ⟨hd, hz, hzbinds, hznext⟩ := hg.extended ts x hc he hnext hturn
      exact ih hd hz hzbinds hznext hrun

/-- An expression of a given strength binds as strongly as that. -/
theorem binaryFrom (strength : Nat) :
    AnswersAt ts x (fun e => BuiltExpr ts x e ∧ e.Binds strength) (g.binaryFrom strength) := by
  intro c y c' hc hrun
  obtain ⟨e, d, hunary, hrun⟩ := bind_ok hrun
  obtain ⟨hd, he, hplain⟩ := hg.nestedUnary ts x c e d hc hunary
  exact hg.growing_extended ts x _ hd he (Expr.binds_of_not_binary hplain _)
    (fun op _ => Expr.binds_of_not_binary hplain _) hrun

end Grammar.Built

end HandlerSplit.Parse
