import HandlerSplit.Print.Tree
import HandlerSplit.Proofs.Parse.Built.File
/-!
# Operator spacing goes with precedence

The cutoff of an operator is found anew at every node, from the chain below it and from the depth.
Of the nodes of a chain the weaker see what the stronger below them see: an operator that would run
together with the unary operator behind it makes all operators above it in the chain spaced
(`atLeast_chain`), and without such operators only those of strength 4 and 5 are written without
spaces, and only below the outermost depth (`isSpaced_eq_false_iff`). The operands of such an
operator are deeper or as deep, bind as strongly, and see part of the same chain. So they are
written without spaces as well (`tight_operands`).
-/

namespace HandlerSplit

namespace Print

/-- Where the right operand is printed: one level deeper, and behind a line break one more to the
right. -/
def rightPlace (lineBreak : Bool) (p : Place) : Place :=
  if lineBreak then ⟨p.depth + 1, p.indent + 1, false⟩ else p.deeper

/-- A binary expression of which the operands are printed at the places `q` and `r`. -/
def binaryAt (style : Style) (p q r : Place) (x : Expr) (op : BinaryOp) (y : Expr)
    (lineBreak : Bool) : Output :=
  let blanks := isSpaced p.depth (.binary x op y lineBreak)
  if lineBreak then brokenBinaryOutput blanks (exprOutput style x q) op p.indent (exprOutput style y r)
  else binaryOutput blanks (exprOutput style x q) op (exprOutput style y r)

/-- A binary expression at a place is written from its operands, each printed at a place of
its own, and if there are no spaces around its operator, there are none around the operators
of the operands. -/
structure TightInside (style : Style) (p : Place) (x : Expr) (op : BinaryOp) (y : Expr)
    (lineBreak : Bool) : Prop where
  written : exprOutput style (.binary x op y lineBreak) p =
    binaryAt style p (leftPlace x op p) (rightPlace lineBreak p) x op y lineBreak
  places : 0 < (leftPlace x op p).depth ∧ 0 < (rightPlace lineBreak p).depth
  operands : isSpaced p.depth (.binary x op y lineBreak) = false →
    isSpaced (leftPlace x op p).depth x = false ∧ isSpaced (rightPlace lineBreak p).depth y = false

/-! ## Chains -/

/-- An operator that runs together with what follows is as strong as the hazard says. -/
theorem hazardOf_eq (op : BinaryOp) (y : Expr) : hazardOf op y = 0 ∨ hazardOf op y = op.precedence := by
  unfold hazardOf
  split <;> first | exact .inr rfl | exact .inl rfl

/-- The part of a chain that an operand is. -/
def operandChain (admits : Nat → Bool) (x : Expr) : Chain :=
  if joinsChain admits x then chain x else {}

theorem chain_binary (x : Expr) (op : BinaryOp) (y : Expr) (lineBreak : Bool) :
    chain (.binary x op y lineBreak) =
      let left := operandChain (· ≥ op.precedence) x
      let right := operandChain (· > op.precedence) y
      { hasSum := op.precedence == 4 || left.hasSum || right.hasSum
        hasProduct := op.precedence == 5 || left.hasProduct || right.hasProduct
        hazard := max (hazardOf op y) (max left.hazard right.hazard) } :=
  rfl

theorem operandChain_cases (admits : Nat → Bool) (x : Expr) :
    operandChain admits x = {} ∨
      ∃ op, x.binaryOp? = some op ∧ admits op.precedence = true ∧ operandChain admits x = chain x := by
  unfold operandChain joinsChain
  cases x.binaryOp? with
  | none => exact .inl rfl
  | some op =>
    by_cases h : admits op.precedence = true
    · exact .inr ⟨op, rfl, h, if_pos h⟩
    · exact .inl (if_neg h)

/-- What holds of a chain whose operators bind at least as strongly as given. -/
structure Chain.AtLeast (strength : Nat) (c : Chain) : Prop where
  hazard : c.hazard = 0 ∨ strength ≤ c.hazard
  hasSum : c.hasSum = true → strength ≤ 4

theorem Chain.AtLeast.empty (strength : Nat) : Chain.AtLeast strength {} :=
  ⟨.inl rfl, nofun⟩

theorem Chain.AtLeast.mono {s t : Nat} {c : Chain} (h : c.AtLeast t) (hst : s ≤ t) :
    c.AtLeast s :=
  ⟨h.hazard.imp_right hst.trans, fun hsum => hst.trans (h.hasSum hsum)⟩

/-- No operator of a chain binds weaker than the one at its top. -/
theorem atLeast_chain (x : Expr) {op : BinaryOp} (h : x.binaryOp? = some op) :
    (chain x).AtLeast op.precedence := by
  cases x with
  | binary x o y lineBreak =>
    obtain rfl : o = op := Option.some.inj h
    have hleft : (operandChain (· ≥ o.precedence) x).AtLeast o.precedence := by
      rcases operandChain_cases (· ≥ o.precedence) x with hnone | ⟨o', ho', hadmits, hchain⟩
      · exact hnone ▸ .empty _
      · exact hchain ▸ (atLeast_chain x ho').mono (of_decide_eq_true hadmits)
    have hright : (operandChain (· > o.precedence) y).AtLeast o.precedence := by
      rcases operandChain_cases (· > o.precedence) y with hnone | ⟨o', ho', hadmits, hchain⟩
      · exact hnone ▸ .empty _
      · exact hchain ▸ (atLeast_chain y ho').mono (of_decide_eq_true hadmits).le
    rw [chain_binary]
    constructor
    · have htop := hazardOf_eq o y
      have := hleft.hazard
      have := hright.hazard
      dsimp only
      omega
    · intro hsum
      rcases Bool.or_eq_true_iff.mp hsum with hsum | hsum
      · rcases Bool.or_eq_true_iff.mp hsum with hsum | hsum
        · exact (beq_iff_eq.mp hsum).le
        · exact hleft.hasSum hsum
      · exact hright.hasSum hsum
  | _ => cases h
termination_by structural x

/-- There are no spaces around an operator if and only if no operator of its chain runs together
with what follows it, the expression is nested, and the operator is one of the two strongest. -/
theorem isSpaced_eq_false_iff {depth : Nat} {x : Expr} {op : BinaryOp} {y : Expr}
    {lineBreak : Bool} :
    isSpaced depth (.binary x op y lineBreak) = false ↔
      (chain (.binary x op y lineBreak)).hazard = 0 ∧ depth ≠ 1 ∧ 4 ≤ op.precedence := by
  obtain ⟨hhazard, hsum⟩ := atLeast_chain (.binary x op y lineBreak) rfl
  have hle := op.precedence_le_five
  have hspaced : isSpaced depth (.binary x op y lineBreak) = false ↔
      cutoff (chain (.binary x op y lineBreak)) depth ≤ op.precedence :=
    decide_eq_false_iff_not.trans Nat.not_lt
  rw [hspaced, cutoff]
  generalize chain (.binary x op y lineBreak) = c at hhazard hsum
  split
  · omega
  · rename_i hzero
    split
    · rename_i hdepth
      have hdepth := beq_iff_eq.mp hdepth
      split
      · rename_i hboth
        have := hsum (Bool.and_eq_true_iff.mp hboth).1
        omega
      · omega
    · rename_i hdepth
      have hdepth : depth ≠ 1 := fun h => hdepth (beq_iff_eq.mpr h)
      omega

/-- An operand that is nested, binds strongly enough and has no hazards of its own has no spaces. -/
theorem tight_operand {depth : Nat} {x : Expr} (hhazard : (chain x).hazard = 0) (hdepth : depth ≠ 1)
    (hbinds : x.Binds 4) : isSpaced depth x = false := by
  cases x with
  | binary x op y lineBreak => exact isSpaced_eq_false_iff.mpr ⟨hhazard, hdepth, hbinds op rfl⟩
  | _ => rfl

/-- All of an operand that is not in parentheses belongs to the chain. -/
theorem operandChain_eq {admits : Nat → Bool} {x : Expr}
    (h : ∀ op ∈ x.binaryOp?, admits op.precedence = true) : operandChain admits x = chain x := by
  rcases operandChain_cases admits x with hnone | ⟨-, -, -, hchain⟩
  · cases x with
    | binary x op y lineBreak => exact if_pos (h op rfl)
    | _ => exact hnone
  · exact hchain

theorem depth_rightPlace (lineBreak : Bool) (p : Place) :
    (rightPlace lineBreak p).depth = p.depth + 1 := by
  cases lineBreak <;> rfl

theorem depth_leftPlace (x : Expr) (op : BinaryOp) (p : Place) :
    (leftPlace x op p).depth = p.depth ∨ (leftPlace x op p).depth = p.depth + 1 := by
  unfold leftPlace
  split
  · exact .inl rfl
  · exact .inr rfl

theorem tightInside_of_grouped (style : Style) {p : Place} (hp : 0 < p.depth) {x : Expr}
    {op : BinaryOp} {y : Expr} {lineBreak : Bool}
    (hgrouped : (Expr.binary x op y lineBreak).Grouped) : TightInside style p x op y lineBreak where
  written := by cases lineBreak <;> rfl
  places := by
    have := depth_leftPlace x op p
    have := depth_rightPlace lineBreak p
    omega
  operands htight := by
    obtain ⟨hx, hy⟩ := hgrouped
    obtain ⟨hhazard, hdepth, hstrong⟩ := isSpaced_eq_false_iff.mp htight
    have hleft : operandChain (· ≥ op.precedence) x = chain x :=
      operandChain_eq fun o ho => decide_eq_true (hx o ho)
    have hright : operandChain (· > op.precedence) y = chain y :=
      operandChain_eq fun o ho => decide_eq_true (hy o ho)
    rw [chain_binary, hleft, hright] at hhazard
    dsimp only at hhazard
    have hplace := depth_leftPlace x op p
    refine ⟨tight_operand (by omega) (by omega) fun o ho => hstrong.trans (hx o ho),
      tight_operand (by omega) ?_ fun o ho => hstrong.trans ((Nat.le_succ _).trans (hy o ho))⟩
    rw [depth_rightPlace]
    omega

end Print

/-- In whatever the parser accepts and at whatever depth it is printed, depths counting from 1, an
operator without spaces around it has only operands without spaces around theirs. -/
theorem tight_operands (source : String) (style : Print.Style) (p : Print.Place) (hp : 0 < p.depth) :
    (∀ file, parseFile source = .ok file → ∀ x op y lineBreak,
      .enterExpr (.binary x op y lineBreak) ∈ file.events →
        Print.TightInside style p x op y lineBreak) ∧
      (∀ z, parseExpr source = .ok z → ∀ x op y lineBreak,
        .enterExpr (.binary x op y lineBreak) ∈ z.events →
          Print.TightInside style p x op y lineBreak) ∧
        ∀ t, parseType source = .ok t → ∀ x op y lineBreak,
          .enterExpr (.binary x op y lineBreak) ∈ t.events →
            Print.TightInside style p x op y lineBreak := by
  have hall {es : List Event} (h : Event.AllBuilt (Parse.kindsOf (tokenize source.toList)) es)
      (x : Expr) (op : BinaryOp) (y : Expr) (lineBreak : Bool)
      (hx : .enterExpr (.binary x op y lineBreak) ∈ es) :
      Print.TightInside style p x op y lineBreak :=
    have hbuilt : Expr.Built _ (.binary x op y lineBreak) := h (.enterExpr _) hx
    Print.tightInside_of_grouped style hp hbuilt.grouped
  exact ⟨fun _ h => hall (Parse.built_parseFile h), fun _ h => hall (Parse.built_parseExpr h),
    fun _ h => hall (Parse.built_parseType h)⟩

/-- Whether a binary expression is entered that is written without spaces at the given depth. -/
def Event.isTight (depth : Nat) : Event → Bool
  | enterExpr x => x.binaryOp?.isSome && !Print.isSpaced depth x
  | _ => false

theorem Event.exists_of_isTight {depth : Nat} {es : List Event}
    (h : es.any (Event.isTight depth) = true) :
    ∃ x op y lineBreak, .enterExpr (.binary x op y lineBreak) ∈ es ∧
      Print.isSpaced depth (.binary x op y lineBreak) = false := by
  obtain ⟨e, he, htight⟩ := List.any_eq_true.mp h
  cases e with
  | enterExpr z =>
    obtain ⟨hbinary, hspaces⟩ := Bool.and_eq_true_iff.mp htight
    cases z with
    | binary x op y lineBreak =>
      exact ⟨x, op, y, lineBreak, he, (Bool.not_eq_true' _).mp hspaces⟩
    | _ => cases hbinary
  | _ => cases htight

/-- An operator of the events that is written without spaces at the given place, with operands that
are so as well. -/
def Event.TightWithOperands (p : Print.Place) (es : List Event) : Prop :=
  ∃ x op y lineBreak, .enterExpr (.binary x op y lineBreak) ∈ es ∧
    Print.isSpaced p.depth (.binary x op y lineBreak) = false ∧
      Print.isSpaced (Print.leftPlace x op p).depth x = false ∧
        Print.isSpaced (Print.rightPlace lineBreak p).depth y = false

theorem tight_operands_nested :
    (∃ file, parseFile operatorSource = .ok file ∧
      Event.TightWithOperands ⟨2, 1, false⟩ file.events) ∧
      (∃ z, parseExpr operatorType = .ok z ∧ Event.TightWithOperands ⟨2, 1, false⟩ z.events) ∧
        ∃ t, parseType operatorType = .ok t ∧ Event.TightWithOperands ⟨2, 1, false⟩ t.events := by
  have hfile : (parseFile operatorSource).toOption.map
      (fun file => file.events.any (Event.isTight 2)) = some true := by decide +kernel
  have hexpr : (parseExpr operatorType).toOption.map
      (fun z => z.events.any (Event.isTight 2)) = some true := by decide +kernel
  have htype : (parseType operatorType).toOption.map
      (fun t => t.events.any (Event.isTight 2)) = some true := by decide +kernel
  obtain ⟨file, h, hfile⟩ := exists_ok_of_map hfile
  obtain ⟨z, h', hexpr⟩ := exists_ok_of_map hexpr
  obtain ⟨t, h'', htype⟩ := exists_ok_of_map htype
  obtain ⟨x, op, y, b, hx, htight⟩ := Event.exists_of_isTight hfile
  obtain ⟨x', op', y', b', hx', htight'⟩ := Event.exists_of_isTight hexpr
  obtain ⟨x'', op'', y'', b'', hx'', htight''⟩ := Event.exists_of_isTight htype
  have hlaw (source : String) := tight_operands source {} ⟨2, 1, false⟩ Nat.two_pos
  exact ⟨⟨file, h, x, op, y, b, hx, htight,
      ((hlaw _).1 file h x op y b hx).operands htight⟩,
    ⟨z, h', x', op', y', b', hx', htight',
      ((hlaw _).2.1 z h' x' op' y' b' hx').operands htight'⟩,
    ⟨t, h'', x'', op'', y'', b'', hx'', htight'',
      ((hlaw _).2.2 t h'' x'' op'' y'' b'' hx'').operands htight''⟩⟩

end HandlerSplit
