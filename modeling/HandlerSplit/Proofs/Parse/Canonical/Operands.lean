import HandlerSplit.Parse.Stmt
import HandlerSplit.Proofs.Parse.View
import HandlerSplit.Proofs.Tree.Canonical
/-!
# Reading what follows an operand

The tokens behind an operand are read as one more selection, index, slice, call or literal body of
it, if the expressions in the brackets are read up to where they are not gone on with.
-/

namespace HandlerSplit.Parse

open Script (line)

/-! ## What goes on with an expression -/

/-- The tokens that go on with an operand. In a header a brace does not. -/
def continuesOperand (exprLevel : Int) : TokenKind → Bool
  | .punct .period | .punct .lbracket | .punct .lparen => true
  | .punct .lbrace => decide (0 ≤ exprLevel)
  | _ => false

/-- The tokens that go on with an expression whose operators bind at least as strongly as given. -/
def continuesExpr (strength : Nat) (exprLevel : Int) : TokenKind → Bool
  | .op o => decide (strength ≤ o.precedence)
  | k => continuesOperand exprLevel k

/-- Fewer tokens go on with an expression that must bind more strongly. -/
theorem continuesExpr_mono {strength strength' : Nat} {exprLevel : Int} {k : TokenKind}
    (hle : strength ≤ strength') (h : continuesExpr strength exprLevel k = false) :
    continuesExpr strength' exprLevel k = false := by
  cases k with
  | op o =>
    have hlt : ¬strength ≤ o.precedence := of_decide_eq_false h
    exact decide_eq_false fun hle' => hlt (Nat.le_trans hle hle')
  | _ => exact h

/-- What does not go on with an expression goes on with no operand. -/
theorem continuesOperand_of_continuesExpr {strength : Nat} {exprLevel : Int} {k : TokenKind}
    (h : continuesExpr strength exprLevel k = false) : continuesOperand exprLevel k = false := by
  cases k with
  | op o => rfl
  | _ => exact h

/-- A brace in a header opens no literal. -/
theorem opensComposite_eq_false {x : Expr} (h : x.Canonical)
    {exprLevel : Int} (hlevel : exprLevel < 0) : opensComposite exprLevel x = false := by
  have hneg : decide (exprLevel ≥ 0) = false := decide_eq_false (Int.not_le.mpr hlevel)
  induction h with
  | ident | selector | index => exact hneg
  | paren _ _ ih => exact ih
  | _ => rfl

/-! ## Expressions in brackets -/

variable {g : Grammar} {ctx : Context} {rest : Script}

/-- An expression inside another phrase, with the token it starts with. -/
structure Inner (g : Grammar) (ctx : Context) (x : Expr) : Prop where
  starts : ∃ k ks, x.spelling = k :: ks ∧ startsExpr k = true
  parses : Parses g.expr (line x.spelling) x ctx (continuesExpr 1 ctx.exprLevel · = false)

/-- A bound of a slice, before a colon or the closing bracket. -/
theorem Yields.bound {y : Option Expr} {mark : Punct} (hmark : mark = .colon ∨ mark = .rbracket)
    (hy : ∀ z ∈ y, Inner g ctx z) (semi : Bool) (rest : Script) :
    Yields g.bound (Script.view (line (optSpelling y) ++ .token (.punct mark) :: rest) semi 0 ctx) y
      (Script.view (.token (.punct mark) :: rest) true 0 ctx) := by
  cases y with
  | none => rcases hmark with rfl | rfl <;> exact .peekToken .pure
  | some z =>
    obtain ⟨⟨k, ks, hks, hk⟩, hparses⟩ := hy z rfl
    have hread := hparses semi 0 (.token (.punct mark) :: rest)
      (by rcases hmark with rfl | rfl <;> rfl)
    simp only [optSpelling, hks] at hread ⊢
    refine .peekToken ?_
    split
    · cases hk
    · cases hk
    · exact .bind hread .pure

/-! ## What follows an operand -/

/-- A dot and a name go on with an operand. -/
theorem Yields.selection (x : Expr) (name : String) :
    Yields (g.postfixed x) (Script.view (line [.punct .period, .ident name] ++ rest) true 0 ctx)
      (some (.selector x name)) (Script.view rest true 0 ctx) :=
  .peekKind (.next (.bind (.peekKind (.next .pure)) .pure))

/-- A key in brackets goes on with an operand. -/
theorem Yields.indexing (x : Expr) {key : Expr} (hkey : Inner g ctx.inBrackets key) :
    Yields (g.postfixed x)
      (Script.view (line ([.punct .lbracket] ++ key.spelling ++ [.punct .rbracket]) ++ rest) true 0 ctx)
      (some (.index x key)) (Script.view rest true 0 ctx) := by
  obtain ⟨⟨k, ks, hks, hk⟩, hparses⟩ := hkey
  have hread := hparses false 0 (.token (.punct .rbracket) :: rest) rfl
  simp only [Script.line_append, Script.line_cons, Script.line_nil, List.append_assoc,
    List.cons_append, List.nil_append, hks] at hread ⊢
  have hbounds : Yields g.bounds (Script.view (.token k :: (line ks ++ .token (.punct .rbracket) :: rest))
      false 0 ctx.inBrackets) ⟨some key, none, none, 0⟩
      (Script.view (.token (.punct .rbracket) :: rest) true 0 ctx.inBrackets) := by
    refine .bind (.atNe ?_ (.bind hread .pure)) (.atFalse rfl .pure)
    rintro rfl
    cases hk
  exact .peekKind (.bind (.expectPunct (.bind (.bracketed hbounds) (.expectPunct .pure))) .pure)

/-- The bounds of a slice up to the closing bracket. -/
theorem Yields.bounds {low high max : Option Expr} (hlow : ∀ y ∈ low, Inner g ctx y)
    (hhigh : ∀ y ∈ high, Inner g ctx y) (hmax : ∀ y ∈ max, Inner g ctx y) (rest : Script) :
    Yields g.bounds (Script.view (line (optSpelling low ++ [.punct .colon] ++ optSpelling high ++
        maxSpelling max) ++ .token (.punct .rbracket) :: rest) false 0 ctx)
      ⟨low, high, max, if max.isSome then 2 else 1⟩
      (Script.view (.token (.punct .rbracket) :: rest) true 0 ctx) := by
  simp only [Script.line_append, Script.line_cons, List.append_assoc, List.cons_append,
    List.nil_append]
  -- the low bound, up to the first colon
  have hfirst (s : Script) : Yields (do
      if ← atPunct .colon then return none else return some (← g.expr) : Parser (Option Expr))
      (Script.view (line (optSpelling low) ++ .token (.punct .colon) :: s) false 0 ctx) low
      (Script.view (.token (.punct .colon) :: s) true 0 ctx) := by
    cases low with
    | none => exact .atTrue rfl .pure
    | some y =>
      obtain ⟨⟨k, ks, hks, hk⟩, hparses⟩ := hlow y rfl
      have hread := hparses false 0 (.token (.punct .colon) :: s) rfl
      simp only [optSpelling, hks] at hread ⊢
      refine .atNe ?_ (.bind hread .pure)
      rintro rfl
      cases hk
  cases max with
  | none =>
    have hhigh := Yields.bound (.inr rfl) hhigh false rest
    exact .bind (hfirst _) (.atTrue rfl (.next (.bind hhigh (.atFalse rfl .pure))))
  | some y =>
    have hhigh := Yields.bound (.inl rfl) hhigh false
    have hmax := Yields.bound (.inr rfl) hmax false rest
    simp only [maxSpelling, Script.line_cons, List.cons_append, List.nil_append]
    exact .bind (hfirst _) (.atTrue rfl (.next (.bind (hhigh _) (.atTrue rfl (.next
      (.bind hmax .pure))))))

/-- Bounds in brackets go on with an operand. -/
theorem Yields.slicing (x : Expr) {low high max : Option Expr}
    (hlow : ∀ y ∈ low, Inner g ctx.inBrackets y) (hhigh : ∀ y ∈ high, Inner g ctx.inBrackets y)
    (hmax : ∀ y ∈ max, Inner g ctx.inBrackets y) (hbounds : max.isSome = true → high.isSome = true) :
    Yields (g.postfixed x)
      (Script.view (line ([.punct .lbracket] ++ (optSpelling low ++ [.punct .colon] ++
        optSpelling high ++ maxSpelling max) ++ [.punct .rbracket]) ++ rest) true 0 ctx)
      (some (.slice x low high max)) (Script.view rest true 0 ctx) := by
  have hread := Yields.bounds hlow hhigh hmax rest
  rw [List.append_assoc, Script.line_append, List.append_assoc, Script.line_append, List.append_assoc]
  refine .peekKind (.bind (.expectPunct (.bind (.bracketed hread) (.expectPunct ?_))) .pure)
  cases max with
  | none => exact .pure
  | some y =>
    cases high with
    | none => cases hbounds rfl
    | some z => exact .pure

/-- Elements without layout are their expressions. -/
theorem map_plain {es : List Element} (h : ∀ e ∈ es, e.decs = .plain) :
    es.map (fun e => ⟨e.expr, .plain⟩) = es := by
  induction es with
  | nil => rfl
  | cons e es ih =>
    obtain ⟨he, hes⟩ := List.forall_mem_cons.mp h
    obtain ⟨x, d⟩ := e
    obtain rfl : d = .plain := he
    exact congrArg _ (ih hes)

/-- An element behind its layout, with the comma behind it. -/
theorem Yields.elementMore {α : Type} (make : Decorations → α) (semi : Bool) :
    Yields (Grammar.elementTurn .plain make)
      (Script.view (.token (.punct .comma) :: rest) semi 0 ctx) (.more (make .plain))
      (Script.view rest false 0 ctx) :=
  .atTrue rfl (.next (.claimTrailing .pure))

/-- The last element of a list. -/
theorem Yields.elementLast {α : Type} (make : Decorations → α) {mark : Punct} (hmark : mark ≠ .comma)
    (semi : Bool) :
    Yields (Grammar.elementTurn .plain make)
      (Script.view (.token (.punct mark) :: rest) semi 0 ctx) (.last (make .plain))
      (Script.view (.token (.punct mark) :: rest) true 0 ctx) :=
  .atNe (fun h => hmark (TokenKind.punct.inj h)) .pure

/-- The arguments of a call up to the closing parenthesis. -/
theorem Yields.callArgs {args : List Element} (hdecs : ∀ a ∈ args, a.decs = .plain)
    (hargs : ∀ a ∈ args, Inner g ctx a.expr) (hn : args.length < g.budget) (opening : Span) :
    Yields (g.callArgs opening)
      (Script.view (line (separated (elementSpellings args)) ++ .token (.punct .rparen) :: rest) false 0
        ctx) (args, false, .plain) (Script.view (.token (.punct .rparen) :: rest) true 0 ctx) := by
  let item (a : Element) : (Element × Bool) × List TokenKind := ((⟨a.expr, .plain⟩, false), a.expr.spelling)
  have hspellings : elementSpellings args = (args.map item).map (·.2) := by
    rw [elementSpellings_eq, List.map_map]
    rfl
  have hanswer : ((args.map item).map (·.1)).map (·.1) = args ∧
      ((args.map item).map (·.1)).any (·.2) = false := by
    simp only [List.map_map, List.any_map, List.any_eq_false]
    exact ⟨map_plain hdecs, fun _ _ => Bool.false_ne_true⟩
  rw [hspellings]
  refine .claimTrailing (.bind (.list (fun e => Grammar.elementTurn .plain fun decs =>
    (Element.mk e.1.expr decs, e.2)) (args.map item) ?_ ?_ ?_ ?_ ?_ false rest) ?_)
  · rw [List.length_map]
    exact hn
  · exact fun semi rest => .peekKind .pure
  · intro i hi mark hmark semi rest turn v hend
    obtain ⟨a, ha, rfl⟩ := List.mem_map.mp hi
    obtain ⟨⟨k, ks, hks, hk⟩, hparses⟩ := hargs a ha
    have hread := hparses semi 0 (.token (.punct mark) :: rest)
      (by rcases hmark with rfl | rfl <;> rfl)
    simp only [item, hks] at hread ⊢
    refine .peekToken ?_
    split
    · cases hk
    · cases hk
    · refine .startDecorations (.bind hread (.atFalse ?_ hend))
      rcases hmark with rfl | rfl <;> rfl
  · intro i hi rest
    obtain ⟨a, -, rfl⟩ := List.mem_map.mp hi
    exact .elementMore _ true
  · intro i hi rest
    obtain ⟨a, -, rfl⟩ := List.mem_map.mp hi
    exact .elementLast _ Punct.noConfusion true
  · refine .closeEnclosure ?_
    rw [hanswer.1, hanswer.2]
    exact .pure

/-- Arguments in parentheses go on with an operand. -/
theorem Yields.calling (fn : Expr) {args : List Element} (hdecs : ∀ a ∈ args, a.decs = .plain)
    (hargs : ∀ a ∈ args, Inner g ctx.inBrackets a.expr) (hn : args.length < g.budget) :
    Yields (g.postfixed fn)
      (Script.view (line ([.punct .lparen] ++ separated (elementSpellings args) ++ [.punct .rparen]) ++
        rest) true 0 ctx) (some (.call fn args false .plain)) (Script.view rest true 0 ctx) := by
  rw [List.append_assoc, Script.line_append, List.append_assoc, Script.line_append, List.append_assoc]
  exact .peekKind (.bind (.peek fun opening => .expectPunct
    (.bind (.bracketed (.callArgs hdecs hargs hn opening.span)) (.expectPunct .pure))) .pure)

/-! ## Composite literals -/

/-- A value that does not start with a brace is an expression. -/
theorem Yields.elementValueHere {y : Expr} (h : Inner g ctx y) {k : TokenKind}
    (hk : continuesExpr 1 ctx.exprLevel k = false) (semi : Bool) :
    Yields g.elementValueHere (Script.view (line y.spelling ++ .token k :: rest) semi 0 ctx) y
      (Script.view (.token k :: rest) true 0 ctx) := by
  obtain ⟨⟨k', ks, hks, hk'⟩, hparses⟩ := h
  have hread := hparses semi 0 (.token k :: rest) hk
  rw [hks] at hread ⊢
  refine .atNe ?_ hread
  rintro rfl
  cases hk'

/-- An element of a composite literal, before a comma or the closing brace. -/
theorem Yields.element {g g' : Grammar} (hg : g.elementValue = g'.elementValueHere) {x : Expr}
    (hx : ∀ y ∈ x.parts, Inner g' ctx y) {mark : Punct} (hmark : mark = .comma ∨ mark = .rbrace)
    (semi : Bool) (rest : Script) :
    Yields g.element (Script.view (line x.spelling ++ .token (.punct mark) :: rest) semi 0 ctx) x
      (Script.view (.token (.punct mark) :: rest) true 0 ctx) := by
  have hstop : continuesExpr 1 ctx.exprLevel (.punct mark) = false := by
    rcases hmark with rfl | rfl <;> rfl
  have hcolon : ((TokenKind.punct mark) == .punct .colon) = false := by
    rcases hmark with rfl | rfl <;> rfl
  have hvalue {y : Expr} (hy : Inner g' ctx y) {k : TokenKind}
      (hk : continuesExpr 1 ctx.exprLevel k = false) (semi : Bool) (rest : Script) :
      Yields g.elementValue (Script.view (line y.spelling ++ .token k :: rest) semi 0 ctx) y
        (Script.view (.token k :: rest) true 0 ctx) := by
    rw [hg]
    exact .elementValueHere hy hk semi
  cases x with
  | keyValue key value =>
    obtain ⟨hkey, hx⟩ := List.forall_mem_cons.mp hx
    simp only [Expr.spelling, Script.line_append, Script.line_cons, List.append_assoc, List.cons_append,
      List.nil_append]
    exact .bind (hvalue hkey rfl semi _) (.atTrue rfl
      (.next (.bind (hvalue (List.forall_mem_singleton.mp hx) hstop false _) .pure)))
  | _ =>
    exact .bind (hvalue (List.forall_mem_singleton.mp hx) hstop semi _) (.atFalse hcolon .pure)

/-- An element starts as its key or its value does. -/
theorem startsExpr_parts {g : Grammar} {x : Expr} (hx : ∀ y ∈ x.parts, Inner g ctx y) :
    ∃ k ks, x.spelling = k :: ks ∧ startsExpr k = true := by
  cases x with
  | keyValue key value =>
    obtain ⟨k, ks, hks, hk⟩ := (List.forall_mem_cons.mp hx).1.starts
    exact ⟨k, ks ++ (.punct .colon :: value.spelling), by simp [Expr.spelling, hks], hk⟩
  | _ => exact (List.forall_mem_singleton.mp hx).starts

/-- The elements of a composite literal up to the closing brace. -/
theorem Yields.elements {g g' : Grammar} (hg : g.elementValue = g'.elementValueHere)
    {es : List Element} (hdecs : ∀ e ∈ es, e.decs = .plain)
    (hes : ∀ e ∈ es, ∀ y ∈ e.expr.parts, Inner g' ctx y) (hn : es.length < g.budget)
    (opening : Span) :
    Yields (g.elements opening)
      (Script.view (line (separated (elementSpellings es)) ++ .token (.punct .rbrace) :: rest) false 0
        ctx) (es, .plain) (Script.view (.token (.punct .rbrace) :: rest) true 0 ctx) := by
  let item (e : Element) : Element × List TokenKind := (⟨e.expr, .plain⟩, e.expr.spelling)
  have hspellings : elementSpellings es = (es.map item).map (·.2) := by
    rw [elementSpellings_eq, List.map_map]
    rfl
  have hanswer : (es.map item).map (·.1) = es := by
    rw [List.map_map]
    exact map_plain hdecs
  rw [hspellings]
  refine .claimTrailing (.bind (.list (fun e => Grammar.elementTurn .plain (Element.mk e.expr))
    (es.map item) ?_ ?_ ?_ ?_ ?_ false rest) ?_)
  · rw [List.length_map]
    exact hn
  · exact fun semi rest => .peekKind .pure
  · intro i hi mark hmark semi rest turn v hend
    obtain ⟨e, he, rfl⟩ := List.mem_map.mp hi
    obtain ⟨k, ks, hks, hk⟩ := startsExpr_parts (hes e he)
    have hread := Yields.element hg (hes e he) hmark semi rest
    simp only [item, hks] at hread ⊢
    refine .peekToken ?_
    split
    · cases hk
    · cases hk
    · exact .startDecorations (.bind hread hend)
  · intro i hi rest
    obtain ⟨e, -, rfl⟩ := List.mem_map.mp hi
    exact .elementMore _ true
  · intro i hi rest
    obtain ⟨e, -, rfl⟩ := List.mem_map.mp hi
    exact .elementLast _ Punct.noConfusion true
  · rw [hanswer]
    exact .closeEnclosure .pure

/-- Elements in braces go on with a type that may open a literal. -/
theorem Yields.literalBody {g g' : Grammar} (hg : g.elementValue = g'.elementValueHere) {type : Expr}
    (htype : opensComposite ctx.exprLevel type = true) {es : List Element}
    (hdecs : ∀ e ∈ es, e.decs = .plain)
    (hes : ∀ e ∈ es, ∀ y ∈ e.expr.parts, Inner g' ctx.inBrackets y) (hn : es.length < g.budget) :
    Yields (g.postfixed type)
      (Script.view (line ([.punct .lbrace] ++ separated (elementSpellings es) ++ [.punct .rbrace]) ++
        rest) true 0 ctx) (some (.composite (some type) es .plain)) (Script.view rest true 0 ctx) := by
  rw [List.append_assoc, Script.line_append, List.append_assoc, Script.line_append, List.append_assoc]
  refine .peekKind (.get fun c hc => ?_)
  have hlevel : opensComposite c.exprLevel type = true := hc.symm ▸ htype
  simp only [hlevel, if_true]
  exact .bind (.peek fun opening => .expectPunct
    (.bind (.bracketed (.elements hg hdecs hes hn opening.span)) (.expectPunct .pure))) .pure

end HandlerSplit.Parse
