import HandlerSplit.Proofs.Parse.Canonical.Operands
/-!
# Reading canonical expressions

The tokens of a canonical expression are read as that expression, wherever they are not gone on with
(`readable_of_canonical`, `Readable.parses`). The parser reads an operand in one loop and the
operators behind it in another. So the induction is on what a loop has come to behind the tokens of
an expression (`Spine`, `Readable`), and not on what is read of them.
-/

namespace HandlerSplit.Parse

open Script (line)

/-! ## Loops that end -/

variable {g : Grammar} {ctx : Context} {x : Expr} {rest : Script}

/-- Nothing follows an operand before a token that does not go on with one. -/
theorem Yields.postfixed_stop (n : Nat)
    (hstop : continuesOperand ctx.exprLevel (rest.first true) = false)
    (hbrace : ctx.exprLevel < 0 → opensComposite ctx.exprLevel x = false) :
    Yields (growing g.postfixed (n + 1) x) (rest.view true 0 ctx) x (rest.view true 0 ctx) := by
  refine .stays (.peekKind ?_)
  generalize rest.first true = k at hstop
  split
  · cases hstop
  · cases hstop
  · cases hstop
  · have hlevel : ctx.exprLevel < 0 := Int.not_le.mp (of_decide_eq_false hstop)
    refine .get fun c hc => ?_
    rw [hc, show (rest.view true 0 ctx).context = ctx from rfl, hbrace hlevel]
    exact .pure
  · exact .pure

/-- Nothing follows an expression before a token that does not go on with it. -/
theorem Yields.extended_stop (n : Nat) {strength : Nat}
    (hstop : continuesExpr strength ctx.exprLevel (rest.first true) = false) :
    Yields (growing (g.extended strength) (n + 1) x) (rest.view true 0 ctx) x
      (rest.view true 0 ctx) := by
  refine .stays (.peekKind ?_)
  generalize rest.first true = k at hstop
  split
  · have hlt := Nat.not_le.mp (of_decide_eq_false hstop)
    rw [if_pos hlt]
    exact .pure
  · exact .pure

/-! ## The loops of an expression -/

/-- Behind the tokens of an operand the loop of `primary` has come to that operand. -/
def Spine (g : Grammar) (ctx : Context) (x : Expr) : Prop :=
  ∃ j < x.spelling.length, ∀ steps semi gap rest y v,
    Yields (growing g.postfixed steps x) (Script.view rest true 0 ctx) y v →
      Yields (g.operand >>= growing g.postfixed (steps + j))
        (Script.view (line x.spelling ++ rest) semi gap ctx) y v

namespace Spine

/-- An operand by itself. -/
theorem single (hne : x.spelling ≠ [])
    (h : Parses g.operand (line x.spelling) x ctx fun _ => True) : Spine g ctx x :=
  ⟨0, List.length_pos_iff.mpr hne, fun _ _ _ _ _ _ hloop => .bind (h _ _ _ trivial) hloop⟩

/-- An operand with one more selection, index, call or literal body. -/
theorem extend {y : Expr} {ks : List TokenKind} (h : Spine g ctx x) (hy : y.spelling = x.spelling ++ ks)
    (hne : ks ≠ [])
    (hstep : ∀ rest, Yields (g.postfixed x) (Script.view (line ks ++ rest) true 0 ctx) (some y)
      (Script.view rest true 0 ctx)) : Spine g ctx y := by
  obtain ⟨j, hj, hread⟩ := h
  have hks := List.length_pos_iff.mpr hne
  refine ⟨j + 1, by rw [hy, List.length_append]; omega, fun steps semi gap rest _ _ hloop => ?_⟩
  have hyields := hread (steps + 1) semi gap _ _ _ (.grows (hstep rest) hloop)
  rw [Nat.add_right_comm, ← List.append_assoc, ← Script.line_append, ← hy] at hyields
  exact hyields

end Spine

/-- What a grammar makes of the tokens of an expression. An operand is what the loop of `primary`
has come to behind them, and an expression is what the loop of `binaryFrom` has come to. -/
structure Readable (g : Grammar) (ctx : Context) (x : Expr) : Prop where
  operand : x.isOperand = true → Spine g ctx.deeper x
  unary : x.strength = 6 →
    Parses g.nestedUnary (line x.spelling) x ctx (continuesOperand ctx.exprLevel · = false)
  binary : ∃ j < x.spelling.length, ∀ {strength}, strength ≤ x.strength →
    ∀ steps semi gap rest y v,
    continuesExpr (x.strength + 1) ctx.exprLevel (Script.first true rest) = false →
    Yields (growing (g.extended strength) steps x) (Script.view rest true 0 ctx) y v →
      Yields (g.nestedUnary >>= growing (g.extended strength) (steps + j))
        (Script.view (line x.spelling ++ rest) semi gap ctx) y v

namespace Readable

/-- An expression is read up to where it is not gone on with. -/
theorem parses (h : Readable g ctx x) (hturns : x.spelling.length < g.budget) {strength : Nat}
    (hstrength : strength ≤ x.strength) :
    Parses (g.binaryFrom strength) (line x.spelling) x ctx
      (continuesExpr strength ctx.exprLevel · = false) := by
  intro semi gap rest hstop
  obtain ⟨j, hj, hread⟩ := h.binary
  obtain ⟨steps, hsteps⟩ : ∃ steps, g.budget = steps + 1 + j := ⟨g.budget - 1 - j, by omega⟩
  have hyields := hread hstrength (steps + 1) semi gap rest _ _
    (continuesExpr_mono (Nat.le_succ_of_le hstrength) hstop) (.extended_stop steps hstop)
  rw [← hsteps] at hyields
  exact hyields

/-- An expression with its unary operators is read before the loop over the binary ones starts. -/
theorem ofUnary (hne : x.spelling ≠ []) (hoperand : x.isOperand = false)
    (h : Parses g.nestedUnary (line x.spelling) x ctx (continuesOperand ctx.exprLevel · = false)) :
    Readable g ctx x where
  operand := fun hop => absurd (hoperand.symm.trans hop) Bool.false_ne_true
  unary := fun _ => h
  binary := ⟨0, List.length_pos_iff.mpr hne, fun _ _ _ _ _ _ _ hstop hloop =>
    .bind (h _ _ _ (continuesOperand_of_continuesExpr hstop)) hloop⟩

/-- An operand is read by the loop of `primary`. -/
theorem ofOperand (hturns : x.spelling.length < g.budget) (hdepth : ctx.depth < maxNesting)
    (hstart : ∃ k ks, x.spelling = k :: ks ∧ startsOperand k = true)
    (hbrace : ctx.exprLevel < 0 → opensComposite ctx.exprLevel x = false)
    (h : Spine g ctx.deeper x) : Readable g ctx x := by
  obtain ⟨k, ks, hks, hk⟩ := hstart
  have hunary : Parses g.nestedUnary (line x.spelling) x ctx
      (continuesOperand ctx.exprLevel · = false) := by
    intro semi gap rest hstop
    obtain ⟨j, hj, hread⟩ := h
    obtain ⟨steps, hsteps⟩ : ∃ steps, g.budget = steps + 1 + j := ⟨g.budget - 1 - j, by omega⟩
    have hprimary := hread (steps + 1) semi gap rest _ _ (.postfixed_stop steps hstop hbrace)
    rw [← hsteps] at hprimary
    refine .nested hdepth (.peekKind ?_)
    rw [hks] at hprimary ⊢
    cases k with
    | ident | literal => exact hprimary
    | punct mark =>
      cases mark with
      | lparen => exact hprimary
      | _ => cases hk
    | _ => cases hk
  exact ⟨fun _ => h, fun _ => hunary, ⟨0, by rw [hks]; exact Nat.succ_pos _,
    fun _ _ _ _ _ _ _ hstop hloop =>
      .bind (hunary _ _ _ (continuesOperand_of_continuesExpr hstop)) hloop⟩⟩

end Readable

/-! ## Room -/

/-- A place where a phrase of `size` tokens can be read. -/
structure Fits (budget m : Nat) (ctx : Context) (size nesting : Nat) : Prop where
  levels : size ≤ m + 1
  turns : size < budget
  depth : ctx.depth + nesting ≤ maxNesting
  header : -1 ≤ ctx.exprLevel

/-- A place where an expression or type can be read. -/
abbrev Room (budget m : Nat) (ctx : Context) (x : Expr) : Prop :=
  Fits budget m ctx x.spelling.length x.nesting

namespace Fits

variable {budget m k size size' nesting nesting' : Nat}

/-- Room for a part without `k` tokens of the whole, `k` levels of the grammar down. -/
theorem part (h : Fits budget (m + k) ctx size nesting) (hsize : size' + k ≤ size)
    (hnesting : nesting' ≤ nesting) : Fits budget m ctx size' nesting' where
  levels := by have := h.levels; omega
  turns := by have := h.turns; omega
  depth := by have := h.depth; omega
  header := h.header

/-- Room for such a part one level of nesting down. -/
theorem deeper (h : Fits budget (m + k) ctx size nesting) (hsize : size' + k ≤ size)
    (hnesting : nesting' < nesting) : Fits budget m ctx.deeper size' nesting' where
  levels := by have := h.levels; omega
  turns := by have := h.turns; omega
  depth := by have := h.depth; simp only [Context.deeper]; omega
  header := h.header

/-- Brackets take no level. -/
theorem inBrackets (h : Fits budget m ctx size nesting) :
    Fits budget m ctx.inBrackets size nesting where
  levels := h.levels
  turns := h.turns
  depth := h.depth
  header := by have := h.header; simp only [Context.inBrackets]; omega

/-- A phrase of more than `k` tokens has `k` levels of the grammar below it. -/
theorem below (h : Fits budget m ctx size nesting) (hsize : k < size) : ∃ m', m = m' + k :=
  Nat.exists_eq_add_of_le' (by have := h.levels; omega)

/-- Inside brackets a brace may open a literal. -/
theorem level_inBrackets (h : Fits budget m ctx size nesting) : 0 ≤ ctx.inBrackets.exprLevel := by
  have := h.header
  simp only [Context.inBrackets]
  omega

end Fits

/-! ## Parts of an expression -/

/-- Every expression binds as strongly as the weakest operator. -/
theorem one_le_strength (x : Expr) : 1 ≤ x.strength := by
  cases x with
  | binary x op y => exact op.one_le_precedence
  | _ => exact Nat.le_add_left 1 5

/-- A canonical expression is written with at least one token. -/
theorem length_pos_of_canonical {x : Expr} (h : x.Canonical) : 0 < x.spelling.length := by
  obtain ⟨k, ks, hks, -⟩ := startsExpr_spelling h
  rw [hks]
  exact Nat.succ_pos _

/-- A key or value is no longer and no deeper than its element. -/
theorem le_of_mem_parts {x y : Expr} (h : y ∈ x.parts) :
    y.spelling.length ≤ x.spelling.length ∧ y.nesting ≤ x.nesting := by
  cases x with
  | keyValue key value =>
    simp only [Expr.parts, List.mem_cons, List.not_mem_nil, or_false] at h
    simp only [Expr.spelling, Expr.nesting, List.length_append, List.length_singleton]
    rcases h with rfl | rfl <;> omega
  | _ =>
    obtain rfl := List.mem_singleton.mp h
    exact ⟨Nat.le_refl _, Nat.le_refl _⟩

/-- An element is no longer than the list it is in. -/
theorem length_le_of_mem_elements {es : List Element} {e : Element} (he : e ∈ es) :
    e.expr.spelling.length ≤ (separated (elementSpellings es)).length := by
  refine length_le_separated ?_
  rw [elementSpellings_eq]
  exact List.mem_map_of_mem he

/-- There are at most as many elements as tokens, and one more. -/
theorem length_elements_le (es : List Element) :
    es.length ≤ (separated (elementSpellings es)).length + 1 := by
  have hcard := card_le_separated (elementSpellings es)
  rwa [elementSpellings_eq, List.length_map, ← elementSpellings_eq] at hcard

/-- An expression that is read wherever there is room for it. A composite literal outside of
brackets is not in a header. -/
def ReadableAnywhere (budget : Nat) (x : Expr) : Prop :=
  ∀ {m : Nat} {ctx : Context}, Room budget m ctx x →
    (Print.hasBareComposite x = true → 0 ≤ ctx.exprLevel) → Readable (Grammar.level budget m) ctx x

section

variable {budget m : Nat} {y : Expr}

/-- An expression inside another phrase. -/
theorem Inner.of (hx : x.Canonical) (hroom : Room budget m ctx x)
    (hbare : Print.hasBareComposite x = true → 0 ≤ ctx.exprLevel)
    (hread : ReadableAnywhere budget x) : Inner (Grammar.level budget (m + 1)) ctx x :=
  ⟨startsExpr_spelling hx,
    (hread hroom hbare).parses (by rw [budget_level]; exact hroom.turns) (one_le_strength x)⟩

/-- An expression in brackets, behind or around an operand. -/
theorem Inner.inBrackets (hy : y.Canonical) (hroom : Room budget m ctx.deeper y)
    (hread : ReadableAnywhere budget y) :
    Inner (Grammar.level budget (m + 1)) ctx.deeper.inBrackets y :=
  .of hy hroom.inBrackets (fun _ => hroom.level_inBrackets) hread

/-- A binary operator with its right operand. -/
theorem Yields.operation (x : Expr) {op : BinaryOp} {strength : Nat}
    (hstrength : strength ≤ op.precedence)
    (hstart : ∃ k ks, y.spelling = k :: ks ∧ startsExpr k = true)
    (hy : Yields (g.binary (op.precedence + 1)) (Script.view (line y.spelling ++ rest) false 0 ctx) y
      (Script.view rest true 0 ctx)) :
    Yields (g.extended strength x)
      (Script.view (.token (.op op) :: (line y.spelling ++ rest)) true 0 ctx)
      (some (.binary x op y false)) (Script.view rest true 0 ctx) := by
  obtain ⟨k, ks, hks, -⟩ := hstart
  rw [hks] at hy ⊢
  refine .peekKind ?_
  show Yields (if op.precedence < strength then _ else _) _ _ _
  rw [if_neg (Nat.not_lt.mpr hstrength)]
  exact .next (.getInLine fun c hc => by rw [hc]; exact .bind hy .pure)

/-- The type of a composite literal is an operand that a brace goes on with. -/
theorem spine_of_isTypeName {type : Expr} (h : type.isTypeName = true)
    (hlevel : 0 ≤ ctx.exprLevel) :
    Spine g ctx type ∧ opensComposite ctx.exprLevel type = true := by
  have hident (name : String) : Spine g ctx (.ident name) :=
    .single (List.cons_ne_nil _ _) fun semi gap rest _ => .peekKind (.next .pure)
  cases type with
  | ident name => exact ⟨hident name, decide_eq_true hlevel⟩
  | selector x name =>
    cases x with
    | ident pkg =>
      exact ⟨(hident pkg).extend rfl (List.cons_ne_nil _ _) fun rest => .selection _ name,
        decide_eq_true hlevel⟩
    | _ => cases h
  | _ => cases h

/-- An operand is read as soon as the loop of `primary` is known to come to it. -/
theorem Readable.ofSpine (h : x.Canonical) (hoperand : x.isOperand = true)
    (hroom : Room budget m ctx x) (hspine : Spine (Grammar.level budget m) ctx.deeper x) :
    Readable (Grammar.level budget m) ctx x := by
  have hdepth := hroom.depth
  have hpos := nesting_pos_of_canonical h
  exact .ofOperand (by rw [budget_level]; exact hroom.turns) (by omega)
    (startsOperand_spelling h hoperand) (opensComposite_eq_false h) hspine

/-- What stands behind `<-` in an expression is not `chan`. -/
theorem first_ne_chan (hx : x.Canonical) :
    (Script.first false (line x.spelling ++ rest) == .keyword .chan) = false := by
  obtain ⟨k, ks, hks, hk⟩ := startsExpr_spelling hx
  rw [hks]
  cases k with
  | keyword => cases hk
  | _ => rfl

/-! ## Canonical expressions -/

namespace ReadableAnywhere

/-- An operand of one token. -/
theorem atom (h : x.Canonical) (hoperand : x.isOperand = true) (hne : x.spelling ≠ [])
    (hread : ∀ g ctx, Parses (Grammar.operand g) (line x.spelling) x ctx fun _ => True) :
    ReadableAnywhere budget x :=
  fun hroom _ => .ofSpine h hoperand hroom (.single hne (hread _ _))

/-- An expression in parentheses, which is no expression in parentheses itself. -/
theorem paren (hx : x.Canonical) (hparen : Print.isParen x = false)
    (h : ReadableAnywhere budget x) : ReadableAnywhere budget (.paren x) := by
  intro m ctx hroom _
  refine .ofSpine (.paren hx hparen) rfl hroom (.single (List.cons_ne_nil _ _) ?_)
  have hlength : (Expr.paren x).spelling.length = x.spelling.length + 2 := by simp [Expr.spelling]
  have hnesting : (Expr.paren x).nesting = x.nesting + 1 := rfl
  obtain ⟨m, rfl⟩ := hroom.below (k := 1) (by omega)
  have hinner := Inner.inBrackets hx (hroom.deeper (by omega) (by omega)) h
  intro semi gap rest _
  have hread := hinner.parses false 0 (.token (.punct .rparen) :: rest) rfl
  simp only [Expr.spelling, Script.line_append, Script.line_cons, List.append_assoc,
    List.cons_append, List.nil_append]
  exact .peekKind (.next (.bind (.bracketed hread) (.expectPunct .pure)))

/-- A selector on an operand, which is no integer since the dot would belong to it. -/
theorem selector {name : String} (hx : x.Canonical) (hoperand : x.isOperand = true)
    (hint : x.isInt = false) (hname : isName name = true) (h : ReadableAnywhere budget x) :
    ReadableAnywhere budget (.selector x name) := by
  intro m ctx hroom hbare
  have hlength : (Expr.selector x name).spelling.length = x.spelling.length + 2 := by
    simp [Expr.spelling]
  have hread := h (hroom.part (k := 0) (by omega) (Nat.le_refl _)) hbare
  exact .ofSpine (.selector hx hoperand hint hname) rfl hroom
    ((hread.operand hoperand).extend rfl (List.cons_ne_nil _ _) fun rest => .selection x name)

/-- An index of an operand. -/
theorem index {key : Expr} (hx : x.Canonical) (hoperand : x.isOperand = true)
    (hkey : key.Canonical) (h : ReadableAnywhere budget x) (hinside : ReadableAnywhere budget key) :
    ReadableAnywhere budget (.index x key) := by
  intro m ctx hroom hbare
  have hlength : (Expr.index x key).spelling.length =
      x.spelling.length + key.spelling.length + 2 := by
    simp [Expr.spelling]; omega
  have hnesting : (Expr.index x key).nesting = max x.nesting (key.nesting + 1) := rfl
  obtain ⟨m, rfl⟩ := hroom.below (k := 1) (by omega)
  have hread := h (hroom.part (k := 0) (by omega) (by omega))
    fun hx => hbare (by simp [Print.hasBareComposite, hx])
  have hinner := Inner.inBrackets hkey (hroom.deeper (by omega) (by omega)) hinside
  exact .ofSpine (.index hx hoperand hkey) rfl hroom
    ((hread.operand hoperand).extend (by simp [Expr.spelling]) (List.cons_ne_nil _ _)
      fun rest => .indexing x hinner)

/-- A slice of an operand, whose third bound needs a second. -/
theorem slice {low high top : Option Expr} (hx : x.Canonical) (hoperand : x.isOperand = true)
    (hlow : ∀ y ∈ low, y.Canonical) (hhigh : ∀ y ∈ high, y.Canonical)
    (htop : ∀ y ∈ top, y.Canonical) (hbounds : top.isSome = true → high.isSome = true)
    (h : ReadableAnywhere budget x) (hlows : ∀ y ∈ low, ReadableAnywhere budget y)
    (hhighs : ∀ y ∈ high, ReadableAnywhere budget y)
    (htops : ∀ y ∈ top, ReadableAnywhere budget y) :
    ReadableAnywhere budget (.slice x low high top) := by
  intro m ctx hroom hbare
  have hlength : (Expr.slice x low high top).spelling.length = x.spelling.length +
      (optSpelling low).length + (optSpelling high).length + (maxSpelling top).length + 3 := by
    simp [Expr.spelling]; omega
  have hnesting : (Expr.slice x low high top).nesting = max x.nesting
      (max (optNesting low) (max (optNesting high) (optNesting top)) + 1) := rfl
  have htopLength : (optSpelling top).length ≤ (maxSpelling top).length := by
    cases top with
    | none => exact Nat.le_refl _
    | some y => exact Nat.le_succ _
  obtain ⟨m, rfl⟩ := hroom.below (k := 1) (by omega)
  have hread := h (hroom.part (k := 0) (by omega) (by omega))
    fun hx => hbare (by simp [Print.hasBareComposite, hx])
  have hinner {y : Option Expr} (hy : ∀ z ∈ y, z.Canonical)
      (hys : ∀ z ∈ y, ReadableAnywhere budget z)
      (hsize : (optSpelling y).length + 1 ≤ (Expr.slice x low high top).spelling.length)
      (hdeep : optNesting y < (Expr.slice x low high top).nesting) :
      ∀ z ∈ y, Inner (Grammar.level budget (m + 1)) ctx.deeper.inBrackets z := by
    rintro z rfl
    exact .inBrackets (hy z rfl) (hroom.deeper hsize hdeep) (hys z rfl)
  refine .ofSpine (.slice hx hoperand hlow hhigh htop hbounds) rfl hroom
    ((hread.operand hoperand).extend ?_ (List.cons_ne_nil _ _) fun rest =>
      .slicing x (hinner hlow hlows (by omega) (by omega))
        (hinner hhigh hhighs (by omega) (by omega)) (hinner htop htops (by omega) (by omega))
        hbounds)
  simp [Expr.spelling]

/-- A call of an operand. -/
theorem call {fn : Expr} {args : List Element} (hfn : fn.Canonical) (hoperand : fn.isOperand = true)
    (hargs : ∀ a ∈ args, a.expr.Canonical) (hdecs : ∀ a ∈ args, a.decs = .plain)
    (h : ReadableAnywhere budget fn) (hinside : ∀ a ∈ args, ReadableAnywhere budget a.expr) :
    ReadableAnywhere budget (.call fn args false .plain) := by
  intro m ctx hroom hbare
  have hlength : (Expr.call fn args false .plain).spelling.length =
      fn.spelling.length + (separated (elementSpellings args)).length + 2 := by
    simp [Expr.spelling]; omega
  have hnesting : (Expr.call fn args false .plain).nesting =
      max fn.nesting (elementsNesting args + 1) := rfl
  obtain ⟨m, rfl⟩ := hroom.below (k := 1) (by omega)
  have hread := h (hroom.part (k := 0) (by omega) (by omega))
    fun hfn => hbare (by simp [Print.hasBareComposite, hfn])
  have hinner (a : Element) (ha : a ∈ args) :
      Inner (Grammar.level budget (m + 1)) ctx.deeper.inBrackets a.expr := by
    have hsize := length_le_of_mem_elements ha
    have hdeep := nesting_le_of_mem_elements ha
    exact .inBrackets (hargs a ha) (hroom.deeper (by omega) (by omega)) (hinside a ha)
  have hcard := length_elements_le args
  refine .ofSpine (.call hfn hoperand hargs hdecs) rfl hroom
    ((hread.operand hoperand).extend (by simp [Expr.spelling]) (List.cons_ne_nil _ _)
      fun rest => .calling fn hdecs hinner ?_)
  have := hroom.turns
  rw [budget_level]
  omega

/-- A literal with a type that is a name. -/
theorem composite {type : Expr} {elements : List Element} (htype : type.isTypeName = true)
    (helements : ∀ e ∈ elements, ∀ y ∈ e.expr.parts, y.Canonical)
    (hdecs : ∀ e ∈ elements, e.decs = .plain)
    (hinside : ∀ e ∈ elements, ∀ y ∈ e.expr.parts, ReadableAnywhere budget y) :
    ReadableAnywhere budget (.composite (some type) elements .plain) := by
  intro m ctx hroom hbare
  have hlength : (Expr.composite (some type) elements .plain).spelling.length =
      type.spelling.length + (separated (elementSpellings elements)).length + 2 := by
    simp [Expr.spelling, optSpelling]; omega
  have hnesting : (Expr.composite (some type) elements .plain).nesting =
      elementsNesting elements + 1 := rfl
  have hpos : 0 < type.spelling.length ∧
      Print.hasBareComposite (.composite (some type) elements .plain) = true := by
    cases type with
    | ident => exact ⟨Nat.succ_pos _, rfl⟩
    | selector => exact ⟨by simp [Expr.spelling], rfl⟩
    | _ => cases htype
  -- an element with a key is a level further down than the element
  obtain ⟨m, rfl⟩ := hroom.below (k := 2) (by omega)
  have hinner (e : Element) (he : e ∈ elements) (y : Expr) (hy : y ∈ e.expr.parts) :
      Inner (Grammar.level budget (m + 1)) ctx.deeper.inBrackets y := by
    have hsize := length_le_of_mem_elements he
    have hdeep := nesting_le_of_mem_elements he
    have hpart := le_of_mem_parts hy
    exact .inBrackets (helements e he y hy) (hroom.deeper (by omega) (by omega))
      (hinside e he y hy)
  have hcard := length_elements_le elements
  have hlevel : 0 ≤ ctx.deeper.exprLevel := hbare hpos.2
  obtain ⟨hspine, hopens⟩ := spine_of_isTypeName (g := Grammar.level budget (m + 2)) htype hlevel
  refine .ofSpine (.composite htype helements hdecs) rfl hroom
    (hspine.extend (by simp [Expr.spelling, optSpelling]) (List.cons_ne_nil _ _)
      fun rest => .literalBody rfl hopens hdecs hinner ?_)
  have := hroom.turns
  rw [budget_level]
  omega

/-- A unary operator before an operand or a unary expression. -/
theorem unary {op : UnaryOp} (hx : x.Canonical) (hstrength : x.strength = 6)
    (h : ReadableAnywhere budget x) : ReadableAnywhere budget (.unary op x) := by
  intro m ctx hroom hbare
  have hlength : (Expr.unary op x).spelling.length = x.spelling.length + 1 := by
    simp [Expr.spelling]
  have hnesting : (Expr.unary op x).nesting = x.nesting + 1 := rfl
  have hpos := length_pos_of_canonical hx
  have hdepth := hroom.depth
  obtain ⟨m, rfl⟩ := hroom.below (k := 1) (by omega)
  refine .ofUnary (List.cons_ne_nil _ _) rfl fun semi gap rest hstop => .nested (by omega) ?_
  have hread := (h (hroom.deeper (by omega) (by omega)) hbare).unary hstrength false 0 rest hstop
  refine .peekKind ?_
  cases op with
  | recv => exact .next (.atFalse (first_ne_chan hx) (.bind hread .pure))
  | _ => exact .next (.bind hread .pure)

/-- A star before an operand or a unary expression. -/
theorem star (hx : x.Canonical) (hstrength : x.strength = 6) (h : ReadableAnywhere budget x) :
    ReadableAnywhere budget (.star x) := by
  intro m ctx hroom hbare
  have hlength : (Expr.star x).spelling.length = x.spelling.length + 1 := by simp [Expr.spelling]
  have hnesting : (Expr.star x).nesting = x.nesting + 1 := rfl
  have hpos := length_pos_of_canonical hx
  have hdepth := hroom.depth
  obtain ⟨m, rfl⟩ := hroom.below (k := 1) (by omega)
  refine .ofUnary (List.cons_ne_nil _ _) rfl fun semi gap rest hstop => .nested (by omega) ?_
  have hread := (h (hroom.deeper (by omega) (by omega)) hbare).unary hstrength false 0 rest hstop
  exact .peekKind (.next (.bind hread .pure))

/-- A binary operator, whose right operand binds more strongly. -/
theorem binary {op : BinaryOp} (hx : x.Canonical) (hy : y.Canonical)
    (hleft : op.precedence ≤ x.strength) (hright : op.precedence < y.strength)
    (h : ReadableAnywhere budget x) (hbehind : ReadableAnywhere budget y) :
    ReadableAnywhere budget (.binary x op y false) := by
  intro m ctx hroom hbare
  have hlength : (Expr.binary x op y false).spelling.length =
      x.spelling.length + y.spelling.length + 1 := by
    simp [Expr.spelling]; omega
  have hnesting : (Expr.binary x op y false).nesting = max x.nesting y.nesting := rfl
  have hpos := length_pos_of_canonical hx
  have hpos' := length_pos_of_canonical hy
  obtain ⟨m, rfl⟩ := hroom.below (k := 1) (by omega)
  have hturns := hroom.turns
  have hx' := h (hroom.part (k := 0) (by omega) (by omega))
    fun hx => hbare (by simp [Print.hasBareComposite, hx])
  have hy' := hbehind (hroom.part (by omega) (by omega))
    fun hy => hbare (by simp [Print.hasBareComposite, hy])
  obtain ⟨j, hj, hread⟩ := hx'.binary
  have hright' := hy'.parses (by rw [budget_level]; omega) hright
  refine ⟨Bool.noConfusion, fun hsix => ?_, j + 1, by omega,
    fun {strength} hstrength steps semi gap rest z v hstop hloop => ?_⟩
  · have := op.precedence_le_five
    have hsix : op.precedence = 6 := hsix
    omega
  · have hfollow : continuesExpr (x.strength + 1) ctx.exprLevel (.op op) = false :=
      decide_eq_false (by omega)
    have hstep := Yields.operation (g := Grammar.level budget (m + 1)) x hstrength
      (startsExpr_spelling hy) (hright' false 0 rest hstop)
    have hyields := hread (Nat.le_trans hstrength hleft) (steps + 1) semi gap
      (.token (.op op) :: (line y.spelling ++ rest)) _ _ hfollow (.grows hstep hloop)
    simp only [Expr.spelling, Script.line_append, Script.line_cons, List.append_assoc,
      List.cons_append, List.nil_append]
    rw [Nat.add_right_comm] at hyields
    exact hyields

end ReadableAnywhere

/-- The loops of the parser come to a canonical expression behind its tokens. -/
theorem readable_of_canonical (h : x.Canonical) : ReadableAnywhere budget x := by
  induction h with
  | ident hname =>
    exact ReadableAnywhere.atom (.ident hname) rfl (List.cons_ne_nil _ _)
      fun g ctx semi gap rest _ => .peekKind (.next .pure)
  | int htext =>
    exact ReadableAnywhere.atom (.int htext) rfl (List.cons_ne_nil _ _)
      fun g ctx semi gap rest _ => .peekKind (.next .pure)
  | string htext =>
    exact ReadableAnywhere.atom (.string htext) rfl (List.cons_ne_nil _ _)
      fun g ctx semi gap rest _ => .peekKind (.next .pure)
  | paren hx hparen ih => exact ReadableAnywhere.paren hx hparen ih
  | selector hx hoperand hint hname ih =>
    exact ReadableAnywhere.selector hx hoperand hint hname ih
  | index hx hoperand hkey ihx ihkey => exact ReadableAnywhere.index hx hoperand hkey ihx ihkey
  | slice hx hoperand hlow hhigh htop hbounds ihx ihlow ihhigh ihtop =>
    exact ReadableAnywhere.slice hx hoperand hlow hhigh htop hbounds ihx ihlow ihhigh ihtop
  | call hfn hoperand hargs hdecs ihfn ihargs =>
    exact ReadableAnywhere.call hfn hoperand hargs hdecs ihfn ihargs
  | composite htype helements hdecs ih =>
    exact ReadableAnywhere.composite htype helements hdecs ih
  | unary hx hstrength ih => exact ReadableAnywhere.unary hx hstrength ih
  | star hx hstrength ih => exact ReadableAnywhere.star hx hstrength ih
  | binary hx hy hleft hright ihx ihy =>
    exact ReadableAnywhere.binary hx hy hleft hright ihx ihy

end

end HandlerSplit.Parse
