import HandlerSplit.Proofs.Tree.CanonicalFile
import HandlerSplit.Proofs.Tree.Substitution
import Mathlib.Order.MinMax
/-!
# Substitution in canonical trees

A substitution is mild if it puts names for names, names for selectors, and for a return only what
is canonical if its values are (`Substitution.Mild`). What a mild substitution makes of a canonical
expression is canonical and may stand wherever the expression stood (`Expr.Canonical.subst`). A
statement stays canonical too, and is nested more deeply by at most what may be put for its returns
(`StmtKind.Canonical.subst`). Both are inductions with a lemma for each form that has an argument.
-/

namespace HandlerSplit

open Print (isParen hasBareComposite anyBareComposite boundHasBareComposite)

/-- A substitution that canonical trees bear. What is put for a return may be nested more deeply
by `growth`. -/
structure Substitution.Mild (s : Substitution) (growth : Nat) : Prop where
  name : ∀ n, isName n = true → isName (s.name n) = true
  expr : ∀ x y, s.expr x = some y → ∃ z n m, x = .selector z n ∧ y = .ident m ∧ isName m = true
  stmt : ∀ t t', s.stmt t = some t' → ∃ values, t.kind = .returns values ∧ t'.decs = t.decs ∧
    ((∀ v ∈ values, v.Canonical) → t'.kind.Canonical) ∧ t'.kind.nesting ≤ t.kind.nesting + growth

variable {s : Substitution} {growth : Nat}

/-! ## Expressions -/

/-- An expression may stand in a canonical tree wherever another one stands. -/
structure Expr.StandsFor (y x : Expr) : Prop where
  strength : y.strength = x.strength
  operand : x.isOperand = true → y.isOperand = true
  int : x.isInt = false → y.isInt = false
  paren : isParen x = false → isParen y = false
  bare : hasBareComposite x = false → hasBareComposite y = false
  nesting : y.nesting ≤ x.nesting

theorem Substitution.Mild.subst_cases (hs : s.Mild growth) (x : Expr) :
    x.subst s = x.substInside s ∨
      ∃ z n m, x = .selector z n ∧ x.subst s = .ident m ∧ isName m = true := by
  rw [Expr.subst, substExpr]
  cases hx : s.expr x with
  | none => exact .inl rfl
  | some y =>
    obtain ⟨z, n, m, rfl, rfl, hm⟩ := hs.expr x y hx
    exact .inr ⟨z, n, m, rfl, rfl, hm⟩

/-- What is no selector is not replaced. -/
theorem Substitution.Mild.subst_eq (hs : s.Mild growth) {x : Expr} (hx : x.selector? = none) :
    x.subst s = x.substInside s := by
  rcases hs.subst_cases x with h | ⟨z, n, m, rfl, -⟩
  · exact h
  · cases hx

/-- A list holds no literal that would open a block if none of its elements does. -/
theorem anyBareComposite_eq_false_iff {es : List Element} :
    anyBareComposite es = false ↔ ∀ e ∈ es, hasBareComposite e.expr = false := by
  induction es with
  | nil => exact iff_of_true rfl (List.forall_mem_nil _)
  | cons e es ih =>
    obtain ⟨x, d⟩ := e
    rw [anyBareComposite, Bool.or_eq_false_iff, ih, List.forall_mem_cons]

/-- A list of elements is as deep as the deepest of them. -/
theorem elementsNesting_le_iff {es : List Element} {n : Nat} :
    elementsNesting es ≤ n ↔ ∀ e ∈ es, e.expr.nesting ≤ n := by
  induction es with
  | nil => exact iff_of_true (Nat.zero_le n) (List.forall_mem_nil _)
  | cons e es ih =>
    obtain ⟨x, d⟩ := e
    rw [elementsNesting, Nat.max_le, ih, List.forall_mem_cons]

/-- What becomes of elements is nested no deeper if that holds of each. -/
theorem elementsNesting_subst_le {es : List Element}
    (h : ∀ e ∈ es, (e.expr.subst s).nesting ≤ e.expr.nesting) :
    elementsNesting (substElements s es) ≤ elementsNesting es := by
  rw [substElements_eq_map, elementsNesting_le_iff, List.forall_mem_map]
  exact fun e he => Nat.le_trans (h e he) (nesting_le_of_mem_elements he)

/-- What a substitution makes of an expression is canonical, and may stand where the expression
stood. -/
structure Expr.Survives (s : Substitution) (x : Expr) : Prop extends (x.subst s).StandsFor x where
  canonical : (x.subst s).Canonical

/-- What becomes of a bound that may be missing. -/
theorem bound_subst {x : Option Expr} (h : ∀ y ∈ x, y.Survives s) :
    (∀ y ∈ substOptExpr s x, y.Canonical) ∧
      (boundHasBareComposite x = false → boundHasBareComposite (substOptExpr s x) = false) ∧
      optNesting (substOptExpr s x) ≤ optNesting x := by
  cases x with
  | none => exact ⟨nofun, id, Nat.le_refl 0⟩
  | some y =>
    refine ⟨?_, (h y rfl).bare, (h y rfl).nesting⟩
    rintro _ ⟨⟩
    exact (h y rfl).canonical

/-- A type name stays one, since a mild substitution makes names of names. -/
theorem Expr.isTypeName_subst (hs : s.Mild growth) {x : Expr} (h : x.isTypeName = true) :
    (x.subst s).isTypeName = true := by
  cases x with
  | ident n =>
    rw [hs.subst_eq rfl]
    exact hs.name n h
  | selector y n =>
    cases y with
    | ident p =>
      obtain ⟨hp, hn⟩ := Bool.and_eq_true_iff.mp h
      rcases hs.subst_cases (.selector (.ident p) n) with h | ⟨_, _, m, -, h, hm⟩
      · have hpkg : substExpr s (.ident p) (.ident (s.name p)) = .ident (s.name p) :=
          hs.subst_eq (x := .ident p) rfl
        rw [h, substInside, substInside, hpkg]
        exact Bool.and_eq_true_iff.mpr ⟨hs.name p hp, hs.name n hn⟩
      · rw [h]
        exact hm
    | _ => cases h
  | _ => cases h

/-- A canonical expression is no pair of key and value. -/
theorem Expr.parts_of_canonical {x : Expr} (h : x.Canonical) : x.parts = [x] := by
  cases h <;> rfl

/-- A name stands for any selector. -/
theorem Expr.standsFor_ident {z : Expr} {n m : String} (hz : 0 < z.nesting) :
    (Expr.ident m).StandsFor (.selector z n) where
  strength := rfl
  operand _ := rfl
  int _ := rfl
  paren _ := rfl
  bare _ := rfl
  nesting := hz

/-- What becomes of an element, from what becomes of its parts. -/
theorem Expr.parts_subst (hs : s.Mild growth) {x : Expr} (h : ∀ y ∈ x.parts, y.Survives s) :
    (∀ y ∈ (x.subst s).parts, y.Canonical) ∧ (x.subst s).nesting ≤ x.nesting := by
  cases x with
  | keyValue k v =>
    obtain ⟨hk, hv⟩ := List.forall_mem_cons.mp h
    have hv := hv v List.mem_cons_self
    rw [hs.subst_eq rfl]
    exact ⟨List.forall_mem_cons.mpr ⟨hk.canonical, List.forall_mem_singleton.mpr hv.canonical⟩,
      max_le_max hk.nesting hv.nesting⟩
  | _ =>
    have hx := h _ List.mem_cons_self
    refine ⟨?_, hx.nesting⟩
    rw [parts_of_canonical hx.canonical]
    exact List.forall_mem_singleton.mpr hx.canonical

namespace Expr.Survives

variable {x y : Expr}

/-- An expression in parentheses, which is no expression in parentheses itself. -/
theorem inParens (hs : s.Mild growth) (hparen : isParen x = false) (h : x.Survives s) :
    (Expr.paren x).Survives s := by
  refine ⟨?_, ?_⟩ <;> rw [hs.subst_eq rfl]
  · exact ⟨rfl, id, id, id, id, Nat.succ_le_succ h.nesting⟩
  · exact .paren h.canonical (h.paren hparen)

/-- A selector on an operand, which a name may take the place of. -/
theorem selector (hs : s.Mild growth) {name : String} (hx : x.Canonical)
    (hoperand : x.isOperand = true) (hint : x.isInt = false) (hname : isName name = true)
    (h : x.Survives s) : (Expr.selector x name).Survives s := by
  rcases hs.subst_cases (.selector x name) with hsame | ⟨_, _, m, -, hput, hm⟩
  · refine ⟨?_, ?_⟩ <;> rw [hsame]
    · exact ⟨rfl, id, id, id, h.bare, h.nesting⟩
    · exact .selector h.canonical (h.operand hoperand) (h.int hint) (hs.name _ hname)
  · refine ⟨?_, ?_⟩ <;> rw [hput]
    · exact standsFor_ident (nesting_pos_of_canonical hx)
    · exact .ident hm

/-- An index of an operand. -/
theorem index (hs : s.Mild growth) (hoperand : x.isOperand = true) (h : x.Survives s)
    (hkey : y.Survives s) : (Expr.index x y).Survives s := by
  refine ⟨?_, ?_⟩ <;> rw [hs.subst_eq rfl]
  · refine ⟨rfl, id, id, id, fun hbare => ?_, ?_⟩
    · obtain ⟨hx, hy⟩ := Bool.or_eq_false_iff.mp hbare
      exact Bool.or_eq_false_iff.mpr ⟨h.bare hx, hkey.bare hy⟩
    · exact max_le_max h.nesting (Nat.succ_le_succ hkey.nesting)
  · exact .index h.canonical (h.operand hoperand) hkey.canonical

/-- A slice of an operand. -/
theorem slice (hs : s.Mild growth) {low high top : Option Expr} (hoperand : x.isOperand = true)
    (hbounds : top.isSome = true → high.isSome = true) (h : x.Survives s)
    (hlow : ∀ y ∈ low, y.Survives s) (hhigh : ∀ y ∈ high, y.Survives s)
    (htop : ∀ y ∈ top, y.Survives s) : (Expr.slice x low high top).Survives s := by
  obtain ⟨hlow, hlowBare, hlowNesting⟩ := bound_subst hlow
  obtain ⟨hhigh, hhighBare, hhighNesting⟩ := bound_subst hhigh
  obtain ⟨htop, htopBare, htopNesting⟩ := bound_subst htop
  refine ⟨?_, ?_⟩ <;> rw [hs.subst_eq rfl]
  · refine ⟨rfl, id, id, id, fun hbare => ?_, ?_⟩
    · simp only [hasBareComposite, Bool.or_eq_false_iff, Expr.substInside] at hbare ⊢
      obtain ⟨⟨⟨hx, hlow⟩, hhigh⟩, htop⟩ := hbare
      exact ⟨⟨⟨h.bare hx, hlowBare hlow⟩, hhighBare hhigh⟩, htopBare htop⟩
    · exact max_le_max h.nesting
        (Nat.succ_le_succ (max_le_max hlowNesting (max_le_max hhighNesting htopNesting)))
  · refine .slice h.canonical (h.operand hoperand) hlow hhigh htop ?_
    simpa only [substOptExpr_eq_map, Option.isSome_map] using hbounds

/-- A call of an operand. -/
theorem call (hs : s.Mild growth) {args : List Element} (hoperand : x.isOperand = true)
    (hdecs : ∀ a ∈ args, a.decs = .plain) (h : x.Survives s)
    (hargs : ∀ a ∈ args, a.expr.Survives s) : (Expr.call x args false .plain).Survives s := by
  refine ⟨?_, ?_⟩ <;> rw [hs.subst_eq rfl]
  · refine ⟨rfl, id, id, id, fun hbare => ?_, ?_⟩
    · obtain ⟨hx, hlist⟩ := Bool.or_eq_false_iff.mp hbare
      rw [anyBareComposite_eq_false_iff] at hlist
      refine Bool.or_eq_false_iff.mpr ⟨h.bare hx, anyBareComposite_eq_false_iff.mpr ?_⟩
      rw [substElements_eq_map, List.forall_mem_map]
      exact fun a ha => (hargs a ha).bare (hlist a ha)
    · exact max_le_max h.nesting
        (Nat.succ_le_succ (elementsNesting_subst_le fun a ha => (hargs a ha).nesting))
  · refine .call h.canonical (h.operand hoperand) ?_ ?_ <;>
      rw [substElements_eq_map, List.forall_mem_map]
    · exact fun a ha => (hargs a ha).canonical
    · exact hdecs

/-- A literal with a type that is a name. -/
theorem composite (hs : s.Mild growth) {type : Expr} {elements : List Element}
    (htype : type.isTypeName = true) (hdecs : ∀ e ∈ elements, e.decs = .plain)
    (h : ∀ e ∈ elements, ∀ y ∈ e.expr.parts, y.Survives s) :
    (Expr.composite (some type) elements .plain).Survives s := by
  have hparts : ∀ e ∈ elements, (∀ y ∈ (e.expr.subst s).parts, y.Canonical) ∧
      (e.expr.subst s).nesting ≤ e.expr.nesting := fun e he => parts_subst hs (h e he)
  refine ⟨?_, ?_⟩ <;> rw [hs.subst_eq rfl]
  · refine ⟨rfl, id, id, id, fun hbare => ?_, ?_⟩
    · -- The brace of a literal with a type name is bare, so the expression has no such brace.
      cases type with
      | ident | selector => cases hbare
      | _ => cases htype
    · exact Nat.succ_le_succ (elementsNesting_subst_le fun e he => (hparts e he).2)
  · refine .composite (isTypeName_subst hs htype) ?_ ?_ <;>
      rw [substElements_eq_map, List.forall_mem_map]
    · exact fun e he => (hparts e he).1
    · exact hdecs

/-- A unary operator before an operand or a unary expression. -/
theorem unary (hs : s.Mild growth) {op : UnaryOp} (hstrength : x.strength = 6)
    (h : x.Survives s) : (Expr.unary op x).Survives s := by
  refine ⟨?_, ?_⟩ <;> rw [hs.subst_eq rfl]
  · exact ⟨rfl, id, id, id, h.bare, Nat.succ_le_succ h.nesting⟩
  · exact .unary h.canonical (h.strength.trans hstrength)

/-- A star before an operand or a unary expression. -/
theorem star (hs : s.Mild growth) (hstrength : x.strength = 6) (h : x.Survives s) :
    (Expr.star x).Survives s := by
  refine ⟨?_, ?_⟩ <;> rw [hs.subst_eq rfl]
  · exact ⟨rfl, id, id, id, h.bare, Nat.succ_le_succ h.nesting⟩
  · exact .star h.canonical (h.strength.trans hstrength)

/-- A binary operator between operands that bind strongly enough. -/
theorem binary (hs : s.Mild growth) {op : BinaryOp} (hleft : op.precedence ≤ x.strength)
    (hright : op.precedence < y.strength) (hx : x.Survives s) (hy : y.Survives s) :
    (Expr.binary x op y false).Survives s := by
  refine ⟨?_, ?_⟩ <;> rw [hs.subst_eq rfl]
  · refine ⟨rfl, id, id, id, fun hbare => ?_, max_le_max hx.nesting hy.nesting⟩
    obtain ⟨hxBare, hyBare⟩ := Bool.or_eq_false_iff.mp hbare
    exact Bool.or_eq_false_iff.mpr ⟨hx.bare hxBare, hy.bare hyBare⟩
  · exact .binary hx.canonical hy.canonical (hx.strength ▸ hleft) (hy.strength ▸ hright)

end Expr.Survives

/-- A canonical expression survives every mild substitution. -/
theorem Expr.Canonical.subst (hs : s.Mild growth) {x : Expr} (h : x.Canonical) : x.Survives s := by
  induction h with
  | ident hname =>
    refine ⟨?_, ?_⟩ <;> rw [hs.subst_eq rfl]
    · exact ⟨rfl, id, id, id, id, Nat.le_refl _⟩
    · exact .ident (hs.name _ hname)
  | int htext =>
    refine ⟨?_, ?_⟩ <;> rw [hs.subst_eq rfl]
    · exact ⟨rfl, id, id, id, id, Nat.le_refl _⟩
    · exact .int htext
  | string htext =>
    refine ⟨?_, ?_⟩ <;> rw [hs.subst_eq rfl]
    · exact ⟨rfl, id, id, id, id, Nat.le_refl _⟩
    · exact .string htext
  | paren _ hparen ih => exact .inParens hs hparen ih
  | selector hx hoperand hint hname ih => exact .selector hs hx hoperand hint hname ih
  | index _ hoperand _ ih ihkey => exact .index hs hoperand ih ihkey
  | slice _ hoperand _ _ _ hbounds ih ihlow ihhigh ihtop =>
    exact .slice hs hoperand hbounds ih ihlow ihhigh ihtop
  | call _ hoperand _ hdecs ih ihargs => exact .call hs hoperand hdecs ih ihargs
  | composite htype _ hdecs ih => exact .composite hs htype hdecs ih
  | unary _ hstrength ih => exact .unary hs hstrength ih
  | star _ hstrength ih => exact .star hs hstrength ih
  | binary _ _ hleft hright ihx ihy => exact .binary hs hleft hright ihx ihy

/-! ## Lists of expressions, statements and clauses -/

/-- A list of expressions is as deep as the deepest of them. -/
theorem exprsNesting_le_iff {xs : List Expr} {n : Nat} :
    exprsNesting xs ≤ n ↔ ∀ x ∈ xs, x.nesting ≤ n := by
  induction xs with
  | nil => exact iff_of_true (Nat.zero_le n) (List.forall_mem_nil _)
  | cons x xs ih => rw [exprsNesting, Nat.max_le, ih, List.forall_mem_cons]

theorem stmtsNesting_le_iff {ts : List Stmt} {n : Nat} :
    stmtsNesting ts ≤ n ↔ ∀ t ∈ ts, t.kind.nesting ≤ n := by
  induction ts with
  | nil => exact iff_of_true (Nat.zero_le n) (List.forall_mem_nil _)
  | cons t ts ih =>
    obtain ⟨k, d⟩ := t
    rw [stmtsNesting, Nat.max_le, ih, List.forall_mem_cons]
    rfl

theorem clausesNesting_le_iff {cs : List Clause} {n : Nat} :
    clausesNesting cs ≤ n ↔ ∀ c ∈ cs, c.head.nesting ≤ n ∧ stmtsNesting c.body ≤ n := by
  induction cs with
  | nil => exact iff_of_true (Nat.zero_le n) (List.forall_mem_nil _)
  | cons c cs ih =>
    obtain ⟨head, body, d⟩ := c
    rw [clausesNesting, Nat.max_le, Nat.max_le, ih, List.forall_mem_cons]

/-- What becomes of canonical expressions. -/
theorem exprs_subst (hs : s.Mild growth) {xs : List Expr} (h : ∀ x ∈ xs, x.Canonical) :
    (∀ x ∈ substExprs s xs, x.Canonical) ∧ exprsNesting (substExprs s xs) ≤ exprsNesting xs := by
  rw [substExprs_eq_map, exprsNesting_le_iff, List.forall_mem_map, List.forall_mem_map]
  refine ⟨fun x hx => ((h x hx).subst hs).canonical, fun x hx => ?_⟩
  exact Nat.le_trans ((h x hx).subst hs).nesting (nesting_le_of_mem_exprs hx)

/-- A statement is canonical, has the layout of another one, and is nested more deeply by at most
`growth`. -/
structure Stmt.Succeeds (growth : Nat) (t t' : Stmt) : Prop where
  decs : t'.decs = t.decs
  canonical : t'.kind.Canonical
  nesting : t'.kind.nesting ≤ t.kind.nesting + growth

/-- What a substitution makes of a statement is canonical, and nested more deeply by at most
`growth`. -/
structure StmtKind.Survives (s : Substitution) (growth : Nat) (k : StmtKind) : Prop where
  canonical : (k.substInside s).Canonical
  nesting : (k.substInside s).nesting ≤ k.nesting + growth

/-- What becomes of a canonical statement, from what becomes of its parts. -/
theorem Stmt.succeeds_subst (hs : s.Mild growth) {t : Stmt} (h : t.kind.Canonical)
    (hinside : t.kind.Survives s growth) : t.Succeeds growth (t.subst s) := by
  obtain ⟨k, d⟩ := t
  rw [Stmt.subst]
  cases ht : s.stmt ⟨k, d⟩ with
  | none => exact ⟨rfl, hinside.canonical, hinside.nesting⟩
  | some t' =>
    obtain ⟨values, hkind, hdecs, hcanonical, hnesting⟩ := hs.stmt _ t' ht
    refine ⟨hdecs, hcanonical ?_, hnesting⟩
    rw [hkind] at h
    cases h with
    | simple hsimple => cases hsimple
    | returns hvalues => exact hvalues

/-- What becomes of statements, from what becomes of each. -/
theorem stmts_subst {ts : List Stmt} (h : ∀ t ∈ ts, t.Succeeds growth (t.subst s)) :
    (substStmts s ts).map Stmt.decs = ts.map Stmt.decs ∧
      (∀ t ∈ substStmts s ts, t.kind.Canonical) ∧
      stmtsNesting (substStmts s ts) ≤ stmtsNesting ts + growth := by
  rw [substStmts_eq_map, stmtsNesting_le_iff, List.forall_mem_map, List.forall_mem_map,
    List.map_map]
  refine ⟨List.map_congr_left fun t ht => (h t ht).decs, fun t ht => (h t ht).canonical,
    fun t ht => ?_⟩
  exact Nat.le_trans (h t ht).nesting
    (Nat.add_le_add_right (nesting_le_of_mem_stmts ht) growth)

/-! ## Headers -/

/-- A simple statement stays simple, with its expressions substituted. -/
theorem StmtKind.Simple.subst {k : StmtKind} (h : k.Simple) :
    (k.substInside s).Simple ∧ (k.substInside s).exprs = substExprs s k.exprs := by
  cases h with
  | expr x => exact ⟨.expr _, rfl⟩
  | assign hlhs hop hrhs =>
    simp only [StmtKind.substInside, StmtKind.exprs, substExprs_eq_map, List.map_append, and_true]
    exact .assign (by simpa using hlhs) hop (by simpa using hrhs)
  | incDec x up => exact ⟨.incDec _ up, rfl⟩
  | send c v => exact ⟨.send _ _, rfl⟩

/-- A canonical expression of a header stays one. -/
theorem Expr.CanonicalHeader.subst (hs : s.Mild growth) {x : Expr} (h : x.CanonicalHeader) :
    (x.subst s).CanonicalHeader :=
  ⟨(h.canonical.subst hs).canonical, (h.canonical.subst hs).bare h.bare⟩

/-- A canonical condition stays one, and is still no literal that would open the block. -/
theorem Expr.CanonicalCondition.subst (hs : s.Mild growth) {x : Expr} (h : x.CanonicalCondition) :
    (x.subst s).CanonicalCondition :=
  ⟨h.toCanonicalHeader.subst hs, (h.canonical.subst hs).paren h.paren⟩

/-- What becomes of an expression of a header that may be missing. -/
theorem optExpr_subst (hs : s.Mild growth) {P : Expr → Prop} {x : Option Expr}
    (hcanonical : ∀ y, P y → y.Canonical) (hsubst : ∀ y, P y → P (y.subst s)) (h : ∀ y ∈ x, P y) :
    (∀ y ∈ substOptExpr s x, P y) ∧ optNesting (substOptExpr s x) ≤ optNesting x := by
  cases x with
  | none => exact ⟨nofun, Nat.le_refl 0⟩
  | some y =>
    have hy := h y rfl
    refine ⟨?_, ((hcanonical y hy).subst hs).nesting⟩
    rintro _ ⟨⟩
    exact hsubst y hy

/-- What becomes of a statement of a header. No return stands there. -/
theorem headerStmt_subst (hs : s.Mild growth) {t : Option Stmt}
    (h : ∀ t' ∈ t, t'.CanonicalHeader) :
    (∀ t' ∈ substOptStmt s t, t'.CanonicalHeader) ∧
      clauseNesting (substOptStmt s t) ≤ clauseNesting t := by
  cases t with
  | none => exact ⟨nofun, Nat.le_refl 0⟩
  | some t =>
    obtain ⟨hdecs, hsimple, hexprs⟩ := h t rfl
    obtain ⟨k, d⟩ := t
    have hnone : s.stmt ⟨k, d⟩ = none := by
      rw [Option.eq_none_iff_forall_ne_some]
      intro t' ht'
      obtain ⟨values, rfl, -⟩ := hs.stmt _ t' ht'
      cases hsimple
    have hsubst : Stmt.subst s ⟨k, d⟩ = ⟨k.substInside s, d⟩ := by
      rw [Stmt.subst, hnone]
      rfl
    obtain ⟨hsimple', hexprs'⟩ := hsimple.subst (s := s)
    rw [substOptStmt, hsubst]
    constructor
    · rintro _ ⟨⟩
      refine ⟨hdecs, hsimple', ?_⟩
      rw [hexprs', substExprs_eq_map, List.forall_mem_map]
      exact fun x hx => (hexprs x hx).subst hs
    · show exprsNesting (k.substInside s).exprs ≤ exprsNesting k.exprs
      rw [hexprs']
      exact (exprs_subst hs fun x hx => (hexprs x hx).canonical).2

/-! ## Statements -/

/-- The head of a clause stays canonical and takes no more levels. -/
theorem ClauseHead.Canonical.subst (hs : s.Mild growth) {head : ClauseHead} (h : head.Canonical) :
    (head.subst s).Canonical ∧ (head.subst s).nesting ≤ head.nesting := by
  cases h with
  | default => exact ⟨.default, Nat.le_refl 0⟩
  | @values xs hne hxs =>
    obtain ⟨hcanonical, hnesting⟩ := exprs_subst hs hxs
    refine ⟨.values ?_ hcanonical, hnesting⟩
    rw [substExprs_eq_map]
    simpa using hne

/-- What follows an `if` is substituted as the statement it is. -/
theorem Else.branch?_subst (s : Substitution) (e : Else) :
    (e.subst s).branch? = e.branch?.map (·.substInside s) := by
  cases e <;> rfl

/-- What becomes of a body, from what becomes of its statements. -/
theorem body_subst (hs : s.Mild growth) {ss : List Stmt} (hss : ∀ t ∈ ss, t.kind.Canonical)
    (h : ∀ t ∈ ss, t.kind.Survives s growth) :
    (substStmts s ss).map Stmt.decs = ss.map Stmt.decs ∧
      (∀ t ∈ substStmts s ss, t.kind.Canonical) ∧
      ((Block.of ss).subst s).nesting ≤ (Block.of ss).nesting + growth := by
  obtain ⟨hdecs, hcanonical, hnesting⟩ :=
    stmts_subst fun t ht => Stmt.succeeds_subst hs (hss t ht) (h t ht)
  refine ⟨hdecs, hcanonical, ?_⟩
  show stmtsNesting (substStmts s ss) + 1 ≤ stmtsNesting ss + 1 + growth
  omega

/-- What becomes of what follows `else`. -/
theorem else_subst {e : Else} (h : ∀ k ∈ e.branch?, k.Survives s growth) :
    (∀ k ∈ (e.subst s).branch?, k.Canonical) ∧ (e.subst s).nesting ≤ e.nesting + growth := by
  rw [Else.nesting_eq, Else.nesting_eq, Else.branch?_subst]
  cases hbranch : e.branch? with
  | none => exact ⟨nofun, Nat.zero_le _⟩
  | some k =>
    refine ⟨?_, (h k hbranch).nesting⟩
    rintro _ ⟨⟩
    exact (h k hbranch).canonical

/-- What becomes of the clauses of a switch, from what becomes of the statements in them. -/
theorem clauses_subst (hs : s.Mild growth) {cs : List Clause}
    (hheads : ∀ c ∈ cs, c.head.Canonical)
    (h : ∀ c ∈ cs, ∀ t ∈ c.body, t.Succeeds growth (t.subst s)) :
    (substClauses s cs).map Clause.decs = cs.map Clause.decs ∧
      (∀ c' ∈ substClauses s cs, ∃ c ∈ cs, c'.head.Canonical ∧
        c'.body.map Stmt.decs = c.body.map Stmt.decs ∧ ∀ t ∈ c'.body, t.kind.Canonical) ∧
      clausesNesting (substClauses s cs) ≤ clausesNesting cs + growth := by
  rw [substClauses_eq_map, clausesNesting_le_iff, List.forall_mem_map, List.forall_mem_map,
    List.map_map]
  simp only [← substStmts_eq_map]
  refine ⟨rfl, fun c hc => ?_, fun c hc => ?_⟩
  · obtain ⟨hdecs, hcanonical, -⟩ := stmts_subst (h c hc)
    exact ⟨c, hc, ((hheads c hc).subst hs).1, hdecs, hcanonical⟩
  · obtain ⟨-, -, hnesting⟩ := stmts_subst (h c hc)
    have hhead := ((hheads c hc).subst hs).2
    have hmem := nesting_le_of_mem_clauses hc
    exact ⟨by omega, by omega⟩

namespace StmtKind.Survives

variable {ss : List Stmt}

/-- A simple statement, from its expressions. -/
theorem simple (hs : s.Mild growth) {k : StmtKind} (hkind : k.Simple)
    (hexprs : ∀ x ∈ k.exprs, x.Canonical) : k.Survives s growth := by
  obtain ⟨hkind', hexprs'⟩ := hkind.subst (s := s)
  obtain ⟨hcanonical, hnesting⟩ := exprs_subst hs hexprs
  refine ⟨.simple hkind' (hexprs' ▸ hcanonical), ?_⟩
  rw [hkind.nesting_eq, hkind'.nesting_eq, hexprs']
  exact Nat.le_add_right_of_le hnesting

/-- A branch, whose label is renamed. -/
theorem branch (hs : s.Mild growth) {kind : BranchKind} {label : Option String}
    (hallows : kind.allows label = true) (hlabel : ∀ l ∈ label, isName l = true) :
    (StmtKind.branch kind label).Survives s growth := by
  refine ⟨.branch ?_ ?_, Nat.zero_le _⟩
  · cases kind <;> cases label <;> exact hallows
  · intro l hl
    obtain ⟨n, hn, rfl⟩ := Option.map_eq_some_iff.mp hl
    exact hs.name n (hlabel n hn)

/-- An `if` with what follows it. -/
theorem ifThen (hs : s.Mild growth) {init : Option Stmt} {cond : Expr} {otherwise : Else}
    (hinit : ∀ t ∈ init, t.CanonicalHeader) (hcond : cond.CanonicalCondition)
    (hlines : OwnLines (ss.map Stmt.decs)) (hss : ∀ t ∈ ss, t.kind.Canonical)
    (h : ∀ t ∈ ss, t.kind.Survives s growth)
    (helse : ∀ k ∈ otherwise.branch?, k.Survives s growth) :
    (StmtKind.ifThen init cond (.of ss) otherwise).Survives s growth := by
  obtain ⟨hinit, hinitNesting⟩ := headerStmt_subst hs hinit
  obtain ⟨hdecs, hcanonical, hnesting⟩ := body_subst hs hss h
  have hcondNesting := (hcond.canonical.subst hs).nesting
  obtain ⟨helse, helseNesting⟩ := else_subst helse
  refine ⟨.ifThen hinit (hcond.subst hs) (hdecs ▸ hlines) hcanonical helse, ?_⟩
  show max (max _ (Expr.subst s _).nesting) (max _ _) ≤ max (max _ _) (max _ _) + growth
  omega

/-- A loop with clauses, any of which may be missing. -/
theorem forLoop (hs : s.Mild growth) {init : Option Stmt} {cond : Option Expr}
    {post : Option Stmt} (hinit : ∀ t ∈ init, t.CanonicalHeader)
    (hcond : ∀ x ∈ cond, x.CanonicalCondition) (hpost : ∀ t ∈ post, t.CanonicalHeader)
    (hlines : OwnLines (ss.map Stmt.decs)) (hss : ∀ t ∈ ss, t.kind.Canonical)
    (h : ∀ t ∈ ss, t.kind.Survives s growth) :
    (StmtKind.forLoop init cond post (.of ss)).Survives s growth := by
  obtain ⟨hinit, hinitNesting⟩ := headerStmt_subst hs hinit
  obtain ⟨hcond, hcondNesting⟩ :=
    optExpr_subst hs (fun _ h => h.canonical) (fun _ h => h.subst hs) hcond
  obtain ⟨hpost, hpostNesting⟩ := headerStmt_subst hs hpost
  obtain ⟨hdecs, hcanonical, hnesting⟩ := body_subst hs hss h
  refine ⟨.forLoop hinit hcond hpost (hdecs ▸ hlines) hcanonical, ?_⟩
  show max (max _ (max _ _)) _ ≤ max (max _ (max _ _)) _ + growth
  omega

/-- A loop over a range, with variables or without. -/
theorem rangeLoop (hs : s.Mild growth) {key value : Option Expr} {define : Bool} {x : Expr}
    (hkey : ∀ y ∈ key, y.CanonicalHeader) (hvalue : ∀ y ∈ value, y.CanonicalHeader)
    (hvars : value.isSome = true → key.isSome = true)
    (hdefine : define = true → key.isSome = true) (hx : x.CanonicalCondition)
    (hlines : OwnLines (ss.map Stmt.decs)) (hss : ∀ t ∈ ss, t.kind.Canonical)
    (h : ∀ t ∈ ss, t.kind.Survives s growth) :
    (StmtKind.rangeLoop key value define x (.of ss)).Survives s growth := by
  obtain ⟨hkey, hkeyNesting⟩ :=
    optExpr_subst hs (fun _ h => h.canonical) (fun _ h => h.subst hs) hkey
  obtain ⟨hvalue, hvalueNesting⟩ :=
    optExpr_subst hs (fun _ h => h.canonical) (fun _ h => h.subst hs) hvalue
  have hxNesting := (hx.canonical.subst hs).nesting
  obtain ⟨hdecs, hcanonical, hnesting⟩ := body_subst hs hss h
  refine ⟨.rangeLoop hkey hvalue ?_ ?_ (hx.subst hs) (hdecs ▸ hlines) hcanonical, ?_⟩
  · simpa only [substOptExpr_eq_map, Option.isSome_map] using hvars
  · simpa only [substOptExpr_eq_map, Option.isSome_map] using hdefine
  · show max (max _ (max _ (Expr.subst s _).nesting)) _ ≤ max (max _ (max _ _)) _ + growth
    omega

/-- A switch whose clauses stand on lines of their own. -/
theorem switch (hs : s.Mild growth) {init : Option Stmt} {tag : Option Expr} {cs : List Clause}
    (hinit : ∀ t ∈ init, t.CanonicalHeader) (htag : ∀ x ∈ tag, x.CanonicalCondition)
    (hclauses : OwnLines (cs.map Clause.decs)) (hheads : ∀ c ∈ cs, c.head.Canonical)
    (hlines : ∀ c ∈ cs, OwnLines (c.body.map Stmt.decs))
    (hss : ∀ c ∈ cs, ∀ t ∈ c.body, t.kind.Canonical)
    (h : ∀ c ∈ cs, ∀ t ∈ c.body, t.kind.Survives s growth) :
    (StmtKind.switch init tag cs .multiLine).Survives s growth := by
  obtain ⟨hinit, hinitNesting⟩ := headerStmt_subst hs hinit
  obtain ⟨htag, htagNesting⟩ :=
    optExpr_subst hs (fun _ h => h.canonical) (fun _ h => h.subst hs) htag
  obtain ⟨hdecs, hkept, hnesting⟩ := clauses_subst hs hheads fun c hc t ht =>
    Stmt.succeeds_subst hs (hss c hc t ht) (h c hc t ht)
  refine ⟨.switch hinit htag (hdecs ▸ hclauses) (fun c' hc' => ?_) (fun c' hc' => ?_)
    (fun c' hc' => ?_), ?_⟩
  · obtain ⟨-, -, hhead, -⟩ := hkept c' hc'
    exact hhead
  · obtain ⟨c, hc, -, hdecs, -⟩ := hkept c' hc'
    exact hdecs ▸ hlines c hc
  · obtain ⟨-, -, -, -, hcanonical⟩ := hkept c' hc'
    exact hcanonical
  · show max (max _ _) _ ≤ max (max _ _) _ + growth
    omega

/-- A label on the line above its statement. -/
theorem labeled (hs : s.Mild growth) {label : String} {t : Stmt} (hlabel : isName label = true)
    (hdecs : t.decs = .ownLine) (ht : t.kind.Canonical) (h : t.kind.Survives s growth) :
    (StmtKind.labeled label t).Survives s growth := by
  obtain ⟨hdecs', hcanonical, hnesting⟩ := Stmt.succeeds_subst hs ht h
  refine ⟨.labeled (hs.name _ hlabel) (hdecs'.trans hdecs) hcanonical, ?_⟩
  obtain ⟨k, d⟩ := t
  have hlabeled (t : Stmt) :
      (StmtKind.labeled (s.name label) t).nesting = max 1 t.kind.nesting := by
    obtain ⟨k, d⟩ := t
    rfl
  rw [StmtKind.substInside, hlabeled]
  show _ ≤ max 1 k.nesting + growth
  change _ ≤ k.nesting + growth at hnesting
  omega

end StmtKind.Survives

/-- A canonical statement survives every mild substitution. -/
theorem StmtKind.Canonical.subst (hs : s.Mild growth) {k : StmtKind} (h : k.Canonical) :
    k.Survives s growth := by
  induction h with
  | simple hkind hexprs => exact .simple hs hkind hexprs
  | returns hvalues =>
    obtain ⟨hcanonical, hnesting⟩ := exprs_subst hs hvalues
    exact ⟨.returns hcanonical, Nat.le_add_right_of_le hnesting⟩
  | branch hallows hlabel => exact .branch hs hallows hlabel
  | go hcall =>
    obtain ⟨hcanonical, hnesting⟩ := exprs_subst hs (List.forall_mem_singleton.mpr hcall)
    exact ⟨.go (hcanonical _ List.mem_cons_self), Nat.le_add_right_of_le hnesting⟩
  | defer hcall =>
    obtain ⟨hcanonical, hnesting⟩ := exprs_subst hs (List.forall_mem_singleton.mpr hcall)
    exact ⟨.defer (hcanonical _ List.mem_cons_self), Nat.le_add_right_of_le hnesting⟩
  | block hlines hss ih =>
    obtain ⟨hdecs, hcanonical, hnesting⟩ := body_subst hs hss ih
    exact ⟨.block (hdecs ▸ hlines) hcanonical, hnesting⟩
  | ifThen hinit hcond hlines hss _ ih ihelse =>
    exact .ifThen hs hinit hcond hlines hss ih ihelse
  | forLoop hinit hcond hpost hlines hss ih => exact .forLoop hs hinit hcond hpost hlines hss ih
  | rangeLoop hkey hvalue hvars hdefine hx hlines hss ih =>
    exact .rangeLoop hs hkey hvalue hvars hdefine hx hlines hss ih
  | switch hinit htag hclauses hheads hlines hss ih =>
    exact .switch hs hinit htag hclauses hheads hlines hss ih
  | labeled hlabel hdecs ht ih => exact .labeled hs hlabel hdecs ht ih

end HandlerSplit
