import HandlerSplit.Proofs.Parse.Built.File
import HandlerSplit.Proofs.Parse.Canonical.Expr
import HandlerSplit.Proofs.Print.Canonical
/-!
# Parentheses in headers

The printer leaves out the parentheses around the condition of a control header, unless a literal
inside would open the body. It looks for literals whose type is a name or a selected name. The
parser refuses those of any type that may be named (`Expr.mayNameType`), also in parentheses of its
own or with type arguments. So the two agree on what is left without parentheses if and only if none
of its literals outside of brackets has such a type (`strippedHeader`).
-/

namespace HandlerSplit

/-! ## Conditions -/

/-- The conditions behind `else`. -/
def Else.conditions : Else → List Expr
  | .elseIf _ cond _ otherwise => cond :: otherwise.conditions
  | _ => []
termination_by structural e => e

/-- The expressions of a header around which parentheses may be left out: the conditions of `if` and
`for`, the expression that is ranged over and the tag of a switch. -/
def StmtKind.conditions : StmtKind → List Expr
  | .ifThen _ cond _ otherwise => cond :: otherwise.conditions
  | .forLoop _ cond _ _ => cond.toList
  | .rangeLoop _ _ _ x _ => [x]
  | .switch _ tag _ _ => tag.toList
  | _ => []

theorem Else.covered_conditions {e : Else} (h : e.HeadersCovered) :
    ∀ x ∈ e.conditions, x.Covered := by
  match e with
  | .none => exact nofun
  | .block b => exact nofun
  | .elseIf init cond body otherwise =>
    exact List.forall_mem_cons.mpr ⟨h.2.1, covered_conditions h.2.2⟩

theorem StmtKind.covered_conditions {kind : StmtKind} (h : kind.HeadersCovered) :
    ∀ x ∈ kind.conditions, x.Covered := by
  cases kind with
  | ifThen => exact List.forall_mem_cons.mpr ⟨h.2.1, Else.covered_conditions h.2.2⟩
  | forLoop => exact fun x hx => h.2.1 x (Option.mem_toList.mp hx)
  | rangeLoop => exact List.forall_mem_singleton.mpr h.2.2
  | switch => exact fun x hx => h.2 x (Option.mem_toList.mp hx)
  | _ => exact nofun

theorem Else.subset_of_mem_conditions {e : Else} {x : Expr} (h : x ∈ e.conditions) :
    x.events ⊆ e.events := by
  match e with
  | .none => cases h
  | .block b => cases h
  | .elseIf init cond body otherwise =>
    rcases List.mem_cons.mp h with rfl | h
    · intro event hevent
      simp only [Else.events, List.mem_append]
      exact .inl (.inl (.inr hevent))
    · exact List.Subset.trans (subset_of_mem_conditions h) (List.subset_append_right _ _)

theorem StmtKind.subset_of_mem_conditions {kind : StmtKind} {x : Expr} (h : x ∈ kind.conditions) :
    x.events ⊆ kind.inside := by
  cases kind with
  | ifThen init cond body otherwise =>
    exact Else.subset_of_mem_conditions (e := .elseIf init cond body otherwise) h
  | forLoop init cond post body =>
    obtain rfl : cond = some x := Option.mem_toList.mp h
    intro event hevent
    simp only [StmtKind.inside, optExprEvents, List.mem_append]
    exact .inl (.inl (.inr hevent))
  | rangeLoop key value define y body =>
    obtain rfl := List.mem_singleton.mp h
    intro event hevent
    simp only [StmtKind.inside, List.mem_append]
    exact .inl (.inr hevent)
  | switch init tag clauses braces =>
    obtain rfl : tag = some x := Option.mem_toList.mp h
    intro event hevent
    simp only [StmtKind.inside, optExprEvents, List.mem_append]
    exact .inl (.inr hevent)
  | _ => cases h

/-! ## What is left without parentheses -/

namespace Expr

/-- A condition without the parentheses that the printer leaves out. -/
def stripParens : Expr → Expr
  | .paren x => if Print.hasBareComposite x then .paren x else x.stripParens
  | x => x
termination_by structural x => x

/-- Whether the expression may name a type and is neither a name nor a selected name. -/
def escapes (t : Expr) : Bool :=
  match t with
  | ident _ | selector _ _ => false
  | _ => t.mayNameType

/-- What is left where parentheses have been left out holds no literal that the printer
looks for. -/
theorem hasBareComposite_stripParens {x : Expr} (h : x.stripParens ≠ x) :
    Print.hasBareComposite x.stripParens = false := by
  fun_induction stripParens x with
  | case1 y hbare => exact absurd rfl h
  | case2 y hbare ih =>
    by_cases hsame : y.stripParens = y
    · rw [hsame]
      exact Bool.eq_false_iff.mpr hbare
    · exact ih hsame
  | case3 x hparen => exact absurd rfl h

theorem stripParens_subset (x : Expr) : x.stripParens.events ⊆ x.events := by
  fun_induction stripParens x with
  | case1 y hbare => exact List.Subset.refl _
  | case2 y hbare ih => exact List.Subset.trans ih (Event.inside_subset _ _ _)
  | case3 x hparen => exact List.Subset.refl _

end Expr

/-- The condition of a header is printed without those parentheses. -/
theorem Print.exprOutput_header (style : Style) (x : Expr) (indent : Nat) :
    exprOutput style x (.header indent) = exprOutput style x.stripParens (.atStart indent) := by
  fun_induction Expr.stripParens x with
  | case1 y hbare =>
    simp only [exprOutput, hbare]
    rfl
  | case2 y hbare ih =>
    rw [← ih]
    simp only [exprOutput, Bool.eq_false_iff.mpr hbare]
    rfl
  | case3 x hparen =>
    -- the place decides about the parentheses of `x` alone
    cases x with
    | paren y => exact absurd rfl (hparen y)
    | _ => rfl

/-! ## Agreement with the parser -/

namespace Expr

/-- Where the printer finds no literal of a named type, and none has a type that escapes it, the
parser finds no literal that it would refuse in a header. -/
theorem covered_of_escapes {Q : Stmt → Prop} (x : Expr) (hx : Event.Nodes Typed Q x.events)
    (hbare : Print.hasBareComposite x = false) (hescapes : ∀ t ∈ x.openTypes, t.escapes = false) :
    x.Covered := by
  have htyped : x.Typed := hx.head
  have hinside : Event.Nodes Typed Q x.inside := hx.subset (Event.inside_subset _ _ _)
  match x with
  | .ident _ | .literal _ _ | .paren _ => exact covered_of_openTypes rfl
  | .funcLit _ _ | .arrayType _ _ | .chanType _ _ | .funcType _ | .structType _
  | .interfaceType _ | .ellipsis _ => exact covered_of_openTypes htyped
  | .mapType _ _ => exact covered_of_openTypes (List.append_eq_nil_iff.mpr htyped)
  | .composite none _ _ => exact covered_of_openTypes rfl
  | .composite (some t) _ _ =>
    obtain ⟨ht, -⟩ := List.forall_mem_cons.mp hescapes
    have hname : t.mayNameType = false := by
      cases t with
      | ident => cases hbare
      | selector => cases hbare
      | _ => exact ht
    refine List.forall_mem_cons.mpr ⟨hname, ?_⟩
    show ∀ u ∈ t.openTypes, _
    rw [htyped hname]
    exact nofun
  | .star y | .unary _ y => exact covered_of_escapes y hinside hbare hescapes
  | .selector y name =>
    exact covered_of_escapes y (hinside.subset (List.subset_append_left y.events [.name name])) hbare
      hescapes
  | .index y key =>
    obtain ⟨hbare, -⟩ := Bool.or_eq_false_iff.mp hbare
    exact covered_of_escapes y (hinside.subset (List.subset_append_left y.events key.events)) hbare
      hescapes
  | .slice y low high max =>
    have hy : y.events ⊆ (Expr.slice y low high max).inside :=
      fun e he => List.mem_append_left _ (List.mem_append_left _ (List.mem_append_left _ he))
    obtain ⟨hbare, -⟩ := Bool.or_eq_false_iff.mp hbare
    obtain ⟨hbare, -⟩ := Bool.or_eq_false_iff.mp hbare
    obtain ⟨hbare, -⟩ := Bool.or_eq_false_iff.mp hbare
    exact covered_of_escapes y (hinside.subset hy) hbare hescapes
  | .call y args variadic parens =>
    obtain ⟨hbare, -⟩ := Bool.or_eq_false_iff.mp hbare
    exact covered_of_escapes y (hinside.subset (List.subset_append_left y.events _)) hbare hescapes
  | .typeAssert y t =>
    have hopen : (Expr.typeAssert y t).openTypes = y.openTypes := by
      rw [openTypes, show optOpenTypes t = [] from htyped, List.append_nil]
    rw [Covered, hopen]
    rw [hopen] at hescapes
    exact covered_of_escapes y (hinside.subset (List.subset_append_left y.events _)) hbare hescapes
  | .binary y _ z _ | .keyValue y z =>
    obtain ⟨hy, hz⟩ := Bool.or_eq_false_iff.mp hbare
    obtain ⟨hescapesY, hescapesZ⟩ := List.forall_mem_append.mp hescapes
    have hleft := hinside.subset (List.subset_append_left y.events z.events)
    have hright := hinside.subset (List.subset_append_right y.events z.events)
    exact List.forall_mem_append.mpr
      ⟨covered_of_escapes y hleft hy hescapesY, covered_of_escapes z hright hz hescapesZ⟩

/-- A literal with a type that escapes the printer is refused in a header. -/
theorem escapes_of_covered {x : Expr} (h : x.Covered) : ∀ t ∈ x.openTypes, t.escapes = false := by
  intro t ht
  have hname := h t ht
  cases t with
  | ident => rfl
  | selector => rfl
  | _ => exact hname

end Expr

/-! ## Headers of accepted files -/

open Parse in
/-- Where the printer leaves out the parentheses around a condition, what is left can stand in a
header if and only if no literal outside of brackets has a type that escapes the printer. If one
has, no accepted file has a header with what is left. If what is left is canonical, the printed
header is read as that, up to the brace of the body. -/
theorem strippedHeader {source : String} {file : SourceFile} (h : parseFile source = .ok file)
    {s : Stmt} (hs : .enterStmt s ∈ file.events) {e : Expr} (he : e ∈ s.kind.conditions)
    (hstrip : e.stripParens ≠ e) (style : Print.Style) (indent : Nat) :
    Print.exprOutput style e (.header indent) =
        Print.exprOutput style e.stripParens (.atStart indent) ∧
      (e.stripParens.Covered ↔ ∀ t ∈ e.stripParens.openTypes, t.escapes = false) ∧
      (¬e.stripParens.Covered → ∀ source' file', parseFile source' = .ok file' →
        ∀ s', .enterStmt s' ∈ file'.events → e.stripParens ∉ s'.kind.conditions) ∧
      (e.stripParens.Canonical → ∀ budget m ctx rest, Room budget m ctx e.stripParens →
        ctx.exprLevel < 0 →
        Yields (Grammar.level budget (m + 1)).expr
          (Script.view ((Print.exprOutput style e (.header indent)).script ++
            .token (.punct .lbrace) :: rest) false 0 ctx)
          e.stripParens (Script.view (.token (.punct .lbrace) :: rest) true 0 ctx)) := by
  have hbare := Expr.hasBareComposite_stripParens hstrip
  have hprinted := Print.exprOutput_header style e indent
  refine ⟨hprinted, ⟨Expr.escapes_of_covered, fun hescapes => ?_⟩, ?_, ?_⟩
  · have hstmt : s.events ⊆ file.events := file.complete _ hs
    have hinside : s.kind.inside ⊆ s.events := by
      obtain ⟨kind, d⟩ := s
      exact Event.inside_subset _ _ _
    have hsub := List.Subset.trans e.stripParens_subset
      (List.Subset.trans (StmtKind.subset_of_mem_conditions he) (List.Subset.trans hinside hstmt))
    have hbuilt := (built_parseFile h).subset hsub
    exact e.stripParens.covered_of_escapes
      (hbuilt.imp (fun _ hx => hx.typed) fun _ hs => hs) hbare hescapes
  · intro hopen source' file' h' s' hs' he'
    exact hopen (StmtKind.covered_conditions (headersCovered_parseFile h' s' hs') _ he')
  · intro hcanonical budget m ctx rest hroom hlevel
    have hnone : Print.hasBareComposite e.stripParens = true → 0 ≤ ctx.exprLevel :=
      fun h => absurd (hbare.symm.trans h) Bool.false_ne_true
    have hread := (Inner.of hcanonical hroom hnone (readable_of_canonical hcanonical)).parses
    have hspells :=
      (@Print.spells_of_canonical style _ hcanonical).inside (.atStart indent) rfl
    rw [hprinted, hspells]
    exact hread false 0 _ (decide_eq_false (Int.not_le.mpr hlevel))

/-- The conditions of the headers in a sequence of events. -/
def Event.conditions (es : List Event) : List Expr :=
  (Event.stmts es).flatMap (·.kind.conditions)

theorem Event.exists_of_mem_conditions {es : List Event} {e : Expr} (h : e ∈ Event.conditions es) :
    ∃ s, .enterStmt s ∈ es ∧ e ∈ s.kind.conditions := by
  obtain ⟨s, hs, he⟩ := List.mem_flatMap.mp h
  exact ⟨s, Event.mem_of_mem_stmts hs, he⟩

theorem Expr.stripParens_ne {x : Expr} (h : Print.isParen x ≠ Print.isParen x.stripParens) :
    x.stripParens ≠ x :=
  fun hsame => h (congrArg Print.isParen hsame.symm)

/-- A condition in two pairs of parentheses, with a literal in a pair of its own. -/
def parenthesizedSource : String :=
  "package p\n\nfunc f() \x7b\n\tif ((a == (T\x7b\x7d))) \x7b\n\t\x7d\n\x7d\n"

/-- That condition without its parentheses. -/
def bareCondition : Expr :=
  .binary (.ident "a") .eql (.paren (.composite (some (.ident "T")) [] .plain)) false

theorem bareCondition_canonical : bareCondition.Canonical :=
  .binary (.ident (by decide)) (.paren (.composite (by decide) nofun nofun) rfl) (by decide)
    (by decide)

/-- Whether an expression is that condition. -/
def Expr.isBareCondition : Expr → Bool
  | .binary (.ident n) op (.paren (.composite (some (.ident t)) [] braces)) lineBreak =>
    n == "a" && op == .eql && t == "T" && braces == .plain && !lineBreak
  | _ => false

theorem Expr.eq_bareCondition {x : Expr} (h : x.isBareCondition = true) : x = bareCondition := by
  unfold isBareCondition at h
  split at h
  · simp only [Bool.and_eq_true, beq_iff_eq, Bool.not_eq_true'] at h
    obtain ⟨⟨⟨⟨rfl, rfl⟩, rfl⟩, rfl⟩, rfl⟩ := h
    rfl
  · cases h

open Parse in
theorem strippedHeader_parenthesized :
    ∃ file, parseFile parenthesizedSource = .ok file ∧
      ∃ s, .enterStmt s ∈ file.events ∧ ∃ e ∈ s.kind.conditions, e.stripParens ≠ e ∧
        Print.exprOutput {} e (.header 1) = Print.exprOutput {} e.stripParens (.atStart 1) ∧
        (e.stripParens.Covered ↔ ∀ t ∈ e.stripParens.openTypes, t.escapes = false) ∧
        (¬e.stripParens.Covered → ∀ source' file', parseFile source' = .ok file' →
          ∀ s', .enterStmt s' ∈ file'.events → e.stripParens ∉ s'.kind.conditions) ∧
        (e.stripParens.Canonical ∧ Room 8 6 ⟨1, -1⟩ e.stripParens ∧ ∀ rest,
          Yields (Grammar.level 8 7).expr
            (Script.view ((Print.exprOutput {} e (.header 1)).script ++
              .token (.punct .lbrace) :: rest) false 0 ⟨1, -1⟩)
            e.stripParens (Script.view (.token (.punct .lbrace) :: rest) true 0 ⟨1, -1⟩)) := by
  have hparens : (parseFile parenthesizedSource).toOption.map (fun file =>
      (Event.conditions file.events).map fun e =>
        (Print.isParen e, e.stripParens.isBareCondition)) = some [(true, true)] := by
    decide +kernel
  obtain ⟨file, h, hlist⟩ := exists_ok_of_map hparens
  obtain ⟨e, he, hparen⟩ := List.mem_map.mp (hlist ▸ List.mem_singleton_self (true, true))
  obtain ⟨hbefore, hafter⟩ := Prod.mk.inj hparen
  have hbare := Expr.eq_bareCondition hafter
  obtain ⟨s, hs, hcond⟩ := Event.exists_of_mem_conditions he
  have hstrip : e.stripParens ≠ e := Expr.stripParens_ne (by rw [hbefore, hbare]; decide)
  obtain ⟨hprinted, hcovered, hrefused, hread⟩ := strippedHeader h hs hcond hstrip {} 1
  have hcanonical : e.stripParens.Canonical := hbare ▸ bareCondition_canonical
  have hroom : Room 8 6 ⟨1, -1⟩ e.stripParens := by
    rw [hbare]
    exact ⟨by decide, by decide, by decide, by decide⟩
  exact ⟨file, h, s, hs, e, hcond, hstrip, hprinted, hcovered, hrefused, hcanonical, hroom,
    fun rest => hread hcanonical 8 6 ⟨1, -1⟩ rest hroom (by decide)⟩

/-- A condition with a literal of an instantiated type. -/
def instantiatedSource : String :=
  "package p\n\nfunc f() \x7b\n\tif (T[int]\x7b\x7d == x) \x7b\n\t\x7d\n\x7d\n"

/-- The same without the parentheses. -/
def instantiatedText : String :=
  "package p\n\nfunc f() \x7b\n\tif T[int]\x7b\x7d == x \x7b\n\t\x7d\n\x7d\n"

/-- The condition is printed without its parentheses, and the brace of the literal is taken for that
of the body. -/
theorem strippedHeader_instantiated :
    ∃ file, parseFile instantiatedSource = .ok file ∧
      (∃ s, .enterStmt s ∈ file.events ∧ ∃ e ∈ s.kind.conditions,
        e.stripParens ≠ e ∧ ¬e.stripParens.Covered) ∧
        file.print {} = instantiatedText ∧ ∀ again, parseFile (file.print {}) ≠ .ok again := by
  have hparens : (parseFile instantiatedSource).toOption.map (fun file =>
      (Event.conditions file.events).map fun e =>
        (Print.isParen e, Print.isParen e.stripParens,
          e.stripParens.openTypes.map Expr.mayNameType)) = some [(true, false, [true])] := by
    decide +kernel
  have hprinted : (parseFile instantiatedSource).toOption.map (fun file => file.print {}) =
      some instantiatedText := by
    decide +kernel
  have hagain : (parseFile instantiatedText).toOption.isNone = true := by
    decide +kernel
  obtain ⟨file, h, hlist⟩ := exists_ok_of_map hparens
  rw [h] at hprinted
  have htext : file.print {} = instantiatedText := Option.some.inj hprinted
  obtain ⟨e, he, hparen⟩ := List.mem_map.mp (hlist ▸ List.mem_singleton_self (true, false, [true]))
  obtain ⟨hbefore, hrest⟩ := Prod.mk.inj hparen
  obtain ⟨hafter, hnames⟩ := Prod.mk.inj hrest
  obtain ⟨s, hs, hcond⟩ := Event.exists_of_mem_conditions he
  obtain ⟨t, ht, hname⟩ := List.mem_map.mp (hnames ▸ List.mem_singleton_self true)
  refine ⟨file, h, ⟨s, hs, e, hcond, Expr.stripParens_ne (by rw [hbefore, hafter]; decide),
    fun hcovered => ?_⟩, htext, fun again hok => ?_⟩
  · exact absurd ((hcovered t ht).symm.trans hname) Bool.false_ne_true
  · rw [htext] at hok
    rw [hok] at hagain
    cases hagain

end HandlerSplit
