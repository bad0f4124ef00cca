import HandlerSplit.Proofs.Handler.Conventions
import HandlerSplit.Proofs.Handler.Rebinding
/-!
# What rebinding makes of `Read`

`Read` is rebound if and only if every selector on the service variable in its body selects from the
active version. Then the version parameter stands for each of them and everything else in the body
is as it was, the parameters are those of a handler, and no selector is left, unless the parameter
has the name of the service variable. Otherwise the first selector that selects from elsewhere is
reported (`rewriteRead_binds`).
-/

namespace HandlerSplit

variable {c : Conventions} {log : List LogEvent}

/-! ## Selectors that are left -/

/-- What selects the service is a selector on a selector on its variable. -/
theorem selectsService_iff {x : Expr} :
    selectsService c x ↔ ∃ m f, x = .selector (.selector (.ident c.serviceVar) m) f := by
  constructor
  · intro h
    obtain ⟨m, hm⟩ := Option.isSome_iff_exists.1 h
    obtain ⟨f, rfl⟩ := middleSelector?_eq_some hm
    exact ⟨m, f, rfl⟩
  · rintro ⟨m, f, rfl⟩
    simp [selectsService, middleSelector?, Expr.isIdent, Expr.ident?]

/-- What selects the service becomes the version, and everything else is entered. -/
theorem subst_versionBinding (x : Expr) :
    x.subst (versionBinding c) =
      if selectsService c x then .ident c.versionParam else x.substInside (versionBinding c) := by
  by_cases hx : selectsService c x <;>
    simp [Expr.subst, substExpr, versionBinding, Substitution.ofPicked, hx]

theorem substInside_eq_ident {x : Expr} {n : String}
    (h : x.substInside (versionBinding c) = .ident n) : x = .ident n := by
  cases x with
  | ident m => exact h
  | _ => cases h

theorem substInside_eq_selector {x y : Expr} {n : String}
    (h : x.substInside (versionBinding c) = .selector y n) :
    ∃ z, x = .selector z n ∧ z.subst (versionBinding c) = y := by
  cases x with
  | selector z m =>
    obtain ⟨hz, hn⟩ := Expr.selector.inj h
    exact ⟨z, congrArg (Expr.selector z) hn, hz⟩
  | _ => cases h

/-- No selector on the service variable comes up by what is put for others. -/
theorem selectsService_of_substInside (hne : c.versionParam ≠ c.serviceVar) {x : Expr}
    (h : selectsService c (x.substInside (versionBinding c))) : selectsService c x := by
  obtain ⟨m, f, hx⟩ := selectsService_iff.1 h
  obtain ⟨y, rfl, hy⟩ := substInside_eq_selector hx
  rw [subst_versionBinding] at hy
  split at hy
  case isTrue => cases hy
  obtain ⟨z, rfl, hz⟩ := substInside_eq_selector hy
  rw [subst_versionBinding] at hz
  split at hz
  case isTrue => exact absurd (Expr.ident.inj hz) hne
  exact selectsService_iff.2 ⟨m, f, by rw [substInside_eq_ident hz]⟩

theorem selections_subst_traversal (hne : c.versionParam ≠ c.serviceVar) :
    Traversal fun _ A a =>
      Event.picked (selectsService c) (A.events (A.subst (versionBinding c) a)) = [] where
  still h := by rw [h.subst, h.events]; rfl
  pair ha hb := by simp only [Part.pair, Event.picked_append, ha, hb, List.append_nil]
  make h ha := by rw [h.subst, h.events, ha]
  name _ := rfl
  expr {x} h := by
    show Event.picked _ (x.subst (versionBinding c)).events = []
    rw [subst_versionBinding]
    split
    case isTrue => rfl
    case isFalse hx =>
      rw [Expr.events, Event.picked_aroundExpr,
        if_neg fun hpicked => hx (selectsService_of_substInside hne hpicked)]
      exact h
  stmt {k d} h := by
    show Event.picked _ (aroundStmt _ _) = []
    rw [Event.picked_aroundStmt]
    exact h

/-- When the version has been bound, nothing selects the service. -/
theorem selections_subst (hne : c.versionParam ≠ c.serviceVar) (body : Option Block) :
    selections c (body.map (·.subst (versionBinding c))) = [] := by
  cases body with
  | none => rfl
  | some b => exact b.traversed (selections_subst_traversal hne)

/-! ## The main statement -/

/-- Whether an expression selects from the active version of the service. -/
def SelectsActive (c : Conventions) (x : Expr) : Prop :=
  ∃ f, x = .selector (.selector (.ident c.serviceVar) c.activeVersion) f

/-- The active version is selected if it is the name in the middle. -/
theorem selectsActive_iff {x : Expr} :
    SelectsActive c x ↔ middleSelector? c.serviceVar x = some c.activeVersion := by
  constructor
  · rintro ⟨f, rfl⟩
    simp [middleSelector?, Expr.isIdent, Expr.ident?]
  · exact middleSelector?_eq_some

/-- A function that was rebound, and how many selectors were replaced. -/
structure Rebound (c : Conventions) (read read' : FuncDecl) (n : Nat) : Prop where
  recv : read'.recv = read.recv
  name : read'.name = read.name
  params : c.handlerParams .blank = .ok read'.signature.params
  results : read'.signature.results = read.signature.results
  body : read'.body = read.body.map (·.subst (versionBinding c))
  count : n = (selections c read.body).length
  selections : c.versionParam ≠ c.serviceVar → selections c read'.body = []

/-- The failure at the first selector of a function that does not select from the active version. -/
def FirstStray (c : Conventions) (read : FuncDecl) (kind : ErrorKind) : Prop :=
  ∃ before x behind, selections c read.body = before ++ x :: behind ∧
    (∀ y ∈ before, SelectsActive c y) ∧ ¬SelectsActive c x ∧ kind = .unexpectedSelector x.print

/-- `Read` is rebound where every selector is from the active version, and else stopped at the first
that is not. -/
theorem rewriteRead_binds (hc : c.validate = .ok ()) (read : FuncDecl) (log : List LogEvent) :
    ((∃ read' n, ((rewriteRead c read).run log).1 = ⟨read', .ok n⟩) ↔
      ∀ x ∈ selections c read.body, SelectsActive c x) ∧
    (∀ read' n, ((rewriteRead c read).run log).1 = ⟨read', .ok n⟩ → Rebound c read read' n) ∧
    ∀ read' kind, ((rewriteRead c read).run log).1 = ⟨read', .error kind⟩ →
      FirstStray c read kind := by
  obtain ⟨params, hparams⟩ := handlerParams_of_validate hc .blank
  rcases rewriteBody_versionBinder (c := c) read.body with
    ⟨hall, hbound⟩ | ⟨body, body', x, hbody, hx, hbody', hstopped⟩
  · have hrun : ((rewriteRead c read).run log).1 =
        ⟨⟨read.recv, read.name, { read.signature with params := params },
          read.body.map (·.subst (versionBinding c))⟩, .ok (selections c read.body).length⟩ := by
      simp only [rewriteRead, hbound, hparams]
      rfl
    rw [hrun]
    refine ⟨⟨fun _ x hx => selectsActive_iff.2 (hall x hx), fun _ => ⟨_, _, rfl⟩⟩,
      fun read' n h => ?_, fun _ _ h => by cases h⟩
    cases h
    exact ⟨rfl, rfl, hparams, rfl, rfl, rfl, fun hne => selections_subst hne read.body⟩
  · have hrun : ((rewriteRead c read).run log).1 =
        ⟨{ read with body := some body' }, .error (.unexpectedSelector x.print)⟩ := by
      simp only [rewriteRead, hx, hbody']
      rfl
    obtain ⟨before, behind, middle, hpicks, hbefore, hmiddle, hne, -, -⟩ := hstopped
    have hselections : selections c read.body = before ++ x :: behind := by rw [hbody]; exact hpicks
    have hstray : ¬SelectsActive c x := fun h => by
      rw [selectsActive_iff, hmiddle] at h
      exact hne (Option.some.inj h)
    rw [hrun]
    refine ⟨⟨fun ⟨_, _, h⟩ => (by cases h), fun hall => ?_⟩, fun _ _ h => (by cases h),
      fun read' kind h => ?_⟩
    · exact absurd (hall x (by simp [hselections])) hstray
    · cases h
      exact ⟨before, x, behind, hselections, fun y hy => selectsActive_iff.2 (hbefore y hy), hstray,
        rfl⟩

/-- A `Read` that selects from the active version twice, once in a function literal that is an
argument of the other's call. -/
def selecting : FuncDecl where
  recv := some (.of [.of ["h"] (.star (.ident "H"))])
  name := "Read"
  signature := ⟨.of [.of ["s"] (.ident "Service")], none⟩
  body :=
    let selection (f : String) : Expr :=
      .selector (.selector (.ident "s") "ActiveVersion") f
    let literal : Expr := .funcLit ⟨.of [], none⟩
      (.of [.plain (.returns [.callOf (.selector (selection "Number") "String") []])])
    some (.of [.plain (.expr (.callOf (selection "Visit") [literal]))])

/-- Two selectors are bound in a `Read` that selects the active version only. -/
theorem rewriteRead_binds_selecting :
    ({} : Conventions).validate = .ok () ∧
      ∃ read' n, ((rewriteRead {} selecting).run []).1 = ⟨read', .ok n⟩ ∧ n = 2 ∧
        Rebound {} selecting read' n := by
  have hall : ((selections {} selecting.body).all fun x =>
      middleSelector? "s" x == some "ActiveVersion") = true := by decide +kernel
  have hactive : ∀ x ∈ selections {} selecting.body, SelectsActive {} x := fun x hx =>
    selectsActive_iff.2 (beq_iff_eq.1 (List.all_eq_true.1 hall x hx))
  obtain ⟨hiff, hbound, -⟩ := rewriteRead_binds validate_standard selecting []
  obtain ⟨read', n, hrun⟩ := hiff.2 hactive
  have hrebound := hbound read' n hrun
  exact ⟨validate_standard, read', n, hrun, hrebound.count.trans (by decide +kernel), hrebound⟩

end HandlerSplit
