import HandlerSplit.Handler.Rebind
import HandlerSplit.Proofs.Tree.Picked
/-!
# How `Read` is rebound

The expressions of interest in the body of `Read` are the selectors `s.m.f` on the service
variable. No such selector holds another, so they are met one after another, and rebinding goes
through this list: as long as `m` is the active version a selector becomes the version
parameter, and from the first other one on everything stays (`mapM_bindSelector`). The body is
the frame around what the list has become.
-/

namespace HandlerSplit

variable {c : Conventions}

/-! ## Selectors on the service variable -/

/-- Whether an expression is `s.m.f` on the service variable. -/
def selectsService (c : Conventions) (x : Expr) : Bool :=
  (middleSelector? c.serviceVar x).isSome

/-- The name in the middle of a selector on the service variable. -/
theorem middleSelector?_eq_some {serviceVar middle : String} {x : Expr}
    (h : middleSelector? serviceVar x = some middle) :
    ∃ f, x = .selector (.selector (.ident serviceVar) middle) f := by
  unfold middleSelector? at h
  split at h
  case h_2 => cases h
  case h_1 base m f =>
    split at h
    case isFalse => cases h
    case isTrue hbase =>
      cases h
      cases base with
      | ident n =>
        obtain rfl : n = serviceVar := by simpa [Expr.isIdent, Expr.ident?] using hbase
        exact ⟨f, rfl⟩
      | _ => simp [Expr.isIdent, Expr.ident?] at hbase

/-- A selector on the service variable holds no other. -/
theorem picked_inside_selectsService (x : Expr) (h : selectsService c x) :
    Event.picked (selectsService c) x.inside = [] := by
  obtain ⟨middle, hmiddle⟩ := Option.isSome_iff_exists.1 h
  obtain ⟨f, rfl⟩ := middleSelector?_eq_some hmiddle
  rfl

/-! ## The run on the selectors -/

/-- The binder stops at the first selector it does not know, and enters what selects nothing. -/
theorem versionBinder_run (x : Expr) (progress : ReadProgress) :
    ((versionBinder c).onExpr x).run progress =
      if progress.offending.isSome then (.put x, progress)
      else
        match middleSelector? c.serviceVar x with
        | none => (.enter, progress)
        | some middle =>
          if middle == c.activeVersion then
            (.put (.ident c.versionParam), { progress with rewritten := progress.rewritten + 1 })
          else (.put x, { progress with offending := some x }) := by
  show (if progress.offending.isSome then _ else _ : StateM _ _).run progress = _
  split
  · rfl
  · cases middleSelector? c.serviceVar x with
    | none => rfl
    | some middle =>
      simp only
      split <;> rfl

/-- What becomes of a selector on the service variable. -/
def bindSelector (c : Conventions) (x : Expr) : StateM ReadProgress Expr := do
  match ← (versionBinder c).onExpr x with
  | .enter => return x
  | .put y => return y

/-- On a selector the binder counts it, or stops at it. -/
theorem bindSelector_run (x : Expr) (progress : ReadProgress) :
    (bindSelector c x).run progress =
      match ((versionBinder c).onExpr x).run progress with
      | (.enter, after) => (x, after)
      | (.put y, after) => (y, after) := by
  rw [bindSelector, StateT.run_bind]
  rcases ((versionBinder c).onExpr x).run progress with ⟨_ | _, _⟩ <;> rfl

/-- Behind an offending selector everything stays. -/
theorem mapM_bindSelector_of_offending {progress : ReadProgress}
    (h : progress.offending.isSome) (xs : List Expr) :
    (xs.mapM (bindSelector c)).run progress = (xs, progress) := by
  induction xs with
  | nil => rfl
  | cons x xs ih =>
    have hx : (bindSelector c x).run progress = (x, progress) := by
      rw [bindSelector_run, versionBinder_run, if_pos h]
    rw [List.mapM_cons, StateT.run_bind, hx]
    show (fun q : List Expr × ReadProgress => (x :: q.1, q.2))
      ((xs.mapM (bindSelector c)).run progress) = _
    rw [ih]

/-- The selectors up to the first that does not select from the active version become the
version parameter; that one is remembered. -/
theorem mapM_bindSelector (xs : List Expr) (hxs : ∀ x ∈ xs, selectsService c x) (n : Nat) :
    ((∀ x ∈ xs, middleSelector? c.serviceVar x = some c.activeVersion) ∧
      (xs.mapM (bindSelector c)).run { rewritten := n } =
        (xs.map fun _ => .ident c.versionParam, { rewritten := n + xs.length })) ∨
    ∃ done x rest middle, xs = done ++ x :: rest ∧
      (∀ y ∈ done, middleSelector? c.serviceVar y = some c.activeVersion) ∧
      middleSelector? c.serviceVar x = some middle ∧ middle ≠ c.activeVersion ∧
      (xs.mapM (bindSelector c)).run { rewritten := n } =
        (done.map (fun _ => .ident c.versionParam) ++ x :: rest,
          { rewritten := n + done.length, offending := some x }) := by
  induction xs generalizing n with
  | nil => exact .inl ⟨by simp, rfl⟩
  | cons x xs ih =>
    obtain ⟨middle, hmiddle⟩ := Option.isSome_iff_exists.1 (hxs x List.mem_cons_self)
    have hrun : (bindSelector c x).run { rewritten := n } =
        if middle == c.activeVersion then (.ident c.versionParam, { rewritten := n + 1 })
        else (x, { rewritten := n, offending := some x }) := by
      rw [bindSelector_run, versionBinder_run, hmiddle, if_neg (by simp)]
      by_cases hm : (middle == c.activeVersion) = true
      · simp only [if_pos hm]
      · simp only [if_neg hm]
    rw [List.mapM_cons, StateT.run_bind, hrun]
    by_cases hactive : middle = c.activeVersion
    · rw [if_pos (by simpa using hactive)]
      show _ ∧ (fun q : List Expr × ReadProgress => (Expr.ident c.versionParam :: q.1, q.2))
          ((xs.mapM (bindSelector c)).run { rewritten := n + 1 }) = _ ∨
        ∃ done y rest middle, _ ∧ _ ∧ _ ∧ _ ∧
          (fun q : List Expr × ReadProgress => (Expr.ident c.versionParam :: q.1, q.2))
            ((xs.mapM (bindSelector c)).run { rewritten := n + 1 }) = _
      rcases ih (fun y hy => hxs y (List.mem_cons_of_mem _ hy)) (n + 1) with
        ⟨hall, hrest⟩ | ⟨done, y, rest, m, rfl, hdone, hy, hm, hrest⟩
      · left
        rw [hrest]
        refine ⟨List.forall_mem_cons.2 ⟨hactive ▸ hmiddle, hall⟩, ?_⟩
        simp [Nat.add_right_comm n 1, Nat.add_assoc]
      · right
        rw [hrest]
        refine ⟨x :: done, y, rest, m, rfl, List.forall_mem_cons.2 ⟨hactive ▸ hmiddle, hdone⟩,
          hy, hm, ?_⟩
        simp [Nat.add_right_comm n 1, Nat.add_assoc]
    · rw [if_neg (by simpa using hactive)]
      refine .inr ⟨[], x, xs, middle, rfl, by simp, hmiddle, hactive, ?_⟩
      show (fun q : List Expr × ReadProgress => (x :: q.1, q.2))
        ((xs.mapM (bindSelector c)).run { rewritten := n, offending := some x }) = _
      rw [mapM_bindSelector_of_offending rfl]
      rfl

/-! ## The run on a body -/

theorem versionBinder_actsOn :
    (versionBinder c).ActsOn (selectsService c) (bindSelector c) where
  stmt _ := rfl
  name _ := rfl
  picked x inside h := by
    obtain ⟨middle, hmiddle⟩ := Option.isSome_iff_exists.1 h
    funext progress
    show (offerExpr (versionBinder c) x inside).run progress = (bindSelector c x).run progress
    rw [bindSelector_run, offerExpr, StateT.run_bind, versionBinder_run, hmiddle]
    split
    · rfl
    · simp only
      split <;> rfl
  other x frame picks h hframe _ := by
    have hnone : middleSelector? c.serviceVar x = none := by
      simpa [selectsService] using h
    funext progress
    show (offerExpr (versionBinder c) x (frame <$> picks.mapM (bindSelector c))).run progress =
      (frame <$> picks.mapM (bindSelector c)).run progress
    rw [offerExpr, StateT.run_bind, versionBinder_run, hnone]
    split
    case isFalse => rfl
    case isTrue hoff =>
      -- An expression that is left alone would have come out of its frame unchanged.
      rw [StateT.run_map, mapM_bindSelector_of_offending hoff]
      show (x, progress) = (frame picks, progress)
      rw [hframe]

/-- The body of `Read` that failed to be rebound: in the frame around the selectors on the
service variable those before the offending one are replaced, and everything else is as it was. -/
def StoppedBody (c : Conventions) (body body' : Block) (offending : Expr) : Prop :=
  ∃ done rest middle,
    Event.picked (selectsService c) body.events = done ++ offending :: rest ∧
    (∀ y ∈ done, middleSelector? c.serviceVar y = some c.activeVersion) ∧
    middleSelector? c.serviceVar offending = some middle ∧ middle ≠ c.activeVersion ∧
    body = body.fill (selectsService c) (done ++ offending :: rest) ∧
    body' = body.fill (selectsService c)
      (done.map (fun _ => .ident c.versionParam) ++ offending :: rest)

/-- The version parameter for every selector on the service variable. -/
def versionBinding (c : Conventions) : Substitution :=
  .ofPicked (selectsService c) fun _ => .ident c.versionParam

/-- The selectors on the service variable in a body that may be missing, at any depth, in the order
in which reading meets them. -/
def selections (c : Conventions) (body : Option Block) : List Expr :=
  Event.picked (selectsService c) ((body.map Block.events).getD [])

/-- Rebinding a body binds all of its selectors, or stops at an offending one. -/
theorem rewriteBody_versionBinder (body : Option Block) :
    ((∀ x ∈ selections c body, middleSelector? c.serviceVar x = some c.activeVersion) ∧
      rewriteBody (versionBinder c) {} body = (body.map (·.subst (versionBinding c)),
        { rewritten := (selections c body).length })) ∨
      ∃ b b' x, body = some b ∧
        (rewriteBody (versionBinder c) {} body).2.offending = some x ∧
        (rewriteBody (versionBinder c) {} body).1 = some b' ∧ StoppedBody c b b' x := by
  obtain _ | b := body
  · exact .inl ⟨nofun, rfl⟩
  have hpicks : ∀ x ∈ Event.picked (selectsService c) b.events, selectsService c x :=
    fun x hx => (List.mem_filter.1 hx).2
  have hfill := b.rewrite_eq_fill picked_inside_selectsService (versionBinder_actsOn (c := c)) {}
  have hrun : rewriteBody (versionBinder c) {} (some b) =
      (fun q : Block × ReadProgress => (some q.1, q.2)) ((b.rewrite (versionBinder c)).run {}) := rfl
  rw [hrun, hfill]
  rcases mapM_bindSelector _ hpicks 0 with
    ⟨hall, hrun⟩ | ⟨done, x, rest, m, hxs, hdone, hx, hm, hrun⟩
  · left
    refine ⟨hall, ?_⟩
    rw [hrun, Nat.zero_add]
    exact congrArg (fun b : Block => (some b, _)) (b.fill_map picked_inside_selectsService _)
  · right
    rw [hrun]
    have hb := b.fill_picked (picked_inside_selectsService (c := c))
    rw [hxs] at hb
    exact ⟨b, _, x, rfl, rfl, rfl, done, rest, m, hxs, hdone, hx, hm, hb.symm, rfl⟩

end HandlerSplit
