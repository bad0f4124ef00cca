import HandlerSplit.Handler.Rebind
import HandlerSplit.Proofs.Tree.Sites
/-!
# Which returns are wrapped

A return of a single value is wrapped if it does not stand in the value of another. The value that
is wrapped stays, with the returns in it; any other statement keeps its shape, and what stands in it
is wrapped by the same rule (`Site.wrapped`). So in the wrapped tree the outermost returns of a
single value are the old ones, each with its value in one call of the wrapper (`wrapReturns_wraps`).
-/

namespace HandlerSplit

open Event (sites outermost Balanced)

variable {α : Type} {wrapper : String}

/-! ## Returns of a single value -/

namespace Stmt

/-- Whether a statement returns a single value. -/
def returnsOne (s : Stmt) : Bool :=
  match s.kind with
  | .returns [_] => true
  | _ => false

/-- A return with its single value in a call of the wrapper. -/
def wrapped (wrapper : String) (s : Stmt) : Stmt :=
  match s.kind with
  | .returns [value] => { s with kind := .returns [.callOf (.ident wrapper) [value]] }
  | _ => s

/-- A statement returns one value if it is a return of a single expression. -/
theorem returnsOne_iff {s : Stmt} : s.returnsOne ↔ ∃ value d, s = ⟨.returns [value], d⟩ := by
  constructor
  · intro h
    obtain ⟨k, d⟩ := s
    unfold returnsOne at h
    split at h
    case h_1 value hk => exact ⟨value, d, congrArg (Stmt.mk · d) hk⟩
    case h_2 => cases h
  · rintro ⟨value, d, rfl⟩
    rfl

end Stmt

/-- The substitution that wraps the value of a return. -/
def Substitution.wrapping (wrapper : String) : Substitution where
  stmt s := if s.returnsOne then some (s.wrapped wrapper) else none

theorem subst_wrapping_of_pos {s : Stmt} (hs : s.returnsOne) :
    s.subst (.wrapping wrapper) = s.wrapped wrapper := by
  obtain ⟨k, d⟩ := s
  simp [Stmt.subst, Substitution.wrapping, hs]

theorem subst_wrapping_of_neg {k : StmtKind} {d : Decorations} (hs : ¬(Stmt.mk k d).returnsOne) :
    (Stmt.mk k d).subst (.wrapping wrapper) = ⟨k.substInside (.wrapping wrapper), d⟩ := by
  simp [Stmt.subst, Substitution.wrapping, hs]

/-- Substitution inside a statement leaves it the number of values it returns. -/
theorem returnsOne_substInside (s : Substitution) (k : StmtKind) (d : Decorations) :
    (Stmt.mk (k.substInside s) d).returnsOne = (Stmt.mk k d).returnsOne := by
  cases k with
  | returns vs => rcases vs with _ | ⟨_, _ | ⟨_, _⟩⟩ <;> rfl
  | _ => rfl

/-- Wrapping makes no return of another statement, and of none another. -/
theorem returnsOne_subst (s : Stmt) :
    (s.subst (.wrapping wrapper)).returnsOne = s.returnsOne := by
  by_cases hs : s.returnsOne
  · obtain ⟨value, d, rfl⟩ := Stmt.returnsOne_iff.1 hs
    rfl
  · obtain ⟨k, d⟩ := s
    rw [subst_wrapping_of_neg hs, returnsOne_substInside]

/-! ## The run of the wrapper -/

/-- A return of one value is wrapped and counted, and any other statement is entered. -/
theorem returnWrapper_run (wrapper : String) (s : Stmt) (n : Nat) :
    ((returnWrapper wrapper).onStmt s).run n =
      if s.returnsOne then (.put (s.wrapped wrapper), n + 1) else (.enter, n) := by
  split
  case isTrue hs =>
    obtain ⟨value, d, rfl⟩ := Stmt.returnsOne_iff.1 hs
    rfl
  case isFalse hs =>
    obtain ⟨k, d⟩ := s
    cases k with
    | returns vs =>
      rcases vs with _ | ⟨_, _ | ⟨_, _⟩⟩
      · rfl
      · exact absurd rfl hs
      · rfl
    | _ => rfl

/-- The outermost returns of a single value are wrapped and counted. -/
structure Wraps (wrapper : String) (A : Part α) (a : α) : Prop where
  balanced : Balanced (A.events a)
  run : ∀ n, (A.rewrite (returnWrapper wrapper) a).run n =
    (A.subst (.wrapping wrapper) a, n + (outermost Stmt.returnsOne (A.events a)).length)

theorem wraps_stmt {k : StmtKind} {d : Decorations} (h : Wraps wrapper .insideStmt k) :
    Wraps wrapper .stmt ⟨k, d⟩ where
  balanced := h.balanced.aroundStmt ⟨k, d⟩
  run n := by
    have hbalanced : Balanced k.inside := h.balanced
    have hoffered := returnWrapper_run wrapper ⟨k, d⟩ n
    show (offerStmt _ _ _).run n = (Stmt.subst _ ⟨k, d⟩, n + (outermost _ (aroundStmt _ _)).length)
    by_cases hs : (Stmt.mk k d).returnsOne
    · rw [if_pos hs] at hoffered
      rw [run_offerStmt_of_put hoffered, subst_wrapping_of_pos hs,
        hbalanced.outermost_aroundStmt_of_pos hs]
      rfl
    · rw [if_neg hs] at hoffered
      rw [run_offerStmt_of_enter hoffered, subst_wrapping_of_neg hs,
        hbalanced.outermost_aroundStmt_of_neg hs, List.length_map,
        show (k.rewriteInside _).run n = _ from h.run n]
      rfl

/-- The run of the wrapper is the substitution that wraps, with its count. -/
theorem wraps_traversal (wrapper : String) : Traversal fun _ A a => Wraps wrapper A a where
  still h := ⟨by rw [h.events]; exact .nil, fun n => by rw [h.rewrite, h.events, h.subst]; rfl⟩
  pair ha hb := ⟨ha.balanced.append hb.balanced, fun n => by
    rw [Part.run_pair (ha.run n) (hb.run _)]
    simp only [Part.pair, ha.balanced.outermost_append, List.length_append, Nat.add_assoc]⟩
  make h ha := ⟨by rw [h.events]; exact ha.balanced, fun n => by
    rw [h.run (ha.run n), h.events, h.subst]⟩
  name m := ⟨.name m, fun _ => rfl⟩
  expr {x} h := ⟨h.balanced.aroundExpr x, fun n => (h.run n).trans
    (by rw [← h.balanced.outermost_aroundExpr x]; rfl)⟩
  stmt h := wraps_stmt h

/-! ## Where statements stand in the wrapped tree -/

/-- What becomes of the statements around one, given from the inside out: those that stand in the
value of a return stay. -/
def wrappedAround (wrapper : String) : List Stmt → List Stmt
  | [] => []
  | s :: around =>
    (if around.any Stmt.returnsOne then s else s.subst (.wrapping wrapper)) ::
      wrappedAround wrapper around

/-- What becomes of a statement, and of those around it. -/
def Site.wrapped (wrapper : String) (q : Site) : Site :=
  ⟨if q.around.any Stmt.returnsOne then q.stmt else q.stmt.subst (.wrapping wrapper),
    wrappedAround wrapper q.around⟩

theorem wrappedAround_cons {s : Stmt} {around : List Stmt}
    (h : around.any Stmt.returnsOne = false) :
    wrappedAround wrapper (s :: around) =
      s.subst (.wrapping wrapper) :: wrappedAround wrapper around := by
  rw [wrappedAround, h, if_neg Bool.false_ne_true]

/-- Nothing changes in the value of a return. -/
theorem wrappedAround_append {s : Stmt} (hs : s.returnsOne) (inner around : List Stmt) :
    wrappedAround wrapper (inner ++ s :: around) = inner ++ wrappedAround wrapper (s :: around) := by
  induction inner with
  | nil => rfl
  | cons t inner ih =>
    have hany : (inner ++ s :: around).any Stmt.returnsOne = true := by simp [hs]
    rw [List.cons_append, wrappedAround, hany, if_pos rfl, ih, List.cons_append]

/-- Wrapping does not change whether a return of one value stands around a place. -/
theorem any_returnsOne_wrappedAround (around : List Stmt) :
    (wrappedAround wrapper around).any Stmt.returnsOne = around.any Stmt.returnsOne := by
  induction around with
  | nil => rfl
  | cons s around ih =>
    rw [wrappedAround, List.any_cons, List.any_cons, ih]
    split
    · rfl
    · rw [returnsOne_subst]

/-- The outermost returns of a single value stay the outermost. -/
theorem outermost_wrapped (q : Site) :
    (q.wrapped wrapper).outermost Stmt.returnsOne = q.outermost Stmt.returnsOne := by
  rw [Site.outermost, Site.outermost, Site.wrapped, any_returnsOne_wrappedAround]
  split
  · rfl
  · rw [returnsOne_subst]

/-- The call of the wrapper adds no statements. -/
theorem sites_inside_wrapped {k : StmtKind} {d : Decorations} (hs : (Stmt.mk k d).returnsOne)
    (around : List Stmt) :
    sites around ((Stmt.mk k d).wrapped wrapper).kind.inside = sites around k.inside := by
  obtain ⟨value, _, hvalue⟩ := Stmt.returnsOne_iff.1 hs
  cases hvalue
  show sites around (value.events ++ [] ++ [.leaveExpr _] ++ []) = sites around (value.events ++ [])
  simp only [List.append_nil]
  rw [value.balanced.sites_append]
  exact List.append_nil _

/-- Every statement of a part stays in its place, wrapped if it is an outermost return of a single
value. The part itself does not stand in such a value. -/
structure WrapsInPlace (wrapper : String) (A : Part α) (a : α) : Prop where
  before : Balanced (A.events a)
  after : Balanced (A.events (A.subst (.wrapping wrapper) a))
  sites : ∀ around, around.any Stmt.returnsOne = false →
    sites (wrappedAround wrapper around) (A.events (A.subst (.wrapping wrapper) a)) =
      (sites around (A.events a)).map (Site.wrapped wrapper)

/-- Inside a return of a single value everything stays in its place. -/
theorem map_wrapped_within {s : Stmt} (hs : s.returnsOne) (around : List Stmt) (qs : List Site) :
    (qs.map (Site.within (s :: around))).map (Site.wrapped wrapper) =
      qs.map (Site.within (wrappedAround wrapper (s :: around))) := by
  rw [List.map_map]
  refine List.map_congr_left fun q _ => ?_
  have hany : (q.around ++ s :: around).any Stmt.returnsOne = true := by simp [hs]
  rw [Function.comp_apply, Site.wrapped, Site.within, hany, if_pos rfl, wrappedAround_append hs]
  rfl

theorem wrapsInPlace_stmt {k : StmtKind} {d : Decorations}
    (h : WrapsInPlace wrapper .insideStmt k) : WrapsInPlace wrapper .stmt ⟨k, d⟩ where
  before := h.before.aroundStmt ⟨k, d⟩
  after := Stmt.balanced _
  sites around hnone := by
    have hbefore : Balanced k.inside := h.before
    have hplace : Site.wrapped wrapper ⟨⟨k, d⟩, around⟩ =
        ⟨Stmt.subst (.wrapping wrapper) ⟨k, d⟩, wrappedAround wrapper around⟩ := by
      rw [Site.wrapped, hnone, if_neg Bool.false_ne_true]
    show sites _ (Stmt.subst _ ⟨k, d⟩).events = (sites around (aroundStmt ⟨k, d⟩ k.inside)).map _
    rw [hbefore.sites_aroundStmt, List.map_cons, hplace, Stmt.sites_events, ← wrappedAround_cons hnone]
    refine congrArg _ ?_
    by_cases hs : (Stmt.mk k d).returnsOne
    -- Nothing is substituted in the value : its statements are read again in the wrapped return.
    · rw [subst_wrapping_of_pos hs, sites_inside_wrapped hs, hbefore.sites_eq_within,
        hbefore.sites_eq_within (_ :: around), map_wrapped_within hs]
    · have hinside : (Stmt.mk k d :: around).any Stmt.returnsOne = false := by
        simp [hs, hnone]
      rw [subst_wrapping_of_neg hs]
      exact h.sites _ hinside

theorem wrapsInPlace_traversal (wrapper : String) :
    Traversal fun _ A a => WrapsInPlace wrapper A a where
  still h := by
    refine ⟨by rw [h.events]; exact .nil, by rw [h.subst, h.events]; exact .nil, fun _ _ => ?_⟩
    rw [h.subst, h.events]
    rfl
  pair ha hb := ⟨ha.before.append hb.before, ha.after.append hb.after, fun around hnone => by
    simp only [Part.pair, ha.before.sites_append, ha.after.sites_append, List.map_append,
      ha.sites around hnone, hb.sites around hnone]⟩
  make h ha := by
    refine ⟨by rw [h.events]; exact ha.before, by rw [h.subst, h.events]; exact ha.after,
      fun around hnone => ?_⟩
    rw [h.subst, h.events, h.events]
    exact ha.sites around hnone
  name n := ⟨.name n, .name n, fun _ _ => rfl⟩
  expr {x} h := ⟨h.before.aroundExpr x, h.after.aroundExpr _, fun around hnone =>
    calc sites _ (aroundExpr _ _)
        = (sites around x.inside).map (Site.wrapped wrapper) :=
          (h.after.sites_aroundExpr _ _).trans (h.sites around hnone)
      _ = (sites around (aroundExpr x x.inside)).map (Site.wrapped wrapper) :=
          congrArg _ (h.before.sites_aroundExpr x around).symm⟩
  stmt h := wrapsInPlace_stmt h

/-! ## The main statement -/

/-- The statements of a body that may be missing, with those they stand in. -/
def bodySites (body : Option Block) : List Site :=
  (body.map fun b => sites [] b.events).getD []

/-- The returns of a single value that do not stand in the value of another. -/
def outermostReturns (body : Option Block) : List Site :=
  (bodySites body).filter (·.outermost Stmt.returnsOne)

theorem bodySites_subst (body : Option Block) :
    bodySites (body.map (·.subst (.wrapping wrapper))) =
      (bodySites body).map (Site.wrapped wrapper) := by
  cases body with
  | none => rfl
  | some b => exact (b.traversed (wrapsInPlace_traversal wrapper)).sites [] rfl

theorem outermostReturns_subst (body : Option Block) :
    outermostReturns (body.map (·.subst (.wrapping wrapper))) =
      (outermostReturns body).map (Site.wrapped wrapper) := by
  have houtermost : Site.outermost Stmt.returnsOne ∘ Site.wrapped wrapper =
      Site.outermost Stmt.returnsOne := funext outermost_wrapped
  rw [outermostReturns, bodySites_subst, List.filter_map, houtermost, outermostReturns]

theorem wrapReturns_run (wrapper : String) (ctor : FuncDecl) (log : List LogEvent) :
    ((wrapReturns wrapper ctor).run log).1 =
      ({ ctor with body := ctor.body.map (·.subst (.wrapping wrapper)) },
        (outermostReturns ctor.body).length) := by
  have hbody : rewriteBody (returnWrapper wrapper) 0 ctor.body =
      (ctor.body.map (·.subst (.wrapping wrapper)), (outermostReturns ctor.body).length) := by
    cases ctor.body with
    | none => rfl
    | some b =>
      have hrun := (b.traversed (wraps_traversal wrapper)).run 0
      rw [Nat.zero_add] at hrun
      exact congrArg (fun p : Block × Nat => (some p.1, p.2)) hrun
  show (fun p : Option Block × Nat => ({ ctor with body := p.1 }, p.2))
    (rewriteBody (returnWrapper wrapper) 0 ctor.body) = _
  rw [hbody]

/-- An outermost return of a single value has its value put into a call. -/
theorem wrapped_of_outermost {q : Site} (h : q.outermost Stmt.returnsOne) :
    ∃ value d, q.stmt = ⟨.returns [value], d⟩ ∧
      (q.wrapped wrapper).stmt = ⟨.returns [.callOf (.ident wrapper) [value]], d⟩ := by
  obtain ⟨hone, hnone⟩ := Bool.and_eq_true_iff.1 h
  rw [Bool.not_eq_true'] at hnone
  obtain ⟨value, d, hq⟩ := Stmt.returnsOne_iff.1 hone
  refine ⟨value, d, hq, ?_⟩
  rw [Site.wrapped, hnone, if_neg Bool.false_ne_true, subst_wrapping_of_pos hone, hq]
  rfl

/-- A return of no value or of several keeps them, with what is wrapped in each. -/
theorem wrapped_of_length_ne_one {q : Site} (hnone : q.around.any Stmt.returnsOne = false)
    {values : List Expr} {d : Decorations} (hq : q.stmt = ⟨.returns values, d⟩)
    (hlength : values.length ≠ 1) :
    (q.wrapped wrapper).stmt = ⟨.returns (values.map (·.subst (.wrapping wrapper))), d⟩ := by
  have hseveral : ¬(Stmt.mk (.returns values) d).returnsOne := fun h => by
    obtain ⟨value, _, hvalue⟩ := Stmt.returnsOne_iff.1 h
    cases hvalue
    exact hlength rfl
  rw [Site.wrapped, hnone, if_neg Bool.false_ne_true, hq, subst_wrapping_of_neg hseveral,
    ← substExprs_eq_map]
  rfl

/-- A function whose outermost returns of a single value were wrapped, and how many they were. -/
structure ReturnsWrapped (wrapper : String) (ctor ctor' : FuncDecl) (n : Nat) : Prop where
  recv : ctor'.recv = ctor.recv
  name : ctor'.name = ctor.name
  signature : ctor'.signature = ctor.signature
  body : ctor'.body = ctor.body.map (·.subst (.wrapping wrapper))
  count : n = (outermostReturns ctor.body).length
  /-- Every statement stays in its place. -/
  sites : bodySites ctor'.body = (bodySites ctor.body).map (Site.wrapped wrapper)
  /-- The same returns are outermost, so that none is wrapped twice. -/
  outermost : outermostReturns ctor'.body = (outermostReturns ctor.body).map (Site.wrapped wrapper)
  single : ∀ q ∈ outermostReturns ctor.body, ∃ value d, q.stmt = ⟨.returns [value], d⟩ ∧
    (q.wrapped wrapper).stmt = ⟨.returns [.callOf (.ident wrapper) [value]], d⟩
  several : ∀ q ∈ bodySites ctor.body, q.around.any Stmt.returnsOne = false →
    ∀ values d, q.stmt = ⟨.returns values, d⟩ → values.length ≠ 1 →
      (q.wrapped wrapper).stmt = ⟨.returns (values.map (·.subst (.wrapping wrapper))), d⟩

/-- The outermost returns of a single value in a constructor are wrapped, each once, and nothing
else is changed. -/
theorem wrapReturns_wraps (wrapper : String) (ctor : FuncDecl) (log : List LogEvent) :
    ∃ ctor' n, ((wrapReturns wrapper ctor).run log).1 = (ctor', n) ∧
      ReturnsWrapped wrapper ctor ctor' n := by
  refine ⟨_, _, wrapReturns_run wrapper ctor log, ?_⟩
  exact {
    recv := rfl
    name := rfl
    signature := rfl
    body := rfl
    count := rfl
    sites := bodySites_subst ctor.body
    outermost := outermostReturns_subst ctor.body
    single := fun q hq => wrapped_of_outermost (List.mem_filter.1 hq).2
    several := fun q _ hnone _ _ hq hlength => wrapped_of_length_ne_one hnone hq hlength }

-- The literal that is returned is left alone, those among two values are not.
example :
    let literal : Expr := .funcLit ⟨.of [], none⟩ (.of [.returning [.ident "x"]])
    let body : Block := .of [.returning [literal], .returning [literal, literal]]
    ((wrapReturns "W" ⟨none, "New", ⟨.of [], none⟩, some body⟩).run []).1.2 = 3 := by
  decide +kernel

end HandlerSplit
