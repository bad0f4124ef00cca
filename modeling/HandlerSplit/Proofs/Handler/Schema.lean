import HandlerSplit.Proofs.Handler.Conventions
import HandlerSplit.Proofs.Handler.Runs
import Mathlib.Data.Nat.Find
/-!
# How `GetSchema` is cut off `Register`

`GetSchema` is the beginning of `Register` up to its first assignment to an entry of the schema map,
which becomes a return of the assigned value (`synthesizeGetSchema_cuts`). What comes behind that
statement has no part in it, and a `Register` without one gives no method.
-/

namespace HandlerSplit

variable {c : Conventions} {s : Stmt} {value : Expr} {ss : List Stmt}

/-! ## Schema assignments -/

/-- A statement assigns `value`, and nothing else, with `=` to an entry of the schema map of the
service, and to nothing else. -/
def Stmt.AssignsSchema (c : Conventions) (s : Stmt) (value : Expr) : Prop :=
  ∃ key, s.kind =
    .assign [.index (.selector (.ident c.serviceVar) c.schemaField) key] .assign [value]

/-- A selector of a name on a variable is just that. -/
theorem Expr.isSelectorOf_iff {x : Expr} {base name : String} :
    x.isSelectorOf base name = true ↔ x = .selector (.ident base) name := by
  rw [isSelectorOf]
  cases x with
  | selector y n =>
    cases y <;> simp [selector?, isIdent, ident?, and_comm]
  | _ => simp [selector?]

/-- The value of a schema assignment is what is assigned. -/
theorem schemaValue?_eq_some_iff : schemaValue? c s = some value ↔ s.AssignsSchema c value := by
  obtain ⟨kind, decs⟩ := s
  rw [schemaValue?, Stmt.AssignsSchema]
  constructor
  · intro h
    split at h
    case h_1 map key v hkind =>
      split at h
      case isTrue hmap =>
        obtain rfl := Expr.isSelectorOf_iff.mp hmap
        obtain rfl := Option.some.inj h
        exact ⟨key, hkind⟩
      case isFalse => cases h
    case h_2 => cases h
  · rintro ⟨key, hkind⟩
    obtain rfl : kind = _ := hkind
    exact if_pos (Expr.isSelectorOf_iff.mpr rfl)

/-- The first schema assignment of a function is its statement at `i`, and assigns `value`. -/
structure FuncDecl.FirstSchemaAt (c : Conventions) (f : FuncDecl) (i : Nat) (s : Stmt)
    (value : Expr) : Prop where
  stmt : f.stmts[i]? = some s
  assigns : s.AssignsSchema c value
  first : ∀ j < i, ∀ t, f.stmts[j]? = some t → ∀ v, ¬t.AssignsSchema c v

/-! ## The body -/

/-- There is no body if no statement assigns the schema. -/
theorem schemaBody?_eq_none_iff :
    schemaBody? c ss = none ↔ ∀ t ∈ ss, ∀ v, ¬t.AssignsSchema c v := by
  induction ss with
  | nil => exact iff_of_true rfl (List.forall_mem_nil _)
  | cons t ss ih =>
    rw [schemaBody?, List.forall_mem_cons, ← ih]
    cases ht : schemaValue? c t with
    | none =>
      have hnot (v : Expr) : ¬t.AssignsSchema c v := by
        rw [← schemaValue?_eq_some_iff, ht]
        exact nofun
      rw [Option.map_eq_none_iff, and_iff_right hnot]
    | some v => exact iff_of_false nofun fun h => h.1 v (schemaValue?_eq_some_iff.mp ht)

/-- The statements before the first schema assignment, and a return of what it assigns with its
layout. -/
theorem schemaBody?_eq_some {i : Nat} (hs : ss[i]? = some s) (hvalue : s.AssignsSchema c value)
    (hfirst : ∀ j < i, ∀ t, ss[j]? = some t → ∀ v, ¬t.AssignsSchema c v) :
    schemaBody? c ss = some (ss.take i ++ [⟨.returns [value], s.decs⟩]) := by
  induction ss generalizing i with
  | nil => cases hs
  | cons t ss ih =>
    rw [schemaBody?]
    cases i with
    | zero =>
      obtain rfl : t = s := Option.some.inj hs
      rw [schemaValue?_eq_some_iff.mpr hvalue]
      rfl
    | succ i =>
      have ht : schemaValue? c t = none := by
        rw [Option.eq_none_iff_forall_ne_some]
        exact fun v hv => hfirst 0 (Nat.succ_pos i) t rfl v (schemaValue?_eq_some_iff.mp hv)
      simp only [ht, ih hs fun j hj => hfirst (j + 1) (Nat.succ_lt_succ hj)]
      rfl

/-- A function with a schema assignment has a first one. -/
theorem FuncDecl.exists_firstSchemaAt {f : FuncDecl} {t : Stmt} {v : Expr} (ht : t ∈ f.stmts)
    (hv : t.AssignsSchema c v) : ∃ i s value, f.FirstSchemaAt c i s value := by
  let assigns (i : Nat) : Prop := ∃ s value, f.stmts[i]? = some s ∧ s.AssignsSchema c value
  have hexists : ∃ i, assigns i := by
    obtain ⟨i, hi⟩ := List.mem_iff_getElem?.mp ht
    exact ⟨i, t, v, hi, hv⟩
  classical
  obtain ⟨s, value, hs, hvalue⟩ := Nat.find_spec hexists
  exact ⟨_, s, value, hs, hvalue, fun j hj u hu w hw => Nat.find_min hexists hj ⟨u, w, hu, hw⟩⟩

/-! ## The method -/

/-- The method `GetSchema` with the given statements, where `type` is the schema type. -/
def schemaMethod (c : Conventions) (handler : String) (type : Expr) (body : List Stmt) : Decl :=
  .appended
    { recv := some (c.receiver handler)
      name := "GetSchema"
      signature := ⟨.of [], some (.of [.of [] type])⟩
      body := some (.of body) }

/-- The method has the body up to the first assignment, or there is none. -/
theorem synthesizeGetSchema_outcome {type : Expr} (htype : Conventions.typeExpr c.schemaType = .ok type)
    (handler : String) (register : FuncDecl) :
    (synthesizeGetSchema c handler register).outcome.1 =
      match schemaBody? c register.stmts with
      | none => .error { kind := .schemaAssignmentNotFound handler }
      | some body => .ok (schemaMethod c handler type body) := by
  have hresult : Conventions.result c.schemaType = .ok (.of [.of [] type]) := by
    rw [Conventions.result, htype]
    rfl
  rw [synthesizeGetSchema]
  cases schemaBody? c register.stmts with
  | none => rfl
  | some body =>
    simp only [hresult]
    rfl

/-- With a schema type that is one, `GetSchema` fails for want of a schema assignment if and only if
`Register` has none. Otherwise its body is what stands before the first one, and a return of what
that assigns. -/
theorem synthesizeGetSchema_cuts {type : Expr} (htype : Conventions.typeExpr c.schemaType = .ok type)
    (handler : String) (register : FuncDecl) :
    ((synthesizeGetSchema c handler register).outcome.1 =
        .error { kind := .schemaAssignmentNotFound handler } ↔
      ¬∃ i s value, register.FirstSchemaAt c i s value) ∧
    ∀ i s value, register.FirstSchemaAt c i s value →
      (synthesizeGetSchema c handler register).outcome.1 =
        .ok (schemaMethod c handler type
          (register.stmts.take i ++ [⟨.returns [value], s.decs⟩])) := by
  rw [synthesizeGetSchema_outcome htype]
  refine ⟨⟨?_, fun hnone => ?_⟩, fun i s value h => ?_⟩
  · rintro herror ⟨i, s, value, h⟩
    rw [schemaBody?_eq_some h.stmt h.assigns h.first] at herror
    cases herror
  · have hbody : schemaBody? c register.stmts = none :=
      schemaBody?_eq_none_iff.mpr fun t ht v hv => hnone (FuncDecl.exists_firstSchemaAt ht hv)
    rw [hbody]
  · rw [schemaBody?_eq_some h.stmt h.assigns h.first]

/-- A `Register` that assigns to another map, adds to an entry, assigns twice at once and to an
entry in parentheses before it assigns two schemas. -/
def nearMissing : FuncDecl where
  recv := some (.of [.of ["h"] (.star (.ident "H"))])
  name := "Register"
  signature := ⟨.of [], none⟩
  body :=
    let entry (map : Expr) : Expr := .index map (.ident "k")
    let schemas : Expr := .selector (.ident "s") "Schema"
    some (.of
      [.plain (.assign [entry (.selector (.ident "t") "Schema")] .assign [.ident "v"]),
        .plain (.assign [entry schemas] (.op .add) [.ident "v"]),
        .plain (.assign [entry schemas, .ident "x"] .assign [.ident "v", .ident "w"]),
        .plain (.assign [.paren (entry schemas)] .assign [.ident "v"]),
        ⟨.assign [entry schemas] .assign [.ident "first"], .blankLine⟩,
        .plain (.assign [entry schemas] .assign [.ident "second"]),
        .returnNil])

/-- Statements that only look like a schema assignment are kept. -/
theorem synthesizeGetSchema_cuts_nearMissing :
    ∃ type, Conventions.typeExpr ({} : Conventions).schemaType = .ok type ∧
      nearMissing.FirstSchemaAt {} 4
        ⟨.assign [.index (.selector (.ident "s") "Schema") (.ident "k")] .assign [.ident "first"],
          .blankLine⟩ (.ident "first") ∧
      (synthesizeGetSchema {} "H" nearMissing).outcome.1 =
        .ok (schemaMethod {} "H" type
          (nearMissing.stmts.take 4 ++ [⟨.returns [.ident "first"], .blankLine⟩])) := by
  have hok : (Conventions.typeExpr ({} : Conventions).schemaType).toOption.isSome := by
    decide +kernel
  cases htype : Conventions.typeExpr ({} : Conventions).schemaType with
  | error kind =>
    rw [htype] at hok
    cases hok
  | ok type =>
    have hfirst : nearMissing.FirstSchemaAt {} 4
        ⟨.assign [.index (.selector (.ident "s") "Schema") (.ident "k")] .assign [.ident "first"],
          .blankLine⟩ (.ident "first") := by
      refine ⟨rfl, ⟨_, rfl⟩, fun j hj t ht v => ?_⟩
      rw [← schemaValue?_eq_some_iff]
      match j, hj, ht with
      | 0, _, ht | 1, _, ht | 2, _, ht | 3, _, ht =>
        obtain rfl := Option.some.inj ht
        intro hv
        cases hv
    exact ⟨type, rfl, hfirst, (synthesizeGetSchema_cuts htype "H" nearMissing).2 4 _ _ hfirst⟩

end HandlerSplit
