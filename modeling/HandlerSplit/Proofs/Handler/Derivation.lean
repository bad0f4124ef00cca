import HandlerSplit.Proofs.Handler.Conventions
import HandlerSplit.Proofs.Handler.Runs
import HandlerSplit.Proofs.Tree.Renaming
import Mathlib.Data.List.Forall2
/-!
# How methods are derived

A method is derived from the loops of `Process` over its bucket of the set difference, wherever they
stand: from the last one, if there is any (`collect_get`). What becomes of its body is told by
filtering and renaming its statements, what is counted by counting in them (`deriveBody_eq`). So the
three methods are those that the bodies of the loops over their buckets give
(`synthesizeCrud_derives`).

The legacy name of the service version is gone from what is taken over. It may still be `nil`, which
is then mentioned by the return behind it (`synthesizeCrud_mentions_legacy`).
-/

namespace HandlerSplit

open Event (names)

variable {c : Conventions} {handler : String} {process : FuncDecl} {log : List LogEvent}

/-! ## The loops over a bucket -/

/-- The bodies of the loops of a function over a bucket of the set difference, at any depth, in the
order in which reading meets them. -/
def FuncDecl.bucketBodies (f : FuncDecl) (diffResult bucket : String) : List Block :=
  (Event.stmts ((f.body.map Block.events).getD [])).filterMap fun s =>
    match s.kind with
    | .rangeLoop _ _ _ x body =>
      if x.unparen.isSelectorOf diffResult bucket then some body else none
    | _ => none

/-- The bodies of the loops over a bucket, among loops with their buckets. -/
def bodiesOver (bucket : String) (loops : List (String × Block)) : List Block :=
  loops.filterMap fun (b, body) => if b = bucket then some body else none

/-- The loops that are collected over a bucket are those of the function. -/
theorem bodiesOver_bucketLoops (f : FuncDecl) (diffResult bucket : String) :
    bodiesOver bucket ((f.body.map (bucketLoops diffResult)).getD []) =
      f.bucketBodies diffResult bucket := by
  obtain ⟨_, _, _, _ | body⟩ := f
  · rfl
  show ((Event.stmts body.events).filterMap (bucketLoop? diffResult)).filterMap _ =
    (Event.stmts body.events).filterMap _
  rw [List.filterMap_filterMap]
  refine congrArg (List.filterMap · _) (funext fun s => ?_)
  rw [bucketLoop?]
  cases s.kind with
  | rangeLoop key value define x body =>
    rcases hx : x.unparen.selector? with _ | ⟨base, name⟩
    · simp [Expr.isSelectorOf, hx]
    · by_cases hbase : base.isIdent diffResult <;> simp [Expr.isSelectorOf, hx, hbase]
  | _ => rfl

theorem Operation.ofBucket?_eq_none {bucket : String} (h : ofBucket? bucket = none)
    (op : Operation) : bucket ≠ op.bucket := by
  have hop := List.find?_eq_none.1 h op (by cases op <;> decide)
  exact fun hbucket => hop (beq_iff_eq.2 hbucket.symm)

/-- A bucket that belongs to an operation is its bucket. -/
theorem Operation.ofBucket?_eq_some {bucket : String} {op : Operation}
    (h : ofBucket? bucket = some op) : bucket = op.bucket := by
  have hop := List.find?_some h
  exact (beq_iff_eq.1 hop).symm

/-- No two operations share a bucket. -/
theorem Operation.bucket_injective {op op' : Operation} (h : op.bucket = op'.bucket) :
    op = op' := by
  cases op <;> cases op' <;> first | rfl | exact absurd h (by decide)

/-- Setting the loop of one operation leaves the others. -/
theorem Buckets.get_set (b : Buckets) (op op' : Operation) (body : Block) :
    (b.set op body).get op' = if op = op' then some body else b.get op' := by
  cases op <;> cases op' <;> rfl

/-- Of several loops over a bucket the last is found. -/
theorem Buckets.collect_get (b : Buckets) (loops : List (String × Block)) (op : Operation)
    (log : List LogEvent) :
    ((b.collect loops).run log).1.get op =
      (bodiesOver op.bucket loops).getLast?.or (b.get op) := by
  induction loops generalizing b log with
  | nil => rfl
  | cons loop loops ih =>
    obtain ⟨bucket, body⟩ := loop
    rw [collect]
    cases hop : Operation.ofBucket? bucket with
    | none =>
      have hne := Operation.ofBucket?_eq_none hop op
      have hover : bodiesOver op.bucket ((bucket, body) :: loops) = bodiesOver op.bucket loops := by
        simp [bodiesOver, hne]
      rw [hover]
      exact ih b _
    | some op' =>
      obtain rfl := Operation.ofBucket?_eq_some hop
      have hrun : ∀ log, ∃ log', (do
          if (b.get op').isSome then report (.bucketRepeated op'.bucket)
          report (.bucketMatched op'.bucket op'.method)
          (b.set op' body).collect loops : Traced Buckets).run log =
            ((b.set op' body).collect loops).run log' := by
        intro log
        by_cases hsome : (b.get op').isSome
        · rw [if_pos hsome]
          exact ⟨_, rfl⟩
        · rw [if_neg hsome]
          exact ⟨_, rfl⟩
      obtain ⟨log', hlog'⟩ := hrun log
      simp only [hlog', ih, get_set]
      by_cases heq : op' = op
      · subst heq
        simp [bodiesOver, List.getLast?_cons]
      · have hne : op'.bucket ≠ op.bucket := fun h => heq (Operation.bucket_injective h)
        simp [bodiesOver, heq, hne]

/-! ## Bodies -/

/-- The names in statements, in order. -/
def stmtNames (ss : List Stmt) : List String :=
  names (stmtEvents ss)

/-- The statements of a loop that a method takes over: all but the first, which starts the
body without an empty line, and the top-level assignments to the parameter of the changed
fields alone. -/
def keptStmts (c : Conventions) (loop : Block) : List Stmt :=
  (clearStart loop.stmts.tail).filter fun s => !s.assignsTo c.modifiedParam

/-- The body of a method and how it was made, given the bodies of the loops over its bucket. -/
def derivation (c : Conventions) (bodies : List Block) : Block × Option BodyEdits :=
  match bodies.getLast? with
  | none => (⟨[.returnNil], .multiLine, false⟩, none)
  | some loop =>
    let kept := keptStmts c loop
    let taken := kept.map (·.subst (.ofNames (renamed c.legacyVersion c.versionParam)))
    (⟨taken ++ [.returnNil], { loop.enclosure with closeNewline := true }, false⟩,
      some ⟨loop.stmts.tail.countP (·.assignsTo c.modifiedParam),
        (stmtNames kept).count c.legacyVersion⟩)

/-- Clearing the start of a body changes none of its assignments. -/
theorem countP_clearStart (ss : List Stmt) (name : String) :
    (clearStart ss).countP (·.assignsTo name) = ss.countP (·.assignsTo name) := by
  cases ss with
  | nil => rfl
  | cons s ss => simp only [clearStart, List.countP_cons]; rfl

/-- What is not kept of some statements are those that assign to the name alone. -/
theorem length_sub_length_filter (ss : List Stmt) (name : String) :
    ss.length - (ss.filter fun s => !s.assignsTo name).length = ss.countP (·.assignsTo name) := by
  rw [← List.countP_eq_length_filter, List.length_eq_countP_add_countP (·.assignsTo name)]
  simp

/-- The body is derived from the last loop over the bucket. -/
theorem deriveBody_eq {bodies : List Block} {loop : Block} (h : bodies.getLast? = some loop) :
    derivation c bodies = ((deriveBody c loop).1, some (deriveBody c loop).2) := by
  have hedits : (clearStart loop.stmts.tail).length - (keptStmts c loop).length =
      loop.stmts.tail.countP (·.assignsTo c.modifiedParam) := by
    rw [keptStmts, length_sub_length_filter, countP_clearStart]
  simp only [derivation, h, deriveBody, Block.rename_eq, List.drop_one, ← hedits,
    ← substStmts_eq_map]
  rfl

/-! ## What derived bodies are free of -/

/-- A statement of which the names are mapped assigns to what the name is mapped to. -/
theorem Stmt.assignsTo_subst {f : String → String} {s : Stmt} {name : String}
    (h : (s.subst (.ofNames f)).assignsTo name) : ∃ n, s.assignsTo n ∧ f n = name := by
  obtain ⟨kind, decs⟩ := s
  cases kind with
  | assign lhs op rhs =>
    obtain _ | ⟨x, _ | ⟨y, lhs⟩⟩ := lhs
    · cases h
    · cases x with
      | ident n =>
        have hname : (some (f n) == some name) = true := h
        exact ⟨n, beq_self_eq_true _, by simpa using hname⟩
      | _ => cases h
    · cases h
  | _ => cases h

/-- Renaming maps the names of statements. -/
theorem names_stmtEvents_map_subst (f : String → String) (ss : List Stmt) :
    stmtNames (ss.map (·.subst (.ofNames f))) = (stmtNames ss).map f := by
  rw [← substStmts_eq_map]
  exact traversed_stmts (names_subst_traversal f) ss

/-- Returning `nil` mentions one name more. -/
theorem stmtNames_concat_returnNil (ss : List Stmt) :
    stmtNames (ss ++ [.returnNil]) = stmtNames ss ++ ["nil"] := by
  induction ss with
  | nil => rfl
  | cons s ss ih =>
    rw [stmtNames] at ih ⊢
    rw [List.cons_append, stmtEvents, Event.names_append, ih, stmtNames, stmtNames, stmtEvents,
      Event.names_append, List.append_assoc]

/-- A body that mentions the legacy name of the service version at most in its last statement, and
there only as `nil`, and that assigns to the parameter of the changed fields alone nowhere at its
top level. -/
structure Block.Rebased (c : Conventions) (b : Block) : Prop where
  not_mem_dropLast : c.legacyVersion ∉ stmtNames b.stmts.dropLast
  not_mem : c.legacyVersion ≠ "nil" → c.legacyVersion ∉ stmtNames b.stmts
  not_assignsTo : ∀ s ∈ b.stmts, ¬s.assignsTo c.modifiedParam

/-- Returning `nil` after statements that are rebased adds no other name, and no assignment. -/
theorem rebased_concat_returnNil (ss : List Stmt) {enclosure : Enclosure} {oneLine : Bool}
    (hnames : c.legacyVersion ∉ stmtNames ss)
    (hassigns : ∀ s ∈ ss, ¬s.assignsTo c.modifiedParam) :
    (⟨ss ++ [.returnNil], enclosure, oneLine⟩ : Block).Rebased c where
  not_mem_dropLast := by rwa [List.dropLast_concat]
  not_mem hnil := by
    rw [stmtNames_concat_returnNil, List.mem_append, List.mem_singleton]
    exact fun hmem => hmem.elim hnames hnil
  not_assignsTo s hs := by
    rcases List.mem_append.1 hs with hs | hs
    · exact hassigns s hs
    · rw [List.mem_singleton.1 hs]
      exact Bool.false_ne_true

/-- A derived body mentions no old version and assigns no modified map. -/
theorem rebased_derivation (hlegacy : c.versionParam ≠ c.legacyVersion)
    (hmodified : c.versionParam ≠ c.modifiedParam) (bodies : List Block) :
    (derivation c bodies).1.Rebased c := by
  rw [derivation]
  cases bodies.getLast? with
  | none => exact rebased_concat_returnNil [] List.not_mem_nil nofun
  | some loop =>
    refine rebased_concat_returnNil _ (fun hmem => ?_) fun s hs hassigns => ?_
    · rw [names_stmtEvents_map_subst] at hmem
      obtain ⟨n, -, hn⟩ := List.mem_map.1 hmem
      exact renamed_ne hlegacy.symm n hn
    · obtain ⟨t, ht, rfl⟩ := List.mem_map.1 hs
      obtain ⟨n, hn, hname⟩ := Stmt.assignsTo_subst hassigns
      rw [renamed] at hname
      split at hname
      case isTrue => exact hmodified hname
      case isFalse =>
        have hkept := (List.mem_filter.1 ht).2
        rw [← hname, hn] at hkept
        cases hkept

/-! ## The methods -/

/-- The method of an operation for a handler is what the loops of `Process` over its bucket
make of it. -/
structure DerivedFrom (c : Conventions) (handler : String) (process : FuncDecl) (op : Operation)
    (m : CrudMethod) : Prop where
  operation : m.operation = op
  decl : ∃ params results, c.handlerParams op.mapParam = .ok params ∧
    Conventions.result c.errorType = .ok results ∧
    m.decl = .appended
      { recv := some (c.receiver handler)
        name := op.method
        signature := ⟨params, some results⟩
        body := some (derivation c (process.bucketBodies c.diffResult op.bucket)).1 }
  edits : m.edits = (derivation c (process.bucketBodies c.diffResult op.bucket)).2
  rebased : c.versionParam ≠ c.legacyVersion → c.versionParam ≠ c.modifiedParam →
    (derivation c (process.bucketBodies c.diffResult op.bucket)).1.Rebased c

/-- What a method is made of does not depend on the log. -/
theorem methodBody_run (c : Conventions) (op : Operation) (bodies : List Block)
    (log : List LogEvent) :
    ∃ log', (methodBody c op bodies.getLast?).run log = (derivation c bodies, log') := by
  cases hlast : bodies.getLast? with
  | none => exact ⟨_, by rw [derivation, hlast]; rfl⟩
  | some loop => exact ⟨log, by rw [deriveBody_eq hlast]; rfl⟩

/-- A method that is made of the last loop over its bucket is derived from `Process`. -/
theorem crudMethod_ok {op : Operation} {m : CrudMethod} {log' : List LogEvent}
    (h : (crudMethod c handler op (process.bucketBodies c.diffResult op.bucket).getLast?).run log =
      (.ok m, log')) : DerivedFrom c handler process op m := by
  obtain ⟨_, _, hbody, h⟩ := bind_ok h
  obtain ⟨params, _, hparams, h⟩ := bind_ok h
  obtain ⟨results, _, hresults, h⟩ := bind_ok h
  obtain ⟨rfl, -⟩ := pure_ok h
  obtain ⟨_, hrun⟩ := methodBody_run c op (process.bucketBodies c.diffResult op.bucket) log
  obtain ⟨rfl, -⟩ := Prod.mk.inj (hrun.symm.trans (Attempt.lift_ok hbody))
  exact ⟨rfl, ⟨params, results, Attempt.ofExcept_ok hparams, Attempt.ofExcept_ok hresults, rfl⟩, rfl,
    fun hlegacy hmodified => rebased_derivation hlegacy hmodified _⟩

/-- Methods that are made at all are derived from `Process`. -/
theorem synthesizeCrud_ok {ms : List CrudMethod} {log' : List LogEvent}
    (h : (synthesizeCrud c handler process).run log = (.ok ms, log')) :
    List.Forall₂ (DerivedFrom c handler process) Operation.all ms := by
  obtain ⟨buckets, _, hcollect, h⟩ := bind_ok h
  have hget (op : Operation) :
      buckets.get op = (process.bucketBodies c.diffResult op.bucket).getLast? := by
    have hfound := congrArg Prod.fst (Attempt.lift_ok hcollect)
    rw [← bodiesOver_bucketLoops, show buckets = _ from hfound.symm, Buckets.collect_get]
    cases op <;> exact Option.or_none
  obtain ⟨create, _, hcreate, h⟩ := bind_ok h
  obtain ⟨update, _, hupdate, h⟩ := bind_ok h
  obtain ⟨delete, _, hdelete, h⟩ := bind_ok h
  obtain ⟨rfl, -⟩ := pure_ok h
  rw [show buckets.create = _ from hget .create] at hcreate
  rw [show buckets.update = _ from hget .update] at hupdate
  rw [show buckets.delete = _ from hget .delete] at hdelete
  exact .cons (crudMethod_ok hcreate) (.cons (crudMethod_ok hupdate)
    (.cons (crudMethod_ok hdelete) .nil))

/-- With valid conventions every method can be made. -/
theorem exists_crudMethod (hc : c.validate = .ok ()) (handler : String) (op : Operation)
    (loop : Option Block) (log : List LogEvent) :
    ∃ m log', (crudMethod c handler op loop).run log = (.ok m, log') := by
  obtain ⟨params, hparams⟩ := handlerParams_of_validate hc op.mapParam
  obtain ⟨results, hresults⟩ := errorResult_of_validate hc
  rw [crudMethod, bind_run, Attempt.lift_run]
  simp only [hparams, hresults]
  exact ⟨_, _, rfl⟩

/-- Valid conventions give every method, as the loops of `Process` over its bucket make it. -/
theorem synthesizeCrud_derives (hc : c.validate = .ok ()) (handler : String) (process : FuncDecl)
    (log : List LogEvent) :
    ∃ ms log', (synthesizeCrud c handler process).run log = (.ok ms, log') ∧
      List.Forall₂ (DerivedFrom c handler process) Operation.all ms := by
  let loops := (process.body.map (bucketLoops c.diffResult)).getD []
  rcases hcollect : (Buckets.collect {} loops).run log with ⟨buckets, log₀⟩
  obtain ⟨create, log₁, hcreate⟩ := exists_crudMethod hc handler .create buckets.create log₀
  obtain ⟨update, log₂, hupdate⟩ := exists_crudMethod hc handler .update buckets.update log₁
  obtain ⟨delete, log₃, hdelete⟩ := exists_crudMethod hc handler .delete buckets.delete log₂
  have hrun : (synthesizeCrud c handler process).run log = (.ok [create, update, delete], log₃) := by
    rw [synthesizeCrud, bind_run, Attempt.lift_run, hcollect]
    simp only [bind_run, hcreate, hupdate, hdelete]
    rfl
  exact ⟨_, _, hrun, synthesizeCrud_ok hrun⟩

/-- A `Process` with two loops over one bucket, the second inside the first. -/
def looping : FuncDecl where
  recv := some (.of [.of ["h"] (.star (.ident "H"))])
  name := "Process"
  signature := ⟨.of [], none⟩
  body :=
    let inner : Stmt := .plain (.rangeLoop none (some (.ident "r")) true
      (.paren (.selector (.ident "diffResult") "Added"))
      (.of [.plain (.incDec (.ident "n") true),
        .plain (.assign [.ident "modified"] .assign [.ident "nil"]),
        .plain (.expr (.callOf (.ident "use") [.ident "latestVersion", .ident "r"]))]))
    some (.of [.plain (.rangeLoop none (some (.ident "r")) true
      (.selector (.ident "diffResult") "Added") (.of [inner]))])

/-- All three methods are derived of a function with loops over its buckets. -/
theorem synthesizeCrud_derives_looping :
    ({} : Conventions).validate = .ok () ∧
      ∃ ms log', (synthesizeCrud {} "H" looping).run [] = (.ok ms, log') ∧
        List.Forall₂ (DerivedFrom {} "H" looping) Operation.all ms :=
  ⟨validate_standard, synthesizeCrud_derives validate_standard "H" looping []⟩

/-- A legacy name `nil` is mentioned by the return behind a derived body, though the parameter
has another name. -/
theorem synthesizeCrud_mentions_legacy :
    let c : Conventions := { legacyVersion := "nil" }
    c.validate = .ok () ∧ c.versionParam ≠ c.legacyVersion ∧ c.versionParam ≠ c.modifiedParam ∧
      (synthesizeCrud c "H" looping).outcome.1.toOption.map
          (·.map fun m => (m.decl.func?.bind (·.body)).map Block.names) =
        some [some ["use", "latestVersion", "r", "nil"], some ["nil"], some ["nil"]] ∧
      c.legacyVersion ∈ ["use", "latestVersion", "r", "nil"] := by
  refine ⟨(validate_congr rfl).trans validate_standard, by decide, by decide, ?_, by decide⟩
  decide +kernel

end HandlerSplit
