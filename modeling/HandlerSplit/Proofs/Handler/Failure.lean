import HandlerSplit.Proofs.Handler.Conventions
import HandlerSplit.Proofs.Handler.Rebinding
import HandlerSplit.Proofs.Handler.Resolution
/-!
# What a refactoring that fails leaves behind

A refactoring can fail at five places: an anchor does not resolve, `Process` is no method of a
pointer, a type of the conventions is none, `Register` assigns no schema, or `Read` selects what
cannot be rebound. Only the last comes after the file was changed: the types that are parsed
behind the first change have all been parsed before (`handlerParams_cases`). So every other
failure leaves the file as it was, and the last leaves it as it was but for the selectors of
`Read` in front of the one that is reported (`refactor_error`).
-/

namespace HandlerSplit

variable {c : Conventions} {log log' : List LogEvent}

/-! ## Resolving anchors -/

/-- An index is not built because an anchor is missing, or `Process` is no method of a pointer. -/
theorem DeclIndex.build_error {policy : AnchorPolicy} {file : SourceFile} {e : Error}
    (h : (DeclIndex.build policy file).run log = (.error e, log')) :
    (∃ a : Anchor, e.kind = .notFound a.fragment) ∨
      ∃ found, e.kind = .invalidReceiver found := by
  have hfind : ∀ {a : Anchor} {l l' : List LogEvent},
      (a.find policy file).run l = (.error e, l') → e.kind = .notFound a.fragment := by
    intro a l l' hrun
    have hfst := Anchor.find_run a policy file l
    rw [hrun] at hfst
    cases hpos : a.position? policy file with
    | some i => rw [hpos] at hfst; cases hfst
    | none => rw [hpos] at hfst; cases hfst; rfl
  rcases bind_error h with h | ⟨process, _, hprocess, h⟩
  · exact .inl ⟨.process, hfind h⟩
  rcases bind_error h with h | ⟨register, _, hregister, h⟩
  · exact .inl ⟨.register, hfind h⟩
  rcases bind_error h with h | ⟨read, _, hread, h⟩
  · exact .inl ⟨.read, hfind h⟩
  rcases bind_error h with h | ⟨ctor, _, hctor, h⟩
  · exact .inl ⟨.ctor, hfind h⟩
  cases hf : file.func? process with
  | none =>
    simp only [hf] at h
    cases h
    exact .inl ⟨.process, rfl⟩
  | some f =>
    simp only [hf] at h
    cases hh : f.handlerType with
    | error kind =>
      simp only [hh] at h
      cases h
      right
      rw [FuncDecl.handlerType] at hh
      split at hh
      · cases hh
        exact ⟨_, rfl⟩
      · split at hh <;> cases hh
        exact ⟨_, rfl⟩
    | ok handler =>
      simp only [hh] at h
      exfalso
      cases hrecv : (file.func? register).bind FuncDecl.receiverType with
      | none =>
        simp only [hrecv] at h
        cases h
      | some type =>
        simp only [hrecv] at h
        split at h <;> cases h

/-- The anchors of an index stand at functions. -/
theorem DeclIndex.exists_func? {policy : AnchorPolicy} {file : SourceFile} {index : DeclIndex}
    (h : ((DeclIndex.build policy file).run log).1 = .ok index) (a : Anchor) :
    ∃ f, file.func? (index.position a) = some f := by
  obtain ⟨f, hf, -⟩ := (Anchor.position?_eq_some_iff.1 ((DeclIndex.build_ok_iff.1 h).1 a)).1
  exact ⟨f, hf⟩

theorem DeclIndex.anchored_run {file : SourceFile} {index : DeclIndex} {a : Anchor}
    {f : FuncDecl} (h : file.func? (index.position a) = some f) :
    (index.anchored file a).run log = (.ok f, log) := by
  simp only [DeclIndex.anchored, h]
  rfl

/-! ## Deriving methods -/

/-- A method is not made if a type of the conventions is invalid. -/
theorem crudMethod_error {handler : String} {op : Operation} {loop : Option Block} {e : Error}
    (h : (crudMethod c handler op loop).run log = (.error e, log')) : InvalidType c e.kind := by
  rcases bind_error h with h | ⟨⟨body, edits⟩, _, -, h⟩
  · exact absurd h Attempt.lift_ne_error
  rcases bind_error h with h | ⟨params, _, -, h⟩
  · exact handlerParams_error (Attempt.ofExcept_error h)
  rcases bind_error h with h | ⟨results, _, -, h⟩
  · exact ⟨c.errorType, by simp [Conventions.types], result_error (Attempt.ofExcept_error h)⟩
  · cases h

theorem crudMethod_params {handler : String} {op : Operation} {loop : Option Block}
    {m : CrudMethod} (h : (crudMethod c handler op loop).run log = (.ok m, log')) :
    ∃ params, c.handlerParams op.mapParam = .ok params := by
  obtain ⟨_, _, -, h⟩ := bind_ok h
  obtain ⟨params, _, hparams, -⟩ := bind_ok h
  exact ⟨params, Attempt.ofExcept_ok hparams⟩

/-- Methods are not derived if a type of the conventions is invalid. -/
theorem synthesizeCrud_error {handler : String} {process : FuncDecl} {e : Error}
    (h : (synthesizeCrud c handler process).run log = (.error e, log')) :
    InvalidType c e.kind := by
  rcases bind_error h with h | ⟨buckets, _, -, h⟩
  · exact absurd h Attempt.lift_ne_error
  rcases bind_error h with h | ⟨create, _, -, h⟩
  · exact crudMethod_error h
  rcases bind_error h with h | ⟨update, _, -, h⟩
  · exact crudMethod_error h
  rcases bind_error h with h | ⟨delete, _, -, h⟩
  · exact crudMethod_error h
  · cases h

/-- Methods that are derived have parameters, so `Read` can be given its own. -/
theorem synthesizeCrud_params {handler : String} {process : FuncDecl} {ms : List CrudMethod}
    (h : (synthesizeCrud c handler process).run log = (.ok ms, log')) (map : MapParam) :
    ∃ params, c.handlerParams map = .ok params := by
  obtain ⟨_, _, -, h⟩ := bind_ok h
  obtain ⟨_, _, hcreate, -⟩ := bind_ok h
  obtain ⟨params, hparams⟩ := crudMethod_params hcreate
  exact handlerParams_ok hparams

/-- The method for the schema is not made without an assignment, or without its type. -/
theorem synthesizeGetSchema_error {handler : String} {register : FuncDecl} {e : Error}
    (h : (synthesizeGetSchema c handler register).run log = (.error e, log')) :
    e.kind = .schemaAssignmentNotFound handler ∨ InvalidType c e.kind := by
  rw [synthesizeGetSchema] at h
  cases hb : schemaBody? c register.stmts with
  | none =>
    simp only [hb] at h
    cases h
    exact .inl rfl
  | some stmts =>
    simp only [hb] at h
    rcases bind_error h with h | ⟨_, _, -, h⟩
    · exact absurd h Attempt.lift_ne_error
    rcases bind_error h with h | ⟨results, _, -, h⟩
    · exact .inr
        ⟨c.schemaType, by simp [Conventions.types], result_error (Attempt.ofExcept_error h)⟩
    · cases h

/-! ## Rebinding -/

/-- `Read` is not rebound because of a type, or its body was left where a selector stopped it. -/
theorem rewriteRead_error {read read' : FuncDecl} {kind : ErrorKind}
    (h : (rewriteRead c read).run log = (⟨read', .error kind⟩, log')) :
    c.handlerParams .blank = .error kind ∨
      ∃ body body' offending, read.body = some body ∧ StoppedBody c body body' offending ∧
        kind = .unexpectedSelector offending.print ∧ read' = { read with body := some body' } := by
  simp only [rewriteRead] at h
  rcases rewriteBody_versionBinder (c := c) read.body with
    ⟨-, hbound⟩ | ⟨body, body', x, hbody, hx, hbody', hstopped⟩
  · simp only [hbound] at h
    cases hparams : c.handlerParams .blank with
    | error kind' =>
      simp only [hparams] at h
      cases h
      exact .inl rfl
    | ok params =>
      simp only [hparams] at h
      cases h
  · simp only [hx, hbody'] at h
    cases h
    exact .inr ⟨body, body', x, hbody, hstopped, rfl, rfl⟩

/-! ## The file -/

/-- A file whose function at `i` was left in the middle of rebinding, at the selector that is
reported: its body was rebound in front of that selector, and nothing else is changed. -/
structure StoppedAt (c : Conventions) (i : Nat) (file file' : SourceFile) (selector : String) :
    Prop where
  package : file'.package = file.package
  packageDecs : file'.packageDecs = file.packageDecs
  trailingComments : file'.trailingComments = file.trailingComments
  length : file'.decls.length = file.decls.length
  others : ∀ j, j ≠ i → file'.decls[j]? = file.decls[j]?
  read : ∃ f decs body body' offending, file.decls[i]? = some ⟨.func f, decs⟩ ∧
    f.body = some body ∧ StoppedBody c body body' offending ∧ selector = offending.print ∧
    file'.decls[i]? = some ⟨.func { f with body := some body' }, decs⟩

/-- A file is stopped at a function whose body has been rewritten up to a selector. -/
theorem stoppedAt_setFunc {i : Nat} {file : SourceFile} {f : FuncDecl} {body body' : Block}
    {offending : Expr} (hf : file.func? i = some f) (hbody : f.body = some body)
    (hstopped : StoppedBody c body body' offending) :
    StoppedAt c i file (file.setFunc i { f with body := some body' }) offending.print := by
  obtain ⟨decs, hd⟩ := SourceFile.func?_eq_some_iff.1 hf
  refine ⟨rfl, rfl, rfl, ?_, fun j hj => ?_, f, decs, body, body', offending, hd, hbody,
    hstopped, rfl, ?_⟩
  · simp [SourceFile.setFunc]
  · simp [SourceFile.setFunc, Ne.symm hj]
  · simp [SourceFile.setFunc, hd]

/-- Appending never fails. -/
theorem appendMethods_ne_error {handler : String} {ds : List Decl} {file file' : SourceFile}
    {e : Error} :
    ((Refactorer.appendMethods handler ds).apply file).run log ≠ ((.error e, file'), log') := by
  induction ds generalizing file log with
  | nil => nofun
  | cons d ds ih =>
    intro h
    rw [Refactorer.appendMethods] at h
    split at h
    · rcases FileEdit.bind_error h with h | ⟨_, _, _, -, h⟩
      · exact FileEdit.traced_ne_error h
      rcases FileEdit.bind_error h with h | ⟨_, _, _, -, h⟩
      · cases h
      rcases FileEdit.bind_error h with h | ⟨_, _, _, -, h⟩
      · exact ih h
      · cases h
    · rcases FileEdit.bind_error h with h | ⟨_, _, _, -, h⟩
      · cases h
      · exact ih h

/-- Editing one function of a file keeps functions at their positions. -/
theorem exists_func?_setFunc {file : SourceFile} {i j : Nat} {f g : FuncDecl}
    (h : file.func? j = some f) : ∃ f', (file.setFunc i g).func? j = some f' := by
  rw [SourceFile.func?_setFunc]
  split
  · obtain ⟨decs, hd⟩ := SourceFile.func?_eq_some_iff.1 h
    exact ⟨g, by rw [hd]; rfl⟩
  · exact ⟨f, h⟩

/-- A transformation fails before the file is changed, or in the body of `Read`. -/
theorem transform_error {r : Refactorer} {index : DeclIndex} {file file' : SourceFile} {e : Error}
    (hfunc : ∀ a, ∃ f, file.func? (index.position a) = some f)
    (h : ((r.transform index).apply file).run log = ((.error e, file'), log')) :
    (file' = file ∧
        (e.kind = .schemaAssignmentNotFound index.handler ∨ InvalidType r.conventions e.kind)) ∨
      ∃ selector, e.kind = .unexpectedSelector selector ∧
        StoppedAt r.conventions index.read file file' selector := by
  obtain ⟨process, hprocess⟩ := hfunc .process
  obtain ⟨register, hregister⟩ := hfunc .register
  rcases FileEdit.bind_error h with h₁ | ⟨crud, _, _, runCrud, h₁⟩
  · obtain ⟨hcrud, rfl⟩ := FileEdit.attempt_error h₁
    rw [bind_run, DeclIndex.anchored_run hprocess] at hcrud
    exact .inl ⟨rfl, .inr (synthesizeCrud_error hcrud)⟩
  obtain ⟨hcrud, rfl⟩ := FileEdit.attempt_ok runCrud
  rw [bind_run, DeclIndex.anchored_run hprocess] at hcrud
  rcases FileEdit.bind_error h₁ with h₂ | ⟨getSchema, _, _, runSchema, h₂⟩
  · obtain ⟨hschema, rfl⟩ := FileEdit.attempt_error h₂
    rw [bind_run, DeclIndex.anchored_run hregister] at hschema
    exact .inl ⟨rfl, synthesizeGetSchema_error hschema⟩
  obtain ⟨-, rfl⟩ := FileEdit.attempt_ok runSchema
  rcases FileEdit.bind_error h₂ with h₃ | ⟨key, _, _, runKey, h₃⟩
  · exact absurd h₃ FileEdit.traced_ne_error
  obtain ⟨-, rfl⟩ := FileEdit.traced_ok runKey
  rcases FileEdit.bind_error h₃ with h₄ | ⟨readSelectors, _, _, runRead, h₄⟩
  · right
    rcases FileEdit.editFunc_error h₄ with hnone | ⟨read, read', hread, hread', rfl⟩
    · obtain ⟨f, hf⟩ := hfunc .read
      rw [hf] at hnone
      cases hnone
    rcases rewriteRead_error hread' with hparams | ⟨body, body', x, hbody, hstopped, hkind, rfl⟩
    · obtain ⟨params, hok⟩ := synthesizeCrud_params hcrud .blank
      rw [hparams] at hok
      cases hok
    · exact ⟨_, hkind, stoppedAt_setFunc hread hbody hstopped⟩
  -- Behind `Read` nothing fails.
  exfalso
  obtain ⟨read, read', hread, -, rfl⟩ := FileEdit.editFunc_ok runRead
  rcases FileEdit.bind_error h₄ with h₅ | ⟨ctorReturns, _, _, runCtor, h₅⟩
  · rcases FileEdit.editFunc_error h₅ with hnone | ⟨ctor, ctor', -, hctor', -⟩
    · obtain ⟨f, hf⟩ := hfunc .ctor
      obtain ⟨f', hf'⟩ := exists_func?_setFunc (i := index.read) (g := read') hf
      rw [show index.position .read = index.read from rfl] at hnone
      cases hnone.symm.trans hf'
    · cases hctor'
  rcases FileEdit.bind_error h₅ with h₆ | ⟨emitted, _, _, runAppend, h₆⟩
  · exact appendMethods_ne_error h₆
  · cases h₆

/-! ## The main statement -/

/-- What is left of a file by a refactoring that fails with an error of the given kind. -/
def LeftBy (r : Refactorer) (file file' : SourceFile) : ErrorKind → Prop
  | .notFound _ | .invalidReceiver _ | .schemaAssignmentNotFound _ | .config _ => file' = file
  | .unexpectedSelector selector =>
    ∃ index, (DeclIndex.build r.policy file).outcome.1 = .ok index ∧
      StoppedAt r.conventions index.read file file' selector
  | .source _ _ | .print _ => False

/-- A refactoring that fails leaves the file as it was, or fails in `Read` and leaves that
rebound in front of the selector it reports. -/
theorem refactor_error {r : Refactorer} {file file' : SourceFile} {e : Error}
    (h : (r.refactor.apply file).run log = ((.error e, file'), log')) :
    LeftBy r file file' e.kind := by
  rcases FileEdit.bind_error h with runBuild | ⟨index, _, _, runBuild, runTransform⟩
  · obtain ⟨hbuild, rfl⟩ := FileEdit.attempt_error runBuild
    rcases DeclIndex.build_error hbuild with ⟨a, hkind⟩ | ⟨found, hkind⟩ <;> rw [hkind] <;> rfl
  obtain ⟨hbuild, rfl⟩ := FileEdit.attempt_ok runBuild
  have hok := congrArg Prod.fst hbuild
  rcases transform_error (DeclIndex.exists_func? hok) runTransform with
    ⟨rfl, hkind | ⟨text, -, htext⟩⟩ | ⟨selector, hkind, hstopped⟩
  · rw [hkind]
    rfl
  · obtain ⟨fault, hkind⟩ := typeExpr_error htext
    rw [hkind]
    rfl
  · rw [hkind]
    exact ⟨index, DeclIndex.build_ok_iff.2 (DeclIndex.build_ok_iff.1 hok), hstopped⟩

/-- A file whose `Read` selects twice from the active version, and between that from elsewhere. -/
def straying : SourceFile where
  package := "p"
  packageDecs := .ownLine
  decls :=
    [.appended
      { recv := some (.of [.of ["h"] (.star (.ident "H"))])
        name := "NewProcess"
        signature := ⟨.of [], none⟩
        body := none },
      .appended
      { recv := none
        name := "Read"
        signature := ⟨.of [], none⟩
        body := some (.of [.returning
          [.selector (.selector (.ident "s") "ActiveVersion") "N",
            .selector (.selector (.ident "s") "Other") "N",
            .selector (.selector (.ident "s") "ActiveVersion") "M"]]) },
      .appended
      { recv := none
        name := "Register"
        signature := ⟨.of [], none⟩
        body := some (.of [.plain (.assign
          [.index (.selector (.ident "s") "Schema") (.ident "k")] .assign [.ident "v"])]) }]
  trailingComments := []

/-- A file with a stray selector is left with the body rewritten up to it. -/
theorem refactor_error_straying :
    ∃ e file' log',
      (({} : Refactorer).refactor.apply straying).run [] = ((.error e, file'), log') ∧
        e.kind = .unexpectedSelector "s.Other.N" ∧ LeftBy {} straying file' e.kind := by
  have hkind : (match ((({} : Refactorer).refactor.apply straying).run []).1.1 with
      | .ok _ => none
      | .error e => some e.kind) = some (.unexpectedSelector "s.Other.N") := by
    decide +kernel
  rcases hrun : (({} : Refactorer).refactor.apply straying).run [] with
    ⟨⟨e | report, file'⟩, log'⟩
  · rw [hrun] at hkind
    exact ⟨e, file', log', rfl, Option.some.inj hkind, refactor_error hrun⟩
  · rw [hrun] at hkind
    cases hkind

end HandlerSplit
