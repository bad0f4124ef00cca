import HandlerSplit.Proofs.Handler.Failure
import HandlerSplit.Run
/-!
# Where a run on a file fails

A failure on a file names the file and the stage it was raised in, and each stage raises failures
of its own kinds (`processSource_error`). What could also fail does not: the types of a valid
configuration are types, so deriving and rebinding never meet a malformed one, and the positions
of an index are positions of functions, so no anchor is missed once it was found.
-/

namespace HandlerSplit

variable {α : Type} {log log' : List LogEvent}

/-! ## Steps of a run on a file -/

theorem Traced.bind_run {β : Type} (t : Traced α) (k : α → Traced β) (log : List LogEvent) :
    (t >>= k).run log = (k (t.run log).1).run (t.run log).2 :=
  rfl

/-- A stage hands on the answer of its work; a failure is given the file and the stage. -/
theorem inStage_run (path : String) (stage : Stage) (work : Attempt α) (log : List LogEvent) :
    (inStage path stage work).run log =
      match work.run log with
      | (.ok a, l) => (.ok a, l ++ [.stageEntered stage.next])
      | (.error e, l) => (.error (e.inContext path stage), l) := by
  have hwork : StateT.run (ExceptT.run work) log = work.run log := rfl
  refine (Traced.bind_run work.run _ log).trans ?_
  rw [hwork]
  rcases work.run log with ⟨_ | _, _⟩ <;> rfl

/-- An error of a stage has its path and stage, and the kind it had. -/
theorem inStage_error {path : String} {stage : Stage} {work : Attempt α} {e : Error}
    (h : (inStage path stage work).run log = (.error e, log')) :
    ∃ e', work.run log = (.error e', log') ∧ e.kind = e'.kind ∧
      e.context = some ⟨path, stage⟩ := by
  rw [inStage_run] at h
  rcases hwork : work.run log with ⟨e' | a, l⟩ <;> rw [hwork] at h <;> cases h
  exact ⟨e', rfl, rfl, rfl⟩

/-- What a stage answers is what its work answers. -/
theorem inStage_ok {path : String} {stage : Stage} {work : Attempt α} {a : α}
    (h : (inStage path stage work).run log = (.ok a, log')) :
    ∃ l, work.run log = (.ok a, l) := by
  rw [inStage_run] at h
  rcases hwork : work.run log with ⟨e' | a', l⟩ <;> rw [hwork] at h <;> cases h
  exact ⟨l, rfl⟩

theorem ofResult_error {result : Except Error α} {e : Error}
    (h : (Attempt.ofResult result).run log = (.error e, log')) : result = .error e := by
  cases h
  rfl

theorem ofResult_ok {result : Except Error α} {a : α}
    (h : (Attempt.ofResult result).run log = (.ok a, log')) : result = .ok a := by
  cases h
  rfl

namespace FileEdit

/-- The answer of an edit with the file, as an attempt. -/
theorem toAttempt_run (edit : FileEdit α) (file : SourceFile) (log : List LogEvent) :
    (edit.toAttempt file).run log =
      match (edit.apply file).run log with
      | ((.ok a, file'), l) => (.ok (a, file'), l)
      | ((.error e, _), l) => (.error e, l) := by
  show (fun q : (Except Error α × SourceFile) × List LogEvent => (q.1.1.map (·, q.1.2), q.2))
    ((edit.apply file).run log) = _
  rcases (edit.apply file).run log with ⟨⟨_ | _, _⟩, _⟩ <;> rfl

/-- An edit answers the file it has made. -/
theorem toAttempt_ok {edit : FileEdit α} {file file' : SourceFile} {a : α}
    (h : (edit.toAttempt file).run log = (.ok (a, file'), log')) :
    (edit.apply file).run log = ((.ok a, file'), log') := by
  rw [toAttempt_run] at h
  rcases hedit : (edit.apply file).run log with ⟨⟨e | a', file''⟩, l⟩ <;> rw [hedit] at h <;>
    cases h
  rfl

/-- An edit that fails answers no file. -/
theorem toAttempt_error {edit : FileEdit α} {file : SourceFile} {e : Error}
    (h : (edit.toAttempt file).run log = (.error e, log')) :
    ∃ file', (edit.apply file).run log = ((.error e, file'), log') := by
  rw [toAttempt_run] at h
  rcases hedit : (edit.apply file).run log with ⟨⟨e' | a, file'⟩, l⟩ <;> rw [hedit] at h <;> cases h
  exact ⟨file', rfl⟩

end FileEdit

/-! ## Failures of the stages -/

/-- A text that is no source file is malformed; the error names the path. -/
theorem loadSource_error {path source : String} {e : Error}
    (h : loadSource path source = .error e) :
    ∃ message line column context,
      e.kind = .source path (.malformed message line column context) := by
  rw [loadSource] at h
  cases hparse : parseFile source with
  | ok file => rw [hparse] at h; cases h
  | error se =>
    rw [hparse] at h
    cases h
    exact ⟨_, _, _, _, rfl⟩

/-- What is loaded is parsed. -/
theorem loadSource_ok {path source : String} {file : SourceFile}
    (h : loadSource path source = .ok file) : parseFile source = .ok file := by
  rw [loadSource] at h
  cases hparse : parseFile source with
  | ok file => rw [hparse] at h; cases h; rfl
  | error se => rw [hparse] at h; cases h

namespace Runner

variable {r : Runner}

/-- Printing fails only if the text is verified. -/
theorem printed_error {file : SourceFile} {e : Error}
    (h : (r.printed file).run log = (.error e, log')) :
    r.config.verify = true ∧ ∃ fault, e.kind = .print fault := by
  rw [printed] at h
  cases hverify : r.config.verify with
  | false =>
    simp only [hverify] at h
    cases h
  | true =>
    simp only [hverify] at h
    refine ⟨rfl, ?_⟩
    cases hrejects : rejects? file (file.print {}) with
    | none => simp only [hrejects] at h; cases h
    | some fault =>
      simp only [hrejects] at h
      cases h
      exact ⟨fault, rfl⟩

end Runner

/-! ## The main statement -/

/-- A failure on a file as its stage may raise it: with the path of the file and the stage, and of
a kind that belongs to the stage. Printing only fails when what is printed is verified. -/
def Attributed (verify : Bool) (path : String) (e : Error) : Prop :=
  ∃ stage, e.context = some ⟨path, stage⟩ ∧
    match stage with
    | .parsing => ∃ message line column context,
        e.kind = .source path (.malformed message line column context)
    | .indexing => (∃ a : Anchor, e.kind = .notFound a.fragment) ∨
        ∃ found, e.kind = .invalidReceiver found
    | .transforming => (∃ handler, e.kind = .schemaAssignmentNotFound handler) ∨
        ∃ selector, e.kind = .unexpectedSelector selector
    | .printing => verify = true ∧ ∃ fault, e.kind = .print fault
    | .done => False

namespace Runner

theorem config_ofConfig {config : Config} {r : Runner} (h : ofConfig config = .ok r) :
    r.config = config := by
  rw [ofConfig] at h
  split at h <;> cases h
  rfl

theorem conventions_valid (r : Runner) : r.config.conventions.validate = .ok () := by
  have hvalid := r.isValid
  rw [Config.validate] at hvalid
  split at hvalid
  · cases hvalid
  · exact hvalid

/-- Every failure on a text comes from a stage that can raise it. -/
theorem processSource_error {config : Config} {r : Runner} (hr : ofConfig config = .ok r)
    {path source : String} {e : Error}
    (h : (r.processSource path source).outcome.1 = .error e) :
    Attributed config.verify path e := by
  obtain rfl := config_ofConfig hr
  have hrun : (r.processSource path source).run [] =
      (.error e, (r.processSource path source).outcome.2) := Prod.ext h rfl
  rcases bind_error hrun with h | ⟨_, _, -, h⟩
  · exact absurd h Attempt.lift_ne_error
  rcases bind_error h with h | ⟨file, _, -, h⟩
  · obtain ⟨e', hwork, hkind, hcontext⟩ := inStage_error h
    obtain ⟨message, line, column, context, hsource⟩ := loadSource_error (ofResult_error hwork)
    exact ⟨.parsing, hcontext, message, line, column, context, hkind.trans hsource⟩
  rcases bind_error h with h | ⟨_, _, -, h⟩
  · exact absurd h Attempt.lift_ne_error
  rcases bind_error h with h | ⟨index, _, hindex, h⟩
  · obtain ⟨e', hwork, hkind, hcontext⟩ := inStage_error h
    refine ⟨.indexing, hcontext, ?_⟩
    rw [hkind]
    exact DeclIndex.build_error hwork
  obtain ⟨_, hbuild⟩ := inStage_ok hindex
  rcases bind_error h with h | ⟨⟨changes, file'⟩, _, -, h⟩
  · obtain ⟨e', hwork, hkind, hcontext⟩ := inStage_error h
    obtain ⟨file', hedit⟩ := FileEdit.toAttempt_error hwork
    refine ⟨.transforming, hcontext, ?_⟩
    rw [hkind]
    rcases transform_error (DeclIndex.exists_func? (congrArg Prod.fst hbuild)) hedit with
      ⟨-, hschema | hinvalid⟩ | ⟨selector, hselector, -⟩
    · exact .inl ⟨_, hschema⟩
    · exact absurd hinvalid (not_invalidType_of_validate r.conventions_valid _)
    · exact .inr ⟨selector, hselector⟩
  rcases bind_error h with h | ⟨text, _, -, h⟩
  · obtain ⟨e', hwork, hkind, hcontext⟩ := inStage_error h
    refine ⟨.printing, hcontext, ?_⟩
    rw [hkind]
    exact printed_error hwork
  rcases bind_error h with h | ⟨_, _, -, h⟩
  · exact absurd h Attempt.lift_ne_error
  · cases h

/-- A text whose `Register` assigns no schema. -/
def withoutSchema : String := "package p

func (h *H) NewReadProcess() {}

func Register() {}
"

/-- A file without a schema assignment fails while it is transformed. -/
theorem processSource_error_withoutSchema :
    ∃ r e, ofConfig {} = .ok r ∧
      (r.processSource "a.go" withoutSchema).outcome.1 = .error e ∧
        e.kind = .schemaAssignmentNotFound "H" ∧ Attributed false "a.go" e := by
  have hkind : (match ofConfig {} with
      | .error _ => none
      | .ok r =>
        match (r.processSource "a.go" withoutSchema).outcome.1 with
        | .ok _ => none
        | .error e => some e.kind) = some (.schemaAssignmentNotFound "H") := by
    decide +kernel
  cases hnew : ofConfig {} with
  | error => rw [hnew] at hkind; cases hkind
  | ok r =>
    simp only [hnew] at hkind
    cases hrun : (r.processSource "a.go" withoutSchema).outcome.1 with
    | ok => rw [hrun] at hkind; cases hkind
    | error e =>
      rw [hrun] at hkind
      exact ⟨r, e, rfl, hrun, Option.some.inj hkind, processSource_error hnew hrun⟩

end Runner

end HandlerSplit
