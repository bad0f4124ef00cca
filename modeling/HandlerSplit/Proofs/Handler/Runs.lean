import HandlerSplit.Handler.Refactor
import HandlerSplit.Proofs.Runs
/-!
# Steps of a rewrite

An attempt runs on a log, an edit on a file and a log. Each lemma here says what a step that
succeeds has answered, and what the file is behind it.
-/

namespace HandlerSplit

variable {α β : Type}

/-! ## Attempts -/

namespace Attempt

theorem outcome_eq (a : Attempt α) : a.outcome = a.run [] :=
  rfl

/-- A computation that only reports does not fail. -/
theorem lift_run (step : Traced α) (log : List LogEvent) :
    (liftM step : Attempt α).run log = (.ok (step.run log).1, (step.run log).2) :=
  rfl

/-- A step that cannot fail runs as it does alone. -/
theorem lift_ok {step : Traced α} {v : α} {log log' : List LogEvent}
    (h : (liftM step : Attempt α).run log = (.ok v, log')) : step.run log = (v, log') := by
  rw [lift_run] at h
  obtain ⟨hok, hlog⟩ := Prod.mk.inj h
  exact Prod.ext (Except.ok.inj hok) hlog

/-- A step that cannot fail does not fail. -/
theorem lift_ne_error {step : Traced α} {e : Error} {log log' : List LogEvent} :
    (liftM step : Attempt α).run log ≠ (.error e, log') := by
  intro h
  rw [lift_run] at h
  cases (Prod.mk.inj h).1

/-- A value or failure that is known is answered as it is. -/
theorem ofExcept_ok {x : Except ErrorKind α} {a : α} {log log' : List LogEvent}
    (h : (Attempt.ofExcept x).run log = (.ok a, log')) : x = .ok a := by
  cases x <;> cases h
  rfl

theorem ofExcept_error {x : Except ErrorKind α} {e : Error} {log log' : List LogEvent}
    (h : (Attempt.ofExcept x).run log = (.error e, log')) : x = .error e.kind := by
  cases x <;> cases h
  rfl

end Attempt

/-! ## Edits -/

namespace FileEdit

variable {file file' : SourceFile} {log log' : List LogEvent}

/-- The answer of an edit, the file and the log afterwards. -/
theorem bind_run (edit : FileEdit α) (next : α → FileEdit β) (file : SourceFile)
    (log : List LogEvent) :
    ((edit >>= next).apply file).run log =
      match (edit.apply file).run log with
      | ((.ok a, f), l) => ((next a).apply f).run l
      | ((.error e, f), l) => ((.error e, f), l) := by
  have h : ((edit >>= next).apply file).run log =
      (fun r : (Except Error α × SourceFile) × List LogEvent =>
        (ExceptT.bindCont next r.1.1 : StateT SourceFile (StateM _) _) r.1.2 r.2)
        ((edit.apply file).run log) := rfl
  rw [h]
  rcases (edit.apply file).run log with ⟨⟨r | r, f⟩, l⟩ <;> rfl

/-- Edits that succeed together succeed one after another. -/
theorem bind_ok {edit : FileEdit α} {next : α → FileEdit β} {b : β}
    (h : ((edit >>= next).apply file).run log = ((.ok b, file'), log')) :
    ∃ a f l, (edit.apply file).run log = ((.ok a, f), l) ∧
      ((next a).apply f).run l = ((.ok b, file'), log') := by
  rw [bind_run] at h
  rcases he : (edit.apply file).run log with ⟨⟨e | a, f⟩, l⟩ <;> rw [he] at h
  · cases h
  · exact ⟨a, f, l, rfl, h⟩

/-- An edit that fails does so in its first step, or after it. -/
theorem bind_error {edit : FileEdit α} {next : α → FileEdit β} {e : Error}
    (h : ((edit >>= next).apply file).run log = ((.error e, file'), log')) :
    (edit.apply file).run log = ((.error e, file'), log') ∨
      ∃ a f l, (edit.apply file).run log = ((.ok a, f), l) ∧
        ((next a).apply f).run l = ((.error e, file'), log') := by
  rw [bind_run] at h
  rcases he : (edit.apply file).run log with ⟨⟨e | a, f⟩, l⟩ <;> rw [he] at h
  · cases h
    exact .inl rfl
  · exact .inr ⟨a, f, l, rfl, h⟩

theorem pure_ok {a b : α}
    (h : ((pure a : FileEdit α).apply file).run log = ((.ok b, file'), log')) :
    b = a ∧ file' = file := by
  cases h
  exact ⟨rfl, rfl⟩

/-- Looking at the file leaves it as it is. -/
theorem attempt_ok {step : SourceFile → Attempt α} {a : α}
    (h : ((attempt step).apply file).run log = ((.ok a, file'), log')) :
    (step file).run log = (.ok a, log') ∧ file' = file := by
  have hrun : ((attempt step).apply file).run log =
      (fun r : Except Error α × List LogEvent => ((r.1, file), r.2)) ((step file).run log) := rfl
  rw [hrun] at h
  obtain ⟨h, hlog⟩ := Prod.mk.inj h
  obtain ⟨hok, hfile⟩ := Prod.mk.inj h
  exact ⟨Prod.ext hok hlog, hfile.symm⟩

/-- Looking at the file and failing leaves it as it is. -/
theorem attempt_error {step : SourceFile → Attempt α} {e : Error}
    (h : ((attempt step).apply file).run log = ((.error e, file'), log')) :
    (step file).run log = (.error e, log') ∧ file' = file := by
  have hrun : ((attempt step).apply file).run log =
      (fun r : Except Error α × List LogEvent => ((r.1, file), r.2)) ((step file).run log) := rfl
  rw [hrun] at h
  obtain ⟨h, hlog⟩ := Prod.mk.inj h
  obtain ⟨herror, hfile⟩ := Prod.mk.inj h
  exact ⟨Prod.ext herror hlog, hfile.symm⟩

theorem traced_ok {step : Traced α} {a : α}
    (h : ((traced step).apply file).run log = ((.ok a, file'), log')) :
    step.run log = (a, log') ∧ file' = file := by
  have hrun : ((traced step).apply file).run log =
      (fun r : α × List LogEvent => ((.ok r.1, file), r.2)) (step.run log) := rfl
  rw [hrun] at h
  obtain ⟨h, hlog⟩ := Prod.mk.inj h
  obtain ⟨hok, hfile⟩ := Prod.mk.inj h
  exact ⟨Prod.ext (Except.ok.inj hok) hlog, hfile.symm⟩

theorem traced_ne_error {step : Traced α} {e : Error} :
    ((traced step).apply file).run log ≠ ((.error e, file'), log') := by
  intro h
  have hrun : ((traced step).apply file).run log =
      (fun r : α × List LogEvent => ((.ok r.1, file), r.2)) (step.run log) := rfl
  rw [hrun] at h
  cases (Prod.mk.inj (Prod.mk.inj h).1).1

/-- An edit of a function sets it, also if the edit then fails. -/
theorem editFunc_run (i : Nat) (edit : FuncDecl → Traced (Edited FuncDecl α))
    (missing : ErrorKind) (file : SourceFile) (log : List LogEvent) :
    ((editFunc i edit missing).apply file).run log =
      match file.func? i with
      | none => ((.error { kind := missing }, file), log)
      | some f =>
        let r := (edit f).run log
        ((r.1.result.mapError fun kind => { kind := kind }, file.setFunc i r.1.subject), r.2) := by
  have h : ((editFunc i edit missing).apply file).run log =
      (match file.func? i with
        | none => return (.error { kind := missing }, file)
        | some f => do
          let edited ← edit f
          return (edited.result.mapError fun kind => { kind := kind },
            file.setFunc i edited.subject) : Traced (Except Error α × SourceFile)).run log := rfl
  rw [h]
  cases file.func? i <;> rfl

/-- An edit of a function in place finds the function, and puts the edited one there. -/
theorem editFunc_ok {i : Nat} {edit : FuncDecl → Traced (Edited FuncDecl α)}
    {missing : ErrorKind} {a : α}
    (h : ((editFunc i edit missing).apply file).run log = ((.ok a, file'), log')) :
    ∃ f g, file.func? i = some f ∧ (edit f).run log = (⟨g, .ok a⟩, log') ∧
      file' = file.setFunc i g := by
  rw [editFunc_run] at h
  cases hf : file.func? i with
  | none =>
    simp only [hf] at h
    cases h
  | some f =>
    simp only [hf] at h
    rcases hg : (edit f).run log with ⟨⟨g, e | b⟩, l⟩ <;> simp only [hg] at h <;> cases h
    exact ⟨f, g, rfl, hg, rfl⟩

/-- An edit of a function in place that fails did not find the function, or put the one there
that was edited up to the failure. -/
theorem editFunc_error {i : Nat} {edit : FuncDecl → Traced (Edited FuncDecl α)}
    {missing : ErrorKind} {e : Error}
    (h : ((editFunc i edit missing).apply file).run log = ((.error e, file'), log')) :
    file.func? i = none ∨
      ∃ f g, file.func? i = some f ∧ (edit f).run log = (⟨g, .error e.kind⟩, log') ∧
        file' = file.setFunc i g := by
  rw [editFunc_run] at h
  cases hf : file.func? i with
  | none => exact .inl rfl
  | some f =>
    simp only [hf] at h
    rcases hg : (edit f).run log with ⟨⟨g, kind | b⟩, l⟩ <;> simp only [hg] at h <;> cases h
    exact .inr ⟨f, g, rfl, hg, rfl⟩

/-- A declaration that is appended is the last. -/
theorem append_ok {d : Decl} {u : Unit}
    (h : ((append d).apply file).run log = ((.ok u, file'), log')) :
    file' = { file with decls := file.decls ++ [d] } := by
  cases h
  rfl

end FileEdit

end HandlerSplit
