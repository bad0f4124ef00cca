import HandlerSplit.Proofs.Run.Attribution
/-!
# What is reported does not matter

A log is only added to. What a computation answers, and what it adds to the log, does not depend
on what was reported before (`Additive`), so work on a file in the middle of a run comes out as it
does alone (`Runner.process_additive`).
-/

namespace HandlerSplit

variable {α β : Type}

/-- A computation that adds to the log, and answers and adds the same on every log. -/
def Additive (t : Traced α) : Prop :=
  ∃ answer added, ∀ log, t.run log = (answer, log ++ added)

namespace Additive

/-- Nothing is reported. -/
theorem pure (a : α) : Additive (Pure.pure a : Traced α) :=
  ⟨a, [], fun log => by rw [List.append_nil]; rfl⟩

/-- A report is added at the end. -/
theorem report (e : LogEvent) : Additive (HandlerSplit.report e) :=
  ⟨(), [e], fun _ => rfl⟩

/-- What is added one after another is added behind what was there. -/
theorem bind {t : Traced α} {k : α → Traced β} (ht : Additive t) (hk : ∀ a, Additive (k a)) :
    Additive (t >>= k) := by
  obtain ⟨a, added, ht⟩ := ht
  obtain ⟨b, more, hk⟩ := hk a
  refine ⟨b, added ++ more, fun log => ?_⟩
  have hrun : (t >>= k).run log = (k (t.run log).1).run (t.run log).2 := rfl
  rw [hrun, ht, hk, List.append_assoc]

/-- The answer on any log is the answer on the empty one. -/
theorem run_eq {t : Traced α} (h : Additive t) (log : List LogEvent) :
    t.run log = ((t.run []).1, log ++ (t.run []).2) := by
  obtain ⟨a, added, h⟩ := h
  rw [h, h, List.nil_append]

end Additive

/-! ## Attempts -/

namespace Attempt

theorem pure_additive (a : α) : Additive (pure a : Attempt α).run :=
  .pure _

/-- A failure reports nothing. -/
theorem throw_additive (e : Error) : Additive (throw e : Attempt α).run :=
  .pure _

theorem fail_additive (kind : ErrorKind) : Additive (fail kind : Attempt α).run :=
  throw_additive _

/-- A step that cannot fail adds what it adds alone. -/
theorem lift_additive {step : Traced α} (h : Additive step) :
    Additive (liftM step : Attempt α).run :=
  h.bind fun _ => .pure _

theorem report_additive (e : LogEvent) : Additive (liftM (report e) : Attempt Unit).run :=
  lift_additive (.report e)

theorem bind_additive {p : Attempt α} {k : α → Attempt β} (hp : Additive p.run)
    (hk : ∀ a, Additive (k a).run) : Additive (p >>= k).run := by
  show Additive (p.run >>= ExceptT.bindCont k)
  refine hp.bind fun answer => ?_
  cases answer with
  | ok a => exact hk a
  | error e => exact .pure _

theorem ofExcept_additive (x : Except ErrorKind α) : Additive (Attempt.ofExcept x).run := by
  cases x with
  | ok a => exact pure_additive a
  | error kind => exact fail_additive kind

end Attempt

/-! ## Edits -/

namespace FileEdit

/-- An edit that is additive on every file. -/
abbrev Additive (edit : FileEdit α) : Prop :=
  ∀ file, HandlerSplit.Additive (edit.apply file)

theorem pure_additive (a : α) : Additive (pure a : FileEdit α) :=
  fun _ => .pure _

theorem bind_additive {edit : FileEdit α} {next : α → FileEdit β} (he : Additive edit)
    (hn : ∀ a, Additive (next a)) : Additive (edit >>= next) := by
  intro file
  obtain ⟨⟨answer, file'⟩, added, he⟩ := he file
  cases answer with
  | error e => exact ⟨_, added, fun log => by rw [bind_run, he]⟩
  | ok a =>
    obtain ⟨b, more, hn⟩ := hn a file'
    exact ⟨b, added ++ more, fun log => by rw [bind_run, he, ← List.append_assoc, ← hn]⟩

/-- An edit that looks at the file adds what the look adds. -/
theorem attempt_additive {step : SourceFile → Attempt α}
    (h : ∀ file, HandlerSplit.Additive (step file).run) : Additive (attempt step) :=
  fun file => (h file).bind fun _ => .pure _

theorem traced_additive {step : Traced α} (h : HandlerSplit.Additive step) :
    Additive (traced step) :=
  attempt_additive fun _ => Attempt.lift_additive h

theorem append_additive (d : Decl) : Additive (append d) :=
  fun _ => .pure _

/-- An edit of one function adds what it adds for that function. -/
theorem editFunc_additive {i : Nat} {edit : FuncDecl → Traced (Edited FuncDecl α)}
    {missing : ErrorKind} (h : ∀ f, HandlerSplit.Additive (edit f)) :
    Additive (editFunc i edit missing) := by
  intro file
  cases hf : file.func? i with
  | none => exact ⟨_, [], fun log => by rw [editFunc_run, hf, List.append_nil]⟩
  | some f =>
    obtain ⟨edited, added, h⟩ := h f
    exact ⟨_, added, fun log => by simp only [editFunc_run, hf, h]; rfl⟩

end FileEdit

/-! ## The steps of a rewrite -/

/-- Looking for an anchor adds its own reports. -/
theorem Anchor.find_additive (a : Anchor) (policy : AnchorPolicy) (file : SourceFile) :
    Additive (a.find policy file).run := by
  rw [Anchor.find]
  split
  · exact Attempt.fail_additive _
  · split
    · exact Attempt.bind_additive (Attempt.report_additive _) fun _ =>
        Attempt.bind_additive (Attempt.report_additive _) fun _ => Attempt.pure_additive _
    · exact Attempt.bind_additive (Attempt.report_additive _) fun _ => Attempt.pure_additive _

theorem DeclIndex.build_additive (policy : AnchorPolicy) (file : SourceFile) :
    Additive (DeclIndex.build policy file).run := by
  refine Attempt.bind_additive (Anchor.find_additive _ _ _) fun process =>
    Attempt.bind_additive (Anchor.find_additive _ _ _) fun register =>
    Attempt.bind_additive (Anchor.find_additive _ _ _) fun read =>
    Attempt.bind_additive (Anchor.find_additive _ _ _) fun ctor => ?_
  cases file.func? process with
  | none => exact Attempt.fail_additive _
  | some f =>
    simp only
    cases f.handlerType with
    | error kind => exact Attempt.fail_additive _
    | ok handler =>
      simp only
      split
      · split
        · exact Attempt.bind_additive (Attempt.report_additive _) fun _ =>
            Attempt.pure_additive _
        · exact Attempt.pure_additive _
      · exact Attempt.pure_additive _

theorem Buckets.collect_additive (b : Buckets) (loops : List (String × Block)) :
    Additive (b.collect loops) := by
  induction loops generalizing b with
  | nil => exact .pure _
  | cons loop loops ih =>
    rw [Buckets.collect]
    split
    · exact (Additive.report _).bind fun _ => ih _
    · split
      · exact (Additive.report _).bind fun _ => (Additive.report _).bind fun _ => ih _
      · exact (Additive.report _).bind fun _ => ih _

theorem crudMethod_additive (c : Conventions) (handler : String) (op : Operation)
    (loop : Option Block) : Additive (crudMethod c handler op loop).run := by
  have hbody : Additive (methodBody c op loop) := by
    cases loop with
    | some loop => exact .pure _
    | none => exact (Additive.report _).bind fun _ => .pure _
  exact Attempt.bind_additive (Attempt.lift_additive hbody) fun _ =>
    Attempt.bind_additive (Attempt.ofExcept_additive _) fun _ =>
    Attempt.bind_additive (Attempt.ofExcept_additive _) fun _ => Attempt.pure_additive _

/-- Deriving the methods adds the reports of each, in order. -/
theorem synthesizeCrud_additive (c : Conventions) (handler : String) (process : FuncDecl) :
    Additive (synthesizeCrud c handler process).run :=
  Attempt.bind_additive (Attempt.lift_additive (Buckets.collect_additive _ _)) fun _ =>
    Attempt.bind_additive (crudMethod_additive _ _ _ _) fun _ =>
    Attempt.bind_additive (crudMethod_additive _ _ _ _) fun _ =>
    Attempt.bind_additive (crudMethod_additive _ _ _ _) fun _ => Attempt.pure_additive _

theorem synthesizeGetSchema_additive (c : Conventions) (handler : String)
    (register : FuncDecl) : Additive (synthesizeGetSchema c handler register).run := by
  rw [synthesizeGetSchema]
  split
  · exact Attempt.fail_additive _
  · exact Attempt.bind_additive (Attempt.report_additive _) fun _ =>
      Attempt.bind_additive (Attempt.ofExcept_additive _) fun _ => Attempt.pure_additive _

theorem rewriteRead_additive (c : Conventions) (read : FuncDecl) :
    Additive (rewriteRead c read) := by
  rw [rewriteRead]
  split
  split
  · exact .pure _
  · split
    · exact .pure _
    · exact (Additive.report _).bind fun _ => .pure _

theorem wrapReturns_additive (wrapper : String) (ctor : FuncDecl) :
    Additive (wrapReturns wrapper ctor) :=
  (Additive.report _).bind fun _ => .pure _

theorem DeclIndex.anchored_additive (index : DeclIndex) (file : SourceFile) (a : Anchor) :
    Additive (index.anchored file a).run := by
  rw [DeclIndex.anchored]
  split
  · exact Attempt.pure_additive _
  · exact Attempt.fail_additive _

namespace Refactorer

theorem appendMethods_additive (handler : String) (ds : List Decl) :
    FileEdit.Additive (appendMethods handler ds) := by
  induction ds with
  | nil => exact FileEdit.pure_additive _
  | cons d ds ih =>
    rw [appendMethods]
    split
    · exact FileEdit.bind_additive (FileEdit.traced_additive (.report _)) fun _ =>
        FileEdit.bind_additive (FileEdit.append_additive d) fun _ =>
        FileEdit.bind_additive ih fun _ => FileEdit.pure_additive _
    · exact FileEdit.bind_additive (FileEdit.append_additive d) fun _ => ih

/-- All rewrites of a file add their own reports. -/
theorem transform_additive (r : Refactorer) (index : DeclIndex) :
    FileEdit.Additive (r.transform index) :=
  FileEdit.bind_additive (FileEdit.attempt_additive fun _ =>
      Attempt.bind_additive (index.anchored_additive _ _) fun _ => synthesizeCrud_additive _ _ _)
    fun _ =>
  FileEdit.bind_additive (FileEdit.attempt_additive fun _ =>
      Attempt.bind_additive (index.anchored_additive _ _) fun _ =>
        synthesizeGetSchema_additive _ _ _) fun _ =>
  FileEdit.bind_additive (FileEdit.traced_additive ((Additive.report _).bind fun _ => .pure _))
    fun _ =>
  FileEdit.bind_additive (FileEdit.editFunc_additive fun _ => rewriteRead_additive _ _) fun _ =>
  FileEdit.bind_additive (FileEdit.editFunc_additive fun _ =>
      (wrapReturns_additive _ _).bind fun _ => .pure _) fun _ =>
  FileEdit.bind_additive (appendMethods_additive _ _) fun _ => FileEdit.pure_additive _

end Refactorer

/-! ## Work on a file -/

/-- Naming path and stage in an error adds nothing. -/
theorem inStage_additive {path : String} {stage : Stage} {work : Attempt α}
    (h : Additive work.run) : Additive (inStage path stage work).run :=
  h.bind fun answer =>
    match answer with
    | .ok _ => (Additive.report _).bind fun _ => .pure _
    | .error _ => .pure _

/-- An edit adds as an attempt what it adds on the file. -/
theorem FileEdit.toAttempt_additive {edit : FileEdit α} (h : FileEdit.Additive edit)
    (file : SourceFile) : HandlerSplit.Additive (edit.toAttempt file).run :=
  (h file).bind fun _ => .pure _

namespace Runner

variable (r : Runner)

theorem printed_additive (file : SourceFile) : Additive (r.printed file).run := by
  rw [printed]
  split
  · split
    · exact Attempt.bind_additive (Attempt.fail_additive _) fun _ => Attempt.pure_additive _
    · exact Attempt.bind_additive (Attempt.report_additive _) fun _ => Attempt.pure_additive _
  · exact Attempt.pure_additive _

/-- Work on a file answers and reports the same whatever was reported before. -/
theorem process_additive (path : String) (loaded : Except Error SourceFile) :
    Additive (r.process path loaded).run :=
  Attempt.bind_additive (Attempt.report_additive _) fun _ =>
    Attempt.bind_additive (inStage_additive (.pure _)) fun _ =>
    Attempt.bind_additive (Attempt.report_additive _) fun _ =>
    Attempt.bind_additive (inStage_additive (DeclIndex.build_additive _ _)) fun _ =>
    Attempt.bind_additive (inStage_additive
      (FileEdit.toAttempt_additive (Refactorer.transform_additive _ _) _)) fun _ =>
    Attempt.bind_additive (inStage_additive (r.printed_additive _)) fun _ =>
    Attempt.bind_additive (Attempt.report_additive _) fun _ => Attempt.pure_additive _

end Runner

end HandlerSplit
