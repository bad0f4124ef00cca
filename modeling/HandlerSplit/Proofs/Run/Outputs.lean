import HandlerSplit.Proofs.Run.Logging
import Mathlib.Data.List.Forall2
/-!
# What a run writes

A run rewrites its files one after another and writes only when all are rewritten. Its answer is
that of the files alone, up to the first failure (`processAll_answer`), so it writes either the
texts of all files, in order, or nothing (`runTo_outcome`).
-/

namespace HandlerSplit

/-! ## Writing -/

namespace Writing

variable {α β : Type}

/-- What is written first stays written. -/
theorem bind_run (w : Writing α) (k : α → Writing β) (text : String) (log : List LogEvent) :
    ((ExceptT.run (w >>= k)).run text).run log =
      match ((ExceptT.run w).run text).run log with
      | ((.ok a, text'), log') => ((ExceptT.run (k a)).run text').run log'
      | ((.error e, text'), log') => ((.error e, text'), log') := by
  show (fun r : (Except Error α × String) × List LogEvent =>
    (ExceptT.bindCont k r.1.1 : StateT String (StateM _) _) r.1.2 r.2)
      (((ExceptT.run w).run text).run log) = _
  rcases ((ExceptT.run w).run text).run log with ⟨⟨_ | _, _⟩, _⟩ <;> rfl

/-- Work on a file writes nothing. -/
theorem attempt_run (step : Attempt α) (text : String) (log : List LogEvent) :
    ((ExceptT.run (attempt step)).run text).run log =
      (((step.run log).1, text), (step.run log).2) :=
  rfl

/-- Texts are written behind each other. -/
theorem texts_run (outputs : List Rewritten) (text : String) (log : List LogEvent) :
    ((ExceptT.run (texts outputs)).run text).run log =
      ((.ok (), text ++ String.join (outputs.map (·.text))), log) := by
  induction outputs generalizing text with
  | nil =>
    show ((.ok (), text), log) = ((Except.ok (), text ++ String.join []), log)
    rw [String.join_nil, String.append_empty]
  | cons output outputs ih =>
    rw [texts, bind_run]
    show ((ExceptT.run (texts outputs)).run (text ++ output.text)).run log = _
    rw [ih, List.map_cons, String.join_cons, String.append_assoc]

end Writing

namespace Runner

/-! ## The files of a run -/

variable (r : Runner) (files : Files)

/-- What comes of a file does not depend on the log. -/
theorem processFile_answer (path : String) (log : List LogEvent) :
    ((r.processFile files path).run log).1 = (r.processFile files path).outcome.1 := by
  have hrun : (r.processFile files path).run log =
      ((r.processFile files path).outcome.1, log ++ (r.processFile files path).outcome.2) :=
    (r.process_additive path (loadFile files path)).run_eq log
  rw [hrun]

/-- The answer of a run is that of its files alone, in order, up to the first that fails. -/
theorem processAll_answer (paths : List String) (log : List LogEvent) :
    ((r.processAll files paths).run log).1 =
      paths.mapM fun path => (r.processFile files path).outcome.1 := by
  induction paths generalizing log with
  | nil => rfl
  | cons path paths ih =>
    have halone := processFile_answer r files path log
    rw [processAll, HandlerSplit.bind_run, tryCatch_run, List.mapM_cons]
    rcases hfile : (r.processFile files path).run log with ⟨e | output, l⟩ <;>
      rw [hfile] at halone <;> rw [← halone]
    · rfl
    · simp only [HandlerSplit.bind_run]
      have hrest := ih l
      rcases hpaths : (r.processAll files paths).run l with ⟨e | outputs, l'⟩ <;>
        rw [hpaths] at hrest <;> rw [← hrest] <;> rfl

/-- A run answers what comes of its files in order, or the first error. -/
theorem run_answer (log : List LogEvent) :
    ((r.run files).run log).1 =
      r.config.inputs.mapM fun path => (r.processFile files path).outcome.1 := by
  have hall := processAll_answer r files r.config.inputs
    (log ++ [.runStarted r.config.inputs.length])
  have hstart : (liftM (report (.runStarted r.config.inputs.length)) : Attempt Unit).run log =
      (.ok (), log ++ [.runStarted r.config.inputs.length]) :=
    rfl
  rw [run, HandlerSplit.bind_run, hstart]
  simp only [HandlerSplit.bind_run]
  rcases hrun : (r.processAll files r.config.inputs).run
    (log ++ [.runStarted r.config.inputs.length]) with ⟨e | outputs, l⟩ <;>
    rw [hrun] at hall <;> rw [← hall, hrun]
  rfl

/-- What is written is the texts of all files, or nothing. -/
theorem runTo_answer :
    (r.runTo files).outcome.1 =
      match r.config.inputs.mapM fun path => (r.processFile files path).outcome.1 with
      | .ok outputs => (.ok outputs.length, String.join (outputs.map (·.text)))
      | .error e => (.error e, "") := by
  rw [← run_answer r files [], Writing.outcome, runTo, Writing.bind_run,
    Writing.attempt_run]
  rcases (r.run files).run [] with ⟨e | outputs, log⟩
  · rfl
  · show (((ExceptT.run (Writing.texts outputs >>= fun _ => pure outputs.length)).run "").run
      log).1 = _
    rw [Writing.bind_run, Writing.texts_run, String.empty_append]
    rfl

/-! ## The main statement -/

/-- Either every input answers, or the first one that does not is the failure. -/
theorem mapM_of_forall_ok {ε α β : Type} {f : α → Except ε β} {xs : List α}
    (h : ∀ x ∈ xs, ∃ y, f x = .ok y) :
    ∃ ys, List.Forall₂ (fun x y => f x = .ok y) xs ys ∧ xs.mapM f = .ok ys := by
  induction xs with
  | nil => exact ⟨[], .nil, rfl⟩
  | cons x xs ih =>
    obtain ⟨y, hx⟩ := h x List.mem_cons_self
    obtain ⟨ys, hys, hxs⟩ := ih fun z hz => h z (List.mem_cons_of_mem _ hz)
    refine ⟨y :: ys, .cons hx hys, ?_⟩
    rw [List.mapM_cons, hx, hxs]
    rfl

/-- The first failure is the failure of all. -/
theorem mapM_append_error {ε α β : Type} {f : α → Except ε β} {before : List α} {x : α}
    {e : ε} (after : List α) (h : ∀ z ∈ before, ∃ y, f z = .ok y) (hx : f x = .error e) :
    (before ++ x :: after).mapM f = .error e := by
  induction before with
  | nil =>
    rw [List.nil_append, List.mapM_cons, hx]
    rfl
  | cons z before ih =>
    obtain ⟨y, hz⟩ := h z List.mem_cons_self
    rw [List.cons_append, List.mapM_cons, hz, ih fun w hw => h w (List.mem_cons_of_mem _ hw)]
    rfl

/-- A run writes the texts of all inputs in their order and answers their number; or some input
fails, and it writes nothing and fails as the first of these does alone, whatever comes after. -/
theorem runTo_outcome {config : Config} {r : Runner} (hr : ofConfig config = .ok r)
    (files : Files) :
    ((∀ path ∈ config.inputs, ∃ output, (r.processFile files path).outcome.1 = .ok output) →
      ∃ outputs : List Rewritten,
        List.Forall₂ (fun path output => (r.processFile files path).outcome.1 = .ok output)
          config.inputs outputs ∧
        (r.runTo files).outcome.1 = (.ok outputs.length, String.join (outputs.map (·.text)))) ∧
    ∀ before path after e, config.inputs = before ++ path :: after →
      (∀ earlier ∈ before, ∃ output, (r.processFile files earlier).outcome.1 = .ok output) →
      (r.processFile files path).outcome.1 = .error e →
      (r.runTo files).outcome.1 = (.error e, "") := by
  obtain rfl := config_ofConfig hr
  refine ⟨fun hall => ?_, fun before path after e hinputs hbefore hpath => ?_⟩
  · obtain ⟨outputs, hpaired, hrun⟩ := mapM_of_forall_ok hall
    refine ⟨outputs, hpaired, ?_⟩
    rw [runTo_answer, hrun]
  · rw [runTo_answer, hinputs, mapM_append_error after hbefore hpath]

theorem ofConfig_config (r : Runner) : ofConfig r.config = .ok r := by
  rw [ofConfig]
  split
  · rfl
  · next herror => rw [r.isValid] at herror; cases herror

/-- Files of which one is no source file and one is missing. -/
def mixed : Files
  | "d/good.go" => .ok "package p

func (h *H) NewReadProcess() {}

func Register() {
	s.Schema[k] = v
}
"
  | "d/bad.go" => .ok "package"
  | _ => .error .missing

/-- A run over a file that can be rewritten, twice. -/
def overGood : Runner :=
  ⟨{ baseDir := "d", files := ["good.go", "good.go"] }, by decide +kernel⟩

/-- A run over two files that cannot be rewritten, behind one that can. -/
def overMixed : Runner :=
  ⟨{ baseDir := "d", files := ["good.go", "bad.go", "missing.go"] }, by decide +kernel⟩

/-- Over two good files both texts are written, and with a bad one none is. -/
theorem runTo_outcome_mixed :
    (∃ text, (overGood.runTo mixed).outcome.1 = (.ok 2, text)) ∧
    ∃ e, (overMixed.processFile mixed "d/bad.go").outcome.1 = .error e ∧
      (overMixed.runTo mixed).outcome.1 = (.error e, "") := by
  constructor
  · obtain ⟨outputs, hpaired, hrun⟩ :=
      (runTo_outcome (ofConfig_config overGood) mixed).1 fun path hpath => by
        rw [show overGood.config.inputs = ["d/good.go", "d/good.go"] by decide +kernel] at hpath
        obtain rfl : path = "d/good.go" := by simpa using hpath
        exact exists_ok_of_isSome (by decide +kernel)
    rw [← hpaired.length_eq] at hrun
    exact ⟨_, hrun⟩
  · obtain ⟨e, hbad⟩ :=
      exists_error_of_isNone (x := (overMixed.processFile mixed "d/bad.go").outcome.1)
        (by decide +kernel)
    refine ⟨e, hbad, (runTo_outcome (ofConfig_config overMixed) mixed).2 ["d/good.go"] _
      ["d/missing.go"] e (by decide +kernel) (fun earlier hearlier => ?_) hbad⟩
    rw [List.mem_singleton.1 hearlier]
    exact exists_ok_of_isSome (by decide +kernel)

end Runner

end HandlerSplit
