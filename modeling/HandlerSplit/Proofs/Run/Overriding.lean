import HandlerSplit.CommandLine
import HandlerSplit.Proofs.Run.Attribution
/-!
# Files on the command line

Files on the command line replace those of the configuration, and with them the directory. So of two
documents that differ in these settings only, the same configuration becomes of both
(`Options.override_congr`). But a document must give a valid configuration before anything is
replaced, and one without files is not valid: whether the list is empty can be told
(`replaced_files`).
-/

namespace HandlerSplit

/-- Configurations that agree in everything but the input files and their directory. -/
structure Config.SameButFiles (c d : Config) : Prop where
  policy : c.policy = d.policy
  verify : c.verify = d.verify
  conventions : c.conventions = d.conventions

/-! ## Validity -/

namespace Config

variable {c d : Config}

/-- A list of files is refused before the conventions are looked at, and only if it is empty. -/
theorem validate_eq_noFiles_iff : c.validate = .error (.config .noFiles) ↔ c.files = [] := by
  rw [validate]
  split
  · rename_i hempty
    exact iff_of_true rfl (List.isEmpty_iff.mp hempty)
  · rename_i hfiles
    refine iff_of_false (fun h => ?_) fun h => hfiles (List.isEmpty_iff.mpr h)
    obtain ⟨text, -, htext⟩ := invalidType_of_validate h
    obtain ⟨fault, hkind⟩ := typeExpr_error htext
    cases hkind

/-- Validity looks at the list of files only as far as it is empty. -/
theorem validate_congr (hsame : c.SameButFiles d) (hfiles : c.files = [] ↔ d.files = []) :
    c.validate = d.validate := by
  rw [validate, validate, hsame.conventions, Bool.eq_iff_iff.mpr
    (List.isEmpty_iff.trans (hfiles.trans List.isEmpty_iff.symm))]

/-- The configuration of a document is loaded if it is valid. -/
theorem load_eq {files : Files} {path document : String} (hread : files path = .ok document)
    (hdocument : ofDocument? document = some c) : load files path = c.validate.map fun _ => c := by
  rw [load, hread]
  show parse document = _
  rw [parse, hdocument]
  show (c.validate >>= fun _ => Except.ok c) = _
  rcases c.validate with kind | _ <;> rfl

end Config

namespace Runner

variable {r : Runner} {files₁ files₂ : Files}

/-- A run reads its inputs only. -/
theorem processAll_congr {paths : List String} (h : ∀ path ∈ paths, files₁ path = files₂ path) :
    r.processAll files₁ paths = r.processAll files₂ paths := by
  induction paths with
  | nil => rfl
  | cons path paths ih =>
    obtain ⟨hpath, hpaths⟩ := List.forall_mem_cons.mp h
    rw [processAll, processAll, ih hpaths, processFile, processFile, loadFile, loadFile, hpath]

/-- A run looks at its input files only. -/
theorem runTo_congr (h : ∀ path ∈ r.config.inputs, files₁ path = files₂ path) :
    r.runTo files₁ = r.runTo files₂ := by
  rw [runTo, runTo, run, run, processAll_congr h]

end Runner

namespace Writing

variable {α β : Type}

theorem attempt_ok_bind (a : α) (k : α → Writing β) :
    attempt (Attempt.ofExcept (.ok a)) >>= k = k a :=
  rfl

theorem attempt_error_bind (kind : ErrorKind) (k l : α → Writing β) :
    attempt (Attempt.ofExcept (.error kind)) >>= k =
      attempt (Attempt.ofExcept (.error kind)) >>= l :=
  rfl

end Writing

namespace CommandLine

namespace Options

variable {o : Options}

/-- With files on the command line, of a configuration the rest is kept. -/
theorem override_eq (hfiles : o.files ≠ []) (c : Config) :
    o.override c =
      { baseDir := o.baseDir.getD ""
        files := o.files
        policy := if o.exactAnchors then .exact else c.policy
        verify := o.verify || c.verify
        conventions := c.conventions } := by
  have hnonempty : o.files.isEmpty = false := List.isEmpty_eq_false_iff.mpr hfiles
  rw [override, hnonempty]
  rfl

/-- Where files are given, the files of the document make no difference. -/
theorem override_congr (hfiles : o.files ≠ []) {c d : Config} (hsame : c.SameButFiles d) :
    o.override c = o.override d := by
  rw [override_eq hfiles, override_eq hfiles, hsame.policy, hsame.verify, hsame.conventions]

/-- What is in effect is the document, which must be valid by itself, with what is given put over
it. -/
theorem effective_eq {files : Files} {path document : String} {c : Config}
    (hpath : o.config = some path) (hread : files path = .ok document)
    (hdocument : Config.ofDocument? document = some c) :
    o.effective files = c.validate.map fun _ => o.override c := by
  rw [effective, hpath]
  show (Config.load files path).map o.override = _
  rw [Config.load_eq hread hdocument]
  rcases c.validate with kind | _ <;> rfl

/-- The same becomes of two configurations that differ in their files only, if it can be told of
neither or of both that there are files. -/
theorem map_override_eq_iff (hfiles : o.files ≠ []) {c d : Config} (hsame : c.SameButFiles d) :
    (c.validate.map fun _ => o.override c) = (d.validate.map fun _ => o.override d) ↔
      (c.files = [] ↔ d.files = []) := by
  have hfails (e : Config) : (e.validate.map fun _ => o.override e) = .error (.config .noFiles) ↔
      e.files = [] := by
    rw [← Config.validate_eq_noFiles_iff]
    rcases e.validate with kind | _
    · exact ⟨fun h => congrArg _ (Except.error.inj h), fun h => congrArg _ (Except.error.inj h)⟩
    · exact iff_of_false nofun nofun
  refine ⟨fun heq => by rw [← hfails, ← hfails, heq], fun hboth => ?_⟩
  rw [Config.validate_congr hsame hboth, override_congr hfiles hsame]

theorem runner_congr {files₁ files₂ : Files} (h : o.effective files₁ = o.effective files₂) :
    o.runner files₁ = o.runner files₂ := by
  rw [runner, runner, h]

theorem runner_ok {files : Files} {r : Runner} (h : o.runner files = .ok r) :
    o.effective files = .ok r.config := by
  rw [runner] at h
  rcases hfilter : o.filter with kind | filter <;> rw [hfilter] at h
  · cases h
  rcases heffective : o.effective files with kind | config <;> rw [heffective] at h
  · cases h
  · have hr : Runner.ofConfig config = .ok r := h
    rw [Runner.config_ofConfig hr]

/-- A rewrite is told by what is in effect and by its input files. -/
theorem rewrite_congr {files₁ files₂ : Files} (h : o.effective files₁ = o.effective files₂)
    (hinputs : ∀ config, o.effective files₁ = .ok config →
      ∀ input ∈ config.inputs, files₁ input = files₂ input) :
    o.rewrite files₁ = o.rewrite files₂ := by
  rw [rewrite, rewrite, ← runner_congr h]
  rcases hrunner : o.runner files₁ with kind | r
  · exact Writing.attempt_error_bind kind _ _
  · rw [Writing.attempt_ok_bind, Writing.attempt_ok_bind]
    exact Runner.runTo_congr (hinputs r.config (runner_ok hrunner))

end Options

/-- Two documents that differ in files and directory only give one configuration behind files on the
command line, if and only if both have files or neither has: a document without files is refused
before its list is replaced. Where they give one configuration, the runs are the same as well, if
the inputs are. -/
theorem replaced_files {files₁ files₂ : Files} {arguments : List String} {o : Options}
    {path document₁ document₂ : String} {c₁ c₂ : Config}
    (hparse : parse arguments = .ok (.run o)) (hconfig : o.config = some path)
    (hfiles : o.files ≠ []) (hread₁ : files₁ path = .ok document₁)
    (hread₂ : files₂ path = .ok document₂) (hc₁ : Config.ofDocument? document₁ = some c₁)
    (hc₂ : Config.ofDocument? document₂ = some c₂) (hsame : c₁.SameButFiles c₂) :
    (o.effective files₁ = o.effective files₂ ↔ (c₁.files = [] ↔ c₂.files = [])) ∧
      (c₁.files = [] → o.effective files₁ = .error (.config .noFiles)) ∧
        ((c₁.files = [] ↔ c₂.files = []) →
          (∀ config, o.effective files₁ = .ok config →
            ∀ input ∈ config.inputs, files₁ input = files₂ input) →
          run files₁ arguments = run files₂ arguments) := by
  have heffective₁ := Options.effective_eq hconfig hread₁ hc₁
  have heffective₂ := Options.effective_eq hconfig hread₂ hc₂
  have hiff : o.effective files₁ = o.effective files₂ ↔ (c₁.files = [] ↔ c₂.files = []) := by
    rw [heffective₁, heffective₂]
    exact Options.map_override_eq_iff hfiles hsame
  refine ⟨hiff, fun hempty => ?_, fun hboth hinputs => ?_⟩
  · rw [heffective₁, Config.validate_eq_noFiles_iff.mpr hempty]
    rfl
  · rw [run, run, hparse]
    simp only [Options.rewrite_congr (hiff.mpr hboth) hinputs]

/-- A document, and an input beside it. -/
def withDocument (document : String) : Files
  | "c.toml" => .ok document
  | "a.go" => .ok "package p\n"
  | _ => .error .missing

/-- A command line with a document and an input. -/
def documentAndFile : List String :=
  ["--verify", "--config", "c.toml", "a.go"]

/-- What that command line asks for. -/
def verifiedFile : Options :=
  { config := some "c.toml", verify := true, files := ["a.go"] }

theorem parse_documentAndFile : parse documentAndFile = .ok (.run verifiedFile) := by
  rfl

theorem replaced_files_named :
    verifiedFile.effective (withDocument "files = [\"x.go\"]\n") =
        verifiedFile.effective (withDocument "base_dir = \"in\"\n") ∧
      run (withDocument "files = [\"x.go\"]\n") documentAndFile =
        run (withDocument "base_dir = \"in\"\n") documentAndFile := by
  have hx : Config.ofDocument? "files = [\"x.go\"]\n" = some { files := ["x.go"] } := by
    decide +kernel
  have hin : Config.ofDocument? "base_dir = \"in\"\n" = some { baseDir := "in" } := by
    decide +kernel
  have hboth : ({ files := ["x.go"] } : Config).files = [] ↔
      ({ baseDir := "in" } : Config).files = [] := by decide +kernel
  have hread (document : String) : withDocument document "c.toml" = .ok document := rfl
  obtain ⟨hiff, -, hrun⟩ := replaced_files parse_documentAndFile rfl (List.cons_ne_nil _ _)
    (hread "files = [\"x.go\"]\n") (hread "base_dir = \"in\"\n") hx hin ⟨rfl, rfl, rfl⟩
  refine ⟨hiff.mpr hboth, hrun hboth fun config hconfig input hinput => ?_⟩
  have hinputs : (verifiedFile.effective (withDocument "files = [\"x.go\"]\n")).toOption.map
      Config.inputs = some ["a.go"] := by decide +kernel
  rw [hconfig] at hinputs
  rw [Option.some.inj hinputs, List.mem_singleton] at hinput
  rw [hinput]
  rfl

/-- An empty list is not replaced, it is refused. -/
theorem replaced_files_empty :
    ∃ c₁ c₂, parse documentAndFile = .ok (.run verifiedFile) ∧
      Config.ofDocument? "files = []\n" = some c₁ ∧
        Config.ofDocument? "files = [\"x.go\"]\n" = some c₂ ∧ c₁.SameButFiles c₂ ∧
          verifiedFile.effective (withDocument "files = []\n") ≠
            verifiedFile.effective (withDocument "files = [\"x.go\"]\n") := by
  refine ⟨{ files := [] }, { files := ["x.go"] }, parse_documentAndFile, by decide +kernel,
    by decide +kernel, ⟨rfl, rfl, rfl⟩, fun h => ?_⟩
  have hnone : (verifiedFile.effective (withDocument "files = []\n")).toOption = none := by
    decide +kernel
  have hsome : (verifiedFile.effective (withDocument "files = [\"x.go\"]\n")).toOption.isSome =
      true := by decide +kernel
  rw [← h, hnone] at hsome
  cases hsome

end CommandLine

end HandlerSplit
