import HandlerSplit.Proofs.Handler.Rereading
import HandlerSplit.Proofs.Run.Outputs
/-!
# Verifying what is printed

A run may parse every printed text again before it accepts it. A text that fails without that check
fails as before, and one that is rewritten is accepted as it is, or refused when it is printed
(`process_answer`). Nothing is refused that comes of a canonical file with a level of nesting to
spare (`processSource_verified`). Without that level a text may be refused: the value a constructor
returns moves into a call, one level deeper, and nesting is limited, so what could just be parsed
where it stood cannot be parsed in the call (`processSource_refused`).
-/

namespace HandlerSplit.Runner

open Parse (maxNesting)

/-! ## Up to printing -/

variable (r : Runner)

/-- Loads a file and applies every rewrite, without printing the tree. -/
def transformed (path : String) (loaded : Except Error SourceFile) :
    Attempt (Report × SourceFile) := do
  report (.fileOpened path)
  let file ← inStage path .parsing (Attempt.ofResult loaded)
  report (.fileParsed file.decls.length)
  let index ← inStage path .indexing (DeclIndex.build r.config.policy file)
  inStage path .transforming ((r.config.refactorer.transform index).toAttempt file)

/-- Rewriting a file is rewriting its tree and printing it. -/
theorem process_eq (path : String) (loaded : Except Error SourceFile) :
    r.process path loaded = do
      let (changes, file) ← r.transformed path loaded
      let text ← inStage path .printing (r.printed file)
      report (.fileRewritten changes.handler file.decls.length text.utf8ByteSize)
      return ⟨path, text, changes⟩ := by
  simp only [process, rewrite, transformed, bind_assoc]

/-- The fault that verification finds in the printed tree, if it is asked for. -/
def fault? (file : SourceFile) : Option PrintFault :=
  if r.config.verify then rejects? file (file.print {}) else none

/-- Printing answers the text, or the fault that verification finds in it. -/
theorem printed_answer (file : SourceFile) (log : List LogEvent) :
    ((r.printed file).run log).1 =
      match r.fault? file with
      | some fault => .error { kind := .print fault }
      | none => .ok (file.print {}) := by
  rw [printed, fault?]
  cases r.config.verify with
  | false => rfl
  | true =>
    simp only [if_true]
    cases rejects? file (file.print {}) <;> rfl

/-- The answer for a file, from its rewritten tree. -/
theorem process_answer (path : String) (loaded : Except Error SourceFile) :
    (r.process path loaded).outcome.1 =
      match (r.transformed path loaded).outcome.1 with
      | .error e => .error e
      | .ok (changes, file) =>
        match r.fault? file with
        | some fault => .error { kind := .print fault, context := some ⟨path, .printing⟩ }
        | none => .ok ⟨path, file.print {}, changes⟩ := by
  rw [process_eq, Attempt.outcome_eq, HandlerSplit.bind_run, Attempt.outcome_eq]
  rcases (r.transformed path loaded).run [] with ⟨e | ⟨changes, file⟩, l⟩
  · rfl
  · have hprinted := r.printed_answer file l
    simp only [HandlerSplit.bind_run, inStage_run]
    rcases hrun : (r.printed file).run l with ⟨e | text, l'⟩ <;> rw [hrun] at hprinted <;>
      cases hfault : r.fault? file <;> rw [hfault] at hprinted <;> cases hprinted <;> rfl

/-- What becomes of a text that is rewritten: its tree is indexed and transformed. -/
theorem transformed_ok {path source : String} {changes : Report} {file : SourceFile}
    (h : (r.transformed path (loadSource path source)).outcome.1 = .ok (changes, file)) :
    ∃ before index l l', parseFile source = .ok before ∧
      (DeclIndex.build r.config.policy before).outcome.1 = .ok index ∧
      ((r.config.refactorer.transform index).apply before).run l = ((.ok changes, file), l') := by
  have hrun : (r.transformed path (loadSource path source)).run [] =
      (.ok (changes, file), (r.transformed path (loadSource path source)).outcome.2) :=
    Prod.ext h rfl
  obtain ⟨_, _, -, h₁⟩ := bind_ok hrun
  obtain ⟨before, _, hload, h₂⟩ := bind_ok h₁
  obtain ⟨_, _, -, h₃⟩ := bind_ok h₂
  obtain ⟨index, _, hindex, h₄⟩ := bind_ok h₃
  obtain ⟨_, hbuild⟩ := inStage_ok hindex
  obtain ⟨_, htransform⟩ := inStage_ok h₄
  exact ⟨before, index, _, _, loadSource_ok (ofResult_ok (inStage_ok hload).choose_spec),
    DeclIndex.build_ok_iff.mpr (DeclIndex.build_ok_iff.mp (congrArg Prod.fst hbuild)),
    FileEdit.toAttempt_ok htransform⟩

/-! ## Texts that are accepted -/

/-- A text is accepted if it is parsed with as many declarations as its tree. -/
theorem rejects?_eq_none_iff {file : SourceFile} {text : String} :
    rejects? file text = none ↔
      ∃ after, parseFile text = .ok after ∧ after.decls.length = file.decls.length := by
  rw [rejects?]
  cases parseFile text with
  | error e => simp
  | ok after => simp

/-- What is printed of a readable file is accepted. -/
theorem rejects?_print_of_readable {file : SourceFile} (h : file.Readable maxNesting) :
    rejects? file (file.print {}) = none :=
  rejects?_eq_none_iff.mpr ⟨file.lined, h.parse {}, List.length_map _⟩

/-- A canonical text with a level of nesting to spare has a readable tree when it is rewritten. -/
theorem readable_transformed (hc : r.config.refactorer.conventions.Canonical)
    {source : String} {before : SourceFile} (hparse : parseFile source = .ok before)
    (hbefore : before.Canonical) (hnesting : before.nesting < maxNesting) {path : String}
    {changes : Report} {file : SourceFile}
    (h : (r.transformed path (loadSource path source)).outcome.1 = .ok (changes, file)) :
    file.Readable maxNesting := by
  obtain ⟨before', index, _, _, hparse', hindex, htransform⟩ := r.transformed_ok h
  cases hparse.symm.trans hparse'
  have hreadable : before.Readable (maxNesting - 1) :=
    SourceFile.readable_of_canonical hbefore (Nat.le_pred_of_lt hnesting) (Nat.sub_le _ _)
  exact transform_readable hc (by decide) hreadable (isName_handler hreadable hindex) htransform

/-- The runner with verification asked for, or not. -/
def verifying (verify : Bool) : Runner :=
  ⟨{ r.config with verify := verify }, r.isValid⟩

/-- Verification rejects nothing that is made of a canonical text with a level of nesting to spare:
the answer is the same without it. -/
theorem processSource_verified (hc : r.config.refactorer.conventions.Canonical) {source : String}
    {before : SourceFile} (hparse : parseFile source = .ok before) (hbefore : before.Canonical)
    (hnesting : before.nesting < maxNesting) (path : String) :
    ((r.verifying true).processSource path source).outcome.1 =
      ((r.verifying false).processSource path source).outcome.1 := by
  have hverified := (r.verifying true).process_answer path (loadSource path source)
  have hplain := (r.verifying false).process_answer path (loadSource path source)
  have hsame : (r.verifying true).transformed path (loadSource path source) =
      (r.verifying false).transformed path (loadSource path source) :=
    rfl
  rw [hsame] at hverified
  simp only [processSource, hverified, hplain]
  cases htree : ((r.verifying false).transformed path (loadSource path source)).outcome.1 with
  | error e => rfl
  | ok tree =>
    obtain ⟨changes, file⟩ := tree
    have hreadable := (r.verifying false).readable_transformed hc hparse hbefore hnesting htree
    have hunchecked : (r.verifying false).fault? file = none := rfl
    have hchecked : (r.verifying true).fault? file = none := rejects?_print_of_readable hreadable
    simp only [hunchecked, hchecked]

/-- A file with a method that is constructor, `Read` and `Process` at once and returns a value. -/
def returningFile (value : Expr) : SourceFile where
  package := "p"
  packageDecs := .ownLine
  decls :=
    [.appended
      { recv := some (.of [.of ["h"] (.star (.ident "H"))])
        name := "NewReadProcess"
        signature := ⟨.of [], some (.of [.of [] (.ident "T")])⟩
        body := some (.of [⟨.returns [value], .ownLine⟩]) },
      .appended
      { recv := none
        name := "Register"
        signature := ⟨.of [], none⟩
        body := some (.of [⟨.assign [.index (.selector (.ident "s") "Schema") (.ident "k")] .assign
          [.ident "v"], .ownLine⟩]) }]
  trailingComments := []

/-- An expression behind exclamation marks. -/
def negations : Nat → Expr → Expr
  | 0, x => x
  | n + 1, x => .unary .not (negations n x)

/-- A name behind exclamation marks is canonical. -/
theorem canonical_negations (n : Nat) : (negations n (.ident "x")).Canonical := by
  induction n with
  | zero => exact .ident (by decide)
  | succ n ih => exact .unary ih (by cases n <;> rfl)

/-- The file is canonical if the value is. -/
theorem canonical_returningFile {value : Expr} (hvalue : value.Canonical) :
    (returningFile value).Canonical := by
  have hname {n : String} (h : isName n = true) : (Expr.ident n).Canonical := .ident h
  have hentry : ∀ x ∈ [Expr.index (.selector (.ident "s") "Schema") (.ident "k"), .ident "v"],
      x.Canonical :=
    List.forall_mem_cons.mpr ⟨.index (.selector (hname (by decide)) rfl rfl (by decide)) rfl
      (hname (by decide)), List.forall_mem_singleton.mpr (hname (by decide))⟩
  have hpackage : isName "p" = true := by decide
  have hmethod : isName "NewReadProcess" = true := by decide
  refine ⟨hpackage, rfl, List.forall_mem_cons.mpr ⟨⟨_, rfl, ?_, hmethod, ?_, ?_, _, rfl, ?_⟩,
    List.forall_mem_singleton.mpr ⟨_, rfl, nofun, by decide, ?_, nofun, _, rfl, ?_⟩⟩, rfl⟩
  · rintro _ ⟨⟩
    exact ⟨⟨rfl, by decide, by decide, by decide, .inl (by decide)⟩, _, rfl, by decide,
      .star (.ident (by decide))⟩
  · refine ⟨readableParams_nil.uniform, ?_, ?_⟩
    · rintro _ ⟨⟩
      exact ⟨rfl, by decide, by decide, by decide, .inr (by decide)⟩
    · rintro _ ⟨⟩ _ ⟨⟩ _
      rfl
  · exact List.forall_mem_singleton.mpr (.ident (by decide))
  · exact .block ⟨List.forall_mem_singleton.mpr rfl, by rintro _ ⟨⟩; rfl⟩
      (List.forall_mem_singleton.mpr (.returns (List.forall_mem_singleton.mpr hvalue)))
  · exact ⟨readableParams_nil.uniform, nofun, nofun⟩
  · exact .block ⟨by decide, by decide⟩
      (List.forall_mem_singleton.mpr (.simple (.assign nofun rfl nofun) hentry))

/-- The runner with the default configuration. -/
def standard : Runner :=
  ⟨{}, by decide +kernel⟩

/-- A file that is nested with one level to spare. -/
def shallowFile : SourceFile :=
  returningFile (negations 37 (.ident "x"))

/-- With a level of nesting to spare the file is rewritten, verified or not. -/
theorem processSource_verified_shallow :
    (standard.config.refactorer.conventions.Canonical ∧
      parseFile (shallowFile.print {}) = .ok shallowFile ∧ shallowFile.Canonical ∧
      shallowFile.nesting < maxNesting) ∧
    ((standard.verifying false).processSource "a.go" (shallowFile.print {})).outcome.1.isOk ∧
    ((standard.verifying true).processSource "a.go" (shallowFile.print {})).outcome.1 =
      ((standard.verifying false).processSource "a.go" (shallowFile.print {})).outcome.1 := by
  have hcanonical : shallowFile.Canonical := canonical_returningFile (canonical_negations 37)
  have hnesting : shallowFile.nesting < maxNesting := by decide
  have hparse : parseFile (shallowFile.print {}) = .ok shallowFile :=
    parseFile_of_fileOutput hcanonical (Nat.le_of_lt hnesting) {} rfl
  exact ⟨⟨canonical_standard, hparse, hcanonical, hnesting⟩, by decide +kernel,
    processSource_verified standard canonical_standard hparse hcanonical hnesting "a.go"⟩

/-! ## A text that is refused -/

/-- What verification finds in a printed tree is told by the pieces that are printed. -/
theorem rejects?_print_ne_none {file : SourceFile}
    (h : (Parse.runOn Parse.Grammar.sourceFile
      (tokenize (Print.fileOutput {} file).chars)).1.toOption.isNone) :
    rejects? file (file.print {}) ≠ none := by
  intro hnone
  obtain ⟨after, hafter, -⟩ := rejects?_eq_none_iff.1 hnone
  obtain ⟨c, hrun⟩ := Parse.exists_runOn_ok hafter
  rw [SourceFile.print, Print.toList_render] at hrun
  rw [hrun] at h
  cases h

/-- A constructor that returns a value as deep as a statement can hold it. -/
def deep : String := "package p

func (h *H) NewReadProcess() T {
	return !!!!!!!!!!!!!!!!!!!!!!!!!!!!!!!!!!!!!!x
}

func Register() {
	s.Schema[k] = v
}
"

/-- The tree of that text, nested just as deeply as the parser goes. -/
def deepFile : SourceFile :=
  returningFile (negations 38 (.ident "x"))

/-- The text is canonical, and no level of nesting is to spare. -/
theorem parseFile_deep :
    parseFile deep = .ok deepFile ∧ deepFile.Canonical ∧ deepFile.nesting = maxNesting := by
  have hcanonical : deepFile.Canonical := canonical_returningFile (canonical_negations 38)
  have hnesting : deepFile.nesting = maxNesting := by decide
  have htext : deepFile.print {} = deep := by decide +kernel
  have hparse : parseFile (deepFile.print {}) = .ok deepFile :=
    parseFile_of_fileOutput hcanonical (Nat.le_of_eq hnesting) {} rfl
  exact ⟨htext ▸ hparse, hcanonical, hnesting⟩

/-- With the default configuration, a text that can be rewritten may be refused. -/
theorem processSource_refused :
    ∃ output e, ((standard.verifying false).processSource "a.go" deep).outcome.1 = .ok output ∧
      ((standard.verifying true).processSource "a.go" deep).outcome.1 = .error e := by
  have hdeep : (standard.transformed "a.go" (loadSource "a.go" deep)).outcome.1.toOption.any
      fun (_, file) => (Parse.runOn Parse.Grammar.sourceFile
        (tokenize (Print.fileOutput {} file).chars)).1.toOption.isNone := by
    decide +kernel
  have hplain := (standard.verifying false).process_answer "a.go" (loadSource "a.go" deep)
  have hverified := (standard.verifying true).process_answer "a.go" (loadSource "a.go" deep)
  have hsame : ∀ verify, (standard.verifying verify).transformed "a.go" (loadSource "a.go" deep) =
      standard.transformed "a.go" (loadSource "a.go" deep) :=
    fun _ => rfl
  rw [hsame] at hplain hverified
  cases htree : (standard.transformed "a.go" (loadSource "a.go" deep)).outcome.1 with
  | error e => rw [htree] at hdeep; cases hdeep
  | ok tree =>
    obtain ⟨changes, file⟩ := tree
    rw [htree] at hdeep hplain hverified
    have hfault : (standard.verifying true).fault? file = rejects? file (file.print {}) := rfl
    obtain ⟨fault, hrejects⟩ := Option.ne_none_iff_exists'.1 (rejects?_print_ne_none hdeep)
    rw [hrejects] at hfault
    simp only [hfault] at hverified
    exact ⟨_, _, hplain, hverified⟩

end HandlerSplit.Runner
