import HandlerSplit.Config
import HandlerSplit.Files.Tree
/-!
# Running

A file goes through the stages parsing, indexing, transforming and printing; a failure names
the file and the stage. A run goes through the configured files in order and stops at the
first failure, and writes only then, so that nothing is written unless every file is rewritten.
-/

namespace HandlerSplit

/-- A rewritten file. -/
structure Rewritten where
  path : String
  text : String
  report : Report
  deriving DecidableEq, Repr

/-- A valid configuration, which files can be rewritten with. -/
structure Runner where
  config : Config
  isValid : config.validate = .ok ()

/-- Does the work of a stage on a file. -/
def inStage {α : Type} (path : String) (stage : Stage) (work : Attempt α) : Attempt α :=
  ExceptT.mk do
    match ← work.run with
    | .ok a =>
      report (.stageEntered stage.next)
      return .ok a
    | .error e => return .error (e.inContext path stage)

/-- The answer of an edit, with the file afterwards. -/
def FileEdit.toAttempt {α : Type} (edit : FileEdit α) (file : SourceFile) :
    Attempt (α × SourceFile) :=
  ExceptT.mk do
    let (answer, file) ← edit.apply file
    return answer.map (·, file)

/-- A value or error that is known, as a computation. -/
def Attempt.ofResult {α : Type} (result : Except Error α) : Attempt α :=
  ExceptT.mk (pure result)

namespace Runner

/-- The runner of a configuration, if it is valid. -/
def ofConfig (config : Config) : Except ErrorKind Runner :=
  match h : config.validate with
  | .ok () => .ok ⟨config, h⟩
  | .error kind => .error kind

variable (r : Runner)

/-- Why a printed text is not accepted, if it is not: it must be parsed again, to the same
number of declarations. -/
def rejects? (file : SourceFile) (text : String) : Option PrintFault :=
  match parseFile text with
  | .error e => some (.doesNotParse e.toFault)
  | .ok again =>
    if again.decls.length = file.decls.length then none
    else some (.wrongCount again.decls.length file.decls.length)

/-- The text of a rewritten tree, checked if the configuration asks for it. -/
def printed (file : SourceFile) : Attempt String := do
  let text := file.print {}
  if r.config.verify then
    match rejects? file text with
    | some fault => fail (.print fault)
    | none => report .outputVerified
  return text

/-- Rewrites a parsed file. -/
def rewrite (path : String) (file : SourceFile) : Attempt Rewritten := do
  report (.fileParsed file.decls.length)
  let index ← inStage path .indexing (DeclIndex.build r.config.policy file)
  let (changes, file) ← inStage path .transforming
    ((r.config.refactorer.transform index).toAttempt file)
  let text ← inStage path .printing (r.printed file)
  report (.fileRewritten changes.handler file.decls.length text.utf8ByteSize)
  return ⟨path, text, changes⟩

/-- Rewrites a file, given what loading it answers. -/
def process (path : String) (loaded : Except Error SourceFile) : Attempt Rewritten := do
  report (.fileOpened path)
  let file ← inStage path .parsing (Attempt.ofResult loaded)
  r.rewrite path file

/-- Rewrites a text as if it had been read from a path. -/
def processSource (path source : String) : Attempt Rewritten :=
  r.process path (loadSource path source)

/-- Rewrites the file at a path. -/
def processFile (files : Files) (path : String) : Attempt Rewritten :=
  r.process path (loadFile files path)

/-- Reports that the run stops with an error. -/
def aborted (path : String) (e : Error) : LogEvent :=
  .runAborted path ((e.stage?.map Stage.name).getD "unknown") e.message

/-- Rewrites files in order, up to the first failure. -/
def processAll (files : Files) : List String → Attempt (List Rewritten)
  | [] => return []
  | path :: paths => do
    let output ← tryCatch (r.processFile files path) fun e => do
      report (aborted path e)
      throw e
    return output :: (← processAll files paths)

/-- Rewrites the configured files in order, up to the first failure. -/
def run (files : Files) : Attempt (List Rewritten) := do
  let inputs := r.config.inputs
  report (.runStarted inputs.length)
  let outputs ← r.processAll files inputs
  report (.runFinished outputs.length)
  return outputs

end Runner

/-! ## Writing -/

/-- A computation that writes text, reports and may fail; what it has written before a failure
stays written. -/
abbrev Writing (α : Type) := ExceptT Error (StateT String (StateM (List LogEvent))) α

namespace Writing

/-- A step that writes nothing. -/
def attempt {α : Type} (step : Attempt α) : Writing α :=
  fun written => do
    let answer ← step.run
    return (answer, written)

/-- Writes a text behind what is written. -/
def write (text : String) : Writing Unit :=
  fun written => return (.ok (), written ++ text)

/-- The answer of a computation and what it wrote, with what it reported. -/
def outcome {α : Type} (w : Writing α) : (Except Error α × String) × List LogEvent :=
  ((ExceptT.run w).run "").run []

/-- Writes the texts of rewritten files in order. -/
def texts : List Rewritten → Writing Unit
  | [] => return
  | output :: outputs => do
    write output.text
    texts outputs

end Writing

/-- Rewrites the configured files, writes the results in order and answers how many there are. -/
def Runner.runTo (r : Runner) (files : Files) : Writing Nat := do
  let outputs ← Writing.attempt (r.run files)
  Writing.texts outputs
  return outputs.length

end HandlerSplit
