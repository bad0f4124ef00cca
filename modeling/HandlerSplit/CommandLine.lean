import HandlerSplit.CommandLine.Help
import HandlerSplit.LogFilter
import HandlerSplit.Run
/-!
# The command line

Arguments are options, flags and input files in any order; after `--` all are files. An
option takes its value after `=` or from the next argument, which must not look like an
option. `CommandLine.run` answers what the program prints and its exit status.
-/

namespace HandlerSplit.CommandLine

/-- What is asked for on the command line. -/
structure Options where
  /-- The document with the configuration. -/
  config : Option String := none
  /-- The directory that the files are relative to. -/
  baseDir : Option String := none
  /-- The filter on log events. -/
  logLevel : Option String := none
  exactAnchors : Bool := false
  verify : Bool := false
  jsonLogs : Bool := false
  /-- Files that replace the configured ones. -/
  files : List String := []
  deriving DecidableEq, Repr

/-- The options that take a value. -/
inductive ValueOption where
  | config | baseDir | logLevel
  deriving DecidableEq, Repr

/-- The options that take none. -/
inductive Flag where
  | exactAnchors | verify | jsonLogs
  deriving DecidableEq, Repr

/-- Why a command line is refused. -/
inductive UsageFault where
  | unknown (argument : String)
  | missingValue (option : String)
  | emptyValue (option : String)
  /-- A flag was given a value. -/
  | unexpectedValue (flag : String)
  | repeated (option : String)
  deriving DecidableEq, Repr

/-- What a long option stands for. -/
inductive LongOption where
  | value (o : ValueOption)
  | flag (f : Flag)
  | help
  | version
  deriving DecidableEq, Repr

/-- The long option of a name. -/
def longOption? : String → Option LongOption
  | "config" => some (.value .config)
  | "base-dir" => some (.value .baseDir)
  | "log-level" => some (.value .logLevel)
  | "exact-anchors" => some (.flag .exactAnchors)
  | "verify" => some (.flag .verify)
  | "json-logs" => some (.flag .jsonLogs)
  | "help" => some .help
  | "version" => some .version
  | _ => none

namespace Options

/-- The value of an option so far. -/
def get (o : Options) : ValueOption → Option String
  | .config => o.config
  | .baseDir => o.baseDir
  | .logLevel => o.logLevel

/-- Sets the value of an option, which may be done once. A path must not be empty. -/
def set (o : Options) (option : ValueOption) (name value : String) : Except UsageFault Options :=
  if (o.get option).isSome then .error (.repeated name)
  else
    match option with
    | .logLevel => .ok { o with logLevel := some value }
    | .config =>
      if value.isEmpty then .error (.emptyValue name) else .ok { o with config := some value }
    | .baseDir =>
      if value.isEmpty then .error (.emptyValue name) else .ok { o with baseDir := some value }

/-- Whether a flag is raised so far. -/
def raised (o : Options) : Flag → Bool
  | .exactAnchors => o.exactAnchors
  | .verify => o.verify
  | .jsonLogs => o.jsonLogs

/-- Raises a flag, which may be done once. -/
def raise (o : Options) (flag : Flag) (name : String) : Except UsageFault Options :=
  if o.raised flag then .error (.repeated name)
  else
    match flag with
    | .exactAnchors => .ok { o with exactAnchors := true }
    | .verify => .ok { o with verify := true }
    | .jsonLogs => .ok { o with jsonLogs := true }

/-- Adds an input file. -/
def addFile (o : Options) (path : String) : Except UsageFault Options :=
  if path.isEmpty then .error (.emptyValue "FILE") else .ok { o with files := o.files ++ [path] }

end Options

/-! ## Reading the arguments -/

/-- What a command line asks for. -/
inductive Request where
  | run (options : Options)
  | help (kind : HelpKind)
  | version
  deriving DecidableEq, Repr

/-- The shapes of an argument. -/
inductive Argument where
  /-- `--` -/
  | separator
  /-- `--name` or `--name=value` -/
  | long (name : String) (value : Option String)
  /-- `-x...` -/
  | short (letter : Char)
  | plain
  deriving DecidableEq, Repr

/-- The shape of an argument. -/
def shape (argument : String) : Argument :=
  match argument.toList with
  | ['-', '-'] => .separator
  | '-' :: '-' :: cs =>
    let name := String.ofList (cs.takeWhile (· != '='))
    match cs.dropWhile (· != '=') with
    | [] => .long name none
    | _ :: value => .long name (some (String.ofList value))
  | '-' :: c :: _ => .short c
  | _ => .plain

/-- Reads arguments from left to right. Help and version end the reading. -/
def parseFrom (o : Options) : List String → Except UsageFault Request
  | [] => .ok (.run o)
  | argument :: rest =>
    match shape argument with
    | .separator => do
      return .run (← rest.foldlM Options.addFile o)
    | .plain => do
      parseFrom (← o.addFile argument) rest
    | .short 'h' => .ok (.help .brief)
    | .short 'V' => .ok .version
    | .short _ => .error (.unknown argument)
    | .long name value =>
      match longOption? name, value with
      | none, _ => .error (.unknown argument)
      | some (.value option), some value => do
        parseFrom (← o.set option name value) rest
      | some (.value option), none =>
        match rest with
        | [] => .error (.missingValue name)
        | value :: rest =>
          if shape value = .plain then do
            parseFrom (← o.set option name value) rest
          else .error (.missingValue name)
      | some _, some _ => .error (.unexpectedValue name)
      | some (.flag flag), none => do
        parseFrom (← o.raise flag name) rest
      | some .help, none => .ok (.help .full)
      | some .version, none => .ok .version

/-- What a command line asks for. -/
def parse (arguments : List String) : Except UsageFault Request :=
  parseFrom {} arguments

/-! ## Running -/

namespace Options

/-- The configuration with what the command line replaces. Files given there are relative to
the working directory unless a base directory is given as well. -/
def override (o : Options) (c : Config) : Config :=
  let c := if o.files.isEmpty then c else { c with files := o.files, baseDir := "" }
  { c with
    baseDir := o.baseDir.getD c.baseDir
    policy := if o.exactAnchors then .exact else c.policy
    verify := o.verify || c.verify }

/-- The configuration of the run: the loaded or default one, with what the command line
replaces. A configuration that is loaded must be valid before anything is replaced. -/
def effective (o : Options) (files : Files) : Except ErrorKind Config :=
  match o.config with
  | some path => (Config.load files path).map o.override
  | none => .ok (o.override {})

/-- The filter on log events. -/
def filter (o : Options) : Except ErrorKind LogFilter :=
  LogFilter.ofLevel o.logLevel

/-- The lines that are logged, of what is reported. -/
def logLines (o : Options) (log : List LogEvent) : List String :=
  match o.filter with
  | .error _ => []
  | .ok filter =>
    (log.filter filter.admits).map fun e => if o.jsonLogs then e.object else e.line

/-- The runner of the run. The filter on log events is looked at first. -/
def runner (o : Options) (files : Files) : Except ErrorKind Runner := do
  let _ ← o.filter
  let config ← o.effective files
  Runner.ofConfig config

/-- Rewrites the input files and writes the results. -/
def rewrite (o : Options) (files : Files) : Writing Nat := do
  let runner ← Writing.attempt (Attempt.ofExcept (o.runner files))
  runner.runTo files

end Options

/-- How a command ends. -/
inductive Outcome where
  /-- The rewritten files are written. -/
  | written (text : String)
  /-- A text about the program is printed. -/
  | shown (text : String)
  /-- The run fails, with what was written before. -/
  | failed (e : Error) (text : String)
  | refused (fault : UsageFault)

/-- Runs a command, and answers how it ends and the lines that are logged. -/
def run (files : Files) (arguments : List String) : Outcome × List String :=
  match parse arguments with
  | .error fault => (.refused fault, [])
  | .ok (.help kind) => (.shown (helpText kind), [])
  | .ok .version => (.shown versionText, [])
  | .ok (.run options) =>
    let ((answer, text), log) := (options.rewrite files).outcome
    let lines := options.logLines log
    match answer with
    | .ok _ => (.written text, lines)
    | .error e => (.failed e text, lines)

namespace UsageFault

/-- The wording of a refusal. -/
def message : UsageFault → String
  | unknown argument => "unexpected argument '" ++ argument ++ "' found"
  | missingValue option => "a value is required for '" ++ option ++ "' but none was supplied"
  | emptyValue option => "a value is required for '" ++ option ++ "' but none was supplied"
  | unexpectedValue flag => "unexpected value for '" ++ flag ++ "' found"
  | repeated option => "the argument '" ++ option ++ "' cannot be used multiple times"

end UsageFault

namespace Outcome

/-- The exit status. A filter that is cut within a character ends the program abruptly. -/
def exit : Outcome → Nat
  | written _ | shown _ => 0
  | failed ⟨.config (.brokenFilter _), _⟩ _ => 101
  | failed _ _ => 1
  | refused _ => 2

/-- What is written to standard output. -/
def stdout : Outcome → String
  | written text | shown text | failed _ text => text
  | refused _ => ""

/-- What is written to standard error when the command fails. -/
def stderr : Outcome → String
  | written _ | shown _ => ""
  | failed e _ =>
    match e.context with
    | some context => "error: " ++ e.message ++ " (" ++ context.message ++ ")\n"
    | none => "error: " ++ e.message ++ "\n"
  | refused fault => "error: " ++ fault.message ++ "\n"

end Outcome

end HandlerSplit.CommandLine
