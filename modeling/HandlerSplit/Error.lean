import HandlerSplit.Parse.Source
/-!
# Errors

Every failure of a run, with its wording in `Error.message`. A failure while a file is worked
on also carries the path of the file and the stage it was in.
-/

namespace HandlerSplit

/-! ## Stages -/

/-- What is being done to a file. -/
inductive Stage where
  | parsing | indexing | transforming | printing | done
  deriving DecidableEq, Repr

namespace Stage

/-- The stage that follows; nothing follows `done`. -/
def next : Stage → Stage
  | parsing => indexing
  | indexing => transforming
  | transforming => printing
  | printing => done
  | done => done

/-- How the stage is called. -/
def name : Stage → String
  | parsing => "parsing"
  | indexing => "indexing"
  | transforming => "transforming"
  | printing => "printing"
  | done => "done"

/-- The stage after a number of steps. -/
def after (s : Stage) (n : Nat) : Stage :=
  n.repeat next s

end Stage

/-- The file an error is about, and the stage it was in. -/
structure ErrorContext where
  path : String
  stage : Stage
  deriving DecidableEq, Repr

/-- The wording of a context. -/
def ErrorContext.message (c : ErrorContext) : String :=
  "while " ++ c.stage.name ++ " " ++ c.path

/-! ## Causes -/

/-- Why a file cannot be read. -/
inductive ReadFault where
  | missing
  | notDirectory
  | isDirectory
  | notText
  /-- The path holds a NUL character. -/
  | nulInPath
  | nameTooLong
  /-- Any other failure, as the system words it. -/
  | other (text : String)
  deriving DecidableEq, Repr

/-- The wording of the system. -/
def ReadFault.message : ReadFault → String
  | missing => "No such file or directory (os error 2)"
  | notDirectory => "Not a directory (os error 20)"
  | isDirectory => "Is a directory (os error 21)"
  | notText => "stream did not contain valid UTF-8"
  | nulInPath => "file name contained an unexpected NUL byte"
  | nameTooLong => "File name too long (os error 36)"
  | other text => text

/-- Why a source file does not yield a tree. -/
inductive SourceFault where
  | unreadable (fault : ReadFault)
  /-- The text is not well-formed at the given place; `context` is its line. -/
  | malformed (message : String) (line column : Nat) (context : String)
  deriving DecidableEq, Repr

/-- The wording of a source fault. -/
def SourceFault.message : SourceFault → String
  | unreadable fault => "cannot read file: " ++ fault.message
  | malformed message line column _ => toString line ++ ":" ++ toString column ++ ": " ++ message

/-- The path of a source that was not read from a file. -/
def inMemoryPath : String := "<input>"

/-- The wording of a source fault in a file. -/
def sourceMessage (path : String) (fault : SourceFault) : String :=
  "parse error in " ++ path ++ ": " ++ fault.message

/-- Why a rewritten tree is not accepted. -/
inductive PrintFault where
  /-- The printed text is rejected by the parser. -/
  | doesNotParse (fault : SourceFault)
  /-- The printed text holds another number of declarations. -/
  | wrongCount (found expected : Nat)
  | other (text : String)
  deriving DecidableEq, Repr

/-- The wording of a print fault. -/
def PrintFault.message : PrintFault → String
  | doesNotParse fault => "rewritten source does not parse: " ++ sourceMessage inMemoryPath fault
  | wrongCount found expected =>
    "rewritten source has " ++ toString found ++ " declarations, expected " ++ toString expected
  | other text => text

/-- Why a configuration is not accepted. -/
inductive ConfigFault where
  | noFiles
  | invalidType (text : String) (fault : SourceFault)
  | unreadable (path : String) (fault : ReadFault)
  /-- The document is not well-formed, or holds a key or value that is not expected. -/
  | malformed
  | invalidFilter (level : String)
  /-- A part of the filter begins or ends within a character. -/
  | brokenFilter (level : String)
  | other (text : String)
  deriving DecidableEq, Repr

/-- The wording of a configuration fault. -/
def ConfigFault.message : ConfigFault → String
  | noFiles => "no input files configured"
  | invalidType text fault =>
    "invalid type `" ++ text ++ "` in conventions: " ++ sourceMessage inMemoryPath fault
  | unreadable path fault => "failed to read " ++ path ++ ": " ++ fault.message
  | malformed => "malformed document"
  | invalidFilter level => "invalid log level `" ++ level ++ "`"
  | brokenFilter level => "log level `" ++ level ++ "` is cut within a character"
  | other text => text

/-- The kinds of failure. -/
inductive ErrorKind where
  /-- The source file cannot be read or is not well-formed. -/
  | source (path : String) (fault : SourceFault)
  /-- A declaration the rewrite needs is missing. -/
  | notFound (anchor : String)
  /-- The receiver of `Process` is not of the form `*H`. -/
  | invalidReceiver (found : String)
  /-- `Register` never assigns into the schema map. -/
  | schemaAssignmentNotFound (receiver : String)
  /-- `Read` selects from the service variable something that cannot be rewritten. -/
  | unexpectedSelector (selector : String)
  /-- The rewritten tree cannot be printed, or fails verification. -/
  | print (fault : PrintFault)
  | config (fault : ConfigFault)
  deriving DecidableEq, Repr

/-- The wording of a failure. -/
def ErrorKind.message : ErrorKind → String
  | source path fault => sourceMessage path fault
  | notFound anchor => "no function declaration matching anchor `" ++ anchor ++ "`"
  | invalidReceiver found =>
    "expected a pointer receiver `*H` on Process, found `" ++ found ++ "`"
  | schemaAssignmentNotFound receiver =>
    "Register on `" ++ receiver ++ "` has no `s.Schema[...] = ...` assignment"
  | unexpectedSelector selector =>
    "unexpected selector `" ++ selector ++ "` in Read, only s.ActiveVersion is rewritable"
  | print fault => "print error: " ++ fault.message
  | config fault => "configuration error: " ++ fault.message

/-- A failure, with its context if it is known. -/
structure Error where
  kind : ErrorKind
  context : Option ErrorContext := none
  deriving DecidableEq, Repr

namespace Error

/-- The wording of the error, without its context. -/
def message (e : Error) : String :=
  e.kind.message

/-- The error with a context. -/
def inContext (e : Error) (path : String) (stage : Stage) : Error :=
  { e with context := some ⟨path, stage⟩ }

/-- The error with the path of the file it is about; only a source error names one. -/
def atPath (e : Error) (path : String) : Error :=
  match e.kind with
  | .source _ fault => { e with kind := .source path fault }
  | _ => e

/-- The stage the error was raised in, if it is known. -/
def stage? (e : Error) : Option Stage :=
  e.context.map (·.stage)

end Error

/-- The fault a syntax error is. -/
def SyntaxError.toFault (e : SyntaxError) : SourceFault :=
  .malformed e.fault.message e.line e.column e.context

/-- The error of a text that was not read from a file. -/
def SyntaxError.toError (e : SyntaxError) : Error :=
  { kind := .source inMemoryPath e.toFault }

end HandlerSplit
