import HandlerSplit.Error
import HandlerSplit.LogLevel
import HandlerSplit.Text.Json
import HandlerSplit.Text.Quoted
/-!
# The log

What a run reports while it works. An event has a level, a message and named values; its line
is the level, the message and each value as `name=value`. Computations that report are
`Traced`, and those that may fail as well are `Attempt`s, which keep their log on failure.
-/

namespace HandlerSplit

/-- What is reported. -/
inductive LogEvent where
  /-- Work on a file begins. -/
  | fileOpened (path : String)
  | stageEntered (stage : Stage)
  | fileParsed (decls : Nat)
  | anchorAmbiguous (anchor : String) (candidates : List String) (chosen : String)
  | anchorResolved (anchor decl : String)
  | receiverDiffers (handler receiver : String)
  | bucketUnknown (bucket : String)
  | bucketRepeated (bucket : String)
  | bucketMatched (bucket method : String)
  | bucketAbsent (bucket method : String)
  | schemaDerived (copied : Nat)
  | keyEmitted (handler : String)
  | readRebound (decl : String) (selectors : Nat)
  | returnsWrapped (decl wrapper : String) (returns : Nat)
  | declEmitted (handler decl : String)
  | outputVerified
  | fileRewritten (handler : String) (decls bytes : Nat)
  | runStarted (files : Nat)
  | runAborted (path stage error : String)
  | runFinished (files : Nat)
  deriving DecidableEq, Repr

namespace LogEvent

/-- The kind of the event; the beginning of work on a file is none. -/
def level : LogEvent → Option LogLevel
  | fileOpened _ => none
  | stageEntered _ | outputVerified => some .debug
  | anchorAmbiguous _ _ _ | receiverDiffers _ _ | bucketUnknown _ | bucketRepeated _ =>
    some .warn
  | runAborted _ _ _ => some .error
  | _ => some .info

/-- What the line of the event starts with. -/
def label (e : LogEvent) : String :=
  (e.level.map LogLevel.label).getD "SPAN"

/-- The wording of the event. -/
def message : LogEvent → String
  | fileOpened _ => "file"
  | stageEntered _ => "stage entered"
  | fileParsed _ => "file parsed"
  | anchorAmbiguous _ _ _ => "anchor matches several declarations, using the last one"
  | anchorResolved _ _ => "anchor resolved"
  | receiverDiffers _ _ => "Register is declared on a different receiver than Process"
  | bucketUnknown _ => "ignoring range over unknown bucket"
  | bucketRepeated _ => "bucket iterated more than once, using the last loop"
  | bucketMatched _ _ => "bucket matched"
  | bucketAbsent _ _ => "bucket absent, emitting no-op"
  | schemaDerived _ => "GetSchema derived from Register"
  | keyEmitted _ => "Key accessor emitted"
  | readRebound _ _ => "Read rebound to the service version parameter"
  | returnsWrapped _ _ _ => "constructor returns wrapped"
  | declEmitted _ _ => "declaration emitted"
  | outputVerified => "rewritten source verified"
  | fileRewritten _ _ _ => "file rewritten"
  | runStarted _ => "run started"
  | runAborted _ _ _ => "run aborted"
  | runFinished _ => "run finished"

/-- The named values of the event. -/
def fields : LogEvent → List (String × String)
  | fileOpened path => [("path", path)]
  | stageEntered stage => [("stage", stage.name)]
  | fileParsed decls => [("decls", toString decls)]
  | anchorAmbiguous anchor candidates chosen =>
    [("anchor", anchor), ("candidates", Text.quotedList candidates), ("chosen", chosen)]
  | anchorResolved anchor decl => [("anchor", anchor), ("decl", decl)]
  | receiverDiffers handler receiver => [("handler", handler), ("receiver", receiver)]
  | bucketUnknown bucket => [("bucket", bucket)]
  | bucketRepeated bucket => [("bucket", bucket)]
  | bucketMatched bucket method => [("bucket", bucket), ("method", method)]
  | bucketAbsent bucket method => [("bucket", bucket), ("method", method)]
  | schemaDerived copied => [("copied", toString copied)]
  | keyEmitted handler => [("handler", handler)]
  | readRebound decl selectors => [("decl", decl), ("selectors", toString selectors)]
  | returnsWrapped decl wrapper returns =>
    [("decl", decl), ("wrapper", wrapper), ("returns", toString returns)]
  | declEmitted handler decl => [("handler", handler), ("decl", decl)]
  | outputVerified => []
  | fileRewritten handler decls bytes =>
    [("handler", handler), ("decls", toString decls), ("bytes", toString bytes)]
  | runStarted files => [("files", toString files)]
  | runAborted path stage error => [("path", path), ("stage", stage), ("error", error)]
  | runFinished files => [("files", toString files)]

/-- The line of the event. -/
def line (e : LogEvent) : String :=
  String.intercalate " "
    (e.label :: e.message :: e.fields.map fun (name, value) => name ++ "=" ++ value)

/-- The event as an object of named texts. -/
def object (e : LogEvent) : String :=
  let members := ("level", e.label) :: ("message", e.message) :: e.fields
  "\x7b" ++ String.intercalate ","
    (members.map fun (name, value) => Text.jsonText name ++ ":" ++ Text.jsonText value) ++
    "\x7d"

end LogEvent

/-- A computation that reports events. -/
abbrev Traced (α : Type) := StateM (List LogEvent) α

/-- A computation that reports events and may fail. -/
abbrev Attempt (α : Type) := ExceptT Error (StateM (List LogEvent)) α

/-- Reports an event. -/
def report (e : LogEvent) : Traced Unit :=
  modify (· ++ [e])

/-- Fails. -/
def fail {α : Type} (kind : ErrorKind) : Attempt α :=
  throw { kind := kind }

/-- The answer of a computation, with what it reported. -/
def Attempt.outcome {α : Type} (a : Attempt α) : Except Error α × List LogEvent :=
  (ExceptT.run a).run []

end HandlerSplit
