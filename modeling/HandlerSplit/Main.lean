import HandlerSplit.CommandLine
/-!
# The program

Reads the configuration and the input files that a command line asks for, runs the command on
them, and prints what it answers.
-/

namespace HandlerSplit.CommandLine

/-- Why the system could not read a file. -/
def readFault : IO.Error → ReadFault
  | .noFileOrDirectory _ _ _ => .missing
  | e => .other (toString e)

/-- The text of a file. -/
def readText (path : String) : IO (Except ReadFault String) := do
  try
    let bytes ← IO.FS.readBinFile path
    match String.fromUTF8? bytes with
    | some text => return .ok text
    | none => return .error .notText
  catch e => return .error (readFault e)

/-- The texts of files that have been read. -/
def readAll (paths : List String) : IO (List (String × Except ReadFault String)) :=
  paths.mapM fun path => return (path, ← readText path)

/-- The files that have been read, as a run sees them. -/
def filesOf (texts : List (String × Except ReadFault String)) : Files :=
  fun path => (texts.lookup path).getD (.error .missing)

/-- The paths a command may read once its configuration is known. -/
def inputsOf (files : Files) (arguments : List String) : List String :=
  match parse arguments with
  | .ok (.run options) =>
    match options.effective files with
    | .ok config => config.inputs
    | .error _ => []
  | _ => []

/-- The paths a command reads its configuration from. -/
def configPaths (arguments : List String) : List String :=
  match parse arguments with
  | .ok (.run options) => options.config.toList
  | _ => []

/-- Runs a command and prints what it answers; the result is the exit status. -/
def perform (arguments : List String) : IO UInt32 := do
  let configs ← readAll (configPaths arguments)
  let inputs ← readAll (inputsOf (filesOf configs) arguments)
  let (outcome, lines) := run (filesOf (configs ++ inputs)) arguments
  let stderr ← IO.getStderr
  for line in lines do
    stderr.putStrLn line
  stderr.putStr outcome.stderr
  (← IO.getStdout).putStr outcome.stdout
  return UInt32.ofNat outcome.exit

end HandlerSplit.CommandLine

/-- Runs the command given by the arguments. -/
def main (arguments : List String) : IO UInt32 :=
  HandlerSplit.CommandLine.perform arguments
