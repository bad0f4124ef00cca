/-!
# Help and version

What the program says about itself. Brief help has one line for each argument; full help says
more about the program and gives every description a line of its own.
-/

namespace HandlerSplit.CommandLine

/-- How much help is asked for. -/
inductive HelpKind where
  | brief | full
  deriving DecidableEq, Repr

/-- What the help says about an argument. -/
structure HelpEntry where
  /-- How the argument is written. -/
  form : String
  /-- What it is for. -/
  purpose : String
  deriving DecidableEq, Repr

namespace HelpEntry

/-- The entry on one line, with its purpose behind forms of the given width. -/
def briefText (width : Nat) (e : HelpEntry) : String :=
  "  " ++ e.form ++ String.ofList (List.replicate (width - e.form.length + 2) ' ') ++ e.purpose ++
    "\n"

/-- The entry with its purpose on a line of its own. -/
def fullText (e : HelpEntry) : String :=
  "  " ++ e.form ++ "\n          " ++ e.purpose ++ "\n"

end HelpEntry

/-- Entries with their purposes in one column, or with empty lines between them. -/
def entriesText (kind : HelpKind) (entries : List HelpEntry) : String :=
  match kind with
  | .brief =>
    let width := (entries.map (·.form.length)).foldl max 0
    String.join (entries.map (·.briefText width))
  | .full => String.intercalate "\n" (entries.map (·.fullText))

/-- What the help says about the arguments that are no options. -/
def fileEntries : List HelpEntry :=
  [⟨"[FILE]...", "Input files; replace the configured list"⟩]

/-- Where the help of one kind points to the other. -/
def otherHelp : HelpKind → String
  | .brief => "see more with '--help'"
  | .full => "see a summary with '-h'"

/-- What the help says about the options. -/
def optionEntries (kind : HelpKind) : List HelpEntry :=
  [⟨"    --config <PATH>", "TOML configuration file"⟩,
    ⟨"    --base-dir <DIR>", "Directory the input files are resolved against"⟩,
    ⟨"    --exact-anchors", "Match anchors by exact name instead of by substring"⟩,
    ⟨"    --verify", "Re-parse every rewritten file before printing it"⟩,
    ⟨"    --log-level <FILTER>",
      "Log filter directive, e.g. `debug` or `attrsplit_engine=trace`"⟩,
    ⟨"    --json-logs", "Emit logs as JSON"⟩,
    ⟨"-h, --help", "Print help (" ++ otherHelp kind ++ ")"⟩,
    ⟨"-V, --version", "Print version"⟩]

/-- What the program does. -/
def purposeText : HelpKind → String
  | .brief => "Splits service attribute handlers into CRUD interface implementations\n"
  | .full =>
    "Splits service attribute handlers into CRUD interface implementations.\n\n" ++
      "Rewritten sources are printed to standard output in input order; logs go to standard " ++
      "error.\n"

/-- How the program is used. -/
def helpText (kind : HelpKind) : String :=
  purposeText kind ++ "\nUsage: attrsplit [OPTIONS] [FILE]...\n\nArguments:\n" ++
    entriesText kind fileEntries ++ "\nOptions:\n" ++ entriesText kind (optionEntries kind)

/-- The version of the program. -/
def versionText : String :=
  "attrsplit 0.1.0\n"

end HandlerSplit.CommandLine
