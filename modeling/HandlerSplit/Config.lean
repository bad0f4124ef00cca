import HandlerSplit.Files.Tree
import HandlerSplit.Handler.Refactor
import HandlerSplit.Toml.Read
/-!
# Configuration

What a run works on and how. Every setting has a default, and a document may give any of
them. A configuration is valid if it names an input file and every type of its conventions is
one; `Config.load` answers valid configurations only.
-/

namespace HandlerSplit

/-! ## Settings of the conventions -/

/-- A setting of the conventions: its key, and how it is read and replaced. -/
structure ConventionSetting where
  key : String
  get : Conventions → String
  set : String → Conventions → Conventions

/-- The settings of the conventions in order. -/
def ConventionSetting.all : List ConventionSetting :=
  [⟨"context_type", (·.contextType), fun s c => { c with contextType := s }⟩,
    ⟨"resource_data_type", (·.resourceDataType), fun s c => { c with resourceDataType := s }⟩,
    ⟨"resource_map_type", (·.resourceMapType), fun s c => { c with resourceMapType := s }⟩,
    ⟨"version_type", (·.versionType), fun s c => { c with versionType := s }⟩,
    ⟨"client_type", (·.clientType), fun s c => { c with clientType := s }⟩,
    ⟨"schema_type", (·.schemaType), fun s c => { c with schemaType := s }⟩,
    ⟨"error_type", (·.errorType), fun s c => { c with errorType := s }⟩,
    ⟨"ctor_wrapper", (·.ctorWrapper), fun s c => { c with ctorWrapper := s }⟩,
    ⟨"receiver_name", (·.receiverName), fun s c => { c with receiverName := s }⟩,
    ⟨"data_param", (·.dataParam), fun s c => { c with dataParam := s }⟩,
    ⟨"resource_param", (·.resourceParam), fun s c => { c with resourceParam := s }⟩,
    ⟨"modified_param", (·.modifiedParam), fun s c => { c with modifiedParam := s }⟩,
    ⟨"version_param", (·.versionParam), fun s c => { c with versionParam := s }⟩,
    ⟨"client_param", (·.clientParam), fun s c => { c with clientParam := s }⟩,
    ⟨"legacy_version", (·.legacyVersion), fun s c => { c with legacyVersion := s }⟩,
    ⟨"diff_result", (·.diffResult), fun s c => { c with diffResult := s }⟩,
    ⟨"service_var", (·.serviceVar), fun s c => { c with serviceVar := s }⟩,
    ⟨"active_version", (·.activeVersion), fun s c => { c with activeVersion := s }⟩,
    ⟨"schema_field", (·.schemaField), fun s c => { c with schemaField := s }⟩,
    ⟨"key_field", (·.keyField), fun s c => { c with keyField := s }⟩]

namespace Conventions

/-- The conventions with one setting replaced. -/
def withSetting? (c : Conventions) : String × Toml.Value → Option Conventions
  | (key, .text s) => (ConventionSetting.all.find? (·.key == key)).map (·.set s c)
  | _ => none

/-- The conventions with settings replaced in order. -/
def withSettings? (c : Conventions) : List (ConventionSetting × Toml.Value) → Option Conventions
  | [] => some c
  | (setting, .text s) :: rest => (setting.set s c).withSettings? rest
  | _ :: _ => none

/-- The conventions written in a document: a table of settings, or an array of the first
settings in order. -/
def ofValue? : Toml.Value → Option Conventions
  | .table _ entries => entries.foldlM withSetting? {}
  | .array items => withSettings? {} (ConventionSetting.all.zip items)
  | _ => none

end Conventions

namespace AnchorPolicy

/-- How a policy is called. -/
def name : AnchorPolicy → String
  | lastContaining => "last_containing"
  | exact => "exact"

/-- The policy of a name. -/
def ofName? (name : String) : Option AnchorPolicy :=
  [lastContaining, exact].find? (·.name == name)

/-- The policy written in a document: its name, or a table whose one key is the name and
holds nothing. -/
def ofValue? : Toml.Value → Option AnchorPolicy
  | .text name => ofName? name
  | .table _ [(name, .table _ [])] => ofName? name
  | .table _ [(name, .array [])] => ofName? name
  | _ => none

end AnchorPolicy

/-! ## Configurations -/

/-- The handler files that are rewritten by default. -/
def defaultFiles : List String :=
  ["acl", "backend", "cachesetting", "condition", "dictionary", "director", "domain",
    "dynamicsnippet", "gzip", "header", "healthcheck", "requestsetting", "responseobject",
    "snippet", "vcl"].map fun service => "block_fastly_service_" ++ service ++ ".go"

/-- What a run works on and how. -/
structure Config where
  /-- The directory that the files are relative to. -/
  baseDir : String := "fastly"
  /-- The input files, in the order in which they are rewritten and printed. -/
  files : List String := defaultFiles
  policy : AnchorPolicy := .lastContaining
  /-- Every printed file is parsed again before it is accepted. -/
  verify : Bool := false
  conventions : Conventions := {}
  deriving DecidableEq, Repr

namespace Config

/-- The texts in a list of values that are all texts. -/
def texts? (values : List Toml.Value) : Option (List String) :=
  values.mapM fun v =>
    match v with
    | .text s => some s
    | _ => none

/-- The configuration with one setting replaced. -/
def withSetting? (c : Config) : String × Toml.Value → Option Config
  | ("base_dir", .text s) => some { c with baseDir := s }
  | ("files", .array items) => (texts? items).map fun files => { c with files := files }
  | ("anchor_policy", v) => (AnchorPolicy.ofValue? v).map fun p => { c with policy := p }
  | ("verify_output", .truth b) => some { c with verify := b }
  | ("conventions", v) => (Conventions.ofValue? v).map fun k => { c with conventions := k }
  | _ => none

/-- The configuration a document gives, if the document is well-formed and holds only
settings. -/
def ofDocument? (document : String) : Option Config := do
  let entries ← Toml.read document
  entries.foldlM withSetting? {}

/-- Checks that there is an input file and that every type is one. -/
def validate (c : Config) : Except ErrorKind Unit :=
  if c.files.isEmpty then .error (.config .noFiles) else c.conventions.validate

/-- The valid configuration a document gives. -/
def parse (document : String) : Except ErrorKind Config := do
  match ofDocument? document with
  | none => throw (.config .malformed)
  | some c =>
    c.validate
    return c

/-- The valid configuration the document at a path gives. -/
def load (files : Files) (path : String) : Except ErrorKind Config :=
  match files path with
  | .ok document => parse document
  | .error fault => .error (.config (.unreadable path fault))

/-- The paths of the input files. -/
def inputs (c : Config) : List String :=
  c.files.map (Files.join c.baseDir)

/-- How the configuration rewrites files. -/
def refactorer (c : Config) : Refactorer :=
  ⟨c.conventions, c.policy⟩

end Config

end HandlerSplit
