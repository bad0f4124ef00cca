import HandlerSplit.Trace
import HandlerSplit.Tree.Build
/-!
# Conventions of handler sources

The names a rewrite recognizes and the names and types it writes. A provider that names its
packages differently needs only other conventions.
-/

namespace HandlerSplit

/-- Names and types of handler sources. -/
structure Conventions where
  /-- Type of the first parameter, which is not used. -/
  contextType : String := "context.Context"
  /-- Type of the resource data. -/
  resourceDataType : String := "*schema.ResourceData"
  /-- Type of the resource and of the changed fields. -/
  resourceMapType : String := "map[string]interface\x7b\x7d"
  /-- Type of the service version. -/
  versionType : String := "int"
  /-- Type of the client. -/
  clientType : String := "*gofastly.Client"
  /-- Result type of `GetSchema`. -/
  schemaType : String := "*schema.Schema"
  /-- Result type of the methods split off `Process`. -/
  errorType : String := "error"
  /-- Function around the values a constructor returns. -/
  ctorWrapper : String := "BlockSetToServiceAttributeDefinition"
  /-- Receiver of the methods that are written. -/
  receiverName : String := "h"
  /-- Parameter with the resource data. -/
  dataParam : String := "d"
  /-- Parameter with the resource. -/
  resourceParam : String := "resource"
  /-- Parameter of `Update` with the changed fields, assigned in `Process`. -/
  modifiedParam : String := "modified"
  /-- Parameter with the service version. -/
  versionParam : String := "serviceVersion"
  /-- Parameter with the client. -/
  clientParam : String := "conn"
  /-- What `Process` calls the service version. -/
  legacyVersion : String := "latestVersion"
  /-- Variable of `Process` that holds the set difference. -/
  diffResult : String := "diffResult"
  /-- What `Read` and `Register` call the service. -/
  serviceVar : String := "s"
  /-- The field of the service that `Read` may select from. -/
  activeVersion : String := "ActiveVersion"
  /-- The field of the service that holds the schemas. -/
  schemaField : String := "Schema"
  /-- The field of the handler that `Key` returns. -/
  keyField : String := "key"
  deriving DecidableEq, Repr

/-- How the parameter with the resource is named. -/
inductive MapParam where
  | resource
  /-- Resource and changed fields, which share their type. -/
  | resourceAndModified
  | blank
  deriving DecidableEq, Repr

namespace Conventions

/-- A type written in the conventions. -/
def typeExpr (text : String) : Except ErrorKind Expr :=
  match parseType text with
  | .ok type => .ok type
  | .error e => .error (.config (.invalidType text e.toFault))

/-- The types of the conventions, in the order in which they are checked. -/
def types (c : Conventions) : List String :=
  [c.contextType, c.resourceDataType, c.resourceMapType, c.versionType, c.clientType,
    c.schemaType, c.errorType]

/-- Checks that every type is one. -/
def validate (c : Conventions) : Except ErrorKind Unit := do
  for text in c.types do
    let _ ← typeExpr text

/-- The names of the parameter with the resource. -/
def mapNames (c : Conventions) : MapParam → List String
  | .resource => [c.resourceParam]
  | .resourceAndModified => [c.resourceParam, c.modifiedParam]
  | .blank => ["_"]

/-- The parameters of the methods split off `Process`, and of `Read`. -/
def handlerParams (c : Conventions) (map : MapParam) : Except ErrorKind FieldList := do
  let context ← typeExpr c.contextType
  let data ← typeExpr c.resourceDataType
  let resource ← typeExpr c.resourceMapType
  let version ← typeExpr c.versionType
  let client ← typeExpr c.clientType
  return .of
    [.of ["_"] context, .of [c.dataParam] data, .of (c.mapNames map) resource,
      .of [c.versionParam] version, .of [c.clientParam] client]

/-- A single result of the given type. -/
def result (text : String) : Except ErrorKind FieldList := do
  return .of [.of [] (← typeExpr text)]

/-- The receiver `(h *H)`. -/
def receiver (c : Conventions) (handler : String) : FieldList :=
  .of [.of [c.receiverName] (.star (.ident handler))]

end Conventions

/-- The value of a step that may fail, in a computation that reports. -/
def Attempt.ofExcept {α : Type} : Except ErrorKind α → Attempt α
  | .ok a => pure a
  | .error kind => fail kind

end HandlerSplit
