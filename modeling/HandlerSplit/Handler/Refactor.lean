import HandlerSplit.Handler.Anchor
import HandlerSplit.Handler.Crud
import HandlerSplit.Handler.Rebind
import HandlerSplit.Handler.Schema
/-!
# Rewriting a handler file

The anchors are resolved, the new methods are derived from `Process` and `Register`, `Read`
and the constructor are rewritten in place, and `Create`, `Update`, `Delete`, `Key` and
`GetSchema` are appended. What is derived is derived before anything is changed.
-/

namespace HandlerSplit

/-- What was changed in a file. -/
structure Report where
  handler : String
  /-- For each method, how its loop body was changed, if there was a loop. -/
  crud : List (Operation × Option BodyEdits)
  /-- Selectors of `Read` that became the version parameter. -/
  readSelectors : Nat
  /-- Returns of the constructor that were wrapped. -/
  ctorReturns : Nat
  /-- Names of the appended functions, in order. -/
  emitted : List String
  deriving DecidableEq, Repr

/-- The methods that were derived from a loop. -/
def Report.matched (r : Report) : List Operation :=
  (r.crud.filter fun (_, edits) => edits.isSome).map (·.1)

/-- How files are rewritten. -/
structure Refactorer where
  conventions : Conventions := {}
  policy : AnchorPolicy := .lastContaining
  deriving DecidableEq, Repr

/-- The function an anchor resolved to. -/
def DeclIndex.anchored (index : DeclIndex) (file : SourceFile) (a : Anchor) :
    Attempt FuncDecl :=
  match file.func? (index.position a) with
  | some f => pure f
  | none => fail (.notFound a.fragment)

/-- A computation that changes a file, reports, and may fail; the file is kept as it is at
the failure. -/
abbrev FileEdit (α : Type) := ExceptT Error (StateT SourceFile (StateM (List LogEvent))) α

namespace FileEdit

/-- A step that changes nothing. -/
def attempt {α : Type} (step : SourceFile → Attempt α) : FileEdit α :=
  fun file => do
    let answer ← (step file).run
    return (answer, file)

/-- A step that only reports. -/
def traced {α : Type} (step : Traced α) : FileEdit α :=
  attempt fun _ => (step : Attempt α)

/-- Changes the function at a position in place. -/
def editFunc {α : Type} (i : Nat) (edit : FuncDecl → Traced (Edited FuncDecl α))
    (missing : ErrorKind) : FileEdit α :=
  fun file => do
    match file.func? i with
    | none => return (.error { kind := missing }, file)
    | some f =>
      let edited ← edit f
      let answer := edited.result.mapError fun kind => ({ kind := kind } : Error)
      return (answer, file.setFunc i edited.subject)

/-- Appends a declaration. -/
def append (d : Decl) : FileEdit Unit :=
  fun file => return (.ok (), { file with decls := file.decls ++ [d] })

/-- The answer of an edit, the file afterwards, and what was reported. -/
def apply {α : Type} (edit : FileEdit α) (file : SourceFile) :
    Traced (Except Error α × SourceFile) :=
  (ExceptT.run edit).run file

end FileEdit

namespace Refactorer

variable (r : Refactorer)

/-- Appends the new methods and answers their names. -/
def appendMethods (handler : String) : List Decl → FileEdit (List String)
  | [] => return []
  | d :: ds =>
    match d.func? with
    | some f => do
      FileEdit.traced (report (.declEmitted handler f.name))
      FileEdit.append d
      return f.name :: (← appendMethods handler ds)
    | none => do
      FileEdit.append d
      appendMethods handler ds

/-- Applies every rewrite to a file whose anchors are resolved. -/
def transform (index : DeclIndex) : FileEdit Report := do
  let handler := index.handler
  let c := r.conventions
  let crud ← FileEdit.attempt fun file => do
    synthesizeCrud c handler (← index.anchored file .process)
  let getSchema ← FileEdit.attempt fun file => do
    synthesizeGetSchema c handler (← index.anchored file .register)
  let key ← FileEdit.traced (emitKey c handler)
  let readSelectors ← FileEdit.editFunc (index.position .read) (rewriteRead c)
    (.notFound Anchor.read.fragment)
  let ctorReturns ← FileEdit.editFunc (index.position .ctor)
    (fun f => do
      let (f, wrapped) ← wrapReturns c.ctorWrapper f
      return ⟨f, .ok wrapped⟩)
    (.notFound Anchor.ctor.fragment)
  let emitted ← appendMethods handler (crud.map (·.decl) ++ [key, getSchema])
  return {
    handler := handler
    crud := crud.map fun m => (m.operation, m.edits)
    readSelectors := readSelectors
    ctorReturns := ctorReturns
    emitted := emitted }

/-- Resolves the anchors of a file and applies every rewrite. -/
def refactor : FileEdit Report := do
  let index ← FileEdit.attempt (DeclIndex.build r.policy)
  r.transform index

end Refactorer

end HandlerSplit
