import HandlerSplit.Handler.Conventions
import HandlerSplit.Tree.Events
import HandlerSplit.Tree.Rewrite
/-!
# Splitting `Process`

`Process` ranges over the buckets of a set difference, one loop for each. The body of a loop
becomes the body of one method, made to fit the signature of a single item: its first
statement, which casts the loop variable, is dropped, top-level assignments of the changed
fields are removed, the service version is renamed, and `return nil` is appended.
-/

namespace HandlerSplit

/-- The methods split off `Process`. -/
inductive Operation where
  | create | update | delete
  deriving DecidableEq, Repr

namespace Operation

/-- All methods, in the order in which they are written. -/
def all : List Operation :=
  [create, update, delete]

/-- The bucket of the set difference a method is derived from. -/
def bucket : Operation → String
  | create => "Added"
  | update => "Modified"
  | delete => "Deleted"

/-- The name of the method. -/
def method : Operation → String
  | create => "Create"
  | update => "Update"
  | delete => "Delete"

/-- The method that is derived from a bucket, if there is one. -/
def ofBucket? (bucket : String) : Option Operation :=
  all.find? (·.bucket == bucket)

/-- How the method names the parameter with the resource. -/
def mapParam : Operation → MapParam
  | update => .resourceAndModified
  | create => .resource
  | delete => .resource

end Operation

/-! ## Loops over buckets -/

/-- Bucket and body of a loop over the set difference. -/
def bucketLoop? (diffResult : String) (s : Stmt) : Option (String × Block) :=
  match s.kind with
  | .rangeLoop _ _ _ x body =>
    match x.unparen.selector? with
    | some (base, bucket) => if base.isIdent diffResult then some (bucket, body) else none
    | none => none
  | _ => none

/-- The loops over the set difference in a block, at any depth, in order. -/
def bucketLoops (diffResult : String) (body : Block) : List (String × Block) :=
  (Event.stmts body.events).filterMap (bucketLoop? diffResult)

/-- The loop body found for each method. -/
structure Buckets where
  create : Option Block := none
  update : Option Block := none
  delete : Option Block := none

namespace Buckets

/-- The loop body found for a method. -/
def get (b : Buckets) : Operation → Option Block
  | .create => b.create
  | .update => b.update
  | .delete => b.delete

/-- Remembers the loop body for a method. -/
def set (b : Buckets) (op : Operation) (body : Block) : Buckets :=
  match op with
  | .create => { b with create := some body }
  | .update => { b with update := some body }
  | .delete => { b with delete := some body }

/-- Goes through the loops in order; of several over one bucket the last is used. -/
def collect (b : Buckets) : List (String × Block) → Traced Buckets
  | [] => return b
  | (bucket, body) :: loops => do
    match Operation.ofBucket? bucket with
    | none =>
      report (.bucketUnknown bucket)
      b.collect loops
    | some op =>
      if (b.get op).isSome then report (.bucketRepeated bucket)
      report (.bucketMatched bucket op.method)
      (b.set op body).collect loops

end Buckets

/-! ## Bodies -/

/-- How a loop body was changed. -/
structure BodyEdits where
  removedAssignments : Nat
  renamed : Nat
  deriving DecidableEq, Repr

/-- Whether a statement assigns to the name alone. -/
def Stmt.assignsTo (s : Stmt) (name : String) : Bool :=
  match s.kind with
  | .assign [x] _ _ => x.isIdent name
  | _ => false

/-- A node at the start of a list has no empty line before it. -/
def Decorations.atStart (d : Decorations) : Decorations :=
  { d with
    blankBefore := false
    leading :=
      match d.leading with
      | c :: cs => { c with blankBefore := false } :: cs
      | [] => [] }

/-- Statements whose first one has no empty line before it. -/
def clearStart : List Stmt → List Stmt
  | s :: ss => { s with decs := s.decs.atStart } :: ss
  | [] => []

/-- The body of a method from the body of a loop. -/
def deriveBody (c : Conventions) (loop : Block) : Block × BodyEdits :=
  let stmts := clearStart (loop.stmts.drop 1)
  let kept := stmts.filter fun s => !s.assignsTo c.modifiedParam
  let body : Block := ⟨kept, { loop.enclosure with closeNewline := true }, false⟩
  let (body, renamed) := body.rename c.legacyVersion c.versionParam
  ({ body with stmts := body.stmts ++ [.returnNil] },
    ⟨stmts.length - kept.length, renamed⟩)

/-! ## Methods -/

/-- A method split off `Process`. -/
structure CrudMethod where
  operation : Operation
  decl : Decl
  /-- How the loop body was changed, if there was a loop. -/
  edits : Option BodyEdits

/-- The body of a method: `return nil` if there was no loop. -/
def methodBody (c : Conventions) (op : Operation) : Option Block →
    Traced (Block × Option BodyEdits)
  | some loop =>
    let (body, edits) := deriveBody c loop
    return (body, some edits)
  | none => do
    report (.bucketAbsent op.bucket op.method)
    return (.of [.returnNil], none)

/-- A method, given the loop body found for it. -/
def crudMethod (c : Conventions) (handler : String) (op : Operation) (loop : Option Block) :
    Attempt CrudMethod := do
  let (body, edits) ← methodBody c op loop
  let params ← Attempt.ofExcept (c.handlerParams op.mapParam)
  let results ← Attempt.ofExcept (Conventions.result c.errorType)
  let f : FuncDecl :=
    { recv := some (c.receiver handler)
      name := op.method
      signature := ⟨params, some results⟩
      body := some body }
  return ⟨op, .appended f, edits⟩

/-- The methods `Create`, `Update` and `Delete`. -/
def synthesizeCrud (c : Conventions) (handler : String) (process : FuncDecl) :
    Attempt (List CrudMethod) := do
  let loops := (process.body.map (bucketLoops c.diffResult)).getD []
  let buckets ← Buckets.collect {} loops
  let create ← crudMethod c handler .create buckets.create
  let update ← crudMethod c handler .update buckets.update
  let delete ← crudMethod c handler .delete buckets.delete
  return [create, update, delete]

end HandlerSplit
