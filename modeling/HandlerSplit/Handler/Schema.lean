import HandlerSplit.Handler.Conventions
/-!
# `GetSchema` and `Key`

`GetSchema` holds the statements of `Register` up to its first assignment into the schema
map, and returns the value assigned there. `Key` returns a field of the handler.
-/

namespace HandlerSplit

/-- The value of an assignment `s.Schema[...] = value`. Only the map is looked at; the key
may be any expression. -/
def schemaValue? (c : Conventions) (s : Stmt) : Option Expr :=
  match s.kind with
  | .assign [.index map _] .assign [value] =>
    if map.isSelectorOf c.serviceVar c.schemaField then some value else none
  | _ => none

/-- The statements before the first schema assignment and a return of its value, if there is
such an assignment. -/
def schemaBody? (c : Conventions) : List Stmt → Option (List Stmt)
  | [] => none
  | s :: ss =>
    match schemaValue? c s with
    | some value => some [{ Stmt.returning [value] with decs := s.decs }]
    | none => (schemaBody? c ss).map (s :: ·)

/-- The method `GetSchema`. -/
def synthesizeGetSchema (c : Conventions) (handler : String) (register : FuncDecl) :
    Attempt Decl := do
  match schemaBody? c register.stmts with
  | none => fail (.schemaAssignmentNotFound handler)
  | some stmts =>
    report (.schemaDerived (stmts.length - 1))
    let results ← Attempt.ofExcept (Conventions.result c.schemaType)
    return .appended
      { recv := some (c.receiver handler)
        name := "GetSchema"
        signature := ⟨.of [], some results⟩
        body := some (.of stmts) }

/-- The method `Key`. -/
def emitKey (c : Conventions) (handler : String) : Traced Decl := do
  report (.keyEmitted handler)
  return .appended
    { recv := some (c.receiver handler)
      name := "Key"
      signature := ⟨.of [], some (.of [.of [] (.ident "string")])⟩
      body := some (.of [.returning [.selector (.ident c.receiverName) c.keyField]]) }

end HandlerSplit
