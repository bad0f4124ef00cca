import HandlerSplit.Text.Quoted
import HandlerSplit.Tree
/-!
# Building trees

The undecorated nodes that rewritten declarations are made of.
-/

namespace HandlerSplit

/-- An element without layout. -/
def Element.plain (x : Expr) : Element :=
  ⟨x, .plain⟩

/-- A statement without layout. -/
def Stmt.plain (kind : StmtKind) : Stmt :=
  ⟨kind, .plain⟩

namespace Expr

/-- A call on one line. -/
def callOf (fn : Expr) (args : List Expr) : Expr :=
  .call fn (args.map Element.plain) false .plain

/-- The interpreted string literal of a text. -/
def stringOf (text : String) : Expr :=
  .literal .string (Text.quoted text)

end Expr

namespace Stmt

/-- `return` with the given values. -/
def returning (values : List Expr) : Stmt :=
  .plain (.returns values)

/-- `return nil` -/
def returnNil : Stmt :=
  returning [.ident "nil"]

end Stmt

/-- A field without tag or layout. -/
def Field.of (names : List String) (type : Expr) : Field :=
  ⟨names, type, none, .plain⟩

/-- A field list on one line. -/
def FieldList.of (fields : List Field) : FieldList :=
  ⟨fields, .plain⟩

/-- A block whose closing brace has its own line. -/
def Block.of (stmts : List Stmt) : Block :=
  ⟨stmts, .multiLine, false⟩

/-- A function declared after an empty line. -/
def Decl.appended (f : FuncDecl) : Decl :=
  ⟨.func f, .blankLine⟩

end HandlerSplit
