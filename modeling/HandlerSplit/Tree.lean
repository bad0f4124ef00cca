import HandlerSplit.Decoration
import HandlerSplit.Token
/-!
# The decorated tree

The syntax tree of a Go source file. Types and expressions share one sort, since a type may
stand wherever a call argument may. The tree keeps enough of the layout (comments, empty
lines, line breaks inside bracketed lists) to be printed again the way it was written.
-/

namespace HandlerSplit

/-- Channel directions. -/
inductive ChanDir where
  /-- `chan T` -/
  | both
  /-- `chan<- T` -/
  | send
  /-- `<-chan T` -/
  | recv
  deriving DecidableEq, Repr

/-- Keywords of branch statements. -/
inductive BranchKind where
  | «break» | «continue» | goto | fallthrough
  deriving DecidableEq, Repr

/-- The reserved word of a branch statement. -/
def BranchKind.keyword : BranchKind → Keyword
  | .break => .break
  | .continue => .continue
  | .goto => .goto
  | .fallthrough => .fallthrough

/-- Keywords of the declarations that may be grouped. -/
inductive GenKeyword where
  | «import» | const | var | type
  deriving DecidableEq, Repr

/-- The reserved word of a declaration. -/
def GenKeyword.keyword : GenKeyword → Keyword
  | .import => .import
  | .const => .const
  | .var => .var
  | .type => .type

mutual

/-- Expressions and types. -/
inductive Expr where
  | ident (name : String)
  /-- A literal, as written. -/
  | literal (kind : LitKind) (text : String)
  /-- `T{...}`; the type is left out inside another literal. -/
  | composite (type : Option Expr) (elements : List Element) (braces : Enclosure)
  | funcLit (signature : Signature) (body : Block)
  | paren (x : Expr)
  | selector (x : Expr) (name : String)
  | index (x : Expr) (key : Expr)
  | slice (x : Expr) (low high max : Option Expr)
  /-- `x.(T)`, or `x.(type)` without a type. -/
  | typeAssert (x : Expr) (type : Option Expr)
  /-- A call, variadic when its last argument is followed by `...`. -/
  | call (fn : Expr) (args : List Element) (variadic : Bool) (parens : Enclosure)
  /-- `*x`, a dereference or a pointer type. -/
  | star (x : Expr)
  | unary (op : UnaryOp) (x : Expr)
  /-- A binary expression; `lineBreak` when the source broke the line after the operator. -/
  | binary (x : Expr) (op : BinaryOp) (y : Expr) (lineBreak : Bool)
  /-- `key: value` inside a composite literal. -/
  | keyValue (key value : Expr)
  /-- `[n]T`, `[]T` without a length, or `[...]T`. -/
  | arrayType (len : Option Expr) (elem : Expr)
  | mapType (key value : Expr)
  | chanType (dir : ChanDir) (elem : Expr)
  | funcType (signature : Signature)
  | structType (fields : FieldList)
  | interfaceType (fields : FieldList)
  /-- `...T` in a parameter list, or `...` as an array length. -/
  | ellipsis (elem : Option Expr)

/-- An element of an argument list or composite literal. -/
structure Element where
  expr : Expr
  decs : Decorations

/-- A parameter, result, struct field or interface method. The names share the type; an
anonymous or embedded field has none. -/
structure Field where
  names : List String
  type : Expr
  /-- The literal that tags a struct field. -/
  tag : Option String
  decs : Decorations

/-- A bracketed list of fields. -/
structure FieldList where
  fields : List Field
  enclosure : Enclosure

/-- Parameters and results of a function. -/
structure Signature where
  params : FieldList
  results : Option FieldList

/-- A braced list of statements; `oneLine` when the source wrote it on one line. -/
structure Block where
  stmts : List Stmt
  enclosure : Enclosure
  oneLine : Bool

/-- A statement with its layout. -/
structure Stmt where
  kind : StmtKind
  decs : Decorations

/-- Statements. -/
inductive StmtKind where
  | expr (x : Expr)
  | assign (lhs : List Expr) (op : AssignOp) (rhs : List Expr)
  /-- `x++`, or `x--` when not `up`. -/
  | incDec (x : Expr) (up : Bool)
  | send (chan value : Expr)
  | decl (d : GenDecl)
  | returns (values : List Expr)
  | branch (kind : BranchKind) (label : Option String)
  | block (body : Block)
  | ifThen (init : Option Stmt) (cond : Expr) (body : Block) (otherwise : Else)
  | forLoop (init : Option Stmt) (cond : Option Expr) (post : Option Stmt) (body : Block)
  /-- `for key, value := range x`, with `=` when not `define`. -/
  | rangeLoop (key value : Option Expr) (define : Bool) (x : Expr) (body : Block)
  | switch (init : Option Stmt) (tag : Option Expr) (clauses : List Clause) (braces : Enclosure)
  /-- A switch on `x := y.(type)` or `y.(type)`. -/
  | typeSwitch (init : Option Stmt) (guard : Stmt) (clauses : List Clause) (braces : Enclosure)
  | select (clauses : List Clause) (braces : Enclosure)
  | go (call : Expr)
  | defer (call : Expr)
  | labeled (label : String) (stmt : Stmt)
  | empty

/-- What follows `else`. -/
inductive Else where
  | none
  | elseIf (init : Option Stmt) (cond : Expr) (body : Block) (otherwise : Else)
  | block (body : Block)

/-- A clause of a switch or select statement. -/
structure Clause where
  head : ClauseHead
  body : List Stmt
  decs : Decorations

/-- What a clause is chosen by. -/
inductive ClauseHead where
  | default
  | values (xs : List Expr)
  /-- The send or receive of a select clause. -/
  | comm (stmt : Stmt)

/-- An import, constant, variable or type declaration. Only a parenthesized group has an
enclosure. -/
structure GenDecl where
  keyword : GenKeyword
  specs : List Spec
  group : Option Enclosure

/-- One entry of such a declaration. -/
structure Spec where
  kind : SpecKind
  decs : Decorations

/-- Entries of declarations. -/
inductive SpecKind where
  /-- An import path, quoted, with an optional name (`_`, `.` or an identifier). -/
  | importPath (name : Option String) (path : String)
  | value (names : List String) (type : Option Expr) (values : List Expr)
  | type (name : String) (isAlias : Bool) (type : Expr)

end

/-- A function or method declaration. -/
structure FuncDecl where
  /-- The receiver of a method. -/
  recv : Option FieldList
  name : String
  signature : Signature
  /-- Absent when the function is defined elsewhere. -/
  body : Option Block

/-- Top-level declarations. -/
inductive DeclKind where
  | func (f : FuncDecl)
  | gen (d : GenDecl)

/-- A top-level declaration with its layout. -/
structure Decl where
  kind : DeclKind
  decs : Decorations

/-- A source file. -/
structure SourceFile where
  package : String
  /-- The layout of the package clause, with the comment that documents the file. -/
  packageDecs : Decorations
  decls : List Decl
  /-- Comments after the last declaration. -/
  trailingComments : List Comment

/-! ## Small accessors -/

namespace Expr

/-- The name, if the expression is an identifier. -/
def ident? : Expr → Option String
  | ident name => some name
  | _ => none

/-- Whether the expression is the identifier `name`. -/
def isIdent (x : Expr) (name : String) : Bool :=
  x.ident? == some name

/-- Base and name, if the expression is a selector. -/
def selector? : Expr → Option (Expr × String)
  | selector x name => some (x, name)
  | _ => none

/-- Whether the expression is `base.name` on the identifier `base`. -/
def isSelectorOf (x : Expr) (base name : String) : Bool :=
  match x.selector? with
  | some (y, n) => n == name && y.isIdent base
  | none => false

/-- The expression without the parentheses around it. -/
def unparen : Expr → Expr
  | paren x => x.unparen
  | x => x
termination_by structural x => x

end Expr

/-- The function, if the declaration is one. -/
def Decl.func? (d : Decl) : Option FuncDecl :=
  match d.kind with
  | .func f => some f
  | .gen _ => none

namespace FuncDecl

/-- The type of the receiver, if the function is a method. -/
def receiverType (f : FuncDecl) : Option Expr :=
  match f.recv with
  | some ⟨field :: _, _⟩ => some field.type
  | _ => none

/-- The statements of the body, none when there is no body. -/
def stmts (f : FuncDecl) : List Stmt :=
  match f.body with
  | some body => body.stmts
  | none => []

end FuncDecl

namespace SourceFile

/-- The function declarations with their positions. -/
def funcs (file : SourceFile) : List (Nat × FuncDecl) :=
  file.decls.zipIdx.filterMap fun (d, i) => d.func?.map (i, ·)

/-- The function declared at a position, if there is one. -/
def func? (file : SourceFile) (i : Nat) : Option FuncDecl :=
  file.decls[i]?.bind Decl.func?

/-- The file with the function at a position changed; other declarations stay. -/
def setFunc (file : SourceFile) (i : Nat) (f : FuncDecl) : SourceFile :=
  { file with decls := file.decls.modify i fun d => { d with kind := .func f } }

end SourceFile

end HandlerSplit
