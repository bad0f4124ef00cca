import HandlerSplit.Print.Brackets
import HandlerSplit.Print.Spacing
/-!
# Assembling statements and declarations

A node is printed from the printed forms of its parts. This module holds those forms and the
rules that put them together; the recursion over the tree is in `HandlerSplit.Print.Tree`.
-/

namespace HandlerSplit.Print

open Output (commaSeparated joined names)

/-- A reserved word. -/
def keywordPiece (word : Keyword) : Piece :=
  .word word.spelling

/-- Two outputs, with a space between them if the second is there. -/
def spaced (a : Output) : Option Output → Output
  | some b => a ++ .space :: b
  | none => a

/-! ## Fields -/

/-- The printed form of a field. -/
structure FieldText where
  names : List String
  type : Output
  /-- The signature, when the type is a function type. -/
  signature : Option Output
  tag : Option String
  decs : Decorations

namespace FieldText

/-- The field on one line: names, type, tag. -/
def output (f : FieldText) : Output :=
  let named := if f.names.isEmpty then f.type else Output.names f.names ++ .space :: f.type
  spaced named (f.tag.map fun tag => [.word tag])

/-- The field as a member of a struct or interface. The method of an interface is its name
with its signature. -/
def member (f : FieldText) (isStruct : Bool) : Output :=
  match isStruct, f.signature, f.names with
  | false, some signature, [name] => .word name :: signature
  | _, _, _ => f.output

/-- The cells of a struct field: names, type, tag, comment. An embedded field leaves out the
names, and empty cells bring the comment of a field without tag to its column. -/
def structCells (f : FieldText) : List Output :=
  let named := !f.names.isEmpty
  let start : List Output := if named then [Output.names f.names, f.type] else [f.type]
  let tag : List Output :=
    match f.tag with
    | some tag => if named then [[.word tag]] else [[], [.word tag]]
    | none => []
  let comment : List Output :=
    match f.decs.trailing with
    | some c => (if f.tag.isNone && !named then [[]] else []) ++ [[.word c.text]]
    | none => []
  start ++ tag ++ comment

end FieldText

/-- Whether the results of a function are printed as a lone type without parentheses. -/
def isLoneResult (results : FieldList) : Bool :=
  match results.fields with
  | [field] => field.names.isEmpty && !field.decs.hasComments && !results.enclosure.hasComments
  | _ => false

/-- A parenthesized parameter list. -/
def paramsOutput (style : Style) (enclosure : Enclosure) (indent : Nat)
    (fields : List FieldText) : Output :=
  bracketed style "(" ")" (fields.map (·.decs)) enclosure indent false
    (fields.map fun f => .plain f.output)

/-- Whether a struct or interface stays on one line: it was written so and has at most one
member. -/
def isOneLineFields (list : FieldList) : Bool :=
  !list.enclosure.closeNewline && !list.enclosure.hasComments &&
    list.fields.all (fun f => !f.decs.breaksLine && !f.decs.hasComments) &&
    list.fields.length ≤ 1

/-- The lines of the members of a struct or interface. -/
def memberLines (isStruct : Bool) (indent : Nat) : Bool → List FieldText → List Line
  | _, [] => []
  | first, f :: fs =>
    let cells :=
      if isStruct then f.structCells else withComment (f.member false) f.decs.trailing
    leadingLines indent f.decs first ++ Line.ofCells indent cells ::
      memberLines isStruct indent false fs

/-- A struct or interface type. -/
def fieldBlock (style : Style) (isStruct : Bool) (list : FieldList) (indent : Nat)
    (fields : List FieldText) : Output :=
  let keyword : Keyword := if isStruct then .struct else .interface
  if isOneLineFields list then
    match fields with
    | [f] =>
      [keywordPiece keyword, .word "\x7b", .space] ++ f.member isStruct ++
        [.space, .word "\x7d"]
    | _ => [keywordPiece keyword, .word "\x7b", .word "\x7d"]
  else
    let inner := indent + 1
    let lines := memberLines isStruct inner true fields ++
      commentLines inner fields.isEmpty list.enclosure.closeComments
    [keywordPiece keyword, .space] ++ braced style "\x7b" "\x7d" list.enclosure indent lines

/-! ## Statements -/

/-- The printed form of a statement. On lines of its own it consists of `lead` and of a last
line `own`, behind which its comment stands; labels make up the lead. -/
structure StmtText where
  /-- The statement inside a line. -/
  text : Output
  lead : List Line
  own : Output
  ownIndent : Nat
  /-- The comment behind the labeled statement, used when the label has none. -/
  innerTrailing : Option Comment
  isEmpty : Bool
  decs : Decorations

namespace StmtText

/-- A statement that is the same inside a line and on its own. -/
def plain (indent : Nat) (text : Output) (decs : Decorations) : StmtText :=
  ⟨text, [], text, indent, none, false, decs⟩

/-- The empty statement. -/
def empty (indent : Nat) (decs : Decorations) : StmtText :=
  { plain indent [] decs with isEmpty := true }

/-- A labeled statement. The label stands one level to the left on a line of its own. -/
def labeled (indent : Nat) (label : String) (inner : StmtText) (decs : Decorations) :
    StmtText :=
  let head : Output := [.word label, .word ":"]
  if inner.isEmpty then
    { plain indent head decs with ownIndent := indent - 1 }
  else
    { text := head ++ [.newline, .tabs indent] ++ inner.text
      lead := Line.ofText (indent - 1) head :: commentLines indent true inner.decs.leading ++
        inner.lead
      own := inner.own
      ownIndent := inner.ownIndent
      innerTrailing := inner.decs.trailing.or inner.innerTrailing
      isEmpty := false
      decs := decs }

/-- The lines of a statement. -/
def lines (s : StmtText) : List Line :=
  s.lead ++
    [Line.ofCells s.ownIndent (withComment s.own (s.decs.trailing.or s.innerTrailing))]

end StmtText

/-- The lines of a list of statements. Empty statements without comments are left out. -/
def stmtLines (indent : Nat) : Bool → List StmtText → List Line
  | _, [] => []
  | first, s :: ss =>
    if s.isEmpty && !s.decs.hasComments then stmtLines indent first ss
    else leadingLines indent s.decs first ++ s.lines ++ stmtLines indent false ss

/-- A block, from the printed forms of its statements one level deeper. -/
def blockOutput (style : Style) (block : Block) (indent : Nat) (stmts : List StmtText) :
    Output :=
  let inner := indent + 1
  let lines := stmtLines inner true stmts
  braced style "\x7b" "\x7d" block.enclosure indent
    (lines ++ commentLines inner (!lines.any Line.isRow) block.enclosure.closeComments)

/-- The width that a header takes beside a function body. -/
def headerWidth (header : Output) : Nat :=
  if header.isMultiline then multilineWidth else header.width

/-- Whether a function body is kept on one line: the source wrote it so, it holds no
comments and few statements, and it fits beside its header. -/
def fitsOneLine (style : Style) (block : Block) (header : Output) (stmts : List StmtText) :
    Bool :=
  block.oneLine && !block.enclosure.hasComments &&
    stmts.all (fun s => !s.decs.hasComments) && stmts.length ≤ oneLineStatements &&
    stmts.all (fun s => !s.text.isMultiline) &&
    stmts.foldr (fun s w => s.text.width + w) 0 + headerWidth header + 2 * (stmts.length - 1)
      ≤ style.oneLineLimit

/-- The body of a function whose header is given. -/
def bodyOutput (style : Style) (block : Block) (indent : Nat) (header : Output)
    (stmts : List StmtText) : Output :=
  if fitsOneLine style block header stmts then
    if stmts.isEmpty then [.word "\x7b", .word "\x7d"]
    else
      [.word "\x7b", .space] ++ joined [.word ";", .space] (stmts.map (·.text)) ++
        [.space, .word "\x7d"]
  else blockOutput style block indent stmts

/-! ## Clauses and headers -/

/-- The printed form of a clause. -/
structure ClauseText where
  head : Output
  body : List StmtText
  decs : Decorations

/-- The lines of the clauses of a switch or select statement. -/
def clauseLines (indent : Nat) : Bool → List ClauseText → List Line
  | _, [] => []
  | first, c :: cs =>
    leadingLines indent c.decs first ++
      Line.ofCells indent (withComment c.head c.decs.trailing) ::
        stmtLines (indent + 1) true c.body ++ clauseLines indent false cs

/-- The clauses of a switch or select statement in their braces. -/
def clausesOutput (style : Style) (braces : Enclosure) (indent : Nat)
    (clauses : List ClauseText) : Output :=
  braced style "\x7b" "\x7d" braces indent
    (clauseLines indent true clauses ++
      commentLines (indent + 1) clauses.isEmpty braces.closeComments)

/-- What stands between a control keyword and its opening brace, with the spaces around it.
Only a loop has a third clause. -/
def headerOutput (isLoop : Bool) (init cond post : Option Output) : Output :=
  match init, post, cond with
  | none, none, none => [.space]
  | none, none, some cond => .space :: cond ++ [.space]
  | _, _, _ =>
    let start : Output := .space :: init.getD [] ++ [.word ";", .space]
    let middle : Output := cond.getD []
    if isLoop then
      start ++ middle ++ [.word ";", .space] ++
        (post.map fun p => p ++ [.space]).getD []
    else start ++ (cond.map fun c => c ++ [.space]).getD []

/-! ## Declarations -/

/-- The printed form of an entry of a declaration. -/
inductive SpecForm where
  | importPath (name : Option String) (path : String)
  | value (names : List String) (type values : Option Output)
  | type (name : String) (isAlias : Bool) (type : Output)

/-- An entry with its layout. -/
structure SpecText where
  form : SpecForm
  decs : Decorations

namespace SpecForm

/-- Whether the entry has values. -/
def hasValues : SpecForm → Bool
  | value _ _ values => values.isSome
  | _ => false

/-- Whether the entry is a value with a type. -/
def hasType : SpecForm → Bool
  | value _ ty _ => ty.isSome
  | _ => false

/-- The values of an entry with the sign before them. -/
def valuesCell (values : Output) : Output :=
  [.word "=", .space] ++ values

/-- The type of a type declaration, with the sign of an alias before it. -/
def typeCell (isAlias : Bool) (type : Output) : Output :=
  (if isAlias then [.word "=", .space] else []) ++ type

/-- The entry on one line. -/
def output : SpecForm → Output
  | importPath name path => ((name.map fun n => [.word n, .space]).getD []) ++ [.word path]
  | value names ty values =>
    spaced (spaced (Output.names names) ty) (values.map valuesCell)
  | type name isAlias ty => [.word name, .space] ++ typeCell isAlias ty

/-- The cells of an entry in a group of several: names, type, values, comment. The type has
a cell if it is there or if its column is kept, and the comment stands in the fourth column
whatever is missing. -/
def cells (keepType : Bool) (comment : Option Comment) : SpecForm → List Output
  | value names ty values =>
    let typeCell : List Output := if ty.isSome || keepType then [ty.getD []] else []
    let valueCell : List Output := (values.map valuesCell).toList
    let missing := 2 - typeCell.length - valueCell.length
    let gap : List Output := if comment.isSome then List.replicate missing [] else []
    Output.names names :: typeCell ++ valueCell ++ gap
  | type name isAlias ty => [[.word name], typeCell isAlias ty]
  | form => [form.output]

end SpecForm

/-- For each entry, whether its type column is kept: in a run of entries with values of which
one has a type. -/
def keepsType (forms : List SpecForm) : List Bool :=
  (forms.splitBy fun a b => a.hasValues == b.hasValues).flatMap fun run =>
    run.map fun form => form.hasValues && run.any SpecForm.hasType

/-- The lines of a group of entries. -/
def specLines (indent : Nat) (several : Bool) : Bool → List SpecText → List Bool → List Line
  | first, s :: ss, keep :: keeps =>
    let comment := s.decs.trailing
    let cells := if several then s.form.cells keep comment else [s.form.output]
    let cells := cells ++ (comment.map fun c => [Piece.word c.text]).toList
    leadingLines indent s.decs first ++ Line.ofCells indent cells ::
      specLines indent several false ss keeps
  | _, _, _ => []

/-- A declaration, from the printed forms of its entries; those of a group are printed one
level deeper. -/
def genOutput (style : Style) (decl : GenDecl) (indent : Nat) (specs : List SpecText) :
    Output :=
  let keyword : Output := [keywordPiece decl.keyword.keyword, .space]
  let nothing : Output := keyword ++ [.word "(", .word ")"]
  match decl.group with
  | none => (specs.head?.map fun s => keyword ++ s.form.output).getD nothing
  | some group =>
    if specs.isEmpty && !group.hasComments then nothing
    else
      let inner := indent + 1
      let lines :=
        specLines inner (specs.length > 1) true specs (keepsType (specs.map (·.form))) ++
          commentLines inner specs.isEmpty group.closeComments
      keyword ++ braced style "(" ")" group indent lines

end HandlerSplit.Print
