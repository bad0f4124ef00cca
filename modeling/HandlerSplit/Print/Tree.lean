import HandlerSplit.Print.Parts
import HandlerSplit.Tree.Build
/-!
# Printing the tree

Expressions, types, statements and declarations are printed by recursion over the tree. An
expression is printed for a place: the indentation of its line, a depth that grows with
nesting and tightens operators, and whether it is the expression of a control header, where
parentheses around it are left out.
-/

namespace HandlerSplit.Print

open Output (commaSeparated joined)

/-- Where an expression is printed. -/
structure Place where
  depth : Nat
  indent : Nat
  /-- The expression of a control header. -/
  inHeader : Bool := false

namespace Place

/-- The start of an expression on a line with the given indentation. -/
def atStart (indent : Nat) : Place := ⟨1, indent, false⟩

/-- The expression of a control header. -/
def header (indent : Nat) : Place := ⟨1, indent, true⟩

/-- The same line at another depth. -/
def atDepth (p : Place) (depth : Nat) : Place := ⟨depth, p.indent, false⟩

/-- The same line at the outermost depth. -/
def outermost (p : Place) : Place := p.atDepth 1

/-- One level of nesting deeper. -/
def deeper (p : Place) : Place := p.atDepth (p.depth + 1)

/-- The same line and depth, inside an expression. -/
def inside (p : Place) : Place := p.atDepth p.depth

end Place

/-! ## Operators -/

/-- A unary operator before its operand. -/
def unaryOutput (op : UnaryOp) (operand : Output) : Output :=
  let together :=
    match op.spelling.toList.getLast?, operand.firstChar? with
    | some a, some b => runsTogether a b
    | _, _ => false
  .word op.spelling :: if together then .space :: operand else operand

/-- A binary operator between its operands. -/
def binaryOutput (isSpaced : Bool) (left : Output) (op : BinaryOp) (right : Output) : Output :=
  let together :=
    match op.spelling.toList.getLast?, right.firstChar? with
    | some a, some b => runsTogether a b
    | _, _ => false
  left ++ (if isSpaced then [.space] else []) ++ .word op.spelling ::
    if isSpaced || together then .space :: right else right

/-- A binary operator at the end of a line, its right operand on the next. -/
def brokenBinaryOutput (isSpaced : Bool) (left : Output) (op : BinaryOp) (indent : Nat)
    (right : Output) : Output :=
  left ++ (if isSpaced then [.space] else []) ++
    [.word op.spelling, .newline, .tabs (indent + 1)] ++ right

/-- The place of the left operand: an operator of the same strength there is not nested. -/
def leftPlace (x : Expr) (op : BinaryOp) (p : Place) : Place :=
  if (x.binaryOp?.map fun o => o.precedence == op.precedence).getD false then p.inside
  else p.deeper

/-! ## Brackets -/

/-- The bounds of a slice with colons between them, spaced if `blanks` holds. -/
def boundsOutput (blanks : Bool) : List (Option Output) → Output
  | [] => []
  | [bound] => bound.getD []
  | low :: high :: bounds =>
    low.getD [] ++ (if low.isSome && blanks then [.space] else []) ++ [.word ":"] ++
      (if high.isSome && blanks then [.space] else []) ++ boundsOutput blanks (high :: bounds)

/-- Whether the bounds of a slice are spaced: if there are several, one of them is binary, and
the slice is not nested. -/
def spacesBounds (depth : Nat) (bounds : List (Option Expr)) : Bool :=
  depth ≤ 1 && (bounds.filter Option.isSome).length > 1 &&
    bounds.any fun b => ((b.bind Expr.binaryOp?).isSome)

/-- Whether the called expression has to be put in parentheses. -/
def isFuncType : Expr → Bool
  | .funcType _ => true
  | _ => false

/-- Whether the expression is parenthesized. -/
def isParen : Expr → Bool
  | .paren _ => true
  | _ => false

/-- The keyword of a channel type, with the space behind it. -/
def chanOutput : ChanDir → Output
  | .both => [.word "chan", .space]
  | .send => [.word "chan", .word "<-", .space]
  | .recv => [.word "<-", .word "chan", .space]

/-- An expression in parentheses. -/
def inParens (x : Output) : Output :=
  .word "(" :: x ++ [.word ")"]

/-- The indentation of the fields of a parameter list. -/
def fieldIndents (list : FieldList) (indent : Nat) : List Nat :=
  (ListShape.of (list.fields.map (·.decs)) list.enclosure).indents indent

/-- The indentation of the fields of a struct or interface. -/
def memberIndents (list : FieldList) (indent : Nat) : List Nat :=
  list.fields.map fun _ => if isOneLineFields list then indent else indent + 1

/-- The indentation of the elements of a list. -/
def elementIndents (elements : List Element) (enclosure : Enclosure) (indent : Nat) :
    List Nat :=
  (ListShape.of (elements.map (·.decs)) enclosure).indents indent

mutual

/-- An expression at a place. -/
def exprOutput (style : Style) : Expr → Place → Output
  | .ident name, _ => [.word name]
  | .literal _ text, _ => [.word text]
  | .composite type elements braces, p =>
    (optExprOutput style type p.inside).getD [] ++
      bracketed style "\x7b" "\x7d" (elements.map (·.decs)) braces p.indent false
        (itemTexts style true 1 elements (elementIndents elements braces p.indent))
  | .funcLit sig body, p =>
    let header := keywordPiece .func :: signatureOutput style sig p.indent
    header ++ .space :: bodyOutput style body p.indent header (blockTexts style body (p.indent + 1))
  | .paren x, p =>
    if p.inHeader && !hasBareComposite x then exprOutput style x p
    else if isParen x then exprOutput style x p.inside
    else inParens (exprOutput style x (p.atDepth (reducedDepth p.depth)))
  | .selector x name, p => exprOutput style x p.inside ++ [.word ".", .word name]
  | .index x key, p =>
    exprOutput style x p.outermost ++ [.word "["] ++ exprOutput style key p.deeper ++ [.word "]"]
  | .slice x low high max, p =>
    let bounds := [low, high] ++ if max.isSome then [max] else []
    let outputs := [optExprOutput style low p.deeper, optExprOutput style high p.deeper] ++
      if max.isSome then [optExprOutput style max p.deeper] else []
    exprOutput style x p.outermost ++ [.word "["] ++
      boundsOutput (spacesBounds p.depth bounds) outputs ++ [.word "]"]
  | .typeAssert x type, p =>
    exprOutput style x p.inside ++ [.word ".", .word "("] ++
      (optExprOutput style type p.outermost).getD [keywordPiece .type] ++ [.word ")"]
  | .call fn args variadic parens, p =>
    let p := if args.length > 1 then p.deeper else p.inside
    let head := exprOutput style fn p
    (if isFuncType fn then inParens head else head) ++
      bracketed style "(" ")" (args.map (·.decs)) parens p.indent variadic
        (itemTexts style false p.depth args (elementIndents args parens p.indent))
  | .star x, p => .word "*" :: exprOutput style x p.outermost
  | .unary op x, p => unaryOutput op (exprOutput style x p.inside)
  | .binary x op y lineBreak, p =>
    let blanks := isSpaced p.depth (.binary x op y lineBreak)
    let left := exprOutput style x (leftPlace x op p)
    if lineBreak then
      brokenBinaryOutput blanks left op p.indent
        (exprOutput style y ⟨p.depth + 1, p.indent + 1, false⟩)
    else binaryOutput blanks left op (exprOutput style y p.deeper)
  | .keyValue key value, p =>
    exprOutput style key p.outermost ++ [.word ":", .space] ++
      exprOutput style value p.outermost
  | .arrayType len elem, p =>
    [.word "["] ++ (optExprOutput style len p.outermost).getD [] ++ [.word "]"] ++
      exprOutput style elem p.outermost
  | .mapType key value, p =>
    [keywordPiece .map, .word "["] ++ exprOutput style key p.outermost ++ [.word "]"] ++
      exprOutput style value p.outermost
  | .chanType dir elem, p => chanOutput dir ++ exprOutput style elem p.outermost
  | .funcType sig, p => keywordPiece .func :: signatureOutput style sig p.indent
  | .structType fields, p =>
    fieldBlock style true fields p.indent
      (membersTexts style fields (memberIndents fields p.indent))
  | .interfaceType fields, p =>
    fieldBlock style false fields p.indent
      (membersTexts style fields (memberIndents fields p.indent))
  | .ellipsis elem, p => .word "..." :: (optExprOutput style elem p.outermost).getD []
termination_by structural x => x

/-- An expression that may be missing. -/
def optExprOutput (style : Style) : Option Expr → Place → Option Output
  | none, _ => none
  | some x, p => some (exprOutput style x p)
termination_by structural x => x

/-- Expressions at the same place. -/
def exprOutputs (style : Style) : List Expr → Place → List Output
  | [], _ => []
  | x :: xs, p => exprOutput style x p :: exprOutputs style xs p
termination_by structural xs => xs

/-- The elements of a list, each with its own indentation. -/
def itemTexts (style : Style) (pairs : Bool) (depth : Nat) :
    List Element → List Nat → List ItemText
  | [], _ => []
  | ⟨.keyValue key value, _⟩ :: es, indents =>
    let key := exprOutput style key (.atStart (indents.headD 0))
    let value := exprOutput style value (.atStart (indents.headD 0))
    ⟨key ++ [.word ":", .space] ++ value, if pairs then some (key, value) else none⟩ ::
      itemTexts style pairs depth es indents.tail
  | ⟨x, _⟩ :: es, indents =>
    .plain (exprOutput style x ⟨depth, indents.headD 0, false⟩) ::
      itemTexts style pairs depth es indents.tail
termination_by structural es => es

/-- Fields, each with its own indentation. -/
def fieldTexts (style : Style) : List Field → List Nat → List FieldText
  | [], _ => []
  | ⟨names, .funcType sig, tag, decs⟩ :: fs, indents =>
    let sig := signatureOutput style sig (indents.headD 0)
    ⟨names, keywordPiece .func :: sig, some sig, tag, decs⟩ :: fieldTexts style fs indents.tail
  | ⟨names, type, tag, decs⟩ :: fs, indents =>
    ⟨names, exprOutput style type (.atStart (indents.headD 0)), none, tag, decs⟩ ::
      fieldTexts style fs indents.tail
termination_by structural fs => fs

/-- The fields of a list, each with its own indentation. -/
def membersTexts (style : Style) : FieldList → List Nat → List FieldText
  | ⟨fields, _⟩, indents => fieldTexts style fields indents
termination_by structural fs => fs

/-- A parenthesized parameter list. -/
def paramListOutput (style : Style) : FieldList → Nat → Output
  | ⟨fields, enclosure⟩, indent =>
    paramsOutput style enclosure indent
      (fieldTexts style fields (fieldIndents ⟨fields, enclosure⟩ indent))
termination_by structural fs => fs

/-- Results with the space before them; a lone type has no parentheses. -/
def resultsOutput (style : Style) : Option FieldList → Nat → Output
  | none, _ => []
  | some ⟨fields, enclosure⟩, indent =>
    if isLoneResult ⟨fields, enclosure⟩ then
      .space :: (fieldTexts style fields [indent]).flatMap (·.type)
    else
      .space :: paramsOutput style enclosure indent
        (fieldTexts style fields (fieldIndents ⟨fields, enclosure⟩ indent))
termination_by structural fs => fs

/-- Parameters and results. -/
def signatureOutput (style : Style) : Signature → Nat → Output
  | ⟨params, results⟩, indent =>
    paramListOutput style params indent ++ resultsOutput style results indent
termination_by structural s => s

/-- The statements of a block at the given indentation. -/
def blockTexts (style : Style) : Block → Nat → List StmtText
  | ⟨stmts, _, _⟩, indent => stmtTexts style stmts indent
termination_by structural b => b

/-- Statements at the given indentation. -/
def stmtTexts (style : Style) : List Stmt → Nat → List StmtText
  | [], _ => []
  | s :: ss, indent => stmtText style s indent :: stmtTexts style ss indent
termination_by structural ss => ss

/-- A statement at the given indentation. -/
def stmtText (style : Style) : Stmt → Nat → StmtText
  | ⟨kind, decs⟩, indent => kindText style kind indent decs
termination_by structural s => s

/-- The statement of a header clause, if there is one. -/
def optStmtOutput (style : Style) : Option Stmt → Nat → Option Output
  | none, _ => none
  | some s, indent => some (stmtText style s indent).text
termination_by structural s => s

/-- A statement with the given layout. -/
def kindText (style : Style) : StmtKind → Nat → Decorations → StmtText
  | .labeled label s, indent, decs =>
    .labeled indent label (stmtText style s indent) decs
  | .empty, indent, decs => .empty indent decs
  | .expr x, indent, decs => .plain indent (exprOutput style x (.atStart indent)) decs
  | .assign lhs op rhs, indent, decs =>
    let depth := if lhs.length > 1 && rhs.length > 1 then 2 else 1
    let place : Place := ⟨depth, indent, false⟩
    .plain indent
      (commaSeparated (exprOutputs style lhs place) ++ [.space, .word op.spelling, .space] ++
        commaSeparated (exprOutputs style rhs place)) decs
  | .incDec x up, indent, decs =>
    .plain indent
      (exprOutput style x ⟨2, indent, false⟩ ++ [.word (if up then "++" else "--")]) decs
  | .send chan value, indent, decs =>
    .plain indent
      (exprOutput style chan (.atStart indent) ++ [.space, .word "<-", .space] ++
        exprOutput style value (.atStart indent)) decs
  | .decl d, indent, decs => .plain indent (genDeclOutput style d indent) decs
  | .returns values, indent, decs =>
    let outputs := exprOutputs style values (.atStart indent)
    .plain indent
      (keywordPiece .return ::
        if outputs.isEmpty then [] else .space :: commaSeparated outputs) decs
  | .branch kind label, indent, decs =>
    .plain indent
      (spaced [keywordPiece kind.keyword] (label.map fun l => [.word l])) decs
  | .block b, indent, decs =>
    .plain indent (blockOutput style b indent (blockTexts style b (indent + 1))) decs
  | .ifThen init cond body otherwise, indent, decs =>
    .plain indent
      (keywordPiece .if ::
        headerOutput false (optStmtOutput style init indent)
          (some (exprOutput style cond (.header indent))) none ++
        blockOutput style body indent (blockTexts style body (indent + 1)) ++
        elseOutput style otherwise indent) decs
  | .forLoop init cond post body, indent, decs =>
    .plain indent
      (keywordPiece .for ::
        headerOutput true (optStmtOutput style init indent)
          (optExprOutput style cond (.header indent)) (optStmtOutput style post indent) ++
        blockOutput style body indent (blockTexts style body (indent + 1))) decs
  | .rangeLoop key value define x body, indent, decs =>
    let vars : Output :=
      match optExprOutput style key (.atStart indent) with
      | none => []
      | some key =>
        key ++ ((optExprOutput style value (.atStart indent)).map
            fun value => [Piece.word ",", .space] ++ value).getD [] ++
          [.space, .word (if define then ":=" else "="), .space]
    .plain indent
      ([keywordPiece .for, .space] ++ vars ++ [keywordPiece .range, .space] ++
        exprOutput style x (.header indent) ++ [.space] ++
        blockOutput style body indent (blockTexts style body (indent + 1))) decs
  | .switch init tag clauses braces, indent, decs =>
    .plain indent
      (keywordPiece .switch ::
        headerOutput false (optStmtOutput style init indent)
          (optExprOutput style tag (.header indent)) none ++
        clausesOutput style braces indent (clauseTexts style clauses indent)) decs
  | .typeSwitch init guard clauses braces, indent, decs =>
    let init : Output :=
      match optStmtOutput style init indent with
      | some init => init ++ [.word ";", .space]
      | none => []
    .plain indent
      ([keywordPiece .switch, .space] ++ init ++ (stmtText style guard indent).text ++
        [.space] ++ clausesOutput style braces indent (clauseTexts style clauses indent)) decs
  | .select clauses braces, indent, decs =>
    .plain indent
      ([keywordPiece .select, .space] ++
        clausesOutput style braces indent (clauseTexts style clauses indent)) decs
  | .go call, indent, decs =>
    .plain indent ([keywordPiece .go, .space] ++ exprOutput style call (.atStart indent)) decs
  | .defer call, indent, decs =>
    .plain indent ([keywordPiece .defer, .space] ++ exprOutput style call (.atStart indent)) decs
termination_by structural k => k

/-- What follows the body of an `if` statement. -/
def elseOutput (style : Style) : Else → Nat → Output
  | .none, _ => []
  | .elseIf init cond body otherwise, indent =>
    [.space, keywordPiece .else, .space, keywordPiece .if] ++
      headerOutput false (optStmtOutput style init indent)
        (some (exprOutput style cond (.header indent))) none ++
      blockOutput style body indent (blockTexts style body (indent + 1)) ++
      elseOutput style otherwise indent
  | .block body, indent =>
    [.space, keywordPiece .else, .space] ++
      blockOutput style body indent (blockTexts style body (indent + 1))
termination_by structural e => e

/-- The clauses of a switch or select statement. -/
def clauseTexts (style : Style) : List Clause → Nat → List ClauseText
  | [], _ => []
  | ⟨head, body, decs⟩ :: cs, indent =>
    ⟨headOutput style head indent, stmtTexts style body (indent + 1), decs⟩ ::
      clauseTexts style cs indent
termination_by structural cs => cs

/-- What a clause is chosen by, up to the colon. -/
def headOutput (style : Style) : ClauseHead → Nat → Output
  | .default, _ => [keywordPiece .default, .word ":"]
  | .values xs, indent =>
    [keywordPiece .case, .space] ++
      commaSeparated (exprOutputs style xs (.atStart indent)) ++ [.word ":"]
  | .comm s, indent =>
    [keywordPiece .case, .space] ++ (stmtText style s indent).text ++ [.word ":"]
termination_by structural h => h

/-- A declaration. -/
def genDeclOutput (style : Style) : GenDecl → Nat → Output
  | ⟨keyword, specs, group⟩, indent =>
    genOutput style ⟨keyword, specs, group⟩ indent
      (specTexts style specs (if group.isSome then indent + 1 else indent))
termination_by structural d => d

/-- The entries of a declaration. -/
def specTexts (style : Style) : List Spec → Nat → List SpecText
  | [], _ => []
  | ⟨kind, decs⟩ :: ss, indent => ⟨specForm style kind indent, decs⟩ :: specTexts style ss indent
termination_by structural ss => ss

/-- An entry of a declaration. -/
def specForm (style : Style) : SpecKind → Nat → SpecForm
  | .importPath name path, _ => .importPath name path
  | .value names type values, indent =>
    let values := exprOutputs style values (.atStart indent)
    .value names (optExprOutput style type (.atStart indent))
      (if values.isEmpty then none else some (commaSeparated values))
  | .type name isAlias type, indent =>
    .type name isAlias (exprOutput style type (.atStart indent))
termination_by structural s => s

end

/-! ## Files -/

/-- A function declaration. -/
def funcOutput (style : Style) (f : FuncDecl) (indent : Nat) : Output :=
  let recv : Output :=
    match f.recv with
    | some recv => paramListOutput style recv indent ++ [.space]
    | none => []
  let head := [keywordPiece .func, .space] ++ recv ++
    .word f.name :: signatureOutput style f.signature indent
  match f.body with
  | some body =>
    head ++ .space :: bodyOutput style body indent head (blockTexts style body (indent + 1))
  | none => head

/-- A top-level declaration. -/
def declOutput (style : Style) (d : Decl) : Output :=
  match d.kind with
  | .func f => funcOutput style f 0
  | .gen g => genDeclOutput style g 0

/-- The word a declaration starts with. -/
def declKeyword (d : Decl) : Keyword :=
  match d.kind with
  | .func _ => .func
  | .gen g => g.keyword.keyword

/-- The lines of the declarations. An empty line comes before a declaration of another kind
than the last, before a documented one, and where the source has one. -/
def declLines (style : Style) : Option Keyword → List Decl → List Line
  | _, [] => []
  | last, d :: ds =>
    let documented := !d.decs.leading.isEmpty && !d.decs.blankBefore
    let commentGap := (d.decs.leading.head?.map (·.blankBefore)).getD false
    let gap := last != some (declKeyword d) || documented || d.decs.blankBefore || commentGap
    (if gap then [.blank] else []) ++ commentLines 0 true d.decs.leading ++
      (if !d.decs.leading.isEmpty && d.decs.blankBefore then [.blank] else []) ++
      Line.ofCells 0 (withComment (declOutput style d) d.decs.trailing) ::
        declLines style (some (declKeyword d)) ds

/-- A source file. -/
def fileOutput (style : Style) (file : SourceFile) : Output :=
  let decs := file.packageDecs
  renderLines style.align
    (commentLines 0 true decs.leading ++
      (if !decs.leading.isEmpty && decs.blankBefore then [.blank] else []) ++
      Line.ofCells 0
        (withComment [keywordPiece .package, .space, .word file.package] decs.trailing) ::
        declLines style none file.decls ++ commentLines 0 false file.trailingComments)

end HandlerSplit.Print

namespace HandlerSplit

/-- The text of a source file. -/
def SourceFile.print (file : SourceFile) (style : Print.Style) : String :=
  (Print.fileOutput style file).render

/-- The text of an expression at the start of a line. -/
def Expr.print (x : Expr) : String :=
  (Print.exprOutput {} x (.atStart 0)).render

end HandlerSplit
