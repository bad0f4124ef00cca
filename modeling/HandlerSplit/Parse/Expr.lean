import HandlerSplit.Parse.Types
/-!
# Parsing expressions

Binary operators by binding strength, then unary operators, then operands with what follows
them: selections, indices, slices, type assertions, calls and composite literals.
-/

namespace HandlerSplit.Parse

/-- Whether an opening brace after `x` starts a composite literal. After a plain name it does
not in the header of a control statement, where the brace opens the body. -/
def opensComposite (level : Int) (x : Expr) : Bool :=
  match x.unparen with
  | .ident _ | .selector _ _ | .index _ _ => level ≥ 0
  | .arrayType _ _ | .structType _ | .mapType _ _ => true
  | _ => false

/-- The bounds between the brackets of an index or slice expression, with the colons. -/
structure Bounds where
  low : Option Expr
  high : Option Expr
  max : Option Expr
  colons : Nat

namespace Grammar

variable (g : Grammar)

/-! ## Bracketed lists -/

/-- An element after its layout, with the comma and the comment behind it if there are. -/
def elementTurn {α : Type} (decs : Decorations) (make : Decorations → α) : Parser (Turn α) := do
  if ← atPunct .comma then
    advance
    let trailing ← claimTrailing
    return .more (make { decs with trailing := trailing })
  else return .last (make decs)

/-- The arguments of a call up to the closing parenthesis, and whether any of them is
followed by `...`. -/
def callArgs (opening : Span) : Parser (List Element × Bool × Enclosure) := do
  let openComment ← claimTrailing
  let args ← g.entries do
    match ← peekKind with
    | .punct .rparen => return .stop
    | .eof => rejectAt opening (.unterminated .argumentList)
    | _ =>
      let decs ← startDecorations
      let x ← g.expr
      let spread ← atPunct .ellipsis
      if spread then advance
      elementTurn decs fun decs => (Element.mk x decs, spread)
  let enclosure ← closeEnclosure openComment
  return (args.map (·.1), args.any (·.2), enclosure)

/-- A call of `fn`. -/
def call (fn : Expr) : Parser Expr := do
  let opening := (← peek).span
  expectPunct .lparen
  let (args, variadic, parens) ← bracketed (g.callArgs opening)
  expectPunct .rparen
  return .call fn args variadic parens

/-- A key with its value, or a value alone. -/
def element : Parser Expr := do
  let x ← g.elementValue
  if ← atPunct .colon then
    advance
    return .keyValue x (← g.elementValue)
  else return x

/-- The elements of a composite literal up to the closing brace. -/
def elements (opening : Span) : Parser (List Element × Enclosure) := do
  let openComment ← claimTrailing
  let elements ← g.entries do
    match ← peekKind with
    | .punct .rbrace => return .stop
    | .eof => rejectAt opening (.unterminated .compositeLiteral)
    | _ =>
      let decs ← startDecorations
      let x ← g.element
      elementTurn decs fun decs => Element.mk x decs
  return (elements, ← closeEnclosure openComment)

/-- A composite literal from its opening brace on. -/
def composite (type : Option Expr) : Parser Expr := do
  let opening := (← peek).span
  expectPunct .lbrace
  let (elements, braces) ← bracketed (g.elements opening)
  expectPunct .rbrace
  return .composite type elements braces

/-- A key or value of a composite literal. -/
def elementValueHere : Parser Expr := do
  if ← atPunct .lbrace then nested (g.composite none) else g.expr

/-! ## Operands -/

/-- A bound of a slice expression, if there is one before the next colon or bracket. -/
def bound : Parser (Option Expr) := do
  match ← peekKind with
  | .punct .colon | .punct .rbracket => return none
  | _ => return some (← g.expr)

/-- The bounds of an index or slice expression. -/
def bounds : Parser Bounds := do
  let low : Option Expr ← (do
    if ← atPunct .colon then return none else return some (← g.expr))
  if !(← atPunct .colon) then return ⟨low, none, none, 0⟩
  advance
  let high ← g.bound
  if !(← atPunct .colon) then return ⟨low, high, none, 1⟩
  advance
  let max ← g.bound
  return ⟨low, high, max, 2⟩

/-- An index or slice of `x`. -/
def indexOrSlice (x : Expr) : Parser Expr := do
  expectPunct .lbracket
  let b ← bracketed g.bounds
  expectPunct .rbracket
  if b.colons == 0 then
    match b.low with
    | some key => return .index x key
    | none => reject .operandExpected
  else if b.colons == 2 && (b.high.isNone || b.max.isNone) then reject .sliceBoundsMissing
  else return .slice x b.low b.high b.max

/-- What follows the point after `x`: a name, or a type in parentheses. -/
def selectorOrAssertion (x : Expr) : Parser Expr := do
  match ← peekKind with
  | .ident name =>
    advance
    return .selector x name
  | .punct .lparen =>
    advance
    let type : Option Expr ← (do
      if ← at? (.keyword .type) then
        advance
        return none
      else return some (← g.type))
    expectPunct .rparen
    return .typeAssert x type
  | _ => unexpected .selectorOrAssertion

/-- An operand by itself. -/
def operand : Parser Expr := do
  match ← peekKind with
  | .ident name =>
    advance
    return .ident name
  | .literal kind text =>
    advance
    return .literal kind text
  | .punct .lparen =>
    advance
    let x ← bracketed g.expr
    expectPunct .rparen
    return .paren x
  | .keyword .func =>
    advance
    let signature ← g.signature
    if ← atPunct .lbrace then return .funcLit signature (← bracketed g.block)
    else return .funcType signature
  | .punct .lbracket | .keyword .struct | .keyword .map | .keyword .chan
  | .keyword .interface => g.nestedType
  | _ => unexpected .expression

/-- An operand with one more selection, index, call or literal body, if one follows. -/
def postfixed (x : Expr) : Parser (Option Expr) := do
  match ← peekKind with
  | .punct .period =>
    advance
    return some (← g.selectorOrAssertion x)
  | .punct .lbracket => return some (← g.indexOrSlice x)
  | .punct .lparen => return some (← g.call x)
  | .punct .lbrace =>
    if opensComposite (← get).exprLevel x then return some (← g.composite (some x))
    else return none
  | _ => return none

/-- An operand with everything that follows it. -/
def primary : Parser Expr := do
  growing g.postfixed g.budget (← g.operand)

/-! ## Operators -/

/-- The unary operator a token is, if it is one. -/
def unaryOp? : TokenKind → Option UnaryOp
  | .op .add => some .pos
  | .op .sub => some .neg
  | .op .xor => some .xor
  | .op .and => some .addr
  | .punct .not => some .not
  | .punct .tilde => some .tilde
  | _ => none

/-- An operand with the unary operators before it, without the guard on its nesting. -/
def prefixed : Parser Expr := do
  match ← peekKind with
  | .op .mul =>
    advance
    return .star (← g.unary)
  | .punct .arrow =>
    advance
    if ← at? (.keyword .chan) then
      advance
      return .chanType .recv (← g.type)
    else return .unary .recv (← g.unary)
  | kind =>
    match unaryOp? kind with
    | some op =>
      advance
      return .unary op (← g.unary)
    | none => g.primary

/-- An operand with its unary operators, one level of nesting deeper. -/
def nestedUnary : Parser Expr :=
  nested g.prefixed

/-- A binary expression whose left operand is `x`, if an operator of at least the given
strength follows. -/
def extended (strength : Nat) (x : Expr) : Parser (Option Expr) := do
  match ← peekKind with
  | .op op =>
    if op.precedence < strength then return none
    advance
    let lineBreak := (← get).newlineBefore
    let y ← g.binary (op.precedence + 1)
    return some (.binary x op y lineBreak)
  | _ => return none

/-- An expression whose operators bind at least as strongly as given. -/
def binaryFrom (strength : Nat) : Parser Expr := do
  growing (g.extended strength) g.budget (← g.nestedUnary)

end Grammar

end HandlerSplit.Parse
