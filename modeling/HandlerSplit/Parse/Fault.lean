import HandlerSplit.Token
/-!
# Why a text does not parse

Each cause is a constructor, and its wording is given once, in `message`.
-/

namespace HandlerSplit.Parse

/-- What the grammar asks for at a place. -/
inductive Wanted where
  | token (kind : TokenKind)
  | declaration
  | endOfInput
  | declarationKeyword
  | importPath
  | type
  | closingBrace
  | expression
  | assignment
  | elseBranch
  | clause
  | selectorOrAssertion
  | identifier
  | terminator
  deriving DecidableEq, Repr

/-- The wording of a demand. -/
def Wanted.name : Wanted → String
  | token kind => kind.name
  | declaration => "declaration"
  | endOfInput => "end of input"
  | declarationKeyword => "declaration keyword"
  | importPath => "import path"
  | type => "type"
  | closingBrace => "'\x7d'"
  | expression => "expression"
  | assignment => "':=' or '='"
  | elseBranch => "if statement or block"
  | clause => "case or default"
  | selectorOrAssertion => "selector or type assertion"
  | identifier => "identifier"
  | terminator => "';' or newline"

/-- Bracketed phrases that may be left open at the end of the text. -/
inductive Opened where
  | declarationGroup | parameterList | struct | interface | block | switch | select
  | argumentList | compositeLiteral
  deriving DecidableEq, Repr

/-- The wording of an open phrase. -/
def Opened.name : Opened → String
  | declarationGroup => "declaration group"
  | parameterList => "parameter list"
  | struct => "struct"
  | interface => "interface"
  | block => "block"
  | switch => "switch"
  | select => "select"
  | argumentList => "argument list"
  | compositeLiteral => "composite literal"

/-- Causes of a syntax error. -/
inductive Fault where
  /-- The text at this place is no token. -/
  | lexical (fault : LexFault)
  | unexpected (wanted : Wanted) (found : TokenKind)
  | unterminated (phrase : Opened)
  | mixedParameters
  | missingParameterType
  | strayRange
  | tooManyRangeVariables
  | invalidLabel
  | missingIfCondition
  | ifConditionExpected
  | forConditionExpected
  | switchExpressionExpected
  | operandExpected
  | sliceBoundsMissing
  | nestedTooDeeply
  /-- The work allowed for the text is used up; no text does this. -/
  | exhausted
  deriving DecidableEq, Repr

/-- The wording of a syntax error. -/
def Fault.message : Fault → String
  | lexical fault => fault.message
  | unexpected wanted found => "expected " ++ wanted.name ++ ", found " ++ found.name
  | unterminated phrase => "unterminated " ++ phrase.name
  | mixedParameters => "mixed named and unnamed parameters"
  | missingParameterType => "missing parameter type"
  | strayRange => "unexpected range clause"
  | tooManyRangeVariables => "range clause permits at most two variables"
  | invalidLabel => "invalid label"
  | missingIfCondition => "missing condition in if statement"
  | ifConditionExpected => "expected condition in if statement"
  | forConditionExpected => "expected for loop condition"
  | switchExpressionExpected => "expected switch expression"
  | operandExpected => "expected operand"
  | sliceBoundsMissing => "middle and final index required in 3-index slice"
  | nestedTooDeeply => "expression nested too deeply"
  | exhausted => "parsing did not come to an end"

/-- A fault at the token it is reported at. -/
structure Rejection where
  fault : Fault
  span : Span
  deriving DecidableEq, Repr

end HandlerSplit.Parse
