import HandlerSplit.Parse.Cursor
/-!
# Phrases that contain themselves

Expressions, types, blocks and statements contain one another. A `Grammar` holds the parsers
of these phrases at one level; the phrases of the next level are built from them, and every
phrase moves past a token before it enters the level below. So as many levels as there are
tokens are enough for any text.
-/

namespace HandlerSplit.Parse

/-- The parsers of the phrases that may stand inside other phrases. -/
structure Grammar where
  /-- How often a list loop may turn. -/
  budget : Nat
  /-- An expression whose operators bind at least as strongly as given. -/
  binary : Nat → Parser Expr
  /-- An operand with the unary operators before it. -/
  unary : Parser Expr
  /-- A key or value of a composite literal, where the type may be left out. -/
  elementValue : Parser Expr
  type : Parser Expr
  block : Parser Block
  stmt : Parser StmtKind
  /-- An `if` statement: header, condition, body and what follows `else`. -/
  ifThen : Parser (Option Stmt × Expr × Block × Else)

namespace Grammar

/-- The level below the last: every phrase is refused. -/
def bottom (budget : Nat) : Grammar where
  budget := budget
  binary _ := reject .exhausted
  unary := reject .exhausted
  elementValue := reject .exhausted
  type := reject .exhausted
  block := reject .exhausted
  stmt := reject .exhausted
  ifThen := reject .exhausted

variable (g : Grammar)

/-- An expression. -/
def expr : Parser Expr :=
  g.binary 1

/-- The entries of a list. -/
def entries {α : Type} (turn : Parser (Turn α)) : Parser (List α) :=
  Parse.entries turn g.budget

/-- The phrases after the first of a list with commas. -/
def afterCommas {α : Type} (item : Parser α) : Parser (List α) :=
  g.entries do
    if ← atPunct .comma then
      advance
      return .more (← item)
    else return .stop

/-- Phrases separated by commas, at least one. -/
def commaSeparated {α : Type} (item : Parser α) : Parser (List α) := do
  let first ← item
  return first :: (← g.afterCommas item)

/-- Expressions separated by commas. -/
def exprs : Parser (List Expr) :=
  g.commaSeparated g.expr

/-- Names separated by commas. -/
def idents : Parser (List String) :=
  g.commaSeparated expectIdent

end Grammar

end HandlerSplit.Parse
