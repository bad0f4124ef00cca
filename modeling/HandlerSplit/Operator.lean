/-!
# Operators

The operators of expressions and assignments, their spelling, and the binding strength of the
binary ones. Strength runs from 1 (weakest) to 5, and binary operators associate to the left.
-/

namespace HandlerSplit

/-- Binary operators. -/
inductive BinaryOp where
  | add | sub | mul | quo | rem
  | and | or | xor | shl | shr | andNot
  | logAnd | logOr
  | eql | neq | lss | leq | gtr | geq
  deriving DecidableEq, Repr

namespace BinaryOp

/-- How the operator is written. -/
def spelling : BinaryOp → String
  | add => "+"
  | sub => "-"
  | mul => "*"
  | quo => "/"
  | rem => "%"
  | and => "&"
  | or => "|"
  | xor => "^"
  | shl => "<<"
  | shr => ">>"
  | andNot => "&^"
  | logAnd => "&&"
  | logOr => "||"
  | eql => "=="
  | neq => "!="
  | lss => "<"
  | leq => "<="
  | gtr => ">"
  | geq => ">="

/-- The binding strength, 1 being the weakest. -/
def precedence : BinaryOp → Nat
  | logOr => 1
  | logAnd => 2
  | eql | neq | lss | leq | gtr | geq => 3
  | add | sub | or | xor => 4
  | mul | quo | rem | shl | shr | and | andNot => 5

theorem one_le_precedence (op : BinaryOp) : 1 ≤ op.precedence := by
  cases op <;> decide

theorem precedence_le_five (op : BinaryOp) : op.precedence ≤ 5 := by
  cases op <;> decide

end BinaryOp

/-- Unary operators other than `*`, which also forms pointer types. -/
inductive UnaryOp where
  | pos | neg | not | xor | addr | recv | tilde
  deriving DecidableEq, Repr

/-- How the operator is written. -/
def UnaryOp.spelling : UnaryOp → String
  | pos => "+"
  | neg => "-"
  | not => "!"
  | xor => "^"
  | addr => "&"
  | recv => "<-"
  | tilde => "~"

/-- What stands between the two sides of an assignment. -/
inductive AssignOp where
  /-- `=` -/
  | assign
  /-- `:=` -/
  | define
  /-- A binary operator with `=`, such as `+=`. -/
  | op (o : BinaryOp)
  deriving DecidableEq, Repr

/-- How the operator is written. -/
def AssignOp.spelling : AssignOp → String
  | assign => "="
  | define => ":="
  | op o => o.spelling ++ "="

end HandlerSplit
