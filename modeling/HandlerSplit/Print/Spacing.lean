import HandlerSplit.Tree
/-!
# Operator spacing

Whether a binary operator is written with spaces around it. In a chain of operators without
parentheses, those that bind weaker than a cutoff get spaces; the cutoff depends on which
strengths occur in the chain, on how deep the expression is nested, and on operators that
would run together.
-/

namespace HandlerSplit

namespace Expr

/-- The operator, if the expression is binary. -/
def binaryOp? : Expr → Option BinaryOp
  | binary _ op _ _ => some op
  | _ => none

end Expr

namespace Print

/-- What a chain of binary operators holds. -/
structure Chain where
  /-- An operator of strength 4 occurs. -/
  hasSum : Bool := false
  /-- An operator of strength 5 occurs. -/
  hasProduct : Bool := false
  /-- The strength of the strongest operator that would run together with the unary operator
  behind it, 0 if there is none. -/
  hazard : Nat := 0

/-- The strength at which an operator runs together with the operator its right operand
starts with. -/
def hazardOf : BinaryOp → Expr → Nat
  | .quo, .star _ => 5
  | .and, .unary .addr _ => 5
  | .and, .unary .xor _ => 5
  | .add, .unary .pos _ => 4
  | .sub, .unary .neg _ => 4
  | _, _ => 0

/-- Whether the operand of an operator belongs to the same chain. -/
def joinsChain (admits : Nat → Bool) (x : Expr) : Bool :=
  (x.binaryOp?.map fun op => admits op.precedence).getD false

/-- The chain of operators an expression is. -/
def chain : Expr → Chain
  | .binary x op y _ =>
    let left := if joinsChain (· ≥ op.precedence) x then chain x else {}
    let right := if joinsChain (· > op.precedence) y then chain y else {}
    { hasSum := op.precedence == 4 || left.hasSum || right.hasSum
      hasProduct := op.precedence == 5 || left.hasProduct || right.hasProduct
      hazard := max (hazardOf op y) (max left.hazard right.hazard) }
  | _ => {}
termination_by structural x => x

/-- Operators of the chain that bind weaker than this are written with spaces. -/
def cutoff (c : Chain) (depth : Nat) : Nat :=
  if c.hazard > 0 then c.hazard + 1
  else if depth == 1 then if c.hasSum && c.hasProduct then 5 else 6
  else 4

/-- Whether the operator of a binary expression is written with spaces. -/
def isSpaced (depth : Nat) (x : Expr) : Bool :=
  match x.binaryOp? with
  | some op => op.precedence < cutoff (chain x) depth
  | none => false

/-- The nesting inside parentheses. -/
def reducedDepth (depth : Nat) : Nat :=
  if depth > 1 then depth - 1 else 1

/-- Whether a text ending in `left` and one starting with `right` would be read as one
operator. -/
def runsTogether : Char → Char → Bool
  | '+', '+' => true
  | '-', '-' => true
  | '/', '*' => true
  | '/', '/' => true
  | '<', '-' => true
  | '<', '<' => true
  | '&', '&' => true
  | '&', '^' => true
  | _, _ => false

/-! ## Parentheses in headers -/

mutual

/-- Whether a composite literal of a named type stands outside of parentheses; in the header
of a control statement its brace would open the body. -/
def hasBareComposite : Expr → Bool
  | .composite (some (.ident _)) _ _ => true
  | .composite (some (.selector _ _)) _ _ => true
  | .binary x _ y _ => hasBareComposite x || hasBareComposite y
  | .index x y => hasBareComposite x || hasBareComposite y
  | .keyValue x y => hasBareComposite x || hasBareComposite y
  | .unary _ x => hasBareComposite x
  | .star x => hasBareComposite x
  | .selector x _ => hasBareComposite x
  | .typeAssert x _ => hasBareComposite x
  | .call fn args _ _ => hasBareComposite fn || anyBareComposite args
  | .slice x low high max =>
    hasBareComposite x || boundHasBareComposite low || boundHasBareComposite high ||
      boundHasBareComposite max
  | _ => false
termination_by structural x => x

/-- The same for the elements of a list. -/
def anyBareComposite : List Element → Bool
  | [] => false
  | ⟨x, _⟩ :: es => hasBareComposite x || anyBareComposite es
termination_by structural es => es

/-- The same for a bound of a slice. -/
def boundHasBareComposite : Option Expr → Bool
  | none => false
  | some x => hasBareComposite x
termination_by structural x => x

end

end Print

end HandlerSplit
