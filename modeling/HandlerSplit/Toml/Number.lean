import HandlerSplit.Toml.Reader
/-!
# Numbers in configuration documents

Integers and decimal fractions, with underscores between their digits. An integer has to fit
in 64 bits with a sign. A fraction is a binary one of double precision and must not be too
large for that; below zero it may be.
-/

namespace HandlerSplit.Toml.Reader

/-! ## Digits -/

/-- Digits up to the first other character. An underscore before a digit is passed over. -/
def moreDigits (p : Char → Bool) : List Char → List Char × List Char
  | [] => ([], [])
  | c :: cs =>
    if p c then
      let (digits, rest) := moreDigits p cs
      (c :: digits, rest)
    else if c == '_' && cs.head?.any p then moreDigits p cs
    else ([], c :: cs)

/-- Takes digits, at least one. -/
def digits (p : Char → Bool) : Reader (List Char) := do
  let first ← one p
  let rest ← fun cs => some (moreDigits p cs)
  return first :: rest

/-- Takes the digits before a point: a zero stands alone. -/
def wholeDigits : Reader (List Char) := do
  if (← next?) = some '0' then
    return [← one Char.isDigit]
  else digits Char.isDigit

/-- Takes a sign, if there is one, and answers whether it is a minus sign. -/
def minus : Reader Bool := do
  let sign ← optional (one fun c => c == '+' || c == '-')
  return sign = some '-'

/-- The number that digits write in a base. -/
def ofDigits (base : Nat) (digits : List Char) : Nat :=
  digits.foldl (fun n c => base * n + (hexDigit? c).getD 0) 0

/-! ## Integers -/

/-- The largest integer. -/
def maxInteger : Nat := Nat.pow 2 63 - 1

/-- Takes an integer that is written in a base other than ten. -/
def prefixedInteger (letter : Char) (base : Nat) : Reader Unit := do
  word ['0', letter]
  let written ← digits fun c => (hexDigit? c).any (· < base)
  require (ofDigits base written ≤ maxInteger)

/-- Takes a decimal integer. -/
def decimalInteger : Reader Unit := do
  let negative ← minus
  let written ← wholeDigits
  require (ofDigits 10 written ≤ if negative then maxInteger + 1 else maxInteger)

/-- Takes an integer. -/
def integer : Reader Unit :=
  prefixedInteger 'x' 16 <|> prefixedInteger 'o' 8 <|> prefixedInteger 'b' 2 <|> decimalInteger

/-! ## Fractions -/

/-- What rounds to more than the largest finite number of double precision. -/
def overflowBound : Nat := Nat.pow 2 1024 - Nat.pow 2 970

/-- Whether the number that digits write, shifted by decimal places, is too large for double
precision. -/
def overflows (written : List Char) (shift : Int) : Bool :=
  let written := written.dropWhile (· == '0')
  let places := written.length + shift
  if written.isEmpty || places < 309 then false
  else if 309 < places then true
  else
    overflowBound * Nat.pow 10 (-shift).toNat ≤ ofDigits 10 written * Nat.pow 10 shift.toNat

/-- Takes an exponent. -/
def exponent : Reader Int := do
  let _ ← one fun c => c == 'e' || c == 'E'
  let negative ← minus
  let size := ofDigits 10 (← digits Char.isDigit)
  return if negative then -size else size

/-- Takes a decimal point and the digits behind it. -/
def decimalPlaces : Reader (List Char) := do
  word ['.']
  digits Char.isDigit

/-- Takes a number with a point, an exponent or both. -/
def decimalFraction : Reader Unit := do
  let negative ← minus
  let whole ← wholeDigits
  let places ← optional decimalPlaces
  let shift ← if places.isSome then (·.getD 0) <$> optional exponent else exponent
  let places := places.getD []
  require (negative || !overflows (whole ++ places) (shift - places.length))

/-- Takes the name of what is no finite number. -/
def nonFinite : Reader Unit := do
  let _ ← minus
  word "inf".toList <|> word "nan".toList

/-- Takes a number. -/
def number : Reader Unit :=
  decimalFraction <|> nonFinite <|> integer

end HandlerSplit.Toml.Reader
