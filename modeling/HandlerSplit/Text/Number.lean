/-!
# Numbers

Whether a text writes a number, and the number that decimal digits stand for.
-/

namespace HandlerSplit.Text

/-- The number that decimal digits stand for, given the value of those before them. -/
def digitsValue? (value : Nat) : List Char → Option Nat
  | [] => some value
  | c :: cs => if c.isDigit then digitsValue? (10 * value + (c.toNat - '0'.toNat)) cs else none

/-- The natural number a text writes: decimal digits, with a plus sign before them or not. -/
def natural? (text : String) : Option Nat :=
  match text.toList with
  | [] => none
  | ['+'] => none
  | '+' :: cs => digitsValue? 0 cs
  | cs => digitsValue? 0 cs

/-- Whether a text is empty or an exponent: `e`, a sign or none, and digits. -/
def isExponent : List Char → Bool
  | [] => true
  | c :: cs =>
    let digits := if cs.head? == some '+' || cs.head? == some '-' then cs.tail else cs
    (c == 'e' || c == 'E') && !digits.isEmpty && digits.all Char.isDigit

/-- Whether a text writes a number without a sign: digits with a point among them or not and
with an exponent or not, or a name of what is no finite number. -/
def isUnsignedNumber (cs : List Char) : Bool :=
  let whole := cs.takeWhile Char.isDigit
  let decimal :=
    match cs.dropWhile Char.isDigit with
    | '.' :: rest =>
      !(whole.isEmpty && (rest.takeWhile Char.isDigit).isEmpty) &&
        isExponent (rest.dropWhile Char.isDigit)
    | rest => !whole.isEmpty && isExponent rest
  decimal || ["inf", "infinity", "nan"].contains (String.ofList (cs.map Char.toLower))

end HandlerSplit.Text
