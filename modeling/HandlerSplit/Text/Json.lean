/-!
# Texts in JSON

A text between double quotes. Quotes, backslashes and control characters are escaped.
-/

namespace HandlerSplit.Text

/-- A hexadecimal number of four digits. -/
def fourDigits (n : Nat) : List Char :=
  let digits := Nat.toDigits 16 n
  List.replicate (4 - digits.length) '0' ++ digits

/-- One character of a text. -/
def jsonChar (c : Char) : List Char :=
  if c = '"' || c = '\\' then ['\\', c]
  else if c < ' ' then '\\' :: 'u' :: fourDigits c.toNat
  else [c]

/-- A text in JSON. -/
def jsonText (text : String) : String :=
  String.ofList ('"' :: text.toList.flatMap jsonChar ++ ['"'])

end HandlerSplit.Text
