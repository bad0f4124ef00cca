/-!
# Texts in configuration documents

Texts stand in single or double quotes, on one line or between tripled quotes on several.
Between single quotes every character stands for itself; between double quotes a backslash
starts an escape. Each reader answers what it read and the characters that follow, or
nothing when the text is not well-formed.
-/

namespace HandlerSplit.Toml

/-- Spaces and tabs. -/
def isBlank (c : Char) : Bool :=
  c == ' ' || c == '\t'

/-- Whether a character may stand in texts and comments: all but control characters. -/
def isPlain (c : Char) : Bool :=
  c == '\t' || (' ' ≤ c && c != '\x7f')

/-- What is left after a line break, if there is one. -/
def afterNewline? : List Char → Option (List Char)
  | '\n' :: cs => some cs
  | '\r' :: '\n' :: cs => some cs
  | _ => none

/-! ## Escapes -/

/-- The value of a hexadecimal digit. -/
def hexDigit? (c : Char) : Option Nat :=
  if '0' ≤ c && c ≤ '9' then some (c.toNat - '0'.toNat)
  else if 'a' ≤ c && c ≤ 'f' then some (c.toNat - 'a'.toNat + 10)
  else if 'A' ≤ c && c ≤ 'F' then some (c.toNat - 'A'.toNat + 10)
  else none

/-- The number that hexadecimal digits write. -/
def hexNumber? (digits : List Char) : Option Nat :=
  digits.foldlM (fun n c => (hexDigit? c).map (16 * n + ·)) 0

/-- The character of a code point, unless it is a surrogate or out of range. -/
def charOf? (n : Nat) : Option Char :=
  if h : n.isValidChar then some (Char.ofNatAux n h) else none

/-- The character that an escape of one letter stands for. -/
def escape? : Char → Option Char
  | 'b' => some '\x08'
  | 't' => some '\t'
  | 'n' => some '\n'
  | 'f' => some '\x0c'
  | 'r' => some '\r'
  | '"' => some '"'
  | '\\' => some '\\'
  | _ => none

/-- How many hexadecimal digits follow the letter of an escape. -/
def escapeDigits? : Char → Option Nat
  | 'u' => some 4
  | 'U' => some 8
  | _ => none

/-- The character written by an escape after its backslash, and how many characters write
it. -/
def escaped? : List Char → Option (Char × Nat)
  | [] => none
  | c :: cs =>
    match escapeDigits? c with
    | none => (escape? c).map (·, 1)
    | some n =>
      let digits := cs.take n
      if digits.length = n then do
        let x ← charOf? (← hexNumber? digits)
        return (x, n + 1)
      else none

/-! ## Bodies -/

/-- A character in front of a text that was read. -/
def push (c : Char) : Option (List Char × List Char) → Option (List Char × List Char) :=
  Option.map fun (text, rest) => (c :: text, rest)

/-- The rest of a text in single quotes on one line. -/
def literalBody : List Char → Option (List Char × List Char)
  | [] => none
  | c :: cs =>
    if c = '\'' then some ([], cs)
    else if isPlain c then push c (literalBody cs)
    else none

/-- The rest of a text in double quotes on one line, passing over the first `skip`
characters. -/
def basicBody (skip : Nat) : List Char → Option (List Char × List Char)
  | [] => none
  | c :: cs =>
    match skip with
    | skip + 1 => basicBody skip cs
    | 0 =>
      if c = '"' then some ([], cs)
      else if c = '\\' then
        match escaped? cs with
        | some (x, size) => push x (basicBody size cs)
        | none => none
      else if isPlain c then push c (basicBody 0 cs)
      else none

/-- The end of a text between tripled quotes, where at least three quotes stand: up to two
more belong to the text. -/
def closing (quote : Char) (cs : List Char) : Option (List Char × List Char) :=
  let extra := min 2 ((cs.drop 3).takeWhile (· == quote)).length
  some (List.replicate extra quote, cs.drop (3 + extra))

/-- Whether three quotes stand in front. -/
def atClosing (quote : Char) (cs : List Char) : Bool :=
  [quote, quote, quote].isPrefixOf cs

/-- The rest of a text between tripled single quotes. -/
def literalBlock : List Char → Option (List Char × List Char)
  | [] => none
  | c :: cs =>
    if atClosing '\'' (c :: cs) then closing '\'' (c :: cs)
    else if c = '\n' then push '\n' (literalBlock cs)
    else if c = '\r' then
      if cs.head? = some '\n' then literalBlock cs else none
    else if isPlain c then push c (literalBlock cs)
    else none

/-- What a text between tripled double quotes passes over. -/
inductive Skipping where
  | nothing
  /-- So many characters. -/
  | chars (n : Nat)
  /-- The blanks and line breaks after a backslash at the end of a line. -/
  | space
  deriving DecidableEq, Repr

/-- Whether only blanks stand before the end of the line. -/
def lineIsBlank (cs : List Char) : Bool :=
  (afterNewline? (cs.dropWhile isBlank)).isSome

/-- Whether a blank or a line break stands in front. -/
def atSpace (cs : List Char) : Bool :=
  match cs with
  | c :: _ => isBlank c || (afterNewline? cs).isSome
  | [] => false

/-- The rest of a text between tripled double quotes. -/
def basicBlock (skipping : Skipping) : List Char → Option (List Char × List Char)
  | [] => none
  | c :: cs =>
    let read : Option (List Char × List Char) :=
      if atClosing '"' (c :: cs) then closing '"' (c :: cs)
      else if c = '\\' then
        if lineIsBlank cs then basicBlock .space cs
        else
          match escaped? cs with
          | some (x, size) => push x (basicBlock (.chars size) cs)
          | none => none
      else if c = '\n' then push '\n' (basicBlock .nothing cs)
      else if c = '\r' then
        if cs.head? = some '\n' then basicBlock .nothing cs else none
      else if isPlain c then push c (basicBlock .nothing cs)
      else none
    match skipping with
    | .chars (n + 1) => basicBlock (.chars n) cs
    | .chars 0 | .nothing => read
    | .space =>
      if atSpace (c :: cs) then basicBlock .space cs else read

/-! ## Texts -/

/-- A line break right after tripled quotes does not belong to the text. -/
def dropNewline (cs : List Char) : List Char :=
  (afterNewline? cs).getD cs

/-- A text on one line. -/
def lineText : List Char → Option (List Char × List Char)
  | '"' :: cs => basicBody 0 cs
  | '\'' :: cs => literalBody cs
  | _ => none

/-- A text. -/
def text (cs : List Char) : Option (List Char × List Char) :=
  if atClosing '"' cs then basicBlock .nothing (dropNewline (cs.drop 3))
  else if atClosing '\'' cs then literalBlock (dropNewline (cs.drop 3))
  else lineText cs

end HandlerSplit.Toml
