import HandlerSplit.Toml.Moment
import HandlerSplit.Toml.Value
/-!
# Reading configuration documents

A document is a sequence of lines: entries `key = value`, headers `[key]` that open a table
for the entries after them, comments, and empty lines. Keys are bare words or quoted texts,
joined by points. The documents are the part of TOML in which configurations are written. No
setting is a list of headed tables, so a document that holds one is refused as a whole.
-/

namespace HandlerSplit.Toml

namespace Reader

/-- Passes over blanks. -/
def blanks : Reader Unit := do
  let _ ← takeAll isBlank

/-- Takes a line break. -/
def newline : Reader Unit :=
  fun cs => (afterNewline? cs).map ((), ·)

/-- Takes the rest of a line: blanks, a comment if there is one, and a line break, which the
last line need not have. -/
def lineEnd : Reader Unit := do
  blanks
  if (← next?) = some '#' then
    let _ ← takeAll isPlain
  if (← next?).isSome then newline

/-- What is left after blanks, line breaks and comments, each comment with its line break. -/
def afterGap? (inComment : Bool) : List Char → Option (List Char)
  | [] => if inComment then none else some []
  | c :: cs =>
    if c = '\n' then afterGap? false cs
    else if c = '\r' then
      if cs.head? = some '\n' then afterGap? false cs else none
    else if inComment then
      if isPlain c then afterGap? true cs else none
    else if isBlank c then afterGap? false cs
    else if c = '#' then afterGap? true cs
    else some (c :: cs)

/-- Passes over blanks, line breaks and comments. -/
def gap : Reader Unit :=
  fun cs => (afterGap? false cs).map ((), ·)

/-! ## Keys -/

/-- Whether a character may stand in a bare key. -/
def isBare (c : Char) : Bool :=
  c.isAlphanum || c == '-' || c == '_'

/-- A part of a key: a text on one line or a bare word. -/
def keyPart : Reader String := do
  let next ← next?
  if next = some '"' || next = some '\'' then
    let part ← lineText
    return String.ofList part
  else
    let part ← takeAll isBare
    if part.isEmpty then refuse else return String.ofList part

/-- Values may be nested, and keys have parts, less than so often. -/
def nestingLimit : Nat := 80

/-- The parts of a key with the blanks around it: the first part and those after points. -/
def keyParts : Nat → Reader (String × List String)
  | 0 => refuse
  | fuel + 1 => do
    blanks
    let part ← keyPart
    blanks
    if (← next?) = some '.' then
      word ['.']
      let (second, more) ← keyParts fuel
      return (part, second :: more)
    else return (part, [])

/-- A key with the blanks around it. -/
def key (fuel : Nat) : Reader (String × List String) := do
  let (first, more) ← keyParts fuel
  require (more.length + 1 < nestingLimit)
  return (first, more)

/-- An entry: the tables on the way, its own key, and its value. -/
def entry (fuel : Nat) (value : Reader Value) : Reader (List String × String × Value) := do
  let (first, more) ← key fuel
  let parts := first :: more
  word ['=']
  blanks
  let v ← value
  return (parts.dropLast, (more.getLast?).getD first, v)

/-- Adds an entry to a table. -/
def adding (entries : Entries) : List String × String × Value → Reader Entries
  | (steps, key, value) =>
    match entries.insert steps key value with
    | some entries => return entries
    | none => refuse

/-! ## Values -/

mutual

/-- A value, within so many others. -/
def value (depth : Nat) : Nat → Reader Value
  | 0 => refuse
  | fuel + 1 => do
    match ← next? with
    | some '"' | some '\'' =>
      let t ← text
      return .text (String.ofList t)
    | some 't' =>
      word "true".toList
      return .truth true
    | some 'f' =>
      word "false".toList
      return .truth false
    | some '[' =>
      require (depth + 1 < nestingLimit)
      word ['[']
      return .array (← items (depth + 1) fuel)
    | some '\x7b' =>
      require (depth + 1 < nestingLimit)
      word ['\x7b']
      blanks
      if (← next?) = some '\x7d' then
        word ['\x7d']
        return .table .inline []
      else return .table .inline (← pairs (depth + 1) fuel [])
    | _ =>
      moment <|> number
      return .other

/-- The items of an array, to its closing bracket. A comma may follow the last. -/
def items (depth : Nat) : Nat → Reader (List Value)
  | 0 => refuse
  | fuel + 1 => do
    gap
    if (← next?) = some ']' then
      word [']']
      return []
    else
      let v ← value depth fuel
      gap
      if (← next?) = some ',' then
        word [',']
        return v :: (← items depth fuel)
      else
        word [']']
        return [v]

/-- The entries of a table that is written as a value, to its closing brace. -/
def pairs (depth : Nat) : Nat → Entries → Reader Entries
  | 0, _ => refuse
  | fuel + 1, entries => do
    let entries ← adding entries (← entry fuel (value depth fuel))
    blanks
    if (← next?) = some ',' then
      word [',']
      pairs depth fuel entries
    else
      word ['\x7d']
      return entries

end

/-! ## Documents -/

/-- Reads the lines of a document, with the entries so far and the open table. -/
def lines : Nat → List String → Entries → Reader Entries
  | 0, _, _ => refuse
  | fuel + 1, opened, entries => do
    blanks
    match ← next? with
    | none => return entries
    | some '[' =>
      word ['[']
      let (first, more) ← key fuel
      word [']']
      lineEnd
      match entries.openTable (first :: more) with
      | some entries => lines fuel (first :: more) entries
      | none => refuse
    | some c =>
      if c = '#' || c = '\n' || c = '\r' then
        lineEnd
        lines fuel opened entries
      else
        let (steps, key, v) ← entry fuel (value 0 fuel)
        lineEnd
        match entries.within opened (·.insert steps key v) with
        | some entries => lines fuel opened entries
        | none => refuse

end Reader

/-- The entries of a document. A byte order mark in front of it is passed over. -/
def read (document : String) : Option Entries :=
  let cs := document.toList
  let cs := if cs.head? = some '\ufeff' then cs.drop 1 else cs
  (Reader.lines (2 * cs.length + 2) [] [] cs).map (·.1)

end HandlerSplit.Toml
