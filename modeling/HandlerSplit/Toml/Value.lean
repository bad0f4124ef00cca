/-!
# Configuration values

The values a configuration document can hold, and how its tables grow. A table may be made by
a header, by a longer header that passes through it, by a dotted key, or be written out as a
value. Headers open a table once; dotted keys extend only tables that no header has opened.
-/

namespace HandlerSplit.Toml

/-- How a table was made, which decides how it may still grow. -/
inductive TableForm where
  /-- Opened by its own header. -/
  | headed
  /-- Passed through by the header of a table inside it. -/
  | implied
  /-- Made by a dotted key. -/
  | dotted
  /-- Written as a value; it does not grow. -/
  | inline
  deriving DecidableEq, Repr

/-- The values of a document. -/
inductive Value where
  | text (s : String)
  | truth (b : Bool)
  /-- A number, a date or a time. No setting is one, so it is not kept which. -/
  | other
  | array (items : List Value)
  | table (form : TableForm) (entries : List (String × Value))

/-- The entries of a table, in the order in which they are made. -/
abbrev Entries := List (String × Value)

namespace Entries

/-- The value of a key. -/
def get? (entries : Entries) (key : String) : Option Value :=
  (entries.find? (·.1 == key)).map (·.2)

/-- The entries with another value for a key they hold. -/
def replace (entries : Entries) (key : String) (value : Value) : Entries :=
  entries.map fun e => if e.1 == key then (key, value) else e

/-- Whether a dotted key may pass through a table, or end in it. -/
def extendable (form : TableForm) (last : Bool) : Bool :=
  match form with
  | .dotted => true
  | .implied => !last
  | .headed | .inline => false

/-- Adds an entry under a dotted key. The key must be new, and the tables on the way must be
extendable. -/
def insert : List String → String → Value → Entries → Option Entries
  | [], key, value, entries =>
    if (entries.get? key).isSome then none else some (entries ++ [(key, value)])
  | step :: steps, key, value, entries =>
    match entries.get? step with
    | none => do
      let inner ← insert steps key value []
      return entries ++ [(step, .table .dotted inner)]
    | some (.table form inner) =>
      if extendable form steps.isEmpty then do
        let inner ← insert steps key value inner
        return entries.replace step (.table form inner)
      else none
    | some _ => none

/-- Opens the table of a header. It must be new or only implied so far; the tables on the way
must not be written as values. -/
def openTable : List String → Entries → Option Entries
  | [], _ => none
  | [key], entries =>
    match entries.get? key with
    | none => some (entries ++ [(key, .table .headed [])])
    | some (.table .implied inner) => some (entries.replace key (.table .headed inner))
    | some _ => none
  | step :: steps, entries =>
    match entries.get? step with
    | none => do
      let inner ← openTable steps []
      return entries ++ [(step, .table .implied inner)]
    | some (.table form inner) =>
      if form = .inline then none
      else do
        let inner ← openTable steps inner
        return entries.replace step (.table form inner)
    | some _ => none

/-- Changes the entries of an open table. -/
def within : List String → (Entries → Option Entries) → Entries → Option Entries
  | [], change, entries => change entries
  | step :: steps, change, entries =>
    match entries.get? step with
    | some (.table form inner) => do
      let inner ← within steps change inner
      return entries.replace step (.table form inner)
    | _ => none

end Entries

end HandlerSplit.Toml
