import HandlerSplit.Text.Number
/-!
# Log levels

How much is logged: a level admits the events of its own kind and of every kind before it.
-/

namespace HandlerSplit

/-- How much is logged, and the kinds of events. -/
inductive LogLevel where
  | off | error | warn | info | debug | trace
  deriving DecidableEq, Repr

namespace LogLevel

/-- All levels, each with more that is logged than the one before. -/
def all : List LogLevel :=
  [off, error, warn, info, debug, trace]

/-- How the level is called. -/
def name : LogLevel → String
  | off => "off"
  | error => "error"
  | warn => "warn"
  | info => "info"
  | debug => "debug"
  | trace => "trace"

/-- What the lines of its events start with. -/
def label (level : LogLevel) : String :=
  level.name.toUpper

/-- The level of a name, in capitals or not, or of its position in the order. The empty name
stands for errors. -/
def ofText? (text : String) : Option LogLevel :=
  match Text.natural? text with
  | some n => all[n]?
  | none =>
    if text.isEmpty then some error
    else all.find? fun level => text.toLower == level.name

/-- Whether events of a kind are logged at a level. -/
def admits (level kind : LogLevel) : Bool :=
  all.idxOf kind ≤ all.idxOf level

end LogLevel

end HandlerSplit
