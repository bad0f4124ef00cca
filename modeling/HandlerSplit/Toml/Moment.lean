import HandlerSplit.Toml.Number
/-!
# Dates and times in configuration documents

A moment is a date, a time of day, or both, and then perhaps with the distance of local time
from universal time. Dates are those of the calendar, and a minute may have a leap second.
-/

namespace HandlerSplit.Toml.Reader

/-- Takes a number of so many digits. -/
def fixedNumber (size : Nat) : Reader Nat := fun cs =>
  let written := cs.take size
  if written.length = size && written.all Char.isDigit then
    some (ofDigits 10 written, cs.drop size)
  else none

/-- Takes a number of two digits that lies within bounds. -/
def twoDigits (low high : Nat) : Reader Nat := do
  let n ← fixedNumber 2
  require (low ≤ n && n ≤ high)
  return n

/-- Whether a year has a leap day. -/
def isLeapYear (year : Nat) : Bool :=
  year % 4 == 0 && (year % 100 != 0 || year % 400 == 0)

/-- How many days a month has. -/
def daysOfMonth (year month : Nat) : Nat :=
  if month = 2 then (if isLeapYear year then 29 else 28)
  else if [4, 6, 9, 11].contains month then 30
  else 31

/-- Takes a date. -/
def date : Reader Unit := do
  let year ← fixedNumber 4
  word ['-']
  let month ← twoDigits 1 12
  word ['-']
  let _ ← twoDigits 1 (daysOfMonth year month)

/-- Takes a time of day. -/
def timeOfDay : Reader Unit := do
  let _ ← twoDigits 0 23
  word [':']
  let _ ← twoDigits 0 59
  word [':']
  let _ ← twoDigits 0 60
  if (← next?) = some '.' then
    word ['.']
    let _ ← one Char.isDigit
    let _ ← takeAll Char.isDigit

/-- Takes the distance from universal time. -/
def timeOffset : Reader Unit := do
  let sign ← one fun c => ['Z', 'z', '+', '-'].contains c
  if sign == '+' || sign == '-' then
    let _ ← twoDigits 0 23
    word [':']
    let _ ← twoDigits 0 59

/-- Takes the time after a date. -/
def timeAfterDate : Reader Unit := do
  let _ ← one fun c => ['T', 't', ' '].contains c
  timeOfDay
  let _ ← optional timeOffset

/-- Takes a moment. -/
def moment : Reader Unit :=
  (do date; let _ ← optional timeAfterDate) <|> timeOfDay

end HandlerSplit.Toml.Reader
