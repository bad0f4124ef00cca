/-!
# Printing style

The two choices the printer leaves open, and the constants of its layout.
-/

namespace HandlerSplit.Print

/-- How a tree is printed. -/
structure Style where
  /-- Keys, field types and trailing comments of neighbouring rows are aligned. -/
  align : Bool := true
  /-- The greatest width of a function that is kept on one line. -/
  oneLineLimit : Nat := 100
  deriving DecidableEq, Repr

/-- The most statements of a function that is kept on one line. -/
def oneLineStatements : Nat := 5

/-- The width that a header of several lines counts as. Only a limit that is at least as great
keeps a body on one line behind such a header. -/
def multilineWidth : Nat := Nat.pow 2 63 - 1

/-- Keys up to this width share an aligned section with their neighbours, whatever their
widths. -/
def smallKeyWidth : Nat := 40

/-- A key this many times as wide as the mean of the keys before it, or narrower in that
proportion, starts a new section. -/
def keySizeRatio : Float := 2.5

end HandlerSplit.Print
