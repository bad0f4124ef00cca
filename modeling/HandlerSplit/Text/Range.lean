/-!
# Character ranges

A class of characters is a table of closed code point ranges.
-/

namespace HandlerSplit.Text

/-- Whether a code point lies in one of the closed ranges. -/
def inRanges (table : List (Nat × Nat)) (n : Nat) : Bool :=
  table.any fun (low, high) => low ≤ n && n ≤ high

end HandlerSplit.Text
