/-!
# Layout records

What the tree remembers of the way its source was laid out. Every node that has a line or a
list slot of its own carries `Decorations`; every bracketed list carries an `Enclosure`.
-/

namespace HandlerSplit

/-- A comment, with its delimiters. -/
structure Comment where
  text : String
  /-- An empty line separates the comment from what stands before it. -/
  blankBefore : Bool := false
  deriving DecidableEq, Repr

/-- A comment that ends with its line. -/
def Comment.isLine (c : Comment) : Bool :=
  c.text.toList.take 2 == ['/', '/']

/-- The layout of a node that occupies its own line or list slot. -/
structure Decorations where
  /-- An empty line directly precedes the node, after its leading comments. -/
  blankBefore : Bool := false
  /-- The node starts a new source line. -/
  newlineBefore : Bool := false
  /-- Comments on the lines before the node. -/
  leading : List Comment := []
  /-- A comment after the node, on the same line. -/
  trailing : Option Comment := none
  deriving DecidableEq, Repr

namespace Decorations

/-- No layout at all. -/
def plain : Decorations := {}

/-- A node that starts after an empty line. -/
def blankLine : Decorations := { blankBefore := true, newlineBefore := true }

/-- A node on its own line. -/
def ownLine : Decorations := { newlineBefore := true }

/-- Whether the node has to start a new line when it is printed. -/
def breaksLine (d : Decorations) : Bool :=
  d.newlineBefore || !d.leading.isEmpty

/-- Whether any comment is attached. -/
def hasComments (d : Decorations) : Bool :=
  !d.leading.isEmpty || d.trailing.isSome

end Decorations

/-- The layout of a bracketed list. -/
structure Enclosure where
  /-- A comment after the opening bracket, on the same line. -/
  openComment : Option Comment := none
  /-- The closing bracket starts a new line. -/
  closeNewline : Bool := false
  /-- Comments between the last element and the closing bracket. -/
  closeComments : List Comment := []
  deriving DecidableEq, Repr

namespace Enclosure

/-- A list on one line. -/
def plain : Enclosure := {}

/-- A list whose closing bracket has a line of its own. -/
def multiLine : Enclosure := { closeNewline := true }

/-- Whether any comment is attached. -/
def hasComments (e : Enclosure) : Bool :=
  e.openComment.isSome || !e.closeComments.isEmpty

end Enclosure

end HandlerSplit
