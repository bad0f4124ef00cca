import HandlerSplit.Print.Columns
import HandlerSplit.Print.Style
/-!
# Bracketed lists

Argument lists, parameter lists and composite literals. A list is kept on one line unless
its layout breaks it. Elements that started a source line start a line one level deeper, and
runs of one-line `key: value` elements align their values.
-/

namespace HandlerSplit.Print

/-- The printed form of an element. -/
structure ItemText where
  text : Output
  /-- Key and value of a `key: value` element. -/
  pair : Option (Output × Output)

/-- An element without key. -/
def ItemText.plain (text : Output) : ItemText :=
  ⟨text, none⟩

/-! ## Where a list breaks -/

/-- For each element, whether it starts a new line. A line comment before it (`forced`)
makes it do so. -/
def breaksFrom (forced : Bool) : List Decorations → List Bool × Bool
  | [] => ([], forced)
  | d :: ds =>
    let (breaks, last) := breaksFrom ((d.trailing.map Comment.isLine).getD false) ds
    ((forced || d.breaksLine) :: breaks, last)

/-- The line structure of a list. -/
structure ListShape where
  /-- For each element, whether it starts a new line. -/
  breaks : List Bool
  /-- The closing bracket starts a new line. -/
  closeNewline : Bool
  /-- The list takes more than one line, or holds comments. -/
  isMultiline : Bool

/-- The line structure of a list of elements with the given layout. -/
def ListShape.of (decs : List Decorations) (enclosure : Enclosure) : ListShape :=
  let (breaks, forced) := breaksFrom ((enclosure.openComment.map Comment.isLine).getD false) decs
  let closeNewline :=
    enclosure.closeNewline || forced || enclosure.closeComments.any Comment.isLine
  { breaks := breaks
    closeNewline := closeNewline
    isMultiline := closeNewline || enclosure.hasComments || breaks.any id ||
      decs.any Decorations.hasComments }

/-- The indentation of each element: one level deeper from the first break on. -/
def indentsFrom (indent : Nat) : List Bool → List Nat
  | [] => []
  | true :: breaks => (indent + 1) :: breaks.map fun _ => indent + 1
  | false :: breaks => indent :: indentsFrom indent breaks

/-- The indentation of each element of a list. -/
def ListShape.indents (shape : ListShape) (indent : Nat) : List Nat :=
  if shape.isMultiline then indentsFrom indent shape.breaks
  else shape.breaks.map fun _ => indent

/-! ## Sections -/

/-- The width of an element that counts for sections: of its key if it has one, and 0 if it
takes several lines. -/
def ItemText.keyWidth (item : ItemText) : Nat :=
  if item.text.isMultiline then 0
  else
    match item.pair with
    | some (key, _) => key.width
    | none => item.text.width

/-- The key widths seen so far in a section, as the sum of their logarithms, their number,
and the last of them. -/
structure KeyRun where
  logSum : Float := 0.0
  count : Nat := 0
  last : Nat := 0

/-- Whether a key of the given width starts a new section: if it or the one before it takes
several lines, or if it is wide and far from the geometric mean of the section. -/
def KeyRun.startsSection (run : KeyRun) (width : Nat) : Bool :=
  if run.last == 0 || width == 0 then true
  else if run.count == 0 || (run.last ≤ smallKeyWidth && width ≤ smallKeyWidth) then false
  else
    let mean := (run.logSum / run.count.toFloat).exp
    let ratio := width.toFloat / mean
    keySizeRatio * ratio ≤ 1.0 || keySizeRatio ≤ ratio

/-- The run with one more key. -/
def KeyRun.push (run : KeyRun) (width : Nat) : KeyRun :=
  if width > 0 then ⟨run.logSum + width.toFloat.log, run.count + 1, width⟩
  else { run with last := width }

/-- An element of a broken list before it is put on a line. -/
structure Entry where
  decs : Decorations
  /-- The element starts a new line. -/
  breaks : Bool
  item : ItemText
  /-- What follows the element directly: `...` and the comma. -/
  tail : Output

/-- Whether the comments and lines before an element forget the widths seen so far. -/
def Entry.resetsWidths (e : Entry) : Bool :=
  e.breaks && (e.decs.blankBefore || e.decs.leading.any (·.blankBefore))

/-- For each element, whether a new section starts before it. `shared` says that the element
before it does not start a line. -/
def sectionStarts (run : KeyRun) (shared : Bool) : List Entry → List Bool
  | [] => []
  | e :: es =>
    let run := if e.resetsWidths then { run with logSum := 0.0, count := 0 } else run
    let width := e.item.keyWidth
    (e.breaks && (shared || run.startsSection width)) ::
      sectionStarts (run.push width) (!e.breaks) es

/-! ## Lines of a list -/

/-- Elements that share a line. -/
structure SharedLine where
  texts : List Output
  /-- Key and value, as long as the line holds a single such element. -/
  pair : Option (Output × Output)
  comment : Option Comment

namespace SharedLine

/-- The line with a block comment at its end. -/
def appendInline (l : SharedLine) (comment : Comment) : SharedLine :=
  let tail : Output := [.space, .word comment.text]
  { l with
    texts := l.texts.dropLast ++ (l.texts.getLast?.map (· ++ tail)).toList
    pair := l.pair.map fun (key, value) => (key, value ++ tail) }

/-- The cells of the line. -/
def cells (l : SharedLine) : List Output :=
  let texts :=
    match l.pair, l.texts with
    | some (key, value), [_] => [key, value]
    | _, texts => [Output.joined [.space] texts]
  texts ++ (l.comment.map fun c => [Piece.word c.text]).toList

end SharedLine

/-- A list as far as it has been laid out. -/
structure Gathered where
  /-- What stays on the line of the opening bracket. -/
  head : Output := []
  /-- The lines that are finished. -/
  lines : List Line := []
  /-- The line that may still grow. -/
  current : Option SharedLine := none

namespace Gathered

/-- The finished lines and the current one. -/
def finish (g : Gathered) (indent : Nat) : List Line :=
  g.lines ++ (g.current.map fun l => Line.ofCells indent l.cells).toList

/-- Puts an element on a line; `alone` says that the list has no other. -/
def place (g : Gathered) (indent : Nat) (isFirst alone newSection : Bool) (e : Entry) :
    Gathered :=
  let text := e.item.text ++ e.tail
  if e.breaks then
    let pair :=
      match e.item.pair with
      | some (key, value) =>
        if !alone && !e.item.text.isMultiline then some (key ++ [.word ":"], value ++ e.tail)
        else none
      | none => none
    { g with
      lines := g.finish indent ++ leadingLines indent e.decs false ++
        if newSection then [.sectionEnd] else []
      current := some ⟨[text], pair, none⟩ }
  else
    match g.current with
    | some l => { g with current := some { l with texts := l.texts ++ [text] } }
    | none => { g with head := g.head ++ (if isFirst then [] else [.space]) ++ text }

/-- Puts the comment behind an element where it belongs: a line comment in a cell of its own,
a block comment directly behind the element. -/
def comment (g : Gathered) : Option Comment → Gathered
  | none => g
  | some c =>
    match g.current with
    | some l =>
      if c.isLine then { g with current := some { l with comment := some c } }
      else { g with current := some (l.appendInline c) }
    | none => { g with head := g.head ++ [.space, .word c.text] }

/-- Lays out the elements of a list. -/
def entries (indent : Nat) (alone : Bool) :
    Gathered → Bool → List Entry → List Bool → Gathered
  | g, isFirst, e :: es, s :: sections =>
    entries indent alone ((g.place indent isFirst alone s e).comment e.decs.trailing) false es
      sections
  | g, _, _, _ => g

end Gathered

/-! ## The whole list -/

/-- What follows the element at position `i` of `n`: `...` after the last of a variadic call,
and a comma after all but the last, or after all if the closing bracket has a line of its
own. -/
def tailOf (variadic closeNewline : Bool) (n i : Nat) : Output :=
  (if variadic && i + 1 == n then [.word "..."] else []) ++
    if i + 1 < n || closeNewline then [.word ","] else []

/-- The comment after an opening bracket, with the space before it. -/
def openCommentOutput (comment : Option Comment) : Output :=
  match comment with
  | some c => [.space, .word c.text]
  | none => []

/-- A bracketed list. `items` are the elements printed at the indentations of the shape. -/
def bracketed (style : Style) (opening closing : String) (decs : List Decorations)
    (enclosure : Enclosure) (indent : Nat) (variadic : Bool) (items : List ItemText) : Output :=
  let shape := ListShape.of decs enclosure
  if !shape.isMultiline then
    let dots : Output := if variadic && !items.isEmpty then [.word "..."] else []
    [.word opening] ++ Output.commaSeparated (items.map (·.text)) ++ dots ++ [.word closing]
  else
    let inner := indent + 1
    let tails := (List.range items.length).map (tailOf variadic shape.closeNewline items.length)
    let entries := ((decs.zip shape.breaks).zip (items.zip tails)).map
      fun ((decs, breaks), (item, tail)) => Entry.mk decs breaks item tail
    let gathered := Gathered.entries inner (items.length ≤ 1) {} true entries
      (sectionStarts {} false entries)
    let lines := gathered.finish inner
    let start : Output :=
      [.word opening] ++ openCommentOutput enclosure.openComment ++ gathered.head
    if shape.closeNewline then
      let lines := lines ++
        commentLines inner (!lines.any Line.isRow) enclosure.closeComments
      start ++ [.newline] ++ renderLines style.align lines ++ [.tabs indent, .word closing]
    else
      let body := renderLines style.align lines
      let body := if body.isBlank then [] else .newline :: body.dropEnd '\n'
      start ++ body ++
        enclosure.closeComments.flatMap (fun c => [.space, .word c.text]) ++ [.word closing]

/-- Brackets around lines of their own. -/
def braced (style : Style) (opening closing : String) (enclosure : Enclosure) (indent : Nat)
    (lines : List Line) : Output :=
  [.word opening] ++ openCommentOutput enclosure.openComment ++ [.newline] ++
    renderLines style.align lines ++ [.tabs indent, .word closing]

end HandlerSplit.Print
