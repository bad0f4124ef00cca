import HandlerSplit.Text.Blank
import HandlerSplit.Text.Letter
/-!
# Patterns

Which texts are regular expressions. `isPattern` reads a text from left to right: groups with
their flags, classes in square brackets, repetitions, escapes, and literal characters.

Patterns are matched byte by byte and without tables of characters. So classes such as `\d`
and differences of case are known for ASCII alone and have to stand where the flag `u` is
switched off, and what stands there must not match a part of a character. Numbers of
repetitions in braces are not read. The parts of a pattern may be nested `nestingLimit` deep.
-/

namespace HandlerSplit.Text

/-! ## Flags -/

/-- The flags that decide whether a part of a pattern is well-formed. -/
structure PatternFlags where
  /-- `i`: case is ignored. -/
  caseless : Bool := false
  /-- `u`: characters stand for themselves, not for bytes. -/
  unicode : Bool := true
  /-- `x`: white space is left out, and so is the rest of a line after `#`. -/
  spaced : Bool := false
  deriving DecidableEq, Repr

/-- The letters that stand for flags. -/
def flagLetters : List Char :=
  ['i', 'm', 's', 'U', 'u', 'R', 'x']

/-- The flags with one of them switched. -/
def PatternFlags.switch (f : PatternFlags) (letter : Char) (on : Bool) : PatternFlags :=
  match letter with
  | 'i' => { f with caseless := on }
  | 'u' => { f with unicode := on }
  | 'x' => { f with spaced := on }
  | _ => f

/-- The text after white space and comments. -/
def afterBlanks (inComment : Bool) : List Char → List Char
  | [] => []
  | c :: cs =>
    if inComment then afterBlanks (c != '\n') cs
    else if isBlank c then afterBlanks false cs
    else if c == '#' then afterBlanks true cs
    else c :: cs

/-- The text after what the flags leave out. -/
def PatternFlags.skip (f : PatternFlags) (cs : List Char) : List Char :=
  if f.spaced then afterBlanks false cs else cs

/-- The character that tells whether a hyphen is a sign of a range. White space before it is
passed over where the flags leave it out, and so is the sign of a comment, but not the
comment. -/
def PatternFlags.peek? (f : PatternFlags) (cs : List Char) : Option Char :=
  if f.spaced then
    match cs.dropWhile isBlank with
    | '#' :: rest => (rest.dropWhile isBlank).head?
    | rest => rest.head?
  else cs.head?

/-- Whether characters would have to be known together with those that differ in case. -/
def PatternFlags.folds (f : PatternFlags) : Bool :=
  f.unicode && f.caseless

/-- Flags as they are read between `(?` and `:` or `)`. -/
structure FlagList where
  flags : PatternFlags
  /-- What has been read; no sign may be repeated. -/
  signs : List Char := []

/-- Reads flags, up to the character that ends them. -/
def readFlags (l : FlagList) : List Char → Option (FlagList × Char × List Char)
  | [] => none
  | c :: cs =>
    if c == ':' || c == ')' then
      if l.signs.getLast? == some '-' then none else some (l, c, cs)
    else if l.signs.contains c then none
    else if c == '-' then readFlags { l with signs := l.signs ++ [c] } cs
    else if flagLetters.contains c then
      let on := !l.signs.contains '-'
      readFlags ⟨l.flags.switch c on, l.signs ++ [c]⟩ cs
    else none

/-! ## Nesting -/

/-- How deep the parts of a pattern may be nested. -/
def nestingLimit : Nat := 250

/-- How deep the parts are nested that stand beside each other. Several of them are a part of
their own, which is one level more. -/
def besideDepth : List Nat → Nat
  | [] => 0
  | [depth] => depth
  | depths => depths.foldl max 0 + 1

/-! ## Single items -/

/-- What stands for one item of a pattern. -/
inductive PatternItem where
  /-- A character, written as a byte when two hexadecimal digits stand for it. -/
  | literal (c : Char) (isByte : Bool)
  /-- A class such as `\d`, or `\D` when it is negated. -/
  | letters (negated : Bool)
  /-- The begin or end of the text. -/
  | edge
  /-- The begin or end of a word. -/
  | wordEdge
  deriving DecidableEq, Repr

/-- The value of a hexadecimal digit. -/
def hexValue? (c : Char) : Option Nat :=
  if c.isDigit then some (c.toNat - '0'.toNat)
  else if 'a' ≤ c && c ≤ 'f' then some (c.toNat - 'a'.toNat + 10)
  else if 'A' ≤ c && c ≤ 'F' then some (c.toNat - 'A'.toNat + 10)
  else none

/-- Reads a number of hexadecimal digits, given the value of those before them. -/
def readHex (f : PatternFlags) (value : Nat) : Nat → List Char → Option (Nat × List Char)
  | 0, cs => some (value, cs)
  | _ + 1, [] => none
  | n + 1, c :: cs => do
    readHex f (16 * value + (← hexValue? c)) n (f.skip cs)

/-- Reads the character that hexadecimal digits stand for. -/
def readCode (f : PatternFlags) (digits : Nat) (isByte : Bool) (cs : List Char) :
    Option (PatternItem × List Char) := do
  let (code, cs) ← readHex f 0 digits (f.skip cs)
  if code.isValidChar then return (.literal (Char.ofNat code) isByte, cs) else none

/-- Reads what follows a backslash. A mark of ASCII stands for itself, and so does no letter
or digit. -/
def readEscape (f : PatternFlags) : List Char → Option (PatternItem × List Char)
  | [] => none
  | c :: cs =>
    match c with
    | 'x' => readCode f 2 true cs
    | 'u' => readCode f 4 false cs
    | 'U' => readCode f 8 false cs
    | 'd' | 's' | 'w' => some (.letters false, cs)
    | 'D' | 'S' | 'W' => some (.letters true, cs)
    | 'a' => some (.literal '\x07' false, cs)
    | 'f' => some (.literal '\x0c' false, cs)
    | 't' => some (.literal '\t' false, cs)
    | 'n' => some (.literal '\n' false, cs)
    | 'r' => some (.literal '\r' false, cs)
    | 'v' => some (.literal '\x0b' false, cs)
    | 'A' | 'z' => some (.edge, cs)
    | 'b' | 'B' | '<' | '>' => some (.wordEdge, cs)
    | c => if c.toNat < 0x80 && !c.isAlphanum then some (.literal c false, cs) else none

/-- Whether an item may stand outside of square brackets. -/
def PatternItem.isAllowed (f : PatternFlags) : PatternItem → Bool
  | literal c isByte => if f.unicode then !f.folds else !isByte || c.toNat < 0x80
  | letters negated => !f.unicode && !negated
  | edge => true
  | wordEdge => !f.unicode

/-! ## Classes -/

/-- The names that may stand between `[:` and `:]`. -/
def classNames : List String :=
  ["alnum", "alpha", "ascii", "blank", "cntrl", "digit", "graph", "lower", "print", "punct",
    "space", "upper", "word", "xdigit"]

/-- Reads a named class up to its end, if one follows the opening bracket, and answers
whether it is negated. -/
def readNamedClass? : List Char → Option (Bool × List Char)
  | ':' :: cs =>
    let negated := cs.head? == some '^'
    let cs := if negated then cs.tail else cs
    match cs.dropWhile (· != ':') with
    | ':' :: ']' :: rest =>
      if classNames.contains (String.ofList (cs.takeWhile (· != ':'))) then some (negated, rest)
      else none
    | _ => none
  | _ => none

/-- Whether a set of characters may be negated: bytes must not stand for a part of a
character. -/
def mayNegate (f : PatternFlags) (negated : Bool) : Bool :=
  f.unicode || !negated

/-- Reads a sign of negation after an opening bracket. -/
def openClass (f : PatternFlags) (cs : List Char) : Option (List Char) :=
  match f.skip cs with
  | '^' :: cs => if mayNegate f true then some cs else none
  | cs => some cs

/-- Reads one end of a range or a single item of a class. -/
def readClassItem (f : PatternFlags) : List Char → Option (PatternItem × List Char)
  | [] => none
  | '\\' :: cs => readEscape f cs
  | c :: cs => some (.literal c false, cs)

/-- Whether an item may stand in a class. -/
def PatternItem.isMember (f : PatternFlags) : PatternItem → Bool
  | literal c _ => if f.unicode then !f.folds else c.toNat < 0x80
  | letters negated => !f.unicode && !negated
  | edge | wordEdge => false

/-- Whether two items are the ends of a range. -/
def isRange (f : PatternFlags) : PatternItem → PatternItem → Bool
  | .literal low isByte, .literal high isByte' =>
    low ≤ high && (PatternItem.literal low isByte).isMember f &&
      (PatternItem.literal high isByte').isMember f
  | _, _ => false

/-- Reads an item of a class, or a range of them. A hyphen before a closing bracket or another
hyphen is no sign of a range. -/
def readMember (f : PatternFlags) (cs : List Char) : Option (List Char) := do
  let (low, cs) ← readClassItem f cs
  let single := if low.isMember f then some (f.skip cs) else none
  match f.skip cs with
  | '-' :: rest =>
    if f.peek? rest == some ']' || f.peek? rest == some '-' then single
    else
      let (high, rest) ← readClassItem f (f.skip rest)
      if isRange f low high then return rest else none
  | _ => single

/-- A place in a class. -/
inductive ClassPlace where
  /-- Behind the opening bracket and a sign of negation. -/
  | first
  /-- Behind hyphens that stand first. -/
  | hyphens
  | inside
  deriving DecidableEq, Repr

/-- A class as far as it has been read. -/
structure ClassState where
  place : ClassPlace := .first
  /-- The depths of the members since the last sign between two sets. -/
  members : List Nat := []
  /-- The depth of the set before that sign. -/
  left : Option Nat := none

namespace ClassState

/-- Whether a character stands for itself at the start of a class: a bracket that would
close it at once, or a hyphen. -/
def standsForItself (s : ClassState) (c : Char) : Bool :=
  match s.place with
  | .first => c == ']' || c == '-'
  | .hyphens => c == '-'
  | .inside => false

/-- The class with one more member. -/
def insert (s : ClassState) (depth : Nat) : ClassState :=
  { s with place := .inside, members := depth :: s.members }

/-- How deep the sets of the class are nested. The signs between them bind to the left. -/
def setDepth (s : ClassState) : Nat :=
  match s.left with
  | some depth => max depth (besideDepth s.members) + 1
  | none => besideDepth s.members

/-- The class after a sign between two sets. -/
def afterSign (s : ClassState) : ClassState :=
  { place := .inside, left := some s.setDepth }

end ClassState

/-- Reads a class to its end and answers how deep it is nested. `outer` are the classes around
it, innermost first, and there are at most `n` steps. -/
def readClass (f : PatternFlags) :
    Nat → List ClassState → ClassState → List Char → Option (Nat × List Char)
  | 0, _, _, _ => none
  | n + 1, outer, s, cs =>
    match f.skip cs with
    | [] => none
    | c :: cs =>
      if s.standsForItself c then
        if (PatternItem.literal c false).isMember f then
          let place := if c == '-' then .hyphens else .inside
          readClass f n outer { s.insert 0 with place := place } cs
        else none
      else
        match c, cs with
        | '[', cs =>
          match readNamedClass? cs with
          | some (negated, rest) =>
            if mayNegate f negated && !f.folds then readClass f n outer (s.insert 0) rest
            else none
          | none => do
            readClass f n (s :: outer) {} (← openClass f cs)
        | ']', cs =>
          match outer with
          | [] => some (s.setDepth + 1, cs)
          | around :: outer => readClass f n outer (around.insert (s.setDepth + 1)) cs
        | '&', '&' :: cs | '-', '-' :: cs | '~', '~' :: cs => readClass f n outer s.afterSign cs
        | c, cs => do
          readClass f n outer (s.insert 0) (← readMember f (c :: cs))

/-! ## Groups -/

/-- The place where a group opens. -/
structure GroupPlace where
  flags : PatternFlags := {}
  /-- The depths of the parts before this place, last first, back to a bar. -/
  parts : List Nat := []
  /-- The depths of what stands between bars before that. -/
  branches : List Nat := []

/-- How deep what stands between two parentheses is nested. -/
def GroupPlace.depth (p : GroupPlace) : Nat :=
  besideDepth (besideDepth p.parts :: p.branches)

/-- How far a pattern has been read. -/
structure PatternState extends GroupPlace where
  /-- Where the open groups begin, innermost first. -/
  outer : List GroupPlace := []
  /-- Something that may be repeated stands before this place. -/
  isRepeatable : Bool := false
  /-- The names of groups. -/
  names : List (List Char) := []

namespace PatternState

/-- The state after a part that may be repeated. -/
def afterPart (s : PatternState) (depth : Nat) : PatternState :=
  { s with parts := depth :: s.parts, isRepeatable := true }

/-- The state after flags that stand alone. -/
def afterFlags (s : PatternState) (flags : PatternFlags) : PatternState :=
  { s with flags := flags, parts := 0 :: s.parts, isRepeatable := false }

/-- The state after a bar. -/
def afterBar (s : PatternState) : PatternState :=
  { s with parts := [], branches := besideDepth s.parts :: s.branches, isRepeatable := false }

/-- The state after a sign of repetition. -/
def afterSign (s : PatternState) : Option PatternState :=
  match s.isRepeatable, s.parts with
  | true, depth :: parts => some { s with parts := (depth + 1) :: parts }
  | _, _ => none

/-- The state at the start of a group. -/
def inGroup (s : PatternState) (flags : PatternFlags) : PatternState :=
  { flags := flags, outer := s.toGroupPlace :: s.outer, names := s.names }

/-- The state after a closing parenthesis. -/
def closeGroup (s : PatternState) : Option PatternState :=
  match s.outer with
  | place :: outer =>
    some { place with
      parts := (s.depth + 1) :: place.parts, outer := outer, isRepeatable := true,
      names := s.names }
  | [] => none

/-- Whether a character may stand in the name of a group. -/
def isNameChar (isFirst : Bool) (c : Char) : Bool :=
  if isFirst then startsIdent c else continuesIdent c || c == '.' || c == '[' || c == ']'

/-- Reads the name of a group and the angle bracket after it. -/
def openNamed (s : PatternState) (cs : List Char) : Option (PatternState × List Char) :=
  let name := cs.takeWhile (· != '>')
  match name, cs.dropWhile (· != '>') with
  | c :: others, _ :: rest =>
    if isNameChar true c && others.all (isNameChar false) && !s.names.contains name then
      some ({ s.inGroup s.flags with names := name :: s.names }, rest)
    else none
  | _, _ => none

/-- Reads what follows an opening parenthesis, up to the contents of the group. Flags may
stand alone, and then hold up to the end of the group around them. There is no looking
around. -/
def openGroup (s : PatternState) (cs : List Char) : Option (PatternState × List Char) :=
  match s.flags.skip cs with
  | '?' :: '=' :: _ | '?' :: '!' :: _ | '?' :: '<' :: '=' :: _ | '?' :: '<' :: '!' :: _ => none
  | '?' :: 'P' :: '<' :: cs => s.openNamed cs
  | '?' :: '<' :: cs => s.openNamed cs
  | '?' :: cs => do
    let (l, last, rest) ← readFlags { flags := s.flags } cs
    if last == ':' then return (s.inGroup l.flags, rest)
    else if l.signs.isEmpty then none
    else return (s.afterFlags l.flags, rest)
  | cs => some (s.inGroup s.flags, cs)

/-- Whether a pattern may end here. -/
def isComplete (s : PatternState) : Bool :=
  s.outer.isEmpty && s.depth ≤ nestingLimit

end PatternState

/-- The text after a sign of repetition: a question mark makes it reluctant. -/
def afterRepetition : List Char → List Char
  | '?' :: cs => cs
  | cs => cs

/-- Whether a text is a pattern, from a state on and in at most `n` steps. -/
def isPatternFrom : Nat → PatternState → List Char → Bool
  | 0, _, _ => false
  | n + 1, s, cs =>
    match s.flags.skip cs with
    | [] => s.isComplete
    | '(' :: cs =>
      match s.openGroup cs with
      | some (s, rest) => isPatternFrom n s rest
      | none => false
    | ')' :: cs =>
      match s.closeGroup with
      | some s => isPatternFrom n s cs
      | none => false
    | '|' :: cs => isPatternFrom n s.afterBar cs
    | '[' :: cs =>
      match (openClass s.flags cs).bind (readClass s.flags n [] {}) with
      | some (depth, rest) => isPatternFrom n (s.afterPart depth) rest
      | none => false
    | '{' :: _ => false
    | '\\' :: cs =>
      match readEscape s.flags cs with
      | some (item, rest) => item.isAllowed s.flags && isPatternFrom n (s.afterPart 0) rest
      | none => false
    | '.' :: cs => s.flags.unicode && isPatternFrom n (s.afterPart 0) cs
    | c :: cs =>
      if c == '?' || c == '*' || c == '+' then
        match s.afterSign with
        | some s => isPatternFrom n s (afterRepetition cs)
        | none => false
      else
        let item : PatternItem := if c == '^' || c == '$' then .edge else .literal c false
        item.isAllowed s.flags && isPatternFrom n (s.afterPart 0) cs

/-- Whether a text is a pattern. -/
def isPattern (cs : List Char) : Bool :=
  isPatternFrom (cs.length + 1) {} cs

end HandlerSplit.Text
