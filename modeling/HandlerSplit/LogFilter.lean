import HandlerSplit.Text.Number
import HandlerSplit.Text.Pattern
import HandlerSplit.Trace
/-!
# Log filters

A filter is a list of directives with commas between them. A directive is a level, or says
what a level is for: `target[span{field=value}]=level`, where the target, the brackets and the
level may each be left out. Without a level everything is logged.

White space around a directive is passed over to find its parts, but the parts are then cut
from the directive as it was written. So white space of several bytes before it may move a cut
into a character, and then there is no part to read.
-/

namespace HandlerSplit

/-- Why a text is no filter. -/
inductive FilterFault where
  | malformed
  /-- A part of a directive begins or ends within a character. -/
  | splitCharacter
  deriving DecidableEq, Repr

/-- The value that is there; without one the filter is malformed. -/
def FilterFault.orMalformed {α : Type} : Option α → Except FilterFault α
  | some a => .ok a
  | none => .error .malformed

/-- A field that a span has to have, with the value that is asked for. -/
structure FieldTest where
  name : String
  value : Option String
  deriving DecidableEq, Repr

namespace FieldTest

/-- Whether a text may stand for a value: it is a number or a pattern. A number is a pattern
as well, unless it starts with a plus sign. -/
def isValue (text : String) : Bool :=
  match text.toList with
  | '+' :: cs => Text.isUnsignedNumber cs
  | cs => Text.isPattern cs

/-- The field a text asks for. It must not be empty. A second equals sign ends the value. -/
def ofText? (text : String) : Option FieldTest :=
  if text.isEmpty then none
  else
    match text.splitOn "=" with
    | name :: value :: _ => if isValue value then some ⟨name, some value⟩ else none
    | _ => some ⟨text, none⟩

/-- The field written out. -/
def text (t : FieldTest) : String :=
  t.name ++ (t.value.map ("=" ++ ·)).getD ""

end FieldTest

/-- One directive of a filter. -/
structure LogDirective where
  target : Option String := none
  span : Option String := none
  fields : List FieldTest := []
  level : LogLevel := .trace
  deriving DecidableEq, Repr

namespace LogDirective

/-- Whether the directive is a level alone. -/
def isPlain (d : LogDirective) : Bool :=
  d.target.isNone && d.span.isNone && d.fields.isEmpty

/-- The directive written out. -/
def text (d : LogDirective) : String :=
  let fields :=
    if d.fields.isEmpty then ""
    else "\x7b" ++ String.intercalate "," (d.fields.map FieldTest.text) ++ "\x7d"
  let brackets :=
    if d.span.isNone && d.fields.isEmpty then "" else "[" ++ d.span.getD "" ++ fields ++ "]"
  d.target.getD "" ++ brackets ++ (if d.isPlain then "" else "=") ++ d.level.name

end LogDirective

/-! ## Reading a directive -/

/-- The part of a directive that is being read, with the place where it starts. -/
inductive DirectivePart where
  | start
  /-- A level or target. -/
  | name
  | span (start : Nat)
  | field (start : Nat)
  /-- After the fields. -/
  | fieldsEnd
  /-- After the brackets. -/
  | bracketsEnd
  | level (start : Nat)
  deriving DecidableEq, Repr

/-- A directive as far as it has been read. -/
structure DirectiveReader where
  directive : LogDirective := {}
  part : DirectivePart := .start

namespace DirectiveReader

open FilterFault (orMalformed)

/-- The first `n` bytes of a text and the rest, unless they end within a character. -/
def splitBytes? : Nat → List Char → Option (List Char × List Char)
  | 0, cs => some ([], cs)
  | _ + 1, [] => none
  | n + 1, c :: cs =>
    if c.utf8Size ≤ n + 1 then
      (splitBytes? (n + 1 - c.utf8Size) cs).map fun (part, rest) => (c :: part, rest)
    else none

/-- The text between two places, counted in bytes. An empty part as well must not lie within a
character. -/
def cut (text : String) (start stop : Nat) : Except FilterFault String :=
  let part? := do
    let (_, rest) ← splitBytes? start text.toList
    let (part, _) ← splitBytes? (stop - start) rest
    return String.ofList part
  match part? with
  | some part => .ok part
  | none => .error .splitCharacter

/-- Whether a character may start a directive. -/
def starts (c : Char) : Bool :=
  c == '-' || c == ':' || Text.continuesIdent c

/-- Reads the character at place `i`. -/
def read (text : String) (i : Nat) (c : Char) (r : DirectiveReader) :
    Except FilterFault DirectiveReader :=
  match r.part, c with
  | .start, '[' => .ok { r with part := .span (i + 1) }
  | .start, c => if starts c then .ok { r with part := .name } else .error .malformed
  | .name, '=' => do
    let target ← cut text 0 i
    return ⟨{ r.directive with target := some target }, .level (i + 1)⟩
  | .name, '[' => do
    let target ← cut text 0 i
    return ⟨{ r.directive with target := some target }, .span (i + 1)⟩
  | .span start, ']' => do
    let span ← cut text start i
    return ⟨{ r.directive with span := some span }, .bracketsEnd⟩
  | .span start, '\x7b' => do
    let span ← cut text start i
    let span := if span.isEmpty then none else some span
    return ⟨{ r.directive with span := span }, .field (i + 1)⟩
  | .field start, '\x7d' => do
    let field ← orMalformed (FieldTest.ofText? (← cut text start i))
    return ⟨{ r.directive with fields := r.directive.fields ++ [field] }, .fieldsEnd⟩
  | .fieldsEnd, ']' => .ok { r with part := .bracketsEnd }
  | .bracketsEnd, '=' => .ok { r with part := .level (i + 1) }
  | .name, _ | .span _, _ | .field _, _ | .level _, _ => .ok r
  | .fieldsEnd, _ | .bracketsEnd, _ => .error .malformed

/-- Reads characters from place `i` on. -/
def readFrom (text : String) (i : Nat) :
    List Char → DirectiveReader → Except FilterFault DirectiveReader
  | [], r => .ok r
  | c :: cs, r => do
    readFrom text (i + c.utf8Size) cs (← r.read text i c)

/-- The directive, when its text is at an end. A name that is no level is a target. -/
def finish (text : String) (r : DirectiveReader) : Except FilterFault LogDirective :=
  match r.part with
  | .name =>
    match LogLevel.ofText? text with
    | some level => .ok { level := level }
    | none => .ok { target := some text }
  | .level start => do
    let level ← cut text start text.utf8ByteSize
    if level.isEmpty then return r.directive
    else return { r.directive with level := ← orMalformed (LogLevel.ofText? level) }
  | .bracketsEnd => .ok r.directive
  | .start | .span _ | .field _ | .fieldsEnd => .error .malformed

end DirectiveReader

/-- The directive a text writes. -/
def LogDirective.ofText (text : String) : Except FilterFault LogDirective := do
  (← DirectiveReader.readFrom text 0 (Text.trim text.toList) {}).finish text

/-! ## Filters -/

/-- A filter on log events. -/
structure LogFilter where
  directives : List LogDirective
  deriving DecidableEq, Repr

namespace LogFilter

/-- The filter a text writes. Without a directive nothing is admitted. -/
def ofText (text : String) : Except FilterFault LogFilter := do
  let directives ← ((text.splitOn ",").filter (!·.isEmpty)).mapM LogDirective.ofText
  return ⟨directives⟩

/-- The filter written out. -/
def text (f : LogFilter) : String :=
  String.intercalate "," (f.directives.map LogDirective.text)

/-- Whether the filter admits an event. Targets and spans are finer than events, so the last
directive that is a level alone decides. -/
def admits (f : LogFilter) (e : LogEvent) : Bool :=
  match e.level, (f.directives.filter LogDirective.isPlain).getLast? with
  | some kind, some d => d.level.admits kind
  | _, _ => false

/-- The filter that is used if none is asked for. -/
def default : LogFilter :=
  ⟨[{ level := .info }]⟩

/-- The filter that is asked for, or the default one. -/
def ofLevel (level : Option String) : Except ErrorKind LogFilter :=
  match level with
  | none => .ok default
  | some text =>
    match ofText text with
    | .ok filter => .ok filter
    | .error .malformed => .error (.config (.invalidFilter text))
    | .error .splitCharacter => .error (.config (.brokenFilter text))

end LogFilter

end HandlerSplit
