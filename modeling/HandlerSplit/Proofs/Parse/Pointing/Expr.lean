import HandlerSplit.Parse.Stmt
import HandlerSplit.Proofs.Parse.Pointing
/-!
# Types and expressions point at the text

What is not closed points at its opening bracket, which was the current token when the phrase
started.
-/

namespace HandlerSplit.Parse

variable {α : Type} {ts : List Token}

/-! ## Levels of the grammar -/

/-- A level of the grammar whose phrases point at the text. -/
class Grammar.Pointing (ts : List Token) (g : Grammar) : Prop where
  binary (strength : Nat) : Points ts (g.binary strength)
  unary : Points ts g.unary
  elementValue : Points ts g.elementValue
  type : Points ts g.type
  block : Points ts g.block
  stmt : Points ts g.stmt
  ifThen : Points ts g.ifThen

attribute [instance] Grammar.Pointing.binary Grammar.Pointing.unary Grammar.Pointing.elementValue
  Grammar.Pointing.type Grammar.Pointing.block Grammar.Pointing.stmt Grammar.Pointing.ifThen

namespace Grammar.Pointing

variable {g : Grammar}

/-- What follows commas points at the text if each phrase does. -/
@[instance] theorem afterCommas {item : Parser α} [Points ts item] : Points ts (g.afterCommas item) := by
  refine .entries (.after fun comma => ?_) _
  split
  · exact .after fun _ => .after fun _ => .pure _
  · exact .pure _

/-- A list points at the text if each phrase does. -/
@[instance] theorem commaSeparated {item : Parser α} [Points ts item] :
    Points ts (g.commaSeparated item) :=
  .after fun _ => .after fun _ => .pure _

@[instance] theorem idents : Points ts g.idents :=
  commaSeparated

/-- The members of a struct or interface. -/
@[instance] theorem fieldBlock (phrase : Opened) {entry : Parser Field} [Points ts entry] :
    Points ts (g.fieldBlock phrase entry) := by
  refine .peek fun opening hopening => .after fun _ => .after fun comment => ?_
  refine .bind (.entries (.after fun kind => ?_) _) fun fields =>
    .after fun _ => .after fun _ => .pure _
  split
  · exact .pure _
  · exact .rejectAt hopening _
  · exact .after fun _ => .pure _
  · exact .after fun _ => .after fun _ => .after fun _ => .after fun _ => .pure _

@[instance] theorem chanDir : Points ts Parse.chanDir := by
  refine .after fun recv => ?_
  split
  · exact .after fun _ => .after fun _ => .pure _
  · refine .after fun _ => .after fun send => ?_
    split
    · exact .after fun _ => .pure _
    · exact .pure _

variable [hg : g.Pointing ts]

include hg

@[instance] theorem expr : Points ts g.expr :=
  hg.binary 1

@[instance] theorem exprs : Points ts g.exprs :=
  commaSeparated

/-! ## Types -/

@[instance] theorem paramType : Points ts g.paramType := by
  refine .after fun dots => ?_
  split
  · exact .after fun _ => .after fun _ => .pure _
  · exact hg.type

@[instance] theorem paramItem (decs : Decorations) : Points ts (g.paramItem decs) := by
  refine .after fun kind => ?_
  split
  · refine .after fun _ => .after fun kind => ?_
    split
    · exact .after fun _ => .after fun _ => .pure _
    · exact .pure _
    · exact .pure _
    · exact .after fun _ => .pure _
  · exact .after fun _ => .pure _

/-- Parameters that are not closed point at their parenthesis. -/
theorem paramTurn {opening : Span} (hopening : IsSpanIn ts opening) :
    Points ts (g.paramTurn opening) := by
  refine .after fun kind => ?_
  split
  · exact .pure _
  · exact .rejectAt hopening _
  · refine .after fun _ => .after fun item => .after fun comma => ?_
    split
    · exact .after fun _ => .after fun _ => .pure _
    · exact .pure _

/-- The parenthesis is the current token when parameters start. -/
@[instance] theorem params : Points ts g.params := by
  refine .peek fun opening hopening => .after fun _ => .after fun comment => ?_
  refine .bind (.entries (paramTurn hopening) _) fun items => .after fun _ => .after fun _ => ?_
  split
  · exact .pure _
  · exact .reject _

/-- Results in parentheses, or a lone type. -/
@[instance] theorem results : Points ts g.results := by
  refine .after fun kind => ?_
  split
  · exact .after fun _ => .pure _
  · split
    · exact .after fun _ => .pure _
    · exact .pure _

@[instance] theorem signature : Points ts g.signature :=
  .after fun _ => .after fun _ => .pure _

@[instance] theorem structField : Points ts g.structField := by
  refine .after fun kind => ?_
  split
  · refine .after fun _ => .after fun kind => ?_
    split
    · exact .after fun _ => .after fun _ => .pure _
    iterate 3 exact .pure _
    · exact .after fun _ => .after fun _ => .pure _
  · exact .after fun _ => .after fun _ => .pure _

/-- A field with its tag, if it has one. -/
@[instance] theorem taggedField : Points ts g.taggedField := by
  refine .after fun f => .after fun kind => ?_
  split
  · exact .after fun _ => .pure _
  · exact .pure _

@[instance] theorem interfaceEntry : Points ts g.interfaceEntry := by
  refine .after fun name => .after fun kind => ?_
  split
  · exact .after fun _ => .pure _
  · exact .after fun _ => .after fun _ => .pure _
  · exact .pure _

@[instance] theorem arrayType : Points ts g.arrayType := by
  refine .after fun _ => .bind (.after fun kind => ?_) fun len =>
    .after fun _ => .after fun _ => .pure _
  split
  · exact .pure _
  · exact .after fun _ => .pure _
  · exact .after fun _ => .pure _

@[instance] theorem mapType : Points ts g.mapType :=
  .after fun _ => .after fun _ => .after fun _ => .after fun _ => .after fun _ => .pure _

/-- The forms of types, told apart by their first token. -/
@[instance] theorem typeInner : Points ts g.typeInner := by
  refine .after fun kind => ?_
  split
  · refine .after fun _ => .after fun point => ?_
    split
    · exact .after fun _ => .after fun _ => .pure _
    · exact .pure _
  · exact .after fun _ => .after fun _ => .after fun _ => .pure _
  · exact arrayType
  · exact .after fun _ => .after fun _ => .pure _
  · exact .after fun _ => .after fun _ => .pure _
  · exact mapType
  · exact .after fun _ => .after fun _ => .pure _
  · exact .after fun _ => .after fun _ => .pure _
  · exact .after fun _ => .after fun _ => .pure _
  · exact .after fun _ => .after fun _ => .pure _
  · exact .unexpected _

/-- A type that is nested too deeply points at its first token. -/
@[instance] theorem nestedType : Points ts g.nestedType :=
  .nested

/-! ## Expressions -/

omit hg in
/-- The comma behind an element, and its comment, may be missing. -/
theorem elementTurn {make : Decorations → α} (decs : Decorations) :
    Points ts (elementTurn decs make) := by
  refine .after fun comma => ?_
  split
  · exact .after fun _ => .after fun _ => .pure _
  · exact .pure _

/-- Arguments that are not closed point at their parenthesis. -/
theorem callArgs {opening : Span} (hopening : IsSpanIn ts opening) :
    Points ts (g.callArgs opening) := by
  refine .after fun comment => .bind (.entries (.after fun kind => ?_) _) fun args =>
    .after fun _ => .pure _
  split
  · exact .pure _
  · exact .rejectAt hopening _
  · refine .after fun _ => .after fun x => .after fun spread => ?_
    split
    · exact .after fun _ => elementTurn _
    · exact elementTurn _

/-- The parenthesis is the current token when a call is read. -/
@[instance] theorem call (fn : Expr) : Points ts (g.call fn) := by
  refine .peek fun opening hopening => .after fun _ => ?_
  have := hg.callArgs hopening
  exact .after fun _ => .after fun _ => .pure _

@[instance] theorem element : Points ts g.element := by
  refine .after fun x => .after fun colon => ?_
  split
  · exact .after fun _ => .after fun _ => .pure _
  · exact .pure _

/-- Elements that are not closed point at their brace. -/
theorem elements {opening : Span} (hopening : IsSpanIn ts opening) :
    Points ts (g.elements opening) := by
  refine .after fun comment => .bind (.entries (.after fun kind => ?_) _) fun elements =>
    .after fun _ => .pure _
  split
  · exact .pure _
  · exact .rejectAt hopening _
  · exact .after fun _ => .after fun _ => elementTurn _

/-- The brace is the current token when a literal is read. -/
@[instance] theorem composite (type : Option Expr) : Points ts (g.composite type) := by
  refine .peek fun opening hopening => .after fun _ => ?_
  have := hg.elements hopening
  exact .after fun _ => .after fun _ => .pure _

@[instance] theorem elementValueHere : Points ts g.elementValueHere := by
  refine .after fun brace => ?_
  split
  · exact .nested
  · exact expr

@[instance] theorem bound : Points ts g.bound := by
  refine .after fun kind => ?_
  split
  · exact .pure _
  · exact .pure _
  · exact .after fun _ => .pure _

@[instance] theorem bounds : Points ts g.bounds := by
  refine .bind (.after fun colon => ?_) fun low => .after fun colon => ?_
  · split
    · exact .pure _
    · exact .after fun _ => .pure _
  · split
    · exact .pure _
    · refine .after fun _ => .after fun high => .after fun colon => ?_
      split
      · exact .pure _
      · exact .after fun _ => .after fun _ => .pure _

/-- An index that is not closed points at the current token. -/
@[instance] theorem indexOrSlice (x : Expr) : Points ts (g.indexOrSlice x) := by
  refine .after fun _ => .after fun b => .after fun _ => ?_
  split
  · split
    · exact .pure _
    · exact .reject _
  · split
    · exact .reject _
    · exact .pure _

@[instance] theorem selectorOrAssertion (x : Expr) : Points ts (g.selectorOrAssertion x) := by
  refine .after fun kind => ?_
  split
  · exact .after fun _ => .pure _
  · refine .after fun _ => .bind (.after fun guard => ?_) fun type => .after fun _ => .pure _
    split
    · exact .after fun _ => .pure _
    · exact .after fun _ => .pure _
  · exact .unexpected _

/-- The forms of operands, told apart by their first token. -/
@[instance] theorem operand : Points ts g.operand := by
  refine .after fun kind => ?_
  split
  · exact .after fun _ => .pure _
  · exact .after fun _ => .pure _
  · exact .after fun _ => .after fun _ => .after fun _ => .pure _
  · refine .after fun _ => .after fun s => .after fun brace => ?_
    split
    · exact .after fun _ => .pure _
    · exact .pure _
  iterate 5 exact nestedType
  · exact .unexpected _

theorem postfixed (x : Expr) : Points ts (g.postfixed x) := by
  refine .after fun kind => ?_
  split
  · exact .after fun _ => .after fun _ => .pure _
  · exact .after fun _ => .pure _
  · exact .after fun _ => .pure _
  · refine .after fun c => ?_
    split
    · exact .after fun _ => .pure _
    · exact .pure _
  · exact .pure _

@[instance] theorem primary : Points ts g.primary :=
  .after fun _ => .growing hg.postfixed _ _

@[instance] theorem prefixed : Points ts g.prefixed := by
  refine .after fun kind => ?_
  split
  · exact .after fun _ => .after fun _ => .pure _
  · refine .after fun _ => .after fun chan => ?_
    split
    · exact .after fun _ => .after fun _ => .pure _
    · exact .after fun _ => .pure _
  · split
    · exact .after fun _ => .after fun _ => .pure _
    · exact primary

/-- A unary expression that is nested too deeply points at its first token. -/
@[instance] theorem nestedUnary : Points ts g.nestedUnary :=
  .nested

/-- What is wrong with a right operand points at a token of it. -/
theorem extended (strength : Nat) (x : Expr) : Points ts (g.extended strength x) := by
  refine .after fun kind => ?_
  split
  · split
    · exact .pure _
    · exact .after fun _ => .after fun _ => .after fun _ => .pure _
  · exact .pure _

/-- A binary expression of a given strength. -/
theorem binaryFrom (strength : Nat) : Points ts (g.binaryFrom strength) :=
  .after fun _ => .growing (hg.extended strength) _ _

end Grammar.Pointing

end HandlerSplit.Parse
