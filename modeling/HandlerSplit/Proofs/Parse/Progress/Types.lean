import HandlerSplit.Proofs.Parse.Progress
/-!
# Progress in types

A level of the grammar serves texts of `n` tokens (`Grammar.Serves`) if its expressions and types
come to an answer of their own on `n` tokens, and its blocks, statements and elements, which may
begin with a phrase of the level below, on one token less. A type of the next level takes a token
before it enters the level, and so serves one token more.
-/

namespace HandlerSplit.Parse

/-- A level of the grammar whose phrases always take a token, and are enough for texts of up to `n`
tokens. -/
structure Grammar.Serves (g : Grammar) (n : Nat) : Prop where
  turns : n ≤ g.budget
  binary {K : TokenKind → Prop} {M : Expr → Prop} (strength : Nat) :
    Proceeds K n M (g.binary strength)
  unary {K : TokenKind → Prop} {M : Expr → Prop} : Proceeds K n M g.unary
  elementValue {K : TokenKind → Prop} {M : Expr → Prop} : Proceeds K (n - 1) M g.elementValue
  type {K : TokenKind → Prop} {M : Expr → Prop} : Proceeds K n M g.type
  block {K : TokenKind → Prop} {M : Block → Prop} : Proceeds K (n - 1) M g.block
  stmt {K : TokenKind → Prop} {M : StmtKind → Prop} : Proceeds K (n - 1) M g.stmt
  ifThen {K : TokenKind → Prop} {M : Option Stmt × Expr × Block × Else → Prop} :
    Proceeds K (n - 1) M g.ifThen

/-! ## Grouping -/

/-- Named parameters are rejected for a missing type, or for one without a name. -/
theorem namedFields_error {items : List ParamItem} {names : List String}
    {decs : Option Decorations} {fault : Fault} (h : namedFields names decs items = .error fault) :
    fault = .missingParameterType ∨ fault = .mixedParameters := by
  induction items generalizing names decs fault with
  | nil =>
    rw [namedFields] at h
    split at h
    · cases h
    · exact .inl (Except.error.inj h).symm
  | cons item items ih =>
    obtain ⟨name, type, d⟩ := item
    cases name with
    | none => exact .inr (Except.error.inj h).symm
    | some n =>
      cases type with
      | none => exact ih h
      | some type =>
        rw [namedFields] at h
        rcases hrest : namedFields [] none items with fault' | rest <;> rw [hrest] at h
        · obtain rfl := Except.error.inj h
          exact ih hrest
        · cases h

/-- Names that cannot be grouped under types are rejected for what is wrong with them. -/
theorem groupParams_error {items : List ParamItem} {fault : Fault}
    (h : groupParams items = .error fault) :
    fault = .missingParameterType ∨ fault = .mixedParameters := by
  rw [groupParams] at h
  split at h
  · exact namedFields_error h
  · cases h

namespace Grammar

/-! ## Turns of loops -/

variable {α : Type} (g : Grammar)

/-- A comma and the phrase behind it. -/
def commaTurn (item : Parser α) : Parser (Turn α) := do
  if ← atPunct .comma then
    advance
    return .more (← item)
  else return .stop

/-- A member of a struct or interface with its terminator. -/
def fieldTurn (phrase : Opened) (entry : Parser Field) (opening : Span) : Parser (Turn Field) := do
  match ← peekKind with
  | .punct .rbrace => return .stop
  | .eof => rejectAt opening (.unterminated phrase)
  | .semicolon false => advance; return .skip
  | _ =>
    let decs ← startDecorations
    let field ← entry
    expectTerminator
    let trailing ← claimTrailing
    return .more { field with decs := { decs with trailing := trailing } }

/-- What follows commas is a loop over turns of a comma and a phrase. -/
theorem afterCommas_eq (item : Parser α) : g.afterCommas item = g.entries (commaTurn item) :=
  rfl

/-- A block of fields is a loop between braces, with one member to each turn. -/
theorem fieldBlock_eq (phrase : Opened) (entry : Parser Field) :
    g.fieldBlock phrase entry = (do
      let opening := (← peek).span
      expectPunct .lbrace
      let openComment ← claimTrailing
      let fields ← g.entries (fieldTurn phrase entry opening)
      let enclosure ← closeEnclosure openComment
      expectPunct .rbrace
      return ⟨fields, enclosure⟩) :=
  rfl

namespace Serves

variable {g : Grammar} {K : TokenKind → Prop} {n : Nat}

/-- A turn that goes on has taken its comma. -/
theorem commaTurn {item : Parser α} (h : Proceeds Anything n Never item) :
    Proceeds K n Turn.GoesOn (commaTurn item) := by
  refine .atPunct ?_ (.pure id)
  exact .past (.advance nofun) fun _ => .bind h fun a => .answer

/-- A turn that goes on has taken a member, and the member a token. -/
theorem fieldTurn (phrase : Opened) {entry : Parser Field} (opening : Span)
    (h : Proceeds Anything n Always entry) :
    Proceeds K n Turn.GoesOn (fieldTurn phrase entry opening) := by
  refine .peekKind fun kind => ?_
  split
  · exact .pure id
  · exact .rejectAt _ nofun
  · exact .past (.advance nofun) fun _ => .answer
  · refine .startDecorations fun d => .past h.weaken fun f => .bind .expectTerminator fun _ => ?_
    exact .claimTrailing fun trailing => .answer

variable (hg : g.Serves n)

include hg

/-! ## Lists -/

/-- A loop is decided on `n` tokens, since every turn that goes on takes one. -/
theorem entries {turn : Parser (Turn α)} (h : Proceeds Anything n Turn.GoesOn turn) :
    Proceeds K n Never (g.entries turn) :=
  .entries h hg.turns

/-- What follows commas may be nothing. -/
theorem afterCommas {item : Parser α} (h : Proceeds Anything n Never item) :
    Proceeds K n Never (g.afterCommas item) := by
  rw [afterCommas_eq]
  exact hg.entries (commaTurn h)

/-- A list takes a token, since its first phrase does. -/
theorem commaSeparated {M : List α → Prop} {item : Parser α}
    (h : ∀ {M : α → Prop}, Proceeds Anything n M item) :
    Proceeds K n M (g.commaSeparated item) :=
  .past h.weaken fun _ => .bind (hg.afterCommas h) fun _ => .answer

theorem idents {M : List String → Prop} : Proceeds K n M g.idents :=
  hg.commaSeparated .expectIdent

theorem expr {M : Expr → Prop} : Proceeds K n M g.expr :=
  hg.binary 1

theorem exprs {M : List Expr → Prop} : Proceeds K n M g.exprs :=
  hg.commaSeparated hg.expr

/-! ## Parameters -/

omit hg in
/-- The direction of a channel takes the keyword at least. -/
theorem chanDir {M : ChanDir → Prop} : Proceeds K n M chanDir := by
  refine .atPunct ?_ (.past .expectKeyword fun _ => .atPunct ?_ .answer)
  · exact .past (.advance nofun) fun _ => .past .expectKeyword fun _ => .answer
  · exact .past (.advance nofun) fun _ => .answer

theorem paramType {M : Expr → Prop} : Proceeds K n M g.paramType := by
  refine .atPunct ?_ hg.type
  exact .past (.advance nofun) fun _ => .past hg.type fun x => .answer

/-- A parameter takes a token, for its name or its type. -/
theorem paramItem {M : ParamItem → Prop} (decs : Decorations) :
    Proceeds K n M (g.paramItem decs) := by
  refine .peekKind fun kind => ?_
  split
  · refine .past .advanceIdent fun _ => .peekKind fun kind => ?_
    split
    · exact .past .advancePunct fun _ => .past .expectIdent fun member => .answer
    · exact .answer
    · exact .answer
    · exact .past hg.paramType fun x => .answer
  · exact .past hg.paramType fun x => .answer

/-- A turn that goes on has taken a parameter. -/
theorem paramTurn (opening : Span) : Proceeds K n Turn.GoesOn (g.paramTurn opening) := by
  refine .peekKind fun kind => ?_
  split
  · exact .pure id
  · exact .rejectAt _ nofun
  · refine .startDecorations fun d => .past (hg.paramItem d) fun item => .atPunct ?_ .answer
    exact .past (.advance nofun) fun _ => .claimTrailing fun trailing => .answer

/-- Parameters take their parentheses. -/
theorem params {M : FieldList → Prop} : Proceeds K n M g.params := by
  refine .peek fun t => .past .expectPunct fun _ => .claimTrailing fun comment => ?_
  refine .bind (hg.entries (hg.paramTurn _)) fun items => .closeEnclosure fun b => ?_
  refine .past .expectPunct fun _ => ?_
  split
  · exact .answer
  · rename_i fault hfault
    refine .reject ?_
    rcases groupParams_error hfault with rfl | rfl <;> nofun

/-- There may be no results. -/
theorem results : Proceeds K n Never g.results := by
  refine .peekKind fun kind => ?_
  split
  · exact .past hg.params fun fs => .answer
  · split
    · exact .past hg.type fun x => .answer
    · exact .answer

/-- A signature takes the parentheses of its parameters. -/
theorem signature {M : Signature → Prop} : Proceeds K n M g.signature :=
  .past hg.params fun _ => .bind hg.results fun _ => .answer

/-! ## Field lists -/

/-- A block of fields takes its braces, whatever its members take. -/
theorem fieldBlock {M : FieldList → Prop} (phrase : Opened) {entry : Parser Field}
    (h : Proceeds Anything n Always entry) : Proceeds K n M (g.fieldBlock phrase entry) := by
  rw [fieldBlock_eq]
  refine .peek fun t => .past .expectPunct fun _ => .claimTrailing fun comment => ?_
  refine .bind (hg.entries (fieldTurn phrase _ h)) fun fs => .closeEnclosure fun b => ?_
  exact .past .expectPunct fun _ => .answer

theorem structField {M : List String × Expr → Prop} : Proceeds K n M g.structField := by
  refine .peekKind fun kind => ?_
  split
  · refine .past .advanceIdent fun _ => .peekKind fun kind => ?_
    split
    · exact .past .advancePunct fun _ => .past .expectIdent fun _ => .answer
    · exact .answer
    · exact .answer
    · exact .answer
    · exact .bind (hg.afterCommas .expectIdent) fun _ => .past hg.type fun _ => .answer
  · exact .past (.expect TokenKind.noConfusion) fun _ => .past hg.type fun x => .answer

/-- A field takes a token, for its name or its type, and may take none for a tag. -/
theorem taggedField {M : Field → Prop} : Proceeds K n M g.taggedField := by
  refine .past hg.structField fun f => .peekKind fun kind => ?_
  split
  · exact .past (.advance nofun) fun _ => .answer
  · exact .answer

theorem interfaceEntry {M : Field → Prop} : Proceeds K n M g.interfaceEntry := by
  refine .past .expectIdent fun name => .peekKind fun kind => ?_
  split
  · exact .past hg.signature fun s => .answer
  · exact .past (.advance nofun) fun _ => .past .expectIdent fun _ => .answer
  · exact .answer

/-! ## Types -/

/-- An array type takes its bracket before it enters the level. -/
theorem arrayType {M : Expr → Prop} : Proceeds K (n + 1) M g.arrayType := by
  refine .below .expectPunct fun _ => .bind (.peekKind fun kind => ?_) fun len => ?_
  · split
    · exact .answer
    · exact .past (.advance nofun) fun _ => .answer
    · exact .past (.bracketed hg.expr) fun _ => .answer
  · exact .past .expectPunct fun _ => .past hg.type fun x => .answer

/-- A map type takes its keyword before it enters the level. -/
theorem mapType {M : Expr → Prop} : Proceeds K (n + 1) M g.mapType := by
  refine .below .expectKeyword fun _ => .past .expectPunct fun _ => .past hg.type fun k => ?_
  exact .past .expectPunct fun _ => .past hg.type fun v => .answer

/-- The forms of types, told apart by their first token. -/
theorem typeInner {M : Expr → Prop} : Proceeds K (n + 1) M g.typeInner := by
  refine .peekKind fun kind => ?_
  split
  · refine .past (.advance nofun) fun _ => .atPunct ?_ .answer
    exact .past (.advance nofun) fun _ => .past .expectIdent fun _ => .answer
  · refine .below (.advance nofun) fun _ => .past hg.type fun x => ?_
    exact .past .expectPunct fun _ => .answer
  · exact hg.arrayType
  · exact .below .expectKeyword fun _ => .past (hg.fieldBlock _ hg.taggedField) fun _ => .answer
  · exact .below .expectKeyword fun _ => .past (hg.fieldBlock _ hg.interfaceEntry) fun _ => .answer
  · exact hg.mapType
  · exact .below chanDir fun dir => .past hg.type fun x => .answer
  · exact .below chanDir fun dir => .past hg.type fun x => .answer
  · exact .below (.advance nofun) fun _ => .past hg.signature fun s => .answer
  · exact .below (.advance nofun) fun _ => .past hg.type fun x => .answer
  · exact .unexpected _

/-- A type, one level of nesting down. -/
theorem nestedType {M : Expr → Prop} : Proceeds K (n + 1) M g.nestedType :=
  .nested hg.typeInner

end Serves

end Grammar

end HandlerSplit.Parse
