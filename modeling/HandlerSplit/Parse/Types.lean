import HandlerSplit.Parse.Grammar
import HandlerSplit.Tree.Build
/-!
# Parsing types and signatures

Types, parameter lists, and the field lists of structs and interfaces. In a parameter list
names that share a type are grouped into one field.
-/

namespace HandlerSplit.Parse

/-! ## Parameters -/

/-- An entry of a parameter list, before names and types are told apart. A lone identifier is
a name until the list turns out to have no types beside names. -/
structure ParamItem where
  name : Option String
  type : Option Expr
  decs : Decorations

/-- The fields of a list in which every entry is a type. -/
def anonymousFields (items : List ParamItem) : List Field :=
  items.filterMap fun item =>
    (item.type.or (item.name.map Expr.ident)).map fun type => ⟨[], type, none, item.decs⟩

/-- The fields of a list in which entries have names. `names` and `decs` belong to the field
whose type is still to come. -/
def namedFields (names : List String) (decs : Option Decorations) :
    List ParamItem → Except Fault (List Field)
  | [] => if names.isEmpty then .ok [] else .error .missingParameterType
  | item :: items =>
    match item.name with
    | none => .error .mixedParameters
    | some name =>
      let names := names ++ [name]
      let decs := { decs.getD item.decs with trailing := item.decs.trailing }
      match item.type with
      | none => namedFields names (some decs) items
      | some type =>
        match namedFields [] none items with
        | .ok fields => .ok (⟨names, type, none, decs⟩ :: fields)
        | .error fault => .error fault

/-- Groups names that share a type, if any entry has both. -/
def groupParams (items : List ParamItem) : Except Fault (List Field) :=
  if items.any fun item => item.name.isSome && item.type.isSome then namedFields [] none items
  else .ok (anonymousFields items)

/-- Where the type of a field comes from: an entry, or a name that turned out to be a type. -/
def Field.FromItem (items : List ParamItem) (f : Field) : Prop :=
  (∃ item ∈ items, item.type = some f.type) ∨ ∃ name, f.type = .ident name

theorem fromItem_of_anonymousFields {items : List ParamItem} :
    ∀ f ∈ anonymousFields items, f.tag = none ∧ Field.FromItem items f := by
  intro f hf
  obtain ⟨item, hitem, hfield⟩ := List.mem_filterMap.mp hf
  obtain ⟨type, htype, rfl⟩ := Option.map_eq_some_iff.mp hfield
  refine ⟨rfl, ?_⟩
  cases hown : item.type with
  | some x =>
    rw [hown, Option.some_or] at htype
    exact .inl ⟨item, hitem, hown.trans htype⟩
  | none =>
    rw [hown, Option.none_or] at htype
    obtain ⟨name, -, rfl⟩ := Option.map_eq_some_iff.mp htype
    exact .inr ⟨name, rfl⟩

theorem fromItem_of_namedFields {items : List ParamItem} {names : List String}
    {decs : Option Decorations} {fields : List Field}
    (hok : namedFields names decs items = .ok fields) :
    ∀ f ∈ fields, f.tag = none ∧ Field.FromItem items f := by
  induction items generalizing names decs fields with
  | nil =>
    rw [namedFields] at hok
    split at hok
    · cases hok
      exact List.forall_mem_nil _
    · cases hok
  | cons item items ih =>
    have later {f : Field} (h : Field.FromItem items f) : Field.FromItem (item :: items) f :=
      h.imp_left fun ⟨i, hi, htype⟩ => ⟨i, List.mem_cons_of_mem _ hi, htype⟩
    obtain ⟨name, type, d⟩ := item
    cases name with
    | none => cases hok
    | some n =>
      cases type with
      | none => exact fun f hf => (ih hok f hf).imp_right later
      | some type =>
        rw [namedFields] at hok
        rcases hrest : namedFields [] none items with fault | rest <;> rw [hrest] at hok
        · cases hok
        · obtain rfl := Except.ok.inj hok
          refine List.forall_mem_cons.mpr ⟨⟨rfl, .inl ⟨_, List.mem_cons_self, rfl⟩⟩, ?_⟩
          exact fun f hf => (ih hrest f hf).imp_right later

/-- The fields of a list have no tags, and their types are those of its entries. -/
theorem fromItem_of_groupParams {items : List ParamItem} {fields : List Field}
    (hok : groupParams items = .ok fields) :
    ∀ f ∈ fields, f.tag = none ∧ Field.FromItem items f := by
  rw [groupParams] at hok
  split at hok
  · exact fromItem_of_namedFields hok
  · obtain rfl := Except.ok.inj hok
    exact fromItem_of_anonymousFields

/-! ## Phrases -/

/-- The direction of a channel type, with its keyword. -/
def chanDir : Parser ChanDir := do
  if ← atPunct .arrow then
    advance
    expectKeyword .chan
    return .recv
  else
    expectKeyword .chan
    if ← atPunct .arrow then
      advance
      return .send
    else return .both

namespace Grammar

variable (g : Grammar)

/-- A parameter type, which may be variadic. -/
def paramType : Parser Expr := do
  if ← atPunct .ellipsis then
    advance
    return .ellipsis (some (← g.type))
  else g.type

/-- An entry of a parameter list. -/
def paramItem (decs : Decorations) : Parser ParamItem := do
  match ← peekKind with
  | .ident name =>
    advance
    match ← peekKind with
    | .punct .period =>
      advance
      let member ← expectIdent
      return ⟨none, some (.selector (.ident name) member), decs⟩
    | .punct .comma | .punct .rparen => return ⟨some name, none, decs⟩
    | _ => return ⟨some name, some (← g.paramType), decs⟩
  | _ => return ⟨none, some (← g.paramType), decs⟩

/-- An entry of a parameter list with the comma and the comment behind it if there are. -/
def paramTurn (opening : Span) : Parser (Turn ParamItem) := do
  match ← peekKind with
  | .punct .rparen => return .stop
  | .eof => rejectAt opening (.unterminated .parameterList)
  | _ =>
    let decs ← startDecorations
    let item ← g.paramItem decs
    if ← atPunct .comma then
      advance
      let trailing ← claimTrailing
      return .more { item with decs := { item.decs with trailing := trailing } }
    else return .last item

/-- A parenthesized parameter list. -/
def params : Parser FieldList := do
  let opening := (← peek).span
  expectPunct .lparen
  let openComment ← claimTrailing
  let items ← g.entries (g.paramTurn opening)
  let enclosure ← closeEnclosure openComment
  expectPunct .rparen
  match groupParams items with
  | .ok fields => return ⟨fields, enclosure⟩
  | .error fault => reject fault

/-- The results of a function, if it has any. -/
def results : Parser (Option FieldList) := do
  let kind ← peekKind
  if kind = .punct .lparen then return some (← g.params)
  else if kind.startsType then
    let type ← g.type
    return some (.of [.of [] type])
  else return none

/-- Parameters and results. -/
def signature : Parser Signature := do
  let params ← g.params
  let results ← g.results
  return ⟨params, results⟩

/-! ## Field lists -/

/-- The entries between the braces of a struct or interface, `entry` reading one of them up
to its layout. -/
def fieldBlock (phrase : Opened) (entry : Parser Field) : Parser FieldList := do
  let opening := (← peek).span
  expectPunct .lbrace
  let openComment ← claimTrailing
  let fields ← g.entries do
    match ← peekKind with
    | .punct .rbrace => return .stop
    | .eof => rejectAt opening (.unterminated phrase)
    | .semicolon false => advance; return .skip
    | _ =>
      let decs ← startDecorations
      let field ← entry
      expectTerminator
      let trailing ← claimTrailing
      return .more { field with decs := { decs with trailing := trailing } }
  let enclosure ← closeEnclosure openComment
  expectPunct .rbrace
  return ⟨fields, enclosure⟩

/-- Names and type of a struct field; an embedded field has no name. -/
def structField : Parser (List String × Expr) := do
  match ← peekKind with
  | .ident name =>
    advance
    match ← peekKind with
    | .punct .period =>
      advance
      let member ← expectIdent
      return ([], .selector (.ident name) member)
    | .semicolon _ | .punct .rbrace | .literal .string _ => return ([], .ident name)
    | _ =>
      let others ← g.afterCommas expectIdent
      return (name :: others, ← g.type)
  | _ =>
    expect (.op .mul)
    return ([], .star (← g.type))

/-- A struct field with its tag. -/
def taggedField : Parser Field := do
  let (names, type) ← g.structField
  match ← peekKind with
  | .literal .string tag => advance; return ⟨names, type, some tag, .plain⟩
  | _ => return ⟨names, type, none, .plain⟩

/-- A method of an interface, or an interface embedded in it. -/
def interfaceEntry : Parser Field := do
  let name ← expectIdent
  match ← peekKind with
  | .punct .lparen => return .of [name] (.funcType (← g.signature))
  | .punct .period =>
    advance
    let member ← expectIdent
    return .of [] (.selector (.ident name) member)
  | _ => return .of [] (.ident name)

/-! ## Types -/

/-- A slice or array type. -/
def arrayType : Parser Expr := do
  expectPunct .lbracket
  let len : Option Expr ← (do
    match ← peekKind with
    | .punct .rbracket => return none
    | .punct .ellipsis => advance; return some (.ellipsis none)
    | _ => return some (← bracketed g.expr))
  expectPunct .rbracket
  return .arrayType len (← g.type)

/-- A map type. -/
def mapType : Parser Expr := do
  expectKeyword .map
  expectPunct .lbracket
  let key ← g.type
  expectPunct .rbracket
  return .mapType key (← g.type)

/-- A type, without the guard on its nesting. -/
def typeInner : Parser Expr := do
  match ← peekKind with
  | .ident name =>
    advance
    if ← atPunct .period then
      advance
      return .selector (.ident name) (← expectIdent)
    else return .ident name
  | .punct .lparen =>
    advance
    let type ← g.type
    expectPunct .rparen
    return .paren type
  | .punct .lbracket => g.arrayType
  | .keyword .struct =>
    expectKeyword .struct
    return .structType (← g.fieldBlock .struct g.taggedField)
  | .keyword .interface =>
    expectKeyword .interface
    return .interfaceType (← g.fieldBlock .interface g.interfaceEntry)
  | .keyword .map => g.mapType
  | .keyword .chan | .punct .arrow =>
    let dir ← chanDir
    return .chanType dir (← g.type)
  | .keyword .func =>
    advance
    return .funcType (← g.signature)
  | .op .mul =>
    advance
    return .star (← g.type)
  | _ => unexpected .type

/-- A type, one level of nesting deeper. -/
def nestedType : Parser Expr :=
  nested g.typeInner

end Grammar

end HandlerSplit.Parse
