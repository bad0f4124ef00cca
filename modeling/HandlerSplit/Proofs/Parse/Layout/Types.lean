import HandlerSplit.Parse.Types
import HandlerSplit.Proofs.Parse.Agreement
import HandlerSplit.Proofs.Tree.Bare
/-!
# Layout and types

Types, parameter lists and field lists are read without regard to layout: runs of one gist
answer trees that are the same when layout is forgotten. Grouping parameters looks at their
names and types only.
-/

namespace HandlerSplit.Parse

/-- A parser that does not look at layout: what it answers is the same, up to a projection, for
all cursors of one gist. -/
abbrev Blind {α β : Type} (e : α → β) (p : Parser α) : Prop :=
  Agree e p p

/-- The parts of an `if` statement without layout. -/
def bareIf (s : Option Stmt × Expr × Block × Else) : Option Stmt × Expr × Block × Else :=
  (s.1.map Stmt.bare, s.2.1.bare, s.2.2.1.bare, s.2.2.2.bare)

/-- A level of the grammar whose phrases are read without regard to layout. -/
structure Grammar.LayoutBlind (g : Grammar) : Prop where
  binary : ∀ strength, Blind Expr.bare (g.binary strength)
  unary : Blind Expr.bare g.unary
  elementValue : Blind Expr.bare g.elementValue
  type : Blind Expr.bare g.type
  block : Blind Block.bare g.block
  stmt : Blind StmtKind.bare g.stmt
  ifThen : Blind bareIf g.ifThen

/-! ## Grouping parameters -/

/-- An entry of a parameter list without layout. -/
def ParamItem.bare (item : ParamItem) : ParamItem :=
  ⟨item.name, item.type.map Expr.bare, .plain⟩

/-- Fields, or why there are none, without layout. -/
def bareGroup (r : Except Fault (List Field)) : Except Fault (List Field) :=
  r.map (List.map Field.bare)

/-- Entries with the same names and types stand for the same types. -/
theorem anonymousFields_congr {items items' : List ParamItem}
    (h : items.map ParamItem.bare = items'.map ParamItem.bare) :
    (anonymousFields items).map Field.bare = (anonymousFields items').map Field.bare := by
  have bare : ∀ items, (anonymousFields items).map Field.bare =
      (items.map ParamItem.bare).filterMap fun item =>
        (item.type.or (item.name.map Expr.ident)).map (⟨[], ·, none, .plain⟩) := by
    intro items
    rw [anonymousFields, List.map_filterMap, List.filterMap_map]
    refine congrArg (List.filterMap · items) (funext fun item => ?_)
    obtain ⟨name, type, decs⟩ := item
    cases type <;> cases name <;> rfl
  rw [bare, bare, h]

/-- Entries with the same names and types are grouped alike. -/
theorem namedFields_congr (names : List String) (decs decs' : Option Decorations)
    {items items' : List ParamItem} (h : items.map ParamItem.bare = items'.map ParamItem.bare) :
    bareGroup (namedFields names decs items) = bareGroup (namedFields names decs' items') := by
  induction items generalizing items' names decs decs' with
  | nil =>
    obtain rfl : items' = [] := by simpa using h.symm
    rfl
  | cons item items ih =>
    obtain ⟨item', items', rfl, hitem, hitems⟩ := List.map_eq_cons_iff.mp h.symm
    obtain ⟨name, type, d⟩ := item
    obtain ⟨name', type', d'⟩ := item'
    obtain ⟨rfl, htype, -⟩ := ParamItem.mk.inj hitem
    rcases name' with _ | name
    · rfl
    rcases type with _ | type <;> rcases type' with _ | type' <;>
      simp only [Option.map_some, Option.map_none, reduceCtorEq, Option.some.injEq] at htype
    · exact ih _ _ _ hitems.symm
    · have rest := ih [] none none hitems.symm
      simp only [namedFields]
      rcases hr : namedFields [] none items with f | fs <;>
        rcases hr' : namedFields [] none items' with f' | fs' <;> rw [hr, hr'] at rest <;>
        simp only [bareGroup, Except.map, reduceCtorEq, Except.error.injEq, Except.ok.injEq,
          List.map_cons, Field.bare] at rest ⊢
      · exact rest
      · rw [htype, rest]

/-- Grouping parameters does not look at layout. -/
theorem groupParams_congr {items items' : List ParamItem}
    (h : items.map ParamItem.bare = items'.map ParamItem.bare) :
    bareGroup (groupParams items) = bareGroup (groupParams items') := by
  have any : ∀ items : List ParamItem,
      (items.any fun item => item.name.isSome && item.type.isSome) =
        (items.map ParamItem.bare).any fun item => item.name.isSome && item.type.isSome := by
    intro items
    simp only [List.any_map, Function.comp_def, ParamItem.bare, Option.isSome_map]
  rw [groupParams, groupParams, any, any items', h]
  generalize List.any _ _ = named
  cases named
  · exact congrArg Except.ok (anonymousFields_congr h)
  · exact namedFields_congr _ _ _ h

namespace Grammar.LayoutBlind

variable {g : Grammar} (hg : g.LayoutBlind)

/-! ## Lists and marks -/

/-- What follows commas is read without regard to layout if each phrase is. -/
theorem afterCommas {α β : Type} {e : α → β} {item : Parser α} (h : Blind e item) :
    Blind (List.map e) (g.afterCommas item) := by
  refine .entries (.atPunct fun b => ?_) _
  split
  · exact .next .advance (.bind h fun _ _ hb => .pure (congrArg Turn.more hb))
  · exact .pure rfl

/-- A list is read without regard to layout if each phrase is. -/
theorem commaSeparated {α β : Type} {e : α → β} {item : Parser α} (h : Blind e item) :
    Blind (List.map e) (g.commaSeparated item) := by
  refine .bind h fun a a' ha => .bind (afterCommas h) fun as as' has => .pure ?_
  rw [List.map_cons, List.map_cons, ha, has]

theorem idents : Blind id g.idents := by
  have h : Blind (List.map id) g.idents := commaSeparated Agree.expectIdent
  rwa [List.map_id_fun] at h

/-- The lines on which members stand are layout. -/
theorem fieldBlock (phrase : Opened) {entry : Parser Field} (h : Blind Field.bare entry) :
    Blind FieldList.bare (g.fieldBlock phrase entry) := by
  refine .peek fun t t' _ => .next (.expectPunct _) (.bind .claimTrailing fun c c' _ => ?_)
  refine .bind (.entries (e := Field.bare) (.peekKind fun kind => ?_) _) fun fs fs' hfs => ?_
  · split
    · exact .pure rfl
    · exact .rejectAt _ _ _
    · exact .next .advance (.pure rfl)
    · refine .bind .startDecorations fun d d' _ => .bind h fun f f' hf => ?_
      refine .next .expectTerminator (.bind .claimTrailing fun _ _ _ => .pure ?_)
      obtain ⟨hnames, htype, htag, -⟩ := Field.mk.inj hf
      simp only [Turn.map, Field.bare, hnames, htype, htag]
  · refine .bind (.closeEnclosure c c') fun _ _ _ => .next (.expectPunct _) (.pure ?_)
    simp only [FieldList.bare, bareFields_eq_map, hfs]

theorem chanDir : Blind id chanDir := by
  refine .atPunct fun b => ?_
  split
  · exact .next .advance (.next (.expectKeyword _) (.pure rfl))
  · refine .next (.expectKeyword _) (.atPunct fun b => ?_)
    split
    · exact .next .advance (.pure rfl)
    · exact .pure rfl

/-! ## Parameters -/

include hg

/-- An expression of the level, at the strength of the weakest operator. -/
theorem expr : Blind Expr.bare g.expr :=
  hg.binary 1

theorem exprs : Blind (List.map Expr.bare) g.exprs :=
  commaSeparated hg.expr

theorem paramType : Blind Expr.bare g.paramType := by
  refine .atPunct fun b => ?_
  split
  · refine .next .advance (.bind hg.type fun x x' hx => .pure ?_)
    simp only [Expr.bare, bareOptExpr_eq_map, Option.map_some, hx]
  · exact hg.type

/-- The decorations a parameter starts with are layout. -/
theorem paramItem (decs decs' : Decorations) :
    Agree ParamItem.bare (g.paramItem decs) (g.paramItem decs') := by
  refine .peekKind fun kind => ?_
  split
  · refine .next .advance (.peekKind fun kind => ?_)
    split
    · exact .next .advance (.same .expectIdent fun _ => .pure rfl)
    · exact .pure rfl
    · exact .pure rfl
    · refine .bind hg.paramType fun x x' hx => .pure ?_
      simp only [ParamItem.bare, Option.map_some, hx]
  · refine .bind hg.paramType fun x x' hx => .pure ?_
    simp only [ParamItem.bare, Option.map_some, hx]

/-- Where the parameters are opened is layout. -/
theorem paramTurn (opening opening' : Span) :
    Agree (Turn.map ParamItem.bare) (g.paramTurn opening) (g.paramTurn opening') := by
  refine .peekKind fun kind => ?_
  split
  · exact .pure rfl
  · exact .rejectAt _ _ _
  · refine .bind .startDecorations fun d d' _ => ?_
    refine .bind (hg.paramItem d d') fun i i' hi => .atPunct fun b => ?_
    split
    · refine .next .advance (.bind .claimTrailing fun _ _ _ => .pure ?_)
      obtain ⟨hname, htype, -⟩ := ParamItem.mk.inj hi
      simp only [Turn.map, ParamItem.bare, hname, htype]
    · exact .pure (congrArg Turn.last hi)

/-- Parameters are read alike and grouped alike. -/
theorem params : Blind FieldList.bare g.params := by
  refine .peek fun t t' _ => .next (.expectPunct _) (.bind .claimTrailing fun c c' _ => ?_)
  refine .bind (.entries (hg.paramTurn _ _) _) fun items items' hitems => ?_
  refine .bind (.closeEnclosure c c') fun _ _ _ => .next (.expectPunct _) ?_
  have hgroup := groupParams_congr hitems
  rcases hr : groupParams items with f | fs <;> rcases hr' : groupParams items' with f' | fs' <;>
    rw [hr, hr'] at hgroup <;>
    simp only [bareGroup, Except.map, reduceCtorEq, Except.error.injEq, Except.ok.injEq]
      at hgroup
  · rw [hgroup]
    exact .reject _
  · exact .pure (by simp only [FieldList.bare, bareFields_eq_map, hgroup])

/-- Results in parentheses, or a lone type. -/
theorem results : Blind (Option.map FieldList.bare) g.results := by
  refine .peekKind fun kind => ?_
  split
  · exact .bind hg.params fun _ _ h => .pure (congrArg some h)
  · split
    · refine .bind hg.type fun x x' hx => .pure ?_
      simp only [FieldList.of, Field.of, Option.map_some, FieldList.bare, bareFields_eq_map,
        List.map_cons, List.map_nil, Field.bare, hx]
    · exact .pure rfl

/-- Parameters and results. -/
theorem signature : Blind Signature.bare g.signature := by
  refine .bind hg.params fun ps ps' hps => .bind hg.results fun rs rs' hrs => .pure ?_
  simp only [Signature.bare, bareResults_eq_map, hps, hrs]

/-! ## Field lists -/

theorem structField : Blind (Prod.map id Expr.bare) g.structField := by
  refine .peekKind fun kind => ?_
  split
  · refine .next .advance (.peekKind fun kind => ?_)
    split
    · exact .next .advance (.same .expectIdent fun _ => .pure rfl)
    · exact .pure rfl
    · exact .pure rfl
    · exact .pure rfl
    · refine .bind (afterCommas Agree.expectIdent) fun others others' hothers => ?_
      refine .bind hg.type fun x x' hx => .pure ?_
      rw [List.map_id, List.map_id] at hothers
      simp only [Prod.map, hothers, hx]
  · refine .next (.expect _) (.bind hg.type fun x x' hx => .pure ?_)
    simp only [Prod.map, Expr.bare, hx]

/-- A field with its tag, if it has one. -/
theorem taggedField : Blind Field.bare g.taggedField := by
  refine .bind hg.structField fun f f' hf => .peekKind fun kind => ?_
  obtain ⟨hnames, htype⟩ := Prod.mk.inj hf
  split
  · refine .next .advance (.pure ?_)
    simp only [Field.bare, htype, show f.1 = f'.1 from hnames]
  · refine .pure ?_
    simp only [Field.bare, htype, show f.1 = f'.1 from hnames]

/-- A method, or an embedded type. -/
theorem interfaceEntry : Blind Field.bare g.interfaceEntry := by
  refine .same .expectIdent fun name => .peekKind fun kind => ?_
  split
  · refine .bind hg.signature fun s s' hs => .pure ?_
    simp only [Field.of, Field.bare, Expr.bare, hs]
  · exact .next .advance (.same .expectIdent fun _ => .pure rfl)
  · exact .pure rfl

/-! ## Types -/

theorem arrayType : Blind Expr.bare g.arrayType := by
  refine .next (.expectPunct _) (.bind (e := Option.map Expr.bare) (.peekKind fun kind => ?_)
    fun len len' hlen => .next (.expectPunct _) (.bind hg.type fun x x' hx => .pure ?_))
  · split
    · exact .pure rfl
    · exact .next .advance (.pure rfl)
    · exact .bind (.bracketed hg.expr) fun _ _ h => .pure (congrArg some h)
  · simp only [Expr.bare, bareOptExpr_eq_map, hlen, hx]

theorem mapType : Blind Expr.bare g.mapType := by
  refine .next (.expectKeyword _) (.next (.expectPunct _) (.bind hg.type fun k k' hk => ?_))
  refine .next (.expectPunct _) (.bind hg.type fun v v' hv => .pure ?_)
  simp only [Expr.bare, hk, hv]

/-- The forms of types, told apart by the kind of their first token. -/
theorem typeInner : Blind Expr.bare g.typeInner := by
  refine .peekKind fun kind => ?_
  split
  · refine .next .advance (.atPunct fun b => ?_)
    split
    · exact .next .advance (.same .expectIdent fun _ => .pure rfl)
    · exact .pure rfl
  · refine .next .advance (.bind hg.type fun x x' hx => .next (.expectPunct _) (.pure ?_))
    simp only [Expr.bare, hx]
  · exact hg.arrayType
  · refine .next (.expectKeyword _) (.bind (fieldBlock _ hg.taggedField) fun _ _ h => .pure ?_)
    simp only [Expr.bare, h]
  · refine .next (.expectKeyword _)
      (.bind (fieldBlock _ hg.interfaceEntry) fun _ _ h => .pure ?_)
    simp only [Expr.bare, h]
  · exact hg.mapType
  · refine .same LayoutBlind.chanDir fun dir => .bind hg.type fun x x' hx => .pure ?_
    simp only [Expr.bare, hx]
  · refine .same LayoutBlind.chanDir fun dir => .bind hg.type fun x x' hx => .pure ?_
    simp only [Expr.bare, hx]
  · refine .next .advance (.bind hg.signature fun s s' hs => .pure ?_)
    simp only [Expr.bare, hs]
  · refine .next .advance (.bind hg.type fun x x' hx => .pure ?_)
    simp only [Expr.bare, hx]
  · exact .unexpected _

/-- A type, one level of nesting down in both runs. -/
theorem nestedType : Blind Expr.bare g.nestedType :=
  .nested hg.typeInner

end Grammar.LayoutBlind

end HandlerSplit.Parse
