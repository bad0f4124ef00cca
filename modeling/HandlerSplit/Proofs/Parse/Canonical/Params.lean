import HandlerSplit.Parse.Stmt
import HandlerSplit.Proofs.Parse.View
import HandlerSplit.Proofs.Tree.Canonical
/-!
# Reading parameter lists

A parameter list is read entry by entry, and a name is not told from a type before the list ends.
The entries of fields that all have names, or none of them, are grouped to those fields again
(`groupParams_paramItems`, `Parses.params`).
-/

namespace HandlerSplit.Parse

open Script (line)

/-! ## Entries of a parameter list -/

/-- The entry of a parameter without a name. -/
def ParamItem.anonymous : Expr → ParamItem
  | .ident n => ⟨some n, none, .plain⟩
  | t => ⟨none, some t, .plain⟩

/-- The entries of parameters that share a type. -/
def ParamItem.named (t : Expr) : List String → List ParamItem
  | [] => []
  | [n] => [⟨some n, some t, .plain⟩]
  | n :: n' :: ns => ⟨some n, none, .plain⟩ :: ParamItem.named t (n' :: ns)

/-- The entries of a field. -/
def paramItems (f : Field) : List ParamItem :=
  if f.names.isEmpty then [ParamItem.anonymous f.type] else ParamItem.named f.type f.names

/-- The tokens of an entry. -/
def ParamItem.spelling (i : ParamItem) : List TokenKind :=
  (i.name.elim [] fun n => [.ident n]) ++ optSpelling i.type

/-- An entry without a name is spelled as its type. -/
theorem spelling_anonymous (t : Expr) : (ParamItem.anonymous t).spelling = t.spelling := by
  cases t <;> rfl

/-- A comma stands between two lists that are not empty. -/
theorem separated_append {a b : List (List TokenKind)} (ha : a ≠ []) (hb : b ≠ []) :
    separated (a ++ b) = separated a ++ .punct .comma :: separated b := by
  induction a with
  | nil => exact absurd rfl ha
  | cons ks a ih =>
    cases a with
    | nil =>
      cases b with
      | nil => exact absurd rfl hb
      | cons ks' b => simp
    | cons ks' a =>
      rw [List.cons_append, List.cons_append, separated_cons_cons, separated_cons_cons,
        ← List.cons_append, ih (List.cons_ne_nil _ _), List.append_assoc, List.cons_append]

/-- The type of names stands behind the last of them. -/
theorem separated_named (t : Expr) {ns : List String} (hns : ns ≠ []) :
    separated ((ParamItem.named t ns).map ParamItem.spelling) =
      separated (ns.map fun n => [.ident n]) ++ t.spelling := by
  induction ns with
  | nil => exact absurd rfl hns
  | cons n ns ih =>
    cases ns with
    | nil => simp [ParamItem.named, ParamItem.spelling, optSpelling]
    | cons n' ns =>
      have hne : (ParamItem.named t (n' :: ns)).map ParamItem.spelling ≠ [] := by
        cases ns <;> exact List.cons_ne_nil _ _
      have happend := separated_append (List.cons_ne_nil [TokenKind.ident n] []) hne
      rw [ih (List.cons_ne_nil _ _)] at happend
      exact happend

/-- The entries of a list have the tokens of its fields. -/
theorem separated_paramItems (fs : List Field) :
    separated ((fs.flatMap paramItems).map ParamItem.spelling) = separated (fieldSpellings fs) := by
  have hitems (f : Field) : (paramItems f).map ParamItem.spelling ≠ [] ∧
      separated ((paramItems f).map ParamItem.spelling) =
        separated (f.names.map fun n => [.ident n]) ++ f.type.spelling := by
    rw [paramItems]
    cases hnames : f.names with
    | nil =>
      refine ⟨List.cons_ne_nil _ _, ?_⟩
      rw [if_pos List.isEmpty_nil, List.map_singleton, separated_singleton, spelling_anonymous]
      rfl
    | cons n ns =>
      refine ⟨?_, separated_named f.type (List.cons_ne_nil n ns)⟩
      cases ns <;> exact List.cons_ne_nil _ _
  induction fs with
  | nil => rfl
  | cons f fs ih =>
    obtain ⟨hne, hf⟩ := hitems f
    obtain ⟨ns, x, tag, d⟩ := f
    rw [List.flatMap_cons, List.map_append]
    cases fs with
    | nil => simpa [fieldSpellings] using hf
    | cons f' fs =>
      have hne' : ((f' :: fs).flatMap paramItems).map ParamItem.spelling ≠ [] := by
        rw [List.flatMap_cons, List.map_append]
        exact List.append_ne_nil_of_left_ne_nil (hitems f').1 _
      rw [separated_append hne hne', ih, hf]
      obtain ⟨ns', x', tag', d'⟩ := f'
      rfl

/-! ## Grouping -/

/-- The names of a field are grouped under its type again. -/
theorem namedFields_named (t : Expr) {ns : List String} (hns : ns ≠ []) (names : List String)
    (decs : Option Decorations) (hdecs : decs.getD .plain = .plain) {items : List ParamItem}
    {fs : List Field} (hrest : namedFields [] none items = .ok fs) :
    namedFields names decs (ParamItem.named t ns ++ items) =
      .ok (⟨names ++ ns, t, none, .plain⟩ :: fs) := by
  induction ns generalizing names decs with
  | nil => exact absurd rfl hns
  | cons n ns ih =>
    cases ns with
    | nil =>
      show namedFields names decs (⟨some n, some t, .plain⟩ :: items) = _
      simp only [namedFields, hrest, hdecs]
    | cons n' ns =>
      have hnext := ih (List.cons_ne_nil _ _) (names ++ [n]) (some .plain) rfl
      rw [List.append_assoc] at hnext
      show namedFields names decs
        (⟨some n, none, .plain⟩ :: (ParamItem.named t (n' :: ns) ++ items)) = _
      simp only [namedFields, hdecs]
      exact hnext

/-- Fields with names are grouped as they were. -/
theorem namedFields_flatMap {fs : List Field} (htags : ∀ f ∈ fs, f.tag = none)
    (hdecs : ∀ f ∈ fs, f.decs = .plain) (hnames : ∀ f ∈ fs, f.names ≠ []) :
    namedFields [] none (fs.flatMap paramItems) = .ok fs := by
  induction fs with
  | nil => rfl
  | cons f fs ih =>
    obtain ⟨htag, htags'⟩ := List.forall_mem_cons.mp htags
    obtain ⟨hdec, hdecs'⟩ := List.forall_mem_cons.mp hdecs
    obtain ⟨hname, hnames'⟩ := List.forall_mem_cons.mp hnames
    obtain ⟨ns, t, tag, d⟩ := f
    obtain rfl : tag = none := htag
    obtain rfl : d = .plain := hdec
    have hempty : ns.isEmpty = false := by
      cases ns with
      | nil => exact absurd rfl hname
      | cons n ns => rfl
    rw [List.flatMap_cons, paramItems, hempty]
    exact namedFields_named t hname [] none rfl (ih htags' hdecs' hnames')

/-- Fields without names are grouped as they were. -/
theorem anonymousFields_flatMap {fs : List Field} (htags : ∀ f ∈ fs, f.tag = none)
    (hdecs : ∀ f ∈ fs, f.decs = .plain) (hnames : ∀ f ∈ fs, f.names = []) :
    anonymousFields (fs.flatMap paramItems) = fs := by
  induction fs with
  | nil => rfl
  | cons f fs ih =>
    obtain ⟨htag, htags'⟩ := List.forall_mem_cons.mp htags
    obtain ⟨hdec, hdecs'⟩ := List.forall_mem_cons.mp hdecs
    obtain ⟨hname, hnames'⟩ := List.forall_mem_cons.mp hnames
    obtain ⟨ns, t, tag, d⟩ := f
    obtain rfl : tag = none := htag
    obtain rfl : d = .plain := hdec
    obtain rfl : ns = [] := hname
    have hfirst : anonymousFields [ParamItem.anonymous t] = [⟨[], t, none, .plain⟩] := by
      cases t <;> rfl
    have happend : anonymousFields (ParamItem.anonymous t :: fs.flatMap paramItems) =
        anonymousFields [ParamItem.anonymous t] ++ anonymousFields (fs.flatMap paramItems) :=
      List.filterMap_append (l := [ParamItem.anonymous t])
    exact happend.trans (by rw [hfirst, ih htags' hdecs' hnames']; rfl)

/-- Some entry of a field with names has a type, and no entry of a field without names has both. -/
theorem any_paramItems (f : Field) :
    ((paramItems f).any fun i => i.name.isSome && i.type.isSome) = !f.names.isEmpty := by
  obtain ⟨ns, t, tag, d⟩ := f
  cases ns with
  | nil => cases t <;> rfl
  | cons n ns =>
    induction ns generalizing n with
    | nil => rfl
    | cons n' ns ih => exact ih n'

/-- Entries of fields that all have names, or none of them, are grouped to the fields. -/
theorem groupParams_paramItems {fs : FieldList} (h : fs.Uniform) :
    groupParams (fs.fields.flatMap paramItems) = .ok fs.fields := by
  rw [groupParams]
  simp only [List.any_flatMap, any_paramItems]
  rcases h.named with hnamed | hnamed
  · split
    · exact namedFields_flatMap h.tags h.decs hnamed
    · rename_i hany
      cases hfields : fs.fields with
      | nil => rfl
      | cons f fs' =>
        refine absurd ?_ hany
        have hf := hnamed f (by rw [hfields]; exact List.mem_cons_self)
        rw [hfields, List.any_cons, Bool.or_eq_true]
        exact .inl (by cases hns : f.names with
          | nil => exact absurd hns hf
          | cons n ns => rfl)
  · rw [if_neg, anonymousFields_flatMap h.tags h.decs hnamed]
    simp only [List.any_eq_true, not_exists, not_and]
    intro f hf
    rw [hnamed f hf]
    exact Bool.false_ne_true

/-! ## What starts a type, and what goes on with one -/

/-- The tokens that go on with a type: with a name, or with the results of a function. -/
def continuesType (k : TokenKind) : Bool :=
  k == .punct .period || k == .punct .lparen || k.startsType

/-- A type that is not parenthesized shows by its first token that it is one. -/
theorem startsType_spelling {t : Expr} (h : t.CanonicalType) :
    ∃ k ks, t.spelling = k :: ks ∧
      if Print.isParen t then k = .punct .lparen else k.startsType = true := by
  cases h with
  | @chan dir x => cases dir <;> exact ⟨_, _, rfl, rfl⟩
  | _ => exact ⟨_, _, rfl, rfl⟩

/-- A parameter shows by its first token that it has a type. -/
theorem startsParam_spelling {t : Expr} (h : t.variadicElem.CanonicalType) :
    ∃ k ks, t.spelling = k :: ks ∧
      (k = .punct .ellipsis ∨ k = .punct .lparen ∨ k.startsType = true) := by
  have hplain (h : t.CanonicalType) : ∃ k ks, t.spelling = k :: ks ∧
      (k = .punct .ellipsis ∨ k = .punct .lparen ∨ k.startsType = true) := by
    obtain ⟨k, ks, hks, hk⟩ := startsType_spelling h
    refine ⟨k, ks, hks, .inr ?_⟩
    split at hk
    · exact .inl hk
    · exact .inr hk
  cases t with
  | ellipsis x => exact ⟨_, _, rfl, .inl rfl⟩
  | _ => exact hplain h

/-! ## Reading an entry -/

variable {g : Grammar} {ctx : Context} {rest : Script}

/-- A type inside another phrase. -/
structure InnerType (g : Grammar) (ctx : Context) (t : Expr) : Prop where
  canonical : t.CanonicalType
  parses : Parses g.type (line t.spelling) t ctx (continuesType · = false)

/-- A parameter that is a type name is read with its list, and another one as its type. -/
def InnerParam (g : Grammar) (ctx : Context) (f : Field) : Prop :=
  f.names = [] ∧ f.type.isQualified = true ∨ InnerType g ctx f.type.variadicElem

/-- An entry of the list of a canonical signature. -/
inductive ParamItem.Legal (g : Grammar) (ctx : Context) : ParamItem → Prop
  | name (n : String) : ParamItem.Legal g ctx ⟨some n, none, .plain⟩
  | qualified {t : Expr} (ht : t.isQualified = true) : ParamItem.Legal g ctx (ParamItem.anonymous t)
  | anonymous {t : Expr} (ht : InnerType g ctx t.variadicElem) :
    ParamItem.Legal g ctx (ParamItem.anonymous t)
  | typed (n : String) {t : Expr} (ht : InnerType g ctx t.variadicElem) :
    ParamItem.Legal g ctx ⟨some n, some t, .plain⟩

/-- The entries of a parameter that can be read can be read. -/
theorem ParamItem.legal_of_mem {f : Field} (hf : InnerParam g ctx f) {i : ParamItem}
    (hi : i ∈ paramItems f) : i.Legal g ctx := by
  rw [paramItems] at hi
  split at hi
  · rw [List.mem_singleton.mp hi]
    rcases hf with ⟨-, hf⟩ | hf
    · exact .qualified hf
    · exact .anonymous hf
  · rename_i hnames
    have hf : InnerType g ctx f.type.variadicElem :=
      hf.resolve_left fun h => hnames (List.isEmpty_iff.mpr h.1)
    generalize f.names = ns at hi
    induction ns with
    | nil => cases hi
    | cons n ns ih =>
      cases ns with
      | nil =>
        rw [List.mem_singleton.mp hi]
        exact .typed n hf
      | cons n' ns =>
        rcases List.mem_cons.mp hi with rfl | hi
        · exact .name n
        · exact ih hi

/-- The type of a parameter, up to a comma or the closing parenthesis. -/
theorem Yields.paramType {t : Expr} (ht : InnerType g ctx t.variadicElem) {mark : Punct}
    (hmark : mark = .comma ∨ mark = .rparen) (semi : Bool) (rest : Script) :
    Yields g.paramType (Script.view (line t.spelling ++ .token (.punct mark) :: rest) semi 0 ctx) t
      (Script.view (.token (.punct mark) :: rest) true 0 ctx) := by
  have hread (semi : Bool) := ht.parses semi 0 (.token (.punct mark) :: rest)
    (by rcases hmark with rfl | rfl <;> rfl)
  obtain ⟨k, ks, hks, hk⟩ := startsType_spelling ht.canonical
  have hne : k ≠ .punct .ellipsis := by
    rintro rfl
    split at hk <;> cases hk
  -- the type is read as it is, unless dots precede it
  have hplain (ht : t.variadicElem = t) : Yields g.paramType
      (Script.view (line t.spelling ++ .token (.punct mark) :: rest) semi 0 ctx) t
      (Script.view (.token (.punct mark) :: rest) true 0 ctx) := by
    rw [ht] at hread hks
    specialize hread semi
    rw [hks] at hread ⊢
    exact .atNe hne hread
  cases t with
  | ellipsis x =>
    cases x with
    | none => exact hplain rfl
    | some x => exact .atTrue rfl (.next (.bind (hread _) .pure))
  | _ => exact hplain rfl

/-- A name without a type, or a type that is a name. -/
theorem Yields.nameItem (n : String) {mark : Punct} (hmark : mark = .comma ∨ mark = .rparen)
    (semi : Bool) :
    Yields (g.paramItem .plain)
      (Script.view (.token (.ident n) :: .token (.punct mark) :: rest) semi 0 ctx)
      ⟨some n, none, .plain⟩ (Script.view (.token (.punct mark) :: rest) true 0 ctx) := by
  refine .peekKind (.next (.peekKind ?_))
  rcases hmark with rfl | rfl <;> exact .pure

/-- A type name by itself. -/
theorem Yields.qualifiedItem {t : Expr} (ht : t.isQualified = true) {mark : Punct}
    (hmark : mark = .comma ∨ mark = .rparen) (semi : Bool) :
    Yields (g.paramItem .plain)
      (Script.view (line t.spelling ++ .token (.punct mark) :: rest) semi 0 ctx)
      (ParamItem.anonymous t) (Script.view (.token (.punct mark) :: rest) true 0 ctx) := by
  cases t with
  | ident n => exact .nameItem n hmark semi
  | selector x n =>
    cases x with
    | ident pkg => exact .peekKind (.next (.peekKind (.next (.expectIdent .pure))))
    | _ => cases ht
  | _ => cases ht

/-- A type by itself. -/
theorem Yields.anonymousItem {t : Expr} (ht : InnerType g ctx t.variadicElem) {mark : Punct}
    (hmark : mark = .comma ∨ mark = .rparen) (semi : Bool) :
    Yields (g.paramItem .plain)
      (Script.view (line t.spelling ++ .token (.punct mark) :: rest) semi 0 ctx)
      (ParamItem.anonymous t) (Script.view (.token (.punct mark) :: rest) true 0 ctx) := by
  have hread := Yields.paramType ht hmark semi rest
  -- a type that starts with no name
  have htype {k : TokenKind} {ks : List TokenKind} (hks : t.spelling = k :: ks)
      (hk : ∀ n, k ≠ .ident n) : Yields (g.paramItem .plain)
      (Script.view (line t.spelling ++ .token (.punct mark) :: rest) semi 0 ctx)
      ⟨none, some t, .plain⟩ (Script.view (.token (.punct mark) :: rest) true 0 ctx) := by
    rw [hks] at hread ⊢
    refine .peekToken ?_
    split
    · exact absurd rfl (hk _)
    · exact .bind hread .pure
  have hcanonical := ht.canonical
  cases t with
  | ident n => exact .qualifiedItem rfl hmark semi
  | selector x n =>
    cases hcanonical with
    | qualified => exact .qualifiedItem rfl hmark semi
  | chanType dir x => cases dir <;> exact htype rfl fun _ => TokenKind.noConfusion
  | arrayType | mapType | funcType | structType | interfaceType | ellipsis | star | paren =>
    exact htype rfl fun _ => TokenKind.noConfusion
  | _ => cases hcanonical

/-- A name with its type. -/
theorem Yields.typedItem (n : String) {t : Expr} (ht : InnerType g ctx t.variadicElem) {mark : Punct}
    (hmark : mark = .comma ∨ mark = .rparen) (semi : Bool) :
    Yields (g.paramItem .plain)
      (Script.view (.token (.ident n) :: (line t.spelling ++ .token (.punct mark) :: rest)) semi 0 ctx)
      ⟨some n, some t, .plain⟩ (Script.view (.token (.punct mark) :: rest) true 0 ctx) := by
  obtain ⟨k, ks, hks, hk⟩ := startsParam_spelling ht.canonical
  have hread := Yields.paramType ht hmark true rest
  rw [hks] at hread ⊢
  refine .peekKind (.next (.peekToken ?_))
  split
  · rcases hk with hk | hk | hk <;> cases hk
  · rcases hk with hk | hk | hk <;> cases hk
  · rcases hk with hk | hk | hk <;> cases hk
  · exact .bind hread .pure

/-- An entry of a parameter list, up to a comma or the closing parenthesis. -/
theorem Yields.paramItem {i : ParamItem} (hi : i.Legal g ctx) {mark : Punct}
    (hmark : mark = .comma ∨ mark = .rparen) (semi : Bool) (rest : Script) :
    Yields (g.paramItem .plain)
      (Script.view (line i.spelling ++ .token (.punct mark) :: rest) semi 0 ctx) i
      (Script.view (.token (.punct mark) :: rest) true 0 ctx) := by
  cases hi with
  | name n => exact .nameItem n hmark semi
  | qualified ht =>
    rw [spelling_anonymous]
    exact .qualifiedItem ht hmark semi
  | anonymous ht =>
    rw [spelling_anonymous]
    exact .anonymousItem ht hmark semi
  | typed n ht => exact .typedItem n ht hmark semi

/-! ## Reading a list -/

namespace ParamItem.Legal

variable {i : ParamItem}

/-- An entry has no layout. -/
theorem decs (h : i.Legal g ctx) : i.decs = .plain := by
  cases h with
  | @qualified t => cases t <;> rfl
  | @anonymous t => cases t <;> rfl
  | _ => rfl

/-- An entry starts with a token that neither closes the list nor ends the text. -/
theorem starts (h : i.Legal g ctx) :
    ∃ k ks, i.spelling = k :: ks ∧ k ≠ .punct .rparen ∧ k ≠ .eof := by
  cases h with
  | @qualified t ht =>
    cases t with
    | ident n => exact ⟨_, _, rfl, TokenKind.noConfusion, TokenKind.noConfusion⟩
    | selector x n =>
      cases x with
      | ident pkg => exact ⟨_, _, rfl, TokenKind.noConfusion, TokenKind.noConfusion⟩
      | _ => cases ht
    | _ => cases ht
  | anonymous ht =>
    obtain ⟨k, ks, hks, hk⟩ := startsParam_spelling ht.canonical
    refine ⟨k, ks, (spelling_anonymous _).trans hks, ?_, ?_⟩ <;> rintro rfl <;>
      rcases hk with hk | hk | hk <;> cases hk
  | _ => exact ⟨_, _, rfl, TokenKind.noConfusion, TokenKind.noConfusion⟩

end ParamItem.Legal

/-- What follows an entry: a comma, or the closing parenthesis. -/
def paramEnd (i : ParamItem) : Parser (Turn ParamItem) := do
  if ← atPunct .comma then
    Parse.advance
    let trailing ← Parse.claimTrailing
    return .more { i with decs := { i.decs with trailing := trailing } }
  else return .last i

/-- The entries of a parameter list, up to the closing parenthesis. -/
theorem Yields.paramItems {items : List ParamItem} (hlegal : ∀ i ∈ items, i.Legal g ctx)
    (hturns : items.length < g.budget) (rest : Script) (opening : Span) :
    Yields (g.entries (g.paramTurn opening))
      (Script.view (line (separated (items.map ParamItem.spelling)) ++ .token (.punct .rparen) :: rest)
        false 0 ctx) items (Script.view (.token (.punct .rparen) :: rest) true 0 ctx) := by
  let item (i : ParamItem) : ParamItem × List TokenKind := (i, i.spelling)
  have hspellings : items.map ParamItem.spelling = (items.map item).map (·.2) := by
    rw [List.map_map]
    rfl
  have hanswer : (items.map item).map (·.1) = items := by
    rw [List.map_map]
    exact List.map_id _
  suffices hread : Yields (g.entries (g.paramTurn opening))
      (Script.view (line (separated ((items.map item).map (·.2))) ++ .token (.punct .rparen) :: rest)
        false 0 ctx) ((items.map item).map (·.1))
      (Script.view (.token (.punct .rparen) :: rest) true 0 ctx) by
    rwa [← hspellings, hanswer] at hread
  refine .list paramEnd (items.map item) ?_ ?_ ?_ ?_ ?_ false rest
  · rwa [List.length_map]
  · exact fun semi rest => .peekKind .pure
  · intro i hi mark hmark semi rest turn v hend
    obtain ⟨j, hj, rfl⟩ := List.mem_map.mp hi
    have hread := Yields.paramItem (hlegal j hj) hmark semi rest
    obtain ⟨k, ks, hks, hne, hne'⟩ := (hlegal j hj).starts
    simp only [item, hks] at hread ⊢
    refine .peekToken ?_
    split
    · exact absurd rfl hne
    · exact absurd rfl hne'
    · exact .startDecorations (.bind hread hend)
  · intro i hi rest
    obtain ⟨j, hj, rfl⟩ := List.mem_map.mp hi
    refine .atTrue rfl (.next (.claimTrailing ?_))
    have hplain : { j with decs := { j.decs with trailing := none } } = j := by
      have hdecs := (hlegal j hj).decs
      obtain ⟨name, type, decs⟩ := j
      obtain rfl : decs = .plain := hdecs
      rfl
    rw [hplain]
    exact .pure
  · intro i hi rest
    exact .atFalse rfl .pure

/-- A parameter list with its parentheses. -/
theorem Parses.params {fs : FieldList} (h : fs.Uniform)
    (htypes : ∀ f ∈ fs.fields, InnerParam g ctx f) (hturns : fs.spelling.length < g.budget) :
    Parses g.params (line fs.spelling) fs ctx fun _ => True := by
  intro semi gap rest _
  obtain ⟨fs, enclosure⟩ := fs
  obtain rfl : enclosure = .plain := h.enclosure
  have hlegal (i : ParamItem) (hi : i ∈ fs.flatMap Parse.paramItems) : i.Legal g ctx := by
    obtain ⟨f, hf, hi⟩ := List.mem_flatMap.mp hi
    exact ParamItem.legal_of_mem (htypes f hf) hi
  have hcard := card_le_separated ((fs.flatMap Parse.paramItems).map ParamItem.spelling)
  rw [separated_paramItems, List.length_map] at hcard
  have hlength : (FieldList.spelling ⟨fs, .plain⟩).length =
      (separated (fieldSpellings fs)).length + 2 := by
    simp [FieldList.spelling]
  have hitems := Yields.paramItems hlegal (by omega) rest
  rw [separated_paramItems] at hitems
  simp only [FieldList.spelling, Script.line_append, Script.line_cons, Script.line_nil,
    List.append_assoc, List.cons_append, List.nil_append]
  refine .peek fun opening => .expectPunct (.claimTrailing (.bind (hitems opening.span)
    (.closeEnclosure (.expectPunct ?_))))
  rw [groupParams_paramItems h]
  exact .pure

end HandlerSplit.Parse
