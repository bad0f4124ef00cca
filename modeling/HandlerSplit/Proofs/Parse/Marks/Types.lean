import HandlerSplit.Proofs.Parse.Marks.Params
/-!
# Comments and names of types

Types and field lists hold the comments and names they were read from, in order.
-/

namespace HandlerSplit.Parse.Grammar.Keeps

variable {α : Type} {g : Grammar} {K : TokenKind → Prop}

/-! ## Lists and marks -/

/-- Commas are no marks, so what follows them holds the marks of its phrases. -/
theorem afterCommas {e : α → List Mark} {item : Parser α} (h : Reads Anything [] e item) :
    Reads K [] (List.flatMap e) (g.afterCommas item) := by
  refine .entries (.atPunct ?_ (.pure rfl)) _
  exact .next rfl (.bind h fun a => .pure rfl)

/-- A list holds the marks of its phrases in order. -/
theorem commaSeparated {e : α → List Mark} {item : Parser α} (h : Reads Anything [] e item) :
    Reads K [] (List.flatMap e) (g.commaSeparated item) :=
  .bind h.weaken fun _ => .bind (afterCommas h) fun _ => .pure List.flatMap_cons

/-- A list of names, none of which is joined to another. -/
theorem idents : Reads K [] nameMarks g.idents := by
  have h : nameMarks = List.flatMap fun n => [Mark.name n false] :=
    funext fun ns => List.map_eq_flatMap
  rw [h]
  exact commaSeparated .expectIdent

/-- A block of fields holds the comments at its braces and the marks of its members. -/
theorem fieldBlock (phrase : Opened) {entry : Parser Field}
    (h : Reads Anything [] (Field.inner false) entry) :
    Reads K [] (FieldList.marks false) (g.fieldBlock phrase entry) := by
  refine .peek fun t => .skip (.expectPunct _) (.claimTrailing fun comment => ?_)
  refine .bind (.entries (e := Field.marks false) (.peekKind fun kind _ => ?_) _)
    fun fs => .closeEnclosure _ fun b hb => .skip (.expectPunct _) (.pure ?_)
  · split
    · exact .pure rfl
    · exact .rejectAt _ _
    · exact .next rfl (.pure rfl)
    · refine .startDecorations fun d _ => .bind h.weaken fun f => .skip .expectTerminator ?_
      exact .claimTrailing fun trailing => .pure rfl
  · rw [← hb, FieldList.marks, Enclosure.around, fieldMarks_eq]
    rfl

/-- The direction of a channel holds no marks. -/
theorem chanDir : Reads K [] noMarks chanDir := by
  refine .atPunct ?_ (.skip (.expectKeyword _) (.atPunct ?_ (.pure rfl)))
  · exact .next rfl (.skip (.expectKeyword _) (.pure rfl))
  · exact .next rfl (.pure rfl)

/-! ## Results and field lists -/

variable (hg : g.Keeps)

include hg

theorem expr : Reads K [] Expr.marks g.expr :=
  hg.binary 1

theorem exprs : Reads K [] (List.flatMap Expr.marks) g.exprs :=
  commaSeparated hg.expr

/-- The marks of results in parentheses, or of a lone type. -/
theorem results : Reads K [] resultMarks g.results := by
  refine .peekKind fun kind _ => ?_
  split
  · exact .bind hg.params fun fs => .pure rfl
  · split
    · refine .bind hg.type fun x => .pure ?_
      simp [resultMarks, FieldList.of, Field.of, FieldList.marks, fieldMarks, fieldNameMarks]
    · exact .pure rfl

/-- The marks of the parameters, then those of the results. -/
theorem signature : Reads K [] Signature.marks g.signature :=
  .bind hg.params fun _ => .bind hg.results fun _ => .pure rfl

/-- The names of a field, of which the later ones are not joined, and its type. -/
theorem structField :
    Reads K [] (fun f : List String × Expr => fieldNameMarks false f.1 ++ f.2.marks)
      g.structField := by
  refine .peekKind fun kind _ => ?_
  split
  · refine .name (.peekKind fun kind _ => ?_)
    split
    · exact .next rfl (.bind .expectIdent fun _ => .pure rfl)
    · exact .pure rfl
    · exact .pure rfl
    · exact .pure rfl
    · refine .bind (afterCommas .expectIdent) fun others => .bind hg.type fun x => .pure ?_
      rw [← List.map_eq_flatMap]
      rfl
  · exact .skip (.expect rfl) (.bind hg.type fun x => .pure rfl)

/-- A tag is a string and holds no marks. -/
theorem taggedField : Reads K [] (Field.inner false) g.taggedField := by
  refine .bind hg.structField fun f => .peekKind fun kind _ => ?_
  split
  · exact .next rfl (.pure rfl)
  · exact .pure rfl

/-- A method holds its name and the marks of its signature, an embedded type its own. -/
theorem interfaceEntry : Reads K [] (Field.inner false) g.interfaceEntry := by
  refine .bind .expectIdent fun name => .peekKind fun kind _ => ?_
  split
  · exact .bind hg.signature fun s => .pure rfl
  · exact .next rfl (.bind .expectIdent fun _ => .pure rfl)
  · exact .pure rfl

/-! ## Types -/

/-- The marks of the length, then those of the element. -/
theorem arrayType : Reads K [] Expr.marks g.arrayType := by
  refine .skip (.expectPunct _) (.bind (e := optExprMarks) (.peekKind fun kind _ => ?_)
    fun len => .skip (.expectPunct _) (.bind hg.type fun x => .pure rfl))
  split
  · exact .pure rfl
  · exact .next rfl (.pure rfl)
  · exact .bind (.bracketed hg.expr) fun _ => .pure rfl

/-- The marks of the key, then those of the value. -/
theorem mapType : Reads K [] Expr.marks g.mapType := by
  refine .skip (.expectKeyword _) (.skip (.expectPunct _) (.bind hg.type fun k => ?_))
  exact .skip (.expectPunct _) (.bind hg.type fun v => .pure rfl)

/-- The forms of types, told apart by their first token. -/
theorem typeInner : Reads K [] Expr.marks g.typeInner := by
  refine .peekKind fun kind _ => ?_
  split
  · refine .name (.atPunct ?_ (.pure rfl))
    exact .next rfl (.bind .expectIdent fun _ => .pure rfl)
  · exact .next rfl (.bind hg.type fun x => .skip (.expectPunct _) (.pure rfl))
  · exact hg.arrayType
  · exact .skip (.expectKeyword _) (.bind (fieldBlock _ hg.taggedField) fun _ => .pure rfl)
  · exact .skip (.expectKeyword _) (.bind (fieldBlock _ hg.interfaceEntry) fun _ => .pure rfl)
  · exact hg.mapType
  · exact .bind chanDir fun dir => .bind hg.type fun x => .pure rfl
  · exact .bind chanDir fun dir => .bind hg.type fun x => .pure rfl
  · exact .next rfl (.bind hg.signature fun s => .pure rfl)
  · exact .next rfl (.bind hg.type fun x => .pure rfl)
  · exact .unexpected _

/-- A type, one level of nesting down. -/
theorem nestedType : Reads K [] Expr.marks g.nestedType :=
  .nested hg.typeInner

end HandlerSplit.Parse.Grammar.Keeps
