import HandlerSplit.Parse.Types
import HandlerSplit.Proofs.Parse.Consuming
/-!
# Words of types

Types, parameter lists and field lists consume their words. Grouping the names of a parameter list
under their types keeps names and types in the order in which they stand in the list.
-/

namespace HandlerSplit.Parse

/-! ## Grouping -/

/-- The words of an entry of a parameter list. -/
def ParamItem.words (item : ParamItem) : List TokenKind :=
  nameWords item.name.toList ++ optExprWords item.type

/-- A field without a tag has the words of its names and its type. -/
theorem Field.words_of_untagged (names : List String) (type : Expr) (decs : Decorations) :
    Field.words false ⟨names, type, none, decs⟩ = nameWords names ++ type.words :=
  List.append_nil _

/-- Fields made of parameters without names have the words of the parameters. -/
theorem anonymousFields_words {items : List ParamItem}
    (hnames : ∀ item ∈ items, item.type.isSome → item.name = none) :
    (anonymousFields items).flatMap (Field.words false) = items.flatMap ParamItem.words := by
  induction items with
  | nil => rfl
  | cons item items ih =>
    have hrest := ih fun item hmem => hnames item (List.mem_cons_of_mem _ hmem)
    have hname := hnames item List.mem_cons_self
    obtain ⟨name, type, decs⟩ := item
    rw [List.flatMap_cons, ← hrest]
    cases type with
    | none =>
      cases name with
      | none => rfl
      | some name => rfl
    | some type =>
      obtain rfl : name = none := hname rfl
      show Field.words false ⟨[], type, none, decs⟩ ++ _ = _
      rw [Field.words_of_untagged]
      rfl

/-- Names that wait for their type stand before the words of what follows. -/
theorem namedFields_words {items : List ParamItem} {names : List String}
    {decs : Option Decorations} {fields : List Field}
    (hok : namedFields names decs items = .ok fields) :
    fields.flatMap (Field.words false) = nameWords names ++ items.flatMap ParamItem.words := by
  induction items generalizing names decs fields with
  | nil =>
    rw [namedFields] at hok
    split at hok
    · rename_i hnames
      obtain rfl := List.isEmpty_iff.mp hnames
      cases hok
      rfl
    · cases hok
  | cons item items ih =>
    obtain ⟨name, type, d⟩ := item
    cases name with
    | none => cases hok
    | some n =>
      cases type with
      | none =>
        rw [ih hok, nameWords, List.map_append, List.append_assoc]
        rfl
      | some type =>
        rw [namedFields] at hok
        rcases hrest : namedFields [] none items with fault | rest <;> rw [hrest] at hok
        · cases hok
        · obtain rfl := Except.ok.inj hok
          rw [List.flatMap_cons, ih hrest, Field.words_of_untagged]
          simp [nameWords, ParamItem.words, optExprWords]

/-- The fields of a list hold the words of its entries. -/
theorem groupParams_words {items : List ParamItem} {fields : List Field}
    (hok : groupParams items = .ok fields) :
    fields.flatMap (Field.words false) = items.flatMap ParamItem.words := by
  rw [groupParams] at hok
  split at hok
  · exact namedFields_words hok
  · rename_i hnamed
    obtain rfl := Except.ok.inj hok
    refine anonymousFields_words fun item hmem htype => ?_
    cases hname : item.name with
    | none => rfl
    | some n =>
      refine absurd (List.any_eq_true.mpr ⟨item, hmem, ?_⟩) hnamed
      rw [hname, htype]
      rfl

/-! ## Levels of the grammar -/

/-- The words of the parts of an `if` statement. -/
def ifWords (r : Option Stmt × Expr × Block × Else) : List TokenKind :=
  [.keyword .if] ++ (optStmtWords r.1 ++ r.2.1.words) ++ r.2.2.1.words ++ r.2.2.2.words

/-- A level of the grammar whose phrases answer what they consume. -/
structure Grammar.Exact (g : Grammar) : Prop where
  binary {K : TokenKind → Prop} (strength : Nat) : Consumes K [] Expr.words (g.binary strength)
  unary {K : TokenKind → Prop} : Consumes K [] Expr.words g.unary
  elementValue {K : TokenKind → Prop} : Consumes K [] Expr.words g.elementValue
  type {K : TokenKind → Prop} : Consumes K [] Expr.words g.type
  block {K : TokenKind → Prop} : Consumes K [] Block.words g.block
  stmt {K : TokenKind → Prop} : Consumes K [] StmtKind.words g.stmt
  ifThen {K : TokenKind → Prop} : Consumes K [] ifWords g.ifThen

namespace Grammar.Exact

variable {α : Type} {g : Grammar} {K : TokenKind → Prop}

/-! ## Lists and marks -/

/-- Commas are no words, so what follows them has the words of its phrases. -/
theorem afterCommas {e : α → List TokenKind} {item : Parser α} (h : Consumes Anything [] e item) :
    Consumes K [] (List.flatMap e) (g.afterCommas item) := by
  refine .entries (.atPunct ?_ ?_) _
  · exact .next rfl (.bind h fun a => .pure rfl)
  · exact .pure rfl

/-- A list has the words of its phrases in order. -/
theorem commaSeparated {e : α → List TokenKind} {item : Parser α}
    (h : Consumes Anything [] e item) :
    Consumes K [] (List.flatMap e) (g.commaSeparated item) :=
  .bind h.weaken fun _ => .bind (afterCommas h) fun _ => .pure List.flatMap_cons

/-- The words of names are one identifier each. -/
theorem nameWords_eq : nameWords = List.flatMap fun n => [TokenKind.ident n] :=
  funext fun _ => List.map_eq_flatMap

theorem idents : Consumes K [] nameWords g.idents := by
  rw [nameWords_eq]
  exact commaSeparated .expectIdent

/-- The words of a direction are the keyword and its arrow, as they are written. -/
theorem chanDir : Consumes K [] ChanDir.words chanDir := by
  refine .atPunct ?_ (.expectKeyword (.atPunct ?_ (.pure rfl)))
  · exact .word rfl (.expectKeyword (.pure rfl))
  · exact .word rfl (.pure rfl)

/-- The members of a struct or interface, of which `entry` reads one. -/
theorem fieldBlock (phrase : Opened) {methods : Bool} {entry : Parser Field}
    (h : Consumes Anything [] (Field.words methods) entry) :
    Consumes K [] (FieldList.memberWords methods) (g.fieldBlock phrase entry) := by
  refine .peek fun t => .expectMark rfl (.claimTrailing fun comment => ?_)
  refine .bind (.entries (e := Field.words methods) (.peekKind fun kind _ => ?_) _)
    fun fs => .closeEnclosure _ fun b => .expectMark rfl (.pure ?_)
  · split
    · exact .pure rfl
    · exact .rejectAt _ _
    · exact .next rfl (.pure rfl)
    · refine .startDecorations fun d => .bind h.weaken fun f => .skip .expectTerminator ?_
      exact .claimTrailing fun trailing => .pure rfl
  · rw [FieldList.memberWords, fieldWords_eq]
    rfl

variable (hg : g.Exact)

include hg

theorem expr : Consumes K [] Expr.words g.expr :=
  hg.binary 1

theorem exprs : Consumes K [] exprWords g.exprs := by
  rw [funext exprWords_eq]
  exact commaSeparated hg.expr

/-! ## Parameters -/

theorem paramType : Consumes K [] Expr.words g.paramType := by
  refine .atPunct ?_ hg.type
  exact .next rfl (.bind hg.type fun x => .pure rfl)

/-- An entry of a parameter list has the words of its name and its type. -/
theorem paramItem (decs : Decorations) :
    Consumes K [] ParamItem.words (g.paramItem decs) := by
  refine .peekKind fun kind _ => ?_
  split
  · refine .word rfl (.peekKind fun kind _ => ?_)
    split
    · exact .word rfl (.bind .expectIdent fun member => .pure rfl)
    · exact .pure rfl
    · exact .pure rfl
    · exact .bind hg.paramType fun x => .pure rfl
  · exact .bind hg.paramType fun x => .pure rfl

theorem paramTurn (opening : Span) :
    Consumes K [] (Turn.words ParamItem.words) (g.paramTurn opening) := by
  refine .peekKind fun kind _ => ?_
  split
  · exact .pure rfl
  · exact .rejectAt _ _
  · refine .startDecorations fun d => .bind (hg.paramItem d) fun item => .atPunct ?_ (.pure rfl)
    exact .next rfl (.claimTrailing fun trailing => .pure rfl)

/-- Grouping keeps the words that have been consumed. -/
theorem params : Consumes K [] FieldList.words g.params := by
  refine .peek fun t => .skip (.expectFree rfl) (.claimTrailing fun comment => ?_)
  refine .bind (.entries (hg.paramTurn _) _) fun items => .closeEnclosure _ fun b =>
    .skip (.expectFree rfl) ?_
  split
  · rename_i fields hok
    refine .pure ?_
    rw [FieldList.words, fieldWords_eq, groupParams_words hok]
    rfl
  · exact .reject _

/-- The words of results in parentheses, or of a lone type. -/
theorem results : Consumes K [] resultWords g.results := by
  refine .peekKind fun kind _ => ?_
  split
  · exact .bind hg.params fun fs => .pure rfl
  · split
    · refine .bind hg.type fun x => .pure ?_
      simp [resultWords, FieldList.of, Field.of, FieldList.words, fieldWords, nameWords, tagWords,
        isMethod]
    · exact .pure rfl

/-- The words of the parameters, then those of the results. -/
theorem signature : Consumes K [] Signature.words g.signature :=
  .bind hg.params fun _ => .bind hg.results fun _ => .pure rfl

/-! ## Field lists -/

/-- The words of the names of a field, then those of its type. -/
theorem structField :
    Consumes K [] (fun f : List String × Expr => nameWords f.1 ++ f.2.words) g.structField := by
  refine .peekKind fun kind _ => ?_
  split
  · refine .word rfl (.peekKind fun kind _ => ?_)
    split
    · exact .word rfl (.bind .expectIdent fun _ => .pure rfl)
    · exact .pure rfl
    · exact .pure rfl
    · exact .pure rfl
    · refine .bind (afterCommas .expectIdent) fun others => .bind hg.type fun x => .pure ?_
      rw [← nameWords_eq]
      rfl
  · exact .expectWord rfl (.bind hg.type fun x => .pure rfl)

/-- A tag is a word behind the type. -/
theorem taggedField : Consumes K [] (Field.words false) g.taggedField := by
  refine .bind hg.structField fun f => .peekKind fun kind _ => ?_
  split
  · exact .word rfl (.pure rfl)
  · exact .pure (Field.words_of_untagged _ _ _)

/-- The entry of an interface is a method, written without the keyword, or a type. -/
theorem interfaceEntry : Consumes K [] (Field.words true) g.interfaceEntry := by
  refine .bind .expectIdent fun name => .peekKind fun kind _ => ?_
  split
  · exact .bind hg.signature fun s => .pure (List.append_nil _)
  · exact .word rfl (.bind .expectIdent fun _ => .pure rfl)
  · exact .pure rfl

/-! ## Types -/

/-- The words of an array type begin with its bracket. -/
theorem arrayType : Consumes K [] Expr.words g.arrayType := by
  refine .expectMark rfl (.bind (e := optExprWords) (.peekKind fun kind _ => ?_)
    fun len => .expectMark rfl (.bind hg.type fun x => .pure rfl))
  split
  · exact .pure rfl
  · exact .next rfl (.pure rfl)
  · exact .bind (.bracketed hg.expr) fun _ => .pure rfl

/-- The words of a map type begin with its keyword. -/
theorem mapType : Consumes K [] Expr.words g.mapType := by
  refine .expectKeyword (.expectMark rfl (.bind hg.type fun k => ?_))
  exact .expectMark rfl (.bind hg.type fun v => .pure rfl)

/-- The forms of types, told apart by their first token. -/
theorem typeInner : Consumes K [] Expr.words g.typeInner := by
  refine .peekKind fun kind _ => ?_
  split
  · refine .word rfl (.atPunct ?_ (.pure rfl))
    exact .word rfl (.bind .expectIdent fun _ => .pure rfl)
  · exact .next rfl (.bind hg.type fun x => .skip (.expectFree rfl) (.pure rfl))
  · exact hg.arrayType
  · exact .expectKeyword (.bind (fieldBlock _ hg.taggedField) fun _ => .pure rfl)
  · exact .expectKeyword (.bind (fieldBlock _ hg.interfaceEntry) fun _ => .pure rfl)
  · exact hg.mapType
  · exact .bind chanDir fun dir => .bind hg.type fun x => .pure rfl
  · exact .bind chanDir fun dir => .bind hg.type fun x => .pure rfl
  · exact .word rfl (.bind hg.signature fun s => .pure rfl)
  · exact .word rfl (.bind hg.type fun x => .pure rfl)
  · exact .unexpected _

/-- A type, one level of nesting down. -/
theorem nestedType : Consumes K [] Expr.words g.nestedType :=
  .nested hg.typeInner

end Grammar.Exact

end HandlerSplit.Parse
