import HandlerSplit.Proofs.Print.Flow.Parts
import HandlerSplit.Proofs.Print.Source
/-!
# Printing in two styles

The outputs of a tree in two styles have the same flow. The proof goes through the tree by its
constructors. Of an expression also the first character is the same, since a unary operator looks at
it (`Expr.restyled`). So the style has no effect on the tokens of the text (`lexemesOf_print`).
-/

namespace HandlerSplit

namespace Print

open Output (SameFlow)

/-! ## Expressions -/

/-- Two outputs with the same flow that start with the same character. -/
structure Output.Alike (o o' : Output) : Prop where
  flow : o.SameFlow o'
  first : o.firstChar? = o'.firstChar?

namespace Output

/-- An output starts with the first character that is there. -/
theorem firstChar?_append (a b : Output) :
    (a ++ b).firstChar? = a.firstChar?.or b.firstChar? := by
  rw [firstChar?_eq, firstChar?_eq, firstChar?_eq, chars_append, List.head?_append]

namespace Alike

variable {o o' a a' : Output}

protected theorem rfl : o.Alike o :=
  ⟨rfl, rfl⟩

/-- Two parts that are alike make wholes that are alike. -/
theorem append (ha : a.Alike a') (h : o.Alike o') : (a ++ o).Alike (a' ++ o') :=
  ⟨ha.flow.append h.flow, by rw [firstChar?_append, firstChar?_append, ha.first, h.first]⟩

theorem cons (p : Piece) (h : o.Alike o') : Alike (p :: o) (p :: o') :=
  append (a := [p]) .rfl h

/-- Behind a word only the flow matters. -/
theorem word {t : String} (ht : t.toList ≠ []) (h : o.SameFlow o') :
    Alike (.word t :: o) (.word t :: o') := by
  refine ⟨h.cons _, ?_⟩
  obtain ⟨c, cs, hlist⟩ := List.exists_cons_of_ne_nil ht
  have hchars : (Piece.word t).chars = c :: cs := hlist
  rw [firstChar?, firstChar?, hchars]

theorem inParens (h : o.Alike o') : (inParens o).Alike (inParens o') :=
  (h.append .rfl).cons _

/-- What is printed where something is missing is the same in both styles. -/
theorem getD {b b' : Option Output} (h : Option.Rel Alike b b') (o : Output) :
    (b.getD o).Alike (b'.getD o) := by
  cases h with
  | none => exact .rfl
  | some h => exact h

theorem spaced (isSpaced : Bool) (h : o.Alike o') :
    Alike (if isSpaced then .space :: o else o) (if isSpaced then .space :: o' else o') := by
  cases isSpaced with
  | false => exact h
  | true => exact h.cons _

/-- Whether a unary operator is parted from its operand depends on the first character. -/
theorem unary (op : UnaryOp) (h : o.Alike o') : (unaryOutput op o).Alike (unaryOutput op o') := by
  rw [unaryOutput, unaryOutput, h.first]
  exact cons _ (spaced _ h)

/-- Spaces around an operator have no effect on the first character. -/
theorem binary (isSpaced : Bool) (op : BinaryOp) (ha : a.Alike a') (h : o.Alike o') :
    (binaryOutput isSpaced a op o).Alike (binaryOutput isSpaced a' op o') := by
  rw [binaryOutput, binaryOutput, h.first]
  exact (ha.append .rfl).append (cons _ (spaced _ h))

/-- Outputs that are alike have the same flow. -/
theorem sameFlow {b b' : Option Output} (h : Option.Rel Alike b b') : Option.Rel SameFlow b b' := by
  cases h with
  | none => exact .none
  | some h => exact .some h.flow

end Alike

end Output

open Output (Alike)

/-- The bounds of a slice. -/
theorem Output.Alike.bounds (blanks : Bool) {bs bs' : List (Option Output)}
    (h : List.Forall₂ (Option.Rel Alike) bs bs') :
    (boundsOutput blanks bs).Alike (boundsOutput blanks bs') := by
  have hspace {b b' : Option Output} (hb : Option.Rel Alike b b') :
      b.isSome = b'.isSome := by
    cases hb <;> rfl
  induction h with
  | nil => exact .rfl
  | cons hlow hrest ih =>
    cases hrest with
    | nil => exact .getD hlow []
    | cons hhigh =>
      rw [boundsOutput, boundsOutput, hspace hlow, hspace hhigh]
      exact ((((Alike.getD hlow []).append .rfl).append .rfl).append .rfl).append ih

/-- A list in brackets breaks its lines as the style asks, with the same flow. -/
theorem Output.Alike.bracketed {items items' : List ItemText} (h : List.Forall₂ ItemText.Alike items items')
    (style style' : Style) {opening closing : String} (hopening : opening.toList ≠ [])
    (hclosing : Lone closing) (ds : List Decorations) (enclosure : Enclosure) (indent : Nat)
    (variadic : Bool) :
    (Print.bracketed style opening closing ds enclosure indent variadic items).Alike
      (Print.bracketed style' opening closing ds enclosure indent variadic items') := by
  refine ⟨.bracketed h style style' opening hclosing ds enclosure indent variadic, ?_⟩
  obtain ⟨c, cs, hlist⟩ := List.exists_cons_of_ne_nil hopening
  have hchars : (Piece.word opening).chars = c :: cs := hlist
  obtain ⟨o, ho⟩ := bracketed_eq_cons style opening closing ds enclosure indent variadic items
  obtain ⟨o', ho'⟩ := bracketed_eq_cons style' opening closing ds enclosure indent variadic items'
  rw [ho, ho', Output.firstChar?, Output.firstChar?, hchars]

/-- Fields between braces are aligned as the style asks, with the same flow. -/
theorem Output.Alike.fieldBlock {fs fs' : List FieldText} (h : List.Forall₂ FieldText.Alike fs fs')
    (style style' : Style) (isStruct : Bool) (list : FieldList) (indent : Nat) :
    (Print.fieldBlock style isStruct list indent fs).Alike
      (Print.fieldBlock style' isStruct list indent fs') := by
  have hfirst (style : Style) (fs : List FieldText) :
      (Print.fieldBlock style isStruct list indent fs).firstChar? =
        Output.firstChar? [keywordPiece (if isStruct then .struct else .interface)] := by
    unfold Print.fieldBlock
    cases isStruct <;> dsimp only <;> split <;> (try split) <;> rfl
  exact ⟨SameFlow.fieldBlock h style style' isStruct list indent,
    (hfirst style fs).trans (hfirst style' fs').symm⟩

/-- A key with its value. -/
theorem ItemText.Alike.keyValue {key key' value value' : Output} (hkey : key.SameFlow key')
    (hvalue : value.SameFlow value') (pairs : Bool) :
    ItemText.Alike ⟨key ++ [.word ":", .space] ++ value, if pairs then some (key, value) else none⟩
      ⟨key' ++ [.word ":", .space] ++ value', if pairs then some (key', value') else none⟩ := by
  have hkeyed (key value : Output) : ItemText.Keyed
      ⟨key ++ [.word ":", .space] ++ value, if pairs then some (key, value) else none⟩ := by
    intro k v hpair
    dsimp only at hpair
    split at hpair
    · obtain ⟨rfl, rfl⟩ := Prod.mk.inj (Option.some.inj hpair)
      rfl
    · cases hpair
  exact ⟨hkeyed key value, hkeyed key' value', (hkey.append rfl).append hvalue⟩

/-! ## Trees -/

/-- Lists of outputs that are alike have the same flow. -/
theorem SameFlow.commaSeparated {os os' : List Output} (h : List.Forall₂ Alike os os') :
    (Output.commaSeparated os).SameFlow (Output.commaSeparated os') :=
  .joined _ (h.imp fun _ _ ho => ho.flow)

/-- The variables of a loop over a range, with the sign behind them. -/
theorem Output.SameFlow.rangeVars (define : Bool) {key key' value value' : Option Output} :
    Option.Rel Alike key key' → Option.Rel Alike value value' → SameFlow
      (match key with
        | none => []
        | some key =>
          key ++ (value.map fun value => [Piece.word ",", .space] ++ value).getD [] ++
            [.space, .word (if define then ":=" else "="), .space])
      (match key' with
        | none => []
        | some key' =>
          key' ++ (value'.map fun value => [Piece.word ",", .space] ++ value).getD [] ++
            [.space, .word (if define then ":=" else "="), .space]) := by
  intro hkey hvalue
  cases hkey with
  | none => rfl
  | some hkey =>
    refine (hkey.flow.append ?_).append rfl
    cases hvalue with
    | none => rfl
    | some hvalue => exact .append rfl hvalue.flow

theorem Output.SameFlow.initial {init init' : Option Output} :
    Option.Rel SameFlow init init' → SameFlow
      (match init with
        | some init => init ++ [.word ";", .space]
        | none => [])
      (match init' with
        | some init' => init' ++ [.word ";", .space]
        | none => []) := by
  intro h
  cases h with
  | none => rfl
  | some h => exact h.append rfl

theorem isEmpty_of_forall₂ {α : Type} {R : α → α → Prop} {xs xs' : List α}
    (h : List.Forall₂ R xs xs') : xs.isEmpty = xs'.isEmpty := by
  cases h <;> rfl

/-- A reserved word is not empty. -/
theorem toList_keyword (k : Keyword) : k.spelling.toList ≠ [] := by
  cases k <;> decide

/-- A statement that is printed on one line is its text alone. -/
theorem sound_kindText (style : Style) (k : StmtKind) (indent : Nat) (decs : Decorations) :
    (kindText style k indent decs).Sound := by
  cases k with
  | labeled label s => exact .labeled indent label _ decs
  | empty => exact ⟨fun _ => rfl, fun _ => ⟨rfl, rfl, rfl⟩⟩
  | _ => exact .plain indent _ decs

theorem sound_stmtTexts (style : Style) (ss : List Stmt) (indent : Nat) :
    ∀ s ∈ stmtTexts style ss indent, s.Sound := by
  induction ss with
  | nil => exact List.forall_mem_nil _
  | cons s ss ih =>
    obtain ⟨k, d⟩ := s
    exact List.forall_mem_cons.mpr ⟨sound_kindText style k indent d, ih⟩

variable (style style' : Style)

mutual

/-- The style has no effect on the flow of an expression, nor on its first character. -/
theorem Expr.restyled (x : Expr) (p : Place) :
    (exprOutput style x p).Alike (exprOutput style' x p) := by
  cases x with
  | ident n => exact .rfl
  | literal kind t => exact .rfl
  | composite t es b =>
    exact (Alike.getD (optExpr_restyled t p.inside) []).append
      (.bracketed (elements_restyled es true 1 _) style style' (by decide) (by rfl) _ b p.indent false)
  | funcLit sig body =>
    have hheader := Signature.restyled sig p.indent
    exact .word (toList_keyword .func) (hheader.append (SameFlow.cons .space
      (Block.restyled_body body p.indent _ _)))
  | paren x =>
    rw [exprOutput, exprOutput]
    split
    · exact Expr.restyled x p
    · split
      · exact Expr.restyled x _
      · exact (Expr.restyled x _).inParens
  | selector x n => exact (Expr.restyled x p.inside).append .rfl
  | index x k =>
    exact (((Expr.restyled x p.outermost).append .rfl).append (Expr.restyled k p.deeper)).append .rfl
  | slice x low high max =>
    have hbounds : List.Forall₂ (Option.Rel Alike)
        ([optExprOutput style low p.deeper, optExprOutput style high p.deeper] ++
          if max.isSome then [optExprOutput style max p.deeper] else [])
        ([optExprOutput style' low p.deeper, optExprOutput style' high p.deeper] ++
          if max.isSome then [optExprOutput style' max p.deeper] else []) := by
      refine .cons (optExpr_restyled low _) (.cons (optExpr_restyled high _) ?_)
      split
      · exact .cons (optExpr_restyled max _) .nil
      · exact .nil
    exact (((Expr.restyled x p.outermost).append .rfl).append (.bounds _ hbounds)).append .rfl
  | typeAssert x t =>
    exact (((Expr.restyled x p.inside).append .rfl).append
      (.getD (optExpr_restyled t p.outermost) _)).append .rfl
  | call f es variadic b =>
    rw [exprOutput, exprOutput]
    set place := if es.length > 1 then p.deeper else p.inside
    have hf : (if isFuncType f then inParens (exprOutput style f place)
        else exprOutput style f place).Alike
          (if isFuncType f then inParens (exprOutput style' f place)
            else exprOutput style' f place) := by
      split
      · exact (Expr.restyled f place).inParens
      · exact Expr.restyled f place
    exact hf.append (.bracketed (elements_restyled es false place.depth _) style style' (by decide)
      (by rfl) _ b place.indent variadic)
  | star x => exact (Expr.restyled x p.outermost).cons _
  | unary op x => exact .unary op (Expr.restyled x p.inside)
  | binary x op y lineBreak =>
    rw [exprOutput, exprOutput]
    split
    · exact ((((Expr.restyled x _).append .rfl).append .rfl).append (Expr.restyled y _))
    · exact .binary _ op (Expr.restyled x _) (Expr.restyled y _)
  | keyValue k v =>
    exact ((Expr.restyled k p.outermost).append .rfl).append (Expr.restyled v p.outermost)
  | arrayType len x =>
    exact ((Alike.rfl.append (Alike.getD (optExpr_restyled len p.outermost) [])).append .rfl).append
      (Expr.restyled x p.outermost)
  | mapType k v =>
    exact ((Alike.rfl.append (Expr.restyled k p.outermost)).append .rfl).append
      (Expr.restyled v p.outermost)
  | chanType dir x => exact .append .rfl (Expr.restyled x p.outermost)
  | funcType sig => exact .word (toList_keyword .func) (Signature.restyled sig p.indent)
  | structType fs => exact FieldList.restyled_block fs true p.indent
  | interfaceType fs => exact FieldList.restyled_block fs false p.indent
  | ellipsis x => exact (Alike.getD (optExpr_restyled x p.outermost) []).cons _
termination_by structural x

theorem optExpr_restyled (x : Option Expr) (p : Place) :
    Option.Rel Alike (optExprOutput style x p) (optExprOutput style' x p) := by
  cases x with
  | none => exact .none
  | some x => exact .some (Expr.restyled x p)
termination_by structural x

theorem exprs_restyled (xs : List Expr) (p : Place) :
    List.Forall₂ Alike (exprOutputs style xs p) (exprOutputs style' xs p) := by
  cases xs with
  | nil => exact .nil
  | cons x xs => exact .cons (Expr.restyled x p) (exprs_restyled xs p)
termination_by structural xs

/-- The style has no effect on the flow of elements. -/
theorem elements_restyled (es : List Element) (pairs : Bool) (depth : Nat) (indents : List Nat) :
    List.Forall₂ ItemText.Alike (itemTexts style pairs depth es indents)
      (itemTexts style' pairs depth es indents) := by
  cases es with
  | nil => exact .nil
  | cons e es =>
    obtain ⟨x, d⟩ := e
    have hrest := elements_restyled es pairs depth indents.tail
    have hx := Expr.restyled x ⟨depth, indents.headD 0, false⟩
    cases x with
    | keyValue k v =>
      exact .cons (.keyValue (Expr.restyled k (.atStart (indents.headD 0))).flow
        (Expr.restyled v (.atStart (indents.headD 0))).flow pairs) hrest
    | _ => exact .cons (.plain hx.flow) hrest
termination_by structural es

/-- The style has no effect on the flow of fields. -/
theorem fields_restyled (fs : List Field) (indents : List Nat) :
    List.Forall₂ FieldText.Alike (fieldTexts style fs indents) (fieldTexts style' fs indents) := by
  cases fs with
  | nil => exact .nil
  | cons f fs =>
    obtain ⟨ns, x, tag, d⟩ := f
    have hrest := fields_restyled fs indents.tail
    have hx := (Expr.restyled x (.atStart (indents.headD 0))).flow
    cases x with
    | funcType sig =>
      exact .cons ⟨rfl, hx, .some (Signature.restyled sig (indents.headD 0)), rfl, rfl⟩ hrest
    | _ => exact .cons ⟨rfl, hx, .none, rfl, rfl⟩ hrest
termination_by structural fs

/-- The style has no effect on the flow of fields between braces. -/
theorem FieldList.restyled_block (fs : FieldList) (isStruct : Bool) (indent : Nat) :
    (fieldBlock style isStruct fs indent (membersTexts style fs (memberIndents fs indent))).Alike
      (fieldBlock style' isStruct fs indent
        (membersTexts style' fs (memberIndents fs indent))) := by
  obtain ⟨fs, e⟩ := fs
  exact .fieldBlock (fields_restyled fs _) style style' isStruct ⟨fs, e⟩ indent
termination_by structural fs

theorem FieldList.restyled (fs : FieldList) (indent : Nat) :
    (paramListOutput style fs indent).SameFlow (paramListOutput style' fs indent) := by
  obtain ⟨fs, e⟩ := fs
  exact SameFlow.params (fields_restyled fs _) style style' e indent
termination_by structural fs

theorem results_restyled (rs : Option FieldList) (indent : Nat) :
    (resultsOutput style rs indent).SameFlow (resultsOutput style' rs indent) := by
  cases rs with
  | none => rfl
  | some fs =>
    obtain ⟨fs, e⟩ := fs
    rw [resultsOutput, resultsOutput]
    split
    · exact .cons _ (SameFlow.types (fields_restyled fs [indent]))
    · exact .cons _ (SameFlow.params (fields_restyled fs _) style style' e indent)
termination_by structural rs

/-- The style has no effect on the flow of a signature. -/
theorem Signature.restyled (s : Signature) (indent : Nat) :
    (signatureOutput style s indent).SameFlow (signatureOutput style' s indent) := by
  obtain ⟨ps, rs⟩ := s
  exact (FieldList.restyled ps indent).append (results_restyled rs indent)
termination_by structural s

/-- The style has no effect on the flow of a block. -/
theorem Block.restyled (b : Block) (indent : Nat) :
    (blockOutput style b indent (blockTexts style b (indent + 1))).SameFlow
      (blockOutput style' b indent (blockTexts style' b (indent + 1))) := by
  obtain ⟨ss, e, oneLine⟩ := b
  exact SameFlow.block (stmts_restyled ss (indent + 1)) style style' ⟨ss, e, oneLine⟩ indent
termination_by structural b

/-- Whether a body stands on one line has no effect on its flow. -/
theorem Block.restyled_body (b : Block) (indent : Nat) (header header' : Output) :
    (bodyOutput style b indent header (blockTexts style b (indent + 1))).SameFlow
      (bodyOutput style' b indent header' (blockTexts style' b (indent + 1))) := by
  obtain ⟨ss, e, oneLine⟩ := b
  exact SameFlow.body style style' ⟨ss, e, oneLine⟩ indent header header'
    (stmts_restyled ss (indent + 1)) (sound_stmtTexts style ss _) (sound_stmtTexts style' ss _)
termination_by structural b

theorem stmts_restyled (ss : List Stmt) (indent : Nat) :
    List.Forall₂ StmtText.Alike (stmtTexts style ss indent) (stmtTexts style' ss indent) := by
  cases ss with
  | nil => exact .nil
  | cons s ss => exact .cons (Stmt.restyled s indent) (stmts_restyled ss indent)
termination_by structural ss

theorem Stmt.restyled (s : Stmt) (indent : Nat) :
    (stmtText style s indent).Alike (stmtText style' s indent) := by
  obtain ⟨k, d⟩ := s
  exact StmtKind.restyled k indent d
termination_by structural s

theorem optStmt_restyled (s : Option Stmt) (indent : Nat) :
    Option.Rel SameFlow (optStmtOutput style s indent) (optStmtOutput style' s indent) := by
  cases s with
  | none => exact .none
  | some s => exact .some (Stmt.restyled s indent).text
termination_by structural s

/-- The style has no effect on the flow of a statement. -/
theorem StmtKind.restyled (k : StmtKind) (indent : Nat) (decs : Decorations) :
    (kindText style k indent decs).Alike (kindText style' k indent decs) := by
  cases k with
  | empty => exact ⟨rfl, rfl, rfl, rfl, rfl, rfl⟩
  | labeled label s => exact (Stmt.restyled s indent).labeled indent label decs
  | expr x => exact .plain indent (Expr.restyled x _).flow decs
  | assign lhs op rhs =>
    exact .plain indent (((SameFlow.commaSeparated (exprs_restyled lhs _)).append rfl).append
      (SameFlow.commaSeparated (exprs_restyled rhs _))) decs
  | incDec x up => exact .plain indent ((Expr.restyled x _).flow.append rfl) decs
  | send chan value =>
    exact .plain indent (((Expr.restyled chan _).flow.append rfl).append
      (Expr.restyled value _).flow) decs
  | decl d => exact .plain indent (GenDecl.restyled d indent) decs
  | returns values =>
    have hvalues := exprs_restyled values (.atStart indent)
    refine .plain indent (.cons _ ?_) decs
    rw [isEmpty_of_forall₂ hvalues]
    split
    · rfl
    · exact .cons _ (SameFlow.commaSeparated hvalues)
  | branch kind label => exact .plain indent rfl decs
  | block b => exact .plain indent (Block.restyled b indent) decs
  | ifThen init cond body otherwise =>
    have hheader := SameFlow.header false (optStmt_restyled init indent)
      (.some (Expr.restyled cond (.header indent)).flow) .none
    exact .plain indent (((SameFlow.cons _ hheader).append (Block.restyled body indent)).append
      (Else.restyled otherwise indent)) decs
  | forLoop init cond post body =>
    have hheader := SameFlow.header true (optStmt_restyled init indent)
      (Alike.sameFlow (optExpr_restyled cond (.header indent))) (optStmt_restyled post indent)
    exact .plain indent ((SameFlow.cons _ hheader).append (Block.restyled body indent)) decs
  | rangeLoop key value define x body =>
    have hvars := SameFlow.rangeVars define (optExpr_restyled key (.atStart indent))
      (optExpr_restyled value (.atStart indent))
    exact .plain indent (((((SameFlow.append rfl hvars).append rfl).append
      (Expr.restyled x _).flow).append rfl).append (Block.restyled body indent)) decs
  | switch init tag clauses braces =>
    have hheader := SameFlow.header false (optStmt_restyled init indent)
      (Alike.sameFlow (optExpr_restyled tag (.header indent))) .none
    exact .plain indent ((SameFlow.cons _ hheader).append
      (SameFlow.clauses style style' braces indent (clauses_restyled clauses indent))) decs
  | typeSwitch init guard clauses braces =>
    exact .plain indent ((((SameFlow.append rfl (.initial (optStmt_restyled init indent))).append
      (Stmt.restyled guard indent).text).append rfl).append
        (SameFlow.clauses style style' braces indent (clauses_restyled clauses indent))) decs
  | select clauses braces =>
    exact .plain indent (.append rfl
      (SameFlow.clauses style style' braces indent (clauses_restyled clauses indent))) decs
  | go x => exact .plain indent (.append rfl (Expr.restyled x _).flow) decs
  | defer x => exact .plain indent (.append rfl (Expr.restyled x _).flow) decs
termination_by structural k

/-- What follows the body of an `if` statement. -/
theorem Else.restyled (e : Else) (indent : Nat) :
    (elseOutput style e indent).SameFlow (elseOutput style' e indent) := by
  cases e with
  | none => rfl
  | elseIf init cond body otherwise =>
    have hheader := SameFlow.header false (optStmt_restyled init indent)
      (.some (Expr.restyled cond (.header indent)).flow) .none
    exact ((SameFlow.append rfl hheader).append (Block.restyled body indent)).append
      (Else.restyled otherwise indent)
  | block body => exact .append rfl (Block.restyled body indent)
termination_by structural e

theorem clauses_restyled (cs : List Clause) (indent : Nat) :
    List.Forall₂ ClauseText.Alike (clauseTexts style cs indent) (clauseTexts style' cs indent) := by
  cases cs with
  | nil => exact .nil
  | cons c cs =>
    obtain ⟨head, body, d⟩ := c
    exact .cons ⟨ClauseHead.restyled head indent, stmts_restyled body (indent + 1), rfl⟩
      (clauses_restyled cs indent)
termination_by structural cs

theorem ClauseHead.restyled (c : ClauseHead) (indent : Nat) :
    (headOutput style c indent).SameFlow (headOutput style' c indent) := by
  cases c with
  | default => rfl
  | values xs =>
    exact (SameFlow.append rfl (SameFlow.commaSeparated (exprs_restyled xs _))).append rfl
  | comm s => exact (SameFlow.append rfl (Stmt.restyled s indent).text).append rfl
termination_by structural c

/-- The style has no effect on the flow of a declaration. -/
theorem GenDecl.restyled (d : GenDecl) (indent : Nat) :
    (genDeclOutput style d indent).SameFlow (genDeclOutput style' d indent) := by
  obtain ⟨keyword, ss, group⟩ := d
  exact SameFlow.decl (specs_restyled ss _) style style' ⟨keyword, ss, group⟩ indent
termination_by structural d

theorem specs_restyled (ss : List Spec) (indent : Nat) :
    List.Forall₂ SpecText.Alike (specTexts style ss indent) (specTexts style' ss indent) := by
  cases ss with
  | nil => exact .nil
  | cons s ss =>
    obtain ⟨k, d⟩ := s
    exact .cons ⟨SpecKind.restyled k indent, rfl⟩ (specs_restyled ss indent)
termination_by structural ss

/-- The style has no effect on the flow of an entry, cell by cell. -/
theorem SpecKind.restyled (k : SpecKind) (indent : Nat) :
    (specForm style k indent).Alike (specForm style' k indent) := by
  cases k with
  | importPath name path => exact .importPath name path
  | value names type values =>
    have hvalues := exprs_restyled values (.atStart indent)
    refine .value names (Alike.sameFlow (optExpr_restyled type _)) ?_
    rw [isEmpty_of_forall₂ hvalues]
    split
    · exact .none
    · exact .some (SameFlow.commaSeparated hvalues)
  | type name isAlias x => exact .type name isAlias (Expr.restyled x _).flow
termination_by structural k

end

/-! ## Files -/

/-- The style has no effect on the flow of a function. -/
theorem FuncDecl.restyled (f : FuncDecl) (indent : Nat) :
    (funcOutput style f indent).SameFlow (funcOutput style' f indent) := by
  obtain ⟨recv, name, sig, body⟩ := f
  have hhead {recv recv' : Output} (hrecv : recv.SameFlow recv') :
      SameFlow ([keywordPiece .func, .space] ++ recv ++ .word name :: signatureOutput style sig indent)
        ([keywordPiece .func, .space] ++ recv' ++
          .word name :: signatureOutput style' sig indent) :=
    (SameFlow.append rfl hrecv).append (.cons _ (Signature.restyled style style' sig indent))
  have hall {recv recv' : Output} (hrecv : recv.SameFlow recv') (body : Block) :=
    (hhead hrecv).append (SameFlow.cons .space (Block.restyled_body style style' body indent
      ([keywordPiece .func, .space] ++ recv ++ .word name :: signatureOutput style sig indent)
      ([keywordPiece .func, .space] ++ recv' ++
        .word name :: signatureOutput style' sig indent)))
  have hparams (list : FieldList) : SameFlow (paramListOutput style list indent ++ [.space])
      (paramListOutput style' list indent ++ [.space]) :=
    (FieldList.restyled style style' list indent).append rfl
  cases recv with
  | none =>
    cases body with
    | none => exact hhead rfl
    | some body => exact hall rfl body
  | some list =>
    cases body with
    | none => exact hhead (hparams list)
    | some body => exact hall (hparams list) body

theorem Decl.restyled (d : Decl) : (declOutput style d).SameFlow (declOutput style' d) := by
  obtain ⟨kind, decs⟩ := d
  cases kind with
  | func f => exact FuncDecl.restyled style style' f 0
  | gen g => exact GenDecl.restyled style style' g 0

/-- The style has no effect on the flow of the lines of declarations. -/
theorem linesFlow_decls (last : Option Keyword) (ds : List Decl) :
    linesFlow (declLines style last ds) = linesFlow (declLines style' last ds) := by
  funext rest
  induction ds generalizing last with
  | nil => rfl
  | cons d ds ih =>
    simp only [declLines, linesFlow_append, linesFlow_ofCells,
      flow_withComment (Decl.restyled style style' d), ih]

/-- The lines of a file in two styles. -/
theorem linesFlow_file (file : SourceFile) :
    linesFlow (fileLines style file) = linesFlow (fileLines style' file) := by
  funext rest
  simp only [fileLines, linesFlow_append, List.append_assoc, List.cons_append, linesFlow_ofCells,
    linesFlow_decls style style']

/-- White space at the start of a text has no effect on its tokens. -/
theorem kindsFrom_gap_flow (o : Output) :
    kindsFrom [] (gap (o.flow [])) = kindsFrom [] (o.flow []) := by
  rw [gap, kindsFrom_push, kindsFrom_gap_nil]

end Print

/-- The style has an effect on white space only: the tokens of a printed file, its comments among
them, are the same in every style, where semicolons are left out. -/
theorem lexemesOf_print {source : String} {file : SourceFile} (h : parseFile source = .ok file)
    (style style' : Print.Style) :
    lexemesOf (tokenize (file.print style).toList) = lexemesOf (tokenize (file.print style').toList) := by
  have hkinds (style : Print.Style) : lexemesOf (tokenize (file.print style).toList) =
      Print.kindsFrom [] (Print.linesFlow (Print.fileLines style file) []) ++ [.eof] := by
    have hwritten := Print.written_parseFile h style
    rw [SourceFile.print, Print.toList_render, Print.tokenize_chars hwritten.legible,
      Print.lexemesOf_chars hwritten.legible (hwritten.apart none rfl).1, ← Print.kindsFrom_gap_flow,
      ← Print.flow_renderLines style.align]
    rfl
  rw [hkinds style, hkinds style', Print.linesFlow_file style style']

/-- A file with aligned comments and a function on one line. -/
def compactSource : String :=
  "package p\n\nvar (\n\ta = 1 // one\n\tlong int = 2 // two\n)\n\nfunc f() int \x7b g(a, -1); return 1 \x7d\n"

/-- A style without alignment that keeps no function on one line prints another text. -/
theorem lexemesOf_print_compact :
    ∃ file, parseFile compactSource = .ok file ∧
      file.print {} ≠ file.print ⟨false, 0⟩ ∧
      lexemesOf (tokenize (file.print {}).toList) =
        lexemesOf (tokenize (file.print ⟨false, 0⟩).toList) := by
  have hok : (parseFile compactSource).toOption.map
      (fun file => file.print {} == file.print ⟨false, 0⟩) = some false := by
    decide +kernel
  obtain ⟨file, h, hdiffer⟩ := exists_ok_of_map hok
  exact ⟨file, h, ne_of_beq_false hdiffer, lexemesOf_print h {} ⟨false, 0⟩⟩

end HandlerSplit
