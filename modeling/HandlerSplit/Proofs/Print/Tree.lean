import HandlerSplit.Proofs.Print.Operators
/-!
# What a tree writes

A regular tree is printed with its words and its comments, all of them in the order of the tree
(`SourceFile.prints`). The proof goes through the tree by its constructors; what a constructor
writes around its parts is shown in the modules before.
-/

namespace HandlerSplit.Print

/-! ## Elements -/

/-- The comments of elements stand around each of them, within those at the brackets. -/
theorem textsOf_elements (es : List Element) (e : Enclosure) :
    textsOf (e.around (elementMarks es)) = e.openComment.toList.map (·.text) ++
      (es.flatMap fun x => textsAround x.decs (textsOf x.expr.marks)) ++
      e.closeComments.map (·.text) := by
  rw [textsOf_enclosure, elementMarks_eq, textsOf_flatMap]
  congr 2
  exact List.flatMap_congr fun x _ => textsOf_around x.decs x.expr.marks

/-- A list in brackets starts with its bracket. -/
theorem bracketed_eq_cons (style : Style) (opening closing : String) (decs : List Decorations)
    (e : Enclosure) (indent : Nat) (variadic : Bool) (items : List ItemText) :
    ∃ o, bracketed style opening closing decs e indent variadic items = .word opening :: o := by
  unfold bracketed
  dsimp only
  split
  · exact ⟨_, rfl⟩
  · split <;> exact ⟨_, rfl⟩

section

variable {es : List Element} {items : List ItemText}

/-- Arguments in parentheses. -/
theorem Writes.arguments (style : Style)
    (h : List.Forall₂ (fun x item => ItemWrites item x.expr.words (textsOf x.expr.marks)) es items)
    (e : Enclosure) (indent : Nat) (variadic : Bool) :
    Writes Closed (Print.bracketed style "(" ")" (es.map (·.decs)) e indent variadic items) Clear
      (elementWords es) (textsOf (e.around (elementMarks es))) := by
  rw [textsOf_elements, elementWords_eq]
  exact (Writes.bracketed style .lparen .rparen (fun _ => rfl) ⟨by decide, fun _ => rfl⟩ h e indent
    variadic).cast (List.append_nil _) rfl

/-- Elements in braces. -/
theorem Writes.elements (style : Style)
    (h : List.Forall₂ (fun x item => ItemWrites item x.expr.words (textsOf x.expr.marks)) es items)
    (e : Enclosure) (indent : Nat) :
    Writes Closed (Print.bracketed style "\x7b" "\x7d" (es.map (·.decs)) e indent false items) Clear
      ([.punct .lbrace] ++ elementWords es ++ [.punct .rbrace])
      (textsOf (e.around (elementMarks es))) := by
  rw [textsOf_elements, elementWords_eq]
  exact Writes.bracketed style .lbrace .rbrace (fun _ => rfl) ⟨by decide, fun _ => rfl⟩ h e indent
    false

/-- A composite literal, whose type may be left out. -/
theorem Phrase.composite (style : Style) {type : Option Output} {ws : List TokenKind}
    {cs : List String} (htype : OptPhrase type ws cs)
    (h : List.Forall₂ (fun x item => ItemWrites item x.expr.words (textsOf x.expr.marks)) es items)
    (e : Enclosure) (indent : Nat) :
    Phrase (type.getD [] ++ Print.bracketed style "\x7b" "\x7d" (es.map (·.decs)) e indent false items)
      (ws ++ ([.punct .lbrace] ++ elementWords es ++ [.punct .rbrace]))
      (cs ++ textsOf (e.around (elementMarks es))) := by
  have hbraces := Writes.elements style h e indent
  rcases htype with ⟨rfl, rfl, rfl⟩ | ⟨x, rfl, hx⟩
  · obtain ⟨o, ho⟩ := bracketed_eq_cons style "\x7b" "\x7d" (es.map (·.decs)) e indent false items
    rw [ho] at hbraces
    show Phrase (Print.bracketed style "\x7b" "\x7d" (es.map (·.decs)) e indent false items) _ _
    rw [ho]
    exact .ofWord hbraces.before.behind fun _ => ⟨_, _, rfl, rfl⟩
  · exact hx.append hbraces

end

/-- An expression as an element. -/
theorem ItemWrites.plain {o : Output} {ws : List TokenKind} {cs : List String} (h : Phrase o ws cs) :
    ItemWrites (.plain o) ws cs :=
  ⟨h, nofun⟩

/-- A key with its value. -/
theorem Phrase.keyValue {key value : Output} {ws ws' : List TokenKind} {cs cs' : List String}
    (hkey : Phrase key ws cs) (hvalue : Phrase value ws' cs') :
    Phrase (key ++ [.word ":", .space] ++ value) (ws ++ [.punct .colon] ++ ws') (cs ++ cs') := by
  have hcolon : Writes Closed [.word ":", .space] Start [.punct .colon] [] :=
    (Writes.mark .colon (by decide)).append .space
  rw [List.append_assoc]
  exact (hkey.append (hcolon.append hvalue.writes)).cast (by simp) (by simp)

/-- A key with its value as an element; the two may be aligned. -/
theorem ItemWrites.keyValue {key value : Output} {ws ws' : List TokenKind} {cs cs' : List String}
    (hkey : Phrase key ws cs) (hvalue : Phrase value ws' cs') (pairs : Bool) :
    ItemWrites ⟨key ++ [.word ":", .space] ++ value, if pairs then some (key, value) else none⟩
      (ws ++ [.punct .colon] ++ ws') (cs ++ cs') := by
  refine ⟨.keyValue hkey hvalue, fun k v hpair => ?_⟩
  dsimp only at hpair
  split at hpair
  · obtain ⟨rfl, rfl⟩ := Prod.mk.inj (Option.some.inj hpair)
    exact ⟨ws, ws', cs, cs', hkey, hvalue, rfl, rfl⟩
  · cases hpair

/-! ## Trees -/

theorem textsOf_cons_name (n : String) (joined : Bool) (ms : List Mark) :
    textsOf (.name n joined :: ms) = textsOf ms :=
  rfl

theorem textsOf_nil : textsOf [] = [] :=
  rfl

/-- The values of an entry. -/
theorem OptWrites.values {vs : List Expr} {os : List Output}
    (h : List.Forall₂ (fun x o => Phrase o x.words (textsOf x.marks)) vs os) :
    OptWrites ((if os.isEmpty then none else some (Output.commaSeparated os)).map
      SpecForm.valuesCell) (valuesWords vs) (textsOf (exprMarks vs)) := by
  have hvalues := Writes.phrases h
  cases h with
  | nil => exact ⟨Writes.nil.behind, fun _ => ⟨rfl, rfl⟩⟩
  | cons =>
    refine ⟨?_, nofun⟩
    have hsign : Writes Start [.word "=", .space] Start [.punct .assign] [] :=
      ((Writes.mark .assign (by decide)).before.append Writes.space).cast (List.append_nil _) rfl
    refine (hsign.append hvalues).behind.cast ?_ ?_
    · rw [valuesWords, exprWords_eq]
    · rw [exprMarks_eq, textsOf_flatMap]
      rfl

/-- The values of a return statement. -/
theorem Writes.returned {vs : List Expr} {os : List Output}
    (h : List.Forall₂ (fun x o => Phrase o x.words (textsOf x.marks)) vs os) :
    Writes Shut (if os.isEmpty then [] else .space :: Output.commaSeparated os) Ended (exprWords vs)
      (textsOf (exprMarks vs)) := by
  have hvalues := Writes.phrases h
  rw [exprWords_eq, exprMarks_eq, textsOf_flatMap]
  cases h with
  | nil => exact Writes.nil.behind
  | cons => exact (Writes.space.before.append hvalues).behind

/-- The variables of a loop over a range: no value without a key. -/
theorem rangeVars_print {style : Style} {key value : Option Expr} {p : Place} (define : Bool)
    (hboth : value.isSome = true → key.isSome = true)
    (hkey : OptPhrase (optExprOutput style key p) (optExprWords key) (textsOf (optExprMarks key)))
    (hvalue : OptPhrase (optExprOutput style value p) (optExprWords value)
      (textsOf (optExprMarks value))) :
    Writes Start (match optExprOutput style key p with
      | none => []
      | some key => key ++ ((optExprOutput style value p).map
          fun value => [Piece.word ",", .space] ++ value).getD [] ++
          [.space, .word (if define then ":=" else "="), .space]) Start
      (optExprWords key ++ optExprWords value ++ rangeOpWords key.isSome define)
      (textsOf (optExprMarks key) ++ textsOf (optExprMarks value)) := by
  have hmissing : optExprOutput style key p = none → optExprOutput style value p = none := by
    cases key with
    | none => cases value with
      | none => exact fun _ => rfl
      | some v => cases hboth rfl
    | some k => exact nofun
  have hsome : (optExprOutput style key p).isSome = key.isSome := by cases key <;> rfl
  rw [← hsome]
  exact Writes.rangeVars define hkey hvalue hmissing

variable (style : Style)

mutual

/-- A regular expression is printed as a phrase with its words and comments. -/
theorem Expr.prints (x : Expr) (h : x.Regular) (p : Place) :
    Phrase (exprOutput style x p) x.words (textsOf x.marks) := by
  cases x with
  | ident n => exact .ident n
  | literal kind t => exact .literal kind t
  | composite t es b =>
    have hes := elements_prints es h.2 true 1 (elementIndents es b p.indent)
    exact (Phrase.composite style (optExpr_prints t h.1 p.inside) hes b p.indent).cast
      (by simp [Expr.words]) (by simp only [Expr.marks, textsOf_append])
  | funcLit sig body =>
    have hheader := (Phrase.keyword .func).append (Signature.prints sig h.1 p.indent)
    have hbody := Writes.space.append (Block.prints_body body h.2 p.indent
      (keywordPiece .func :: signatureOutput style sig p.indent))
    exact (hheader.append hbody).cast (by simp [Expr.words])
      (by simp only [Expr.marks, textsOf_append, List.nil_append])
  | paren x =>
    rw [exprOutput]
    split
    · exact Expr.prints x h p
    · split
      · exact Expr.prints x h _
      · exact (Expr.prints x h _).inParens
  | selector x n =>
    exact ((Expr.prints x h p.inside).append (Writes.selected n)).cast (by simp [Expr.words])
      (by simp only [Expr.marks, textsOf_append, textsOf_cons_name, textsOf_nil])
  | index x k =>
    have hkey : Writes Clear _ Ended _ _ := (Expr.prints k h.2 p.deeper).writes.before.behind
    exact ((Expr.prints x h.1 p.outermost).bracketed hkey).cast rfl
      (by simp only [Expr.marks, textsOf_append])
  | slice x low high max =>
    have hx := Expr.prints x h.1 p.outermost
    have hlow := optExpr_prints low h.2.1 p.deeper
    have hhigh := optExpr_prints high h.2.2.1 p.deeper
    cases max with
    | none =>
      exact (hx.bracketed (Writes.bounds hlow hhigh _).before).cast (by simp [Expr.words, maxWords])
        (by simp [Expr.marks, optExprMarks])
    | some y =>
      have hmax : OptPhrase (some (exprOutput style y p.deeper)) y.words (textsOf y.marks) :=
        .inr ⟨_, rfl, Expr.prints y h.2.2.2 p.deeper⟩
      exact (hx.bracketed (Writes.threeBounds hlow hhigh hmax _).before).cast
        (by simp [Expr.words, maxWords]) (by simp [Expr.marks, optExprMarks])
  | typeAssert x t =>
    have hx := Expr.prints x h.1 p.inside
    cases t with
    | none =>
      have hkeyword : Writes Clear [keywordPiece .type] Ended [.keyword .type] [] :=
        (Writes.keyword .type).before.behind
      exact (hx.asserted hkeyword).cast (by simp [Expr.words]) (by simp [Expr.marks, optExprMarks])
    | some t =>
      have htype : Writes Clear _ Ended _ _ := (Expr.prints t h.2 p.outermost).writes.before.behind
      exact (hx.asserted htype).cast (by simp [Expr.words]) (by simp [Expr.marks, optExprMarks])
  | call f es variadic b =>
    rw [exprOutput]
    set place := if es.length > 1 then p.deeper else p.inside
    have hes := elements_prints es h.2 false place.depth (elementIndents es b place.indent)
    have hargs := Writes.arguments style hes b place.indent variadic
    have hf : Phrase (if isFuncType f then inParens (exprOutput style f place)
        else exprOutput style f place) f.words (textsOf f.marks) := by
      split
      · exact (Expr.prints f h.1 place).inParens
      · exact Expr.prints f h.1 place
    exact (hf.append hargs).cast rfl (by simp only [Expr.marks, textsOf_append])
  | star x => exact (Expr.prints x h p.outermost).star
  | unary op x => exact .unary op (Expr.prints x h p.inside)
  | binary x op y lineBreak =>
    have hx := Expr.prints x h.1 (leftPlace x op p)
    rw [exprOutput]
    split
    · exact (Phrase.brokenBinary _ op p.indent hx (Expr.prints y h.2 _)).cast rfl
        (by simp only [Expr.marks, textsOf_append])
    · exact (Phrase.binary _ op hx (Expr.prints y h.2 _)).cast rfl
        (by simp only [Expr.marks, textsOf_append])
  | keyValue k v =>
    exact (Phrase.keyValue (Expr.prints k h.1 p.outermost) (Expr.prints v h.2 p.outermost)).cast rfl
      (by simp only [Expr.marks, textsOf_append])
  | arrayType len x =>
    exact (Phrase.arrayType (optExpr_prints len h.1 p.outermost)
      (Expr.prints x h.2 p.outermost)).cast rfl (by simp only [Expr.marks, textsOf_append])
  | mapType k v =>
    exact (Phrase.mapType (Expr.prints k h.1 p.outermost) (Expr.prints v h.2 p.outermost)).cast
      (by simp [Expr.words]) (by simp only [Expr.marks, textsOf_append])
  | chanType dir x => exact .chan dir (Expr.prints x h p.outermost)
  | funcType sig => exact (Phrase.keyword .func).append (Signature.prints sig h p.indent)
  | structType fs =>
    obtain ⟨fs, e⟩ := fs
    have hfs := fields_prints true fs h (memberIndents ⟨fs, e⟩ p.indent)
    exact Phrase.fieldBlock style hfs (fun x hx => (fieldsRegular_iff.mp h x hx).1) e p.indent false
  | interfaceType fs =>
    obtain ⟨fs, e⟩ := fs
    have hfs := fields_prints false fs h (memberIndents ⟨fs, e⟩ p.indent)
    exact Phrase.fieldBlock style hfs (fun x hx => (fieldsRegular_iff.mp h x hx).1) e p.indent false
  | ellipsis x => exact .ellipsis (optExpr_prints x h p.outermost)
termination_by structural x

theorem optExpr_prints (x : Option Expr) (h : optExprRegular x) (p : Place) :
    OptPhrase (optExprOutput style x p) (optExprWords x) (textsOf (optExprMarks x)) := by
  cases x with
  | none => exact .inl ⟨rfl, rfl, rfl⟩
  | some x => exact .inr ⟨_, rfl, Expr.prints x h p⟩
termination_by structural x

theorem exprs_prints (xs : List Expr) (h : exprsRegular xs) (p : Place) :
    List.Forall₂ (fun x o => Phrase o x.words (textsOf x.marks)) xs (exprOutputs style xs p) := by
  cases xs with
  | nil => exact .nil
  | cons x xs => exact .cons (Expr.prints x h.1 p) (exprs_prints xs h.2 p)
termination_by structural xs

/-- The elements of a list are printed one by one. -/
theorem elements_prints (es : List Element) (h : elementsRegular es) (pairs : Bool) (depth : Nat)
    (indents : List Nat) :
    List.Forall₂ (fun x item => ItemWrites item x.expr.words (textsOf x.expr.marks)) es
      (itemTexts style pairs depth es indents) := by
  cases es with
  | nil => exact .nil
  | cons e es =>
    obtain ⟨x, d⟩ := e
    have hrest := elements_prints es h.2 pairs depth indents.tail
    have hx := Expr.prints x h.1 ⟨depth, indents.headD 0, false⟩
    cases x with
    | keyValue k v =>
      have hitem := ItemWrites.keyValue (Expr.prints k h.1.1 (.atStart (indents.headD 0)))
        (Expr.prints v h.1.2 (.atStart (indents.headD 0))) pairs
      rw [← textsOf_append] at hitem
      exact .cons hitem hrest
    | _ => exact .cons (.plain hx) hrest
termination_by structural es

/-- The fields of a list are printed one by one. -/
theorem fields_prints (tagged : Bool) (fs : List Field) (h : fieldsRegular tagged fs)
    (indents : List Nat) :
    List.Forall₂ (fun x f => FieldText.Prints f x) fs (fieldTexts style fs indents) := by
  cases fs with
  | nil => exact .nil
  | cons f fs =>
    obtain ⟨ns, x, tag, d⟩ := f
    have hrest := fields_prints tagged fs h.2 indents.tail
    have hx := Expr.prints x h.1.2 (.atStart (indents.headD 0))
    cases x with
    | funcType sig =>
      have hsig := Signature.prints sig h.1.2 (indents.headD 0)
      refine .cons ⟨rfl, rfl, rfl, hx, ?_, nofun⟩ hrest
      rintro _ ⟨⟩
      exact ⟨⟨sig, rfl⟩, hsig⟩
    | _ => exact .cons ⟨rfl, rfl, rfl, hx, nofun, nofun⟩ hrest
termination_by structural fs

/-- Parameters are printed between parentheses, which are no words. -/
theorem FieldList.prints (fs : FieldList) (h : fs.Regular false) (indent : Nat) :
    Writes Closed (paramListOutput style fs indent) Clear fs.words (textsOf (fs.marks true)) := by
  obtain ⟨fs, e⟩ := fs
  exact Writes.params style (fields_prints false fs h _) e indent true
termination_by structural fs

/-- Results are printed behind the parameters, or not at all. -/
theorem results_print (rs : Option FieldList) (h : resultsRegular rs) (indent : Nat) :
    Writes Shut (resultsOutput style rs indent) Shut (resultWords rs) (textsOf (resultMarks rs)) := by
  cases rs with
  | none => exact .nil
  | some fs =>
    obtain ⟨fs, e⟩ := fs
    exact Writes.results style (fields_prints false fs h _) (fields_prints false fs h _)
      (fun x hx => (fieldsRegular_iff.mp h x hx).1) e indent
termination_by structural rs

/-- A signature is printed directly behind a name or keyword. -/
theorem Signature.prints (s : Signature) (h : s.Regular) (indent : Nat) :
    Writes Shut (signatureOutput style s indent) Shut s.words (textsOf s.marks) := by
  obtain ⟨ps, rs⟩ := s
  have hparams : Writes Shut (paramListOutput style ps indent) Clear ps.words
      (textsOf (ps.marks true)) := (FieldList.prints ps h.1 indent).before
  exact (hparams.append (results_print rs h.2 indent)).cast rfl
    (by simp only [Signature.marks, textsOf_append])
termination_by structural s

/-- A block is printed between its braces. -/
theorem Block.prints (b : Block) (h : b.Regular) (indent : Nat) :
    Writes Closed (blockOutput style b indent (blockTexts style b (indent + 1))) Clear b.words
      (textsOf b.marks) := by
  obtain ⟨ss, e, oneLine⟩ := b
  exact .block style (stmts_print ss h (indent + 1)) e oneLine indent
termination_by structural b

/-- The body of a function is printed on one line or on several. -/
theorem Block.prints_body (b : Block) (h : b.Regular) (indent : Nat) (header : Output) :
    Writes Closed (bodyOutput style b indent header (blockTexts style b (indent + 1))) Clear b.words
      (textsOf b.marks) := by
  obtain ⟨ss, e, oneLine⟩ := b
  exact .body style (stmts_print ss h (indent + 1)) e oneLine indent header
termination_by structural b

/-- The statements of a block are printed one by one. -/
theorem stmts_print (ss : List Stmt) (h : stmtsRegular ss) (indent : Nat) :
    List.Forall₂ (fun s t => StmtText.Prints t s) ss (stmtTexts style ss indent) := by
  cases ss with
  | nil => exact .nil
  | cons s ss => exact .cons (Stmt.prints s h.1 indent) (stmts_print ss h.2 indent)
termination_by structural ss

/-- A statement is printed with the comments around it. -/
theorem Stmt.prints (s : Stmt) (h : s.Regular) (indent : Nat) :
    (stmtText style s indent).Prints s := by
  obtain ⟨k, d⟩ := s
  exact StmtKind.prints k h.2 indent d
termination_by structural s

/-- A statement of a header. -/
theorem Stmt.header_prints (s : Stmt) (h : s.HeaderRegular) (indent : Nat) :
    Writes Start (stmtText style s indent).text Closed s.words (textsOf s.marks) := by
  obtain ⟨k, d⟩ := s
  obtain ⟨⟨hsimple, rfl⟩, hk⟩ := h
  refine ((StmtKind.prints k hk indent .plain).simple hsimple).cast rfl ?_
  rw [Stmt.marks, Decorations.around_plain]
termination_by structural s

/-- The statement of a header is printed without comments of its own, if it is there. -/
theorem optStmt_prints (s : Option Stmt) (h : headerRegular s) (indent : Nat) :
    OptWrites (optStmtOutput style s indent) (optStmtWords s) (textsOf (optStmtMarks s)) := by
  cases s with
  | none => exact ⟨Writes.nil.behind, fun _ => ⟨rfl, rfl⟩⟩
  | some s => exact ⟨(Stmt.header_prints s h indent).behind, nofun⟩
termination_by structural s

/-- A statement behind a label. -/
theorem Stmt.labeled_prints (s : Stmt) (h : s.LabeledRegular) (indent : Nat) :
    labelsPlainly s.kind s.decs ∧ (stmtText style s indent).Prints s := by
  obtain ⟨k, d⟩ := s
  exact ⟨h.1, StmtKind.prints k h.2 indent d⟩
termination_by structural s

/-- A regular statement is printed with its words and comments, whatever stands around it. -/
theorem StmtKind.prints (k : StmtKind) (h : k.Regular) (indent : Nat) (decs : Decorations) :
    (kindText style k indent decs).Prints ⟨k, decs⟩ := by
  cases k with
  | empty => exact .empty decs indent
  | labeled label s =>
    obtain ⟨hplain, hs⟩ := Stmt.labeled_prints s h indent
    exact hs.labeled hplain label decs indent
  | expr x =>
    have hx : Writes Start _ Shut _ _ := (Expr.prints x h (.atStart indent)).writes.before
    exact .plain hx.behind rfl (fun _ => rfl) indent
  | assign lhs op rhs =>
    have hleft := Writes.phrases (exprs_prints lhs h.1
      ⟨if lhs.length > 1 && rhs.length > 1 then 2 else 1, indent, false⟩)
    have hright := Writes.phrases (exprs_prints rhs h.2.1
      ⟨if lhs.length > 1 && rhs.length > 1 then 2 else 1, indent, false⟩)
    refine .plain (((hleft.append (Writes.spacedSign (.assignOp op))).append hright).cast ?_ ?_) rfl
      (fun _ => rfl) indent
    · simp [StmtKind.words, exprWords_eq]
    · simp [textsOf_flatMap]
  | incDec x up =>
    exact .plain (Writes.incDec (Expr.prints x h ⟨2, indent, false⟩) up) rfl (fun _ => rfl) indent
  | send chan value =>
    have hsend := Writes.send (Expr.prints chan h.1 (.atStart indent))
      (Expr.prints value h.2 (.atStart indent))
    exact .plain (hsend.cast rfl (by simp only [StmtKind.marks, textsOf_append])) rfl (fun _ => rfl)
      indent
  | decl d => exact .compound (GenDecl.prints d h.2 indent).before rfl rfl indent
  | returns values =>
    have hkeyword : Writes Start _ Shut _ _ := (Writes.keyword .return).before
    have hvalues := Writes.returned (exprs_prints values h (.atStart indent))
    exact .compound (hkeyword.append hvalues) rfl rfl indent
  | branch kind label =>
    have hkeyword : Writes Start _ Ended _ _ := (Writes.keyword kind.keyword).before.behind
    refine .compound ((hkeyword.spaced (OptWrites.label label)).cast rfl ?_) rfl rfl indent
    exact (textsOf_nameMarks _).symm
  | block b => exact .compound (Block.prints b h indent).before rfl rfl indent
  | ifThen init cond body otherwise =>
    have hif := Writes.ifThen (optStmt_prints init h.1 indent)
      (Expr.prints cond h.2.1 (.header indent)) (Block.prints body h.2.2.1 indent)
      (Else.prints otherwise h.2.2.2 indent)
    exact .compound (hif.cast rfl (by simp only [StmtKind.marks, textsOf_append])) rfl rfl indent
  | forLoop init cond post body =>
    have hloop := Writes.forLoop (optStmt_prints init h.1 indent)
      (optExpr_prints cond h.2.1 (.header indent)) (optStmt_prints post h.2.2.1 indent)
      (Block.prints body h.2.2.2 indent)
    exact .compound (hloop.cast rfl (by simp only [StmtKind.marks, textsOf_append])) rfl rfl indent
  | rangeLoop key value define x body =>
    have hvars := rangeVars_print define h.1 (optExpr_prints key h.2.1 (.atStart indent))
      (optExpr_prints value h.2.2.1 (.atStart indent))
    have hloop := Writes.rangeLoop hvars (Expr.prints x h.2.2.2.1 (.header indent))
      (Block.prints body h.2.2.2.2 indent)
    exact .compound (hloop.cast rfl (by simp only [StmtKind.marks, textsOf_append])) rfl rfl indent
  | switch init tag clauses braces =>
    have hswitch := Writes.switch (optStmt_prints init h.1 indent)
      (optExpr_prints tag h.2.1 (.header indent))
      (Writes.clauses style (clauses_print clauses h.2.2 indent) braces indent)
    exact .compound (hswitch.cast rfl (by simp only [StmtKind.marks, textsOf_append])) rfl rfl indent
  | typeSwitch init guard clauses braces =>
    have hswitch := Writes.typeSwitch (Stmt.header_prints guard h.2.1 indent)
      (Writes.clauses style (clauses_print clauses h.2.2 indent) braces indent)
      (optStmt_prints init h.1 indent)
    exact .compound (hswitch.cast rfl (by simp only [StmtKind.marks, textsOf_append])) rfl rfl indent
  | select clauses braces =>
    have hclauses := Writes.clauses style (clauses_print clauses h indent) braces indent
    exact .compound ((Writes.spacedKeyword .select).append hclauses) rfl rfl indent
  | go x =>
    have hx : Writes Start _ Shut _ _ := (Expr.prints x h (.atStart indent)).writes.before
    exact .compound ((Writes.spacedKeyword .go).append hx) rfl rfl indent
  | defer x =>
    have hx : Writes Start _ Shut _ _ := (Expr.prints x h (.atStart indent)).writes.before
    exact .compound ((Writes.spacedKeyword .defer).append hx) rfl rfl indent
termination_by structural k

/-- What follows the body of an `if` statement. -/
theorem Else.prints (e : Else) (h : e.Regular) (indent : Nat) :
    Writes Clear (elseOutput style e indent) Clear e.words (textsOf e.marks) := by
  cases e with
  | none => exact .nil
  | elseIf init cond body otherwise =>
    have helse : Writes Clear _ Start _ _ := Writes.space.before.append (Writes.spacedKeyword .else)
    have hif := Writes.ifThen (optStmt_prints init h.1 indent)
      (Expr.prints cond h.2.1 (.header indent)) (Block.prints body h.2.2.1 indent)
      (Else.prints otherwise h.2.2.2 indent)
    exact (helse.append hif).cast rfl (by simp only [Else.marks, textsOf_append, List.nil_append])
  | block body =>
    have helse : Writes Clear _ Start _ _ := Writes.space.before.append (Writes.spacedKeyword .else)
    exact helse.append (Block.prints body h indent)
termination_by structural e

/-- The clauses of a switch are printed one by one. -/
theorem clauses_print (cs : List Clause) (h : clausesRegular cs) (indent : Nat) :
    List.Forall₂ (fun c t => ClauseText.Prints t c) cs (clauseTexts style cs indent) := by
  cases cs with
  | nil => exact .nil
  | cons c cs =>
    obtain ⟨head, body, d⟩ := c
    exact .cons ⟨ClauseHead.prints head h.1.1 indent, stmts_print body h.1.2 (indent + 1), rfl⟩
      (clauses_print cs h.2 indent)
termination_by structural cs

theorem ClauseHead.prints (c : ClauseHead) (h : c.Regular) (indent : Nat) :
    Writes Start (headOutput style c indent) Open (c.words ++ [.punct .colon]) (textsOf c.marks) := by
  cases c with
  | default =>
    have hdefault : Writes Start _ Shut _ _ := (Writes.keyword .default).before
    exact hdefault.append (Writes.mark .colon (by decide))
  | values xs =>
    have hvalues := Writes.phrases (exprs_prints xs h (.atStart indent))
    refine (((Writes.spacedKeyword .case).append hvalues).append
      (Writes.mark .colon (by decide))).cast ?_ ?_
    · rw [ClauseHead.words, exprWords_eq]
      rfl
    · rw [ClauseHead.marks, exprMarks_eq, textsOf_flatMap, List.append_nil, List.nil_append]
  | comm s =>
    have hs := Stmt.header_prints s h indent
    exact (((Writes.spacedKeyword .case).append hs).append (Writes.mark .colon (by decide))).cast rfl
      (List.append_nil _)
termination_by structural c

/-- A declaration is printed alone or as a group in parentheses. -/
theorem GenDecl.prints (d : GenDecl) (h : d.Regular) (indent : Nat) :
    Writes Open (genDeclOutput style d indent) Ended d.words (textsOf d.marks) := by
  obtain ⟨keyword, ss, group⟩ := d
  exact .genDecl style (specs_print ss h.2 _) h.1 indent
termination_by structural d

/-- The entries of a group are printed one by one. -/
theorem specs_print {keyword : GenKeyword} (ss : List Spec) (h : specsRegular keyword ss)
    (indent : Nat) :
    List.Forall₂ (fun s t => SpecText.Prints t s) ss (specTexts style ss indent) := by
  cases ss with
  | nil => exact .nil
  | cons s ss =>
    obtain ⟨k, d⟩ := s
    exact .cons ⟨SpecKind.prints k h.1.2 indent, rfl⟩ (specs_print ss h.2 indent)
termination_by structural ss

/-- An entry is printed in cells, or on its own. -/
theorem SpecKind.prints (k : SpecKind) (h : k.Regular) (indent : Nat) :
    (specForm style k indent).Prints k := by
  cases k with
  | importPath name path => exact .importPath name path
  | value names type values =>
    exact .value names (optExpr_prints type h.1 _).optWrites
      (OptWrites.values (exprs_prints values h.2.1 (.atStart indent)))
  | type name isAlias x =>
    exact .type name isAlias (Expr.prints x h _).writes.before.behind
termination_by structural k

end

/-! ## Files -/

/-- A receiver with the space behind it. -/
theorem Writes.receiver (recv : Option FieldList) (indent : Nat) :
    resultsRegular recv → Writes Start (match recv with
      | some recv => paramListOutput style recv indent ++ [.space]
      | none => []) Start (resultWords recv) (textsOf (resultMarks recv)) := by
  intro h
  cases recv with
  | none => exact .nil
  | some recv =>
    have hlist : Writes Start (paramListOutput style recv indent) Clear _ _ :=
      (FieldList.prints style recv h indent).before
    exact (hlist.append Writes.space).cast (List.append_nil _) (List.append_nil _)

/-- A function is printed from the start of its line. -/
theorem FuncDecl.prints (f : FuncDecl) (h : f.Regular) (indent : Nat) :
    Writes Start (funcOutput style f indent) Ended f.words (textsOf f.marks) := by
  obtain ⟨recv, name, sig, body⟩ := f
  obtain ⟨hrecv, hsig, hbody⟩ := h
  have hname : Writes Start [.word name] Shut [.ident name] [] := (Writes.ident name).before
  have hhead := ((Writes.spacedKeyword .func).append (Writes.receiver style recv indent hrecv)).append
    (hname.append (Signature.prints style sig hsig indent))
  have htexts : textsOf (FuncDecl.marks ⟨recv, name, sig, body⟩) =
      textsOf (resultMarks recv) ++ textsOf sig.marks ++
        textsOf (body.toList.flatMap Block.marks) := by
    rw [FuncDecl.marks, textsOf_append, textsOf_append, textsOf_cons_name]
  cases body with
  | none =>
    refine hhead.behind.cast ?_ ?_
    · simp [FuncDecl.words]
    · rw [htexts]
      simp [textsOf_nil]
  | some body =>
    have hbody := Block.prints_body style body (hbody body rfl) indent
    have hall : Writes Start (funcOutput style ⟨recv, name, sig, some body⟩ indent) Clear _ _ :=
      hhead.append (Writes.space.append (hbody _))
    refine hall.behind.cast ?_ ?_
    · simp [FuncDecl.words]
    · rw [htexts]
      simp

theorem Decl.prints (d : Decl) (h : d.kind.Regular) :
    Writes Start (declOutput style d) Ended d.words (textsOf d.kind.marks) := by
  obtain ⟨kind, decs⟩ := d
  cases kind with
  | func f => exact FuncDecl.prints style f h 0
  | gen g => exact (GenDecl.prints style g h 0).before

/-- An empty line, where there is one. -/
theorem LinesWrite.gap (isBlank : Bool) : LinesWrite (if isBlank then [.blank] else []) [] [] := by
  cases isBlank with
  | true => exact .blank
  | false => exact .nil

/-- Declarations are printed on lines of their own. -/
theorem LinesWrite.decls (ds : List Decl) (h : ∀ d ∈ ds, d.kind.Regular) (last : Option Keyword) :
    LinesWrite (declLines style last ds) (ds.flatMap Decl.words) (textsOf (ds.flatMap Decl.marks)) := by
  induction ds generalizing last with
  | nil => exact .nil
  | cons d ds ih =>
    obtain ⟨hd, hds⟩ := List.forall_mem_cons.mp h
    have hline := LinesWrite.line 0 (.withComment (Decl.prints style d hd) d.decs.trailing)
    have hlines : LinesWrite (declLines style last (d :: ds)) _ _ :=
      (((gap _).append (.commentLines 0 true d.decs.leading)).append (gap _)).append
        (hline.append (ih hds (some (declKeyword d))))
    refine hlines.cast ?_ ?_
    · simp
    · simp [Decl.marks, textsOf_around, textsAround]

/-- The lines of a file. -/
def fileLines (style : Style) (file : SourceFile) : List Line :=
  let decs := file.packageDecs
  commentLines 0 true decs.leading ++
    (if !decs.leading.isEmpty && decs.blankBefore then [.blank] else []) ++
    Line.ofCells 0
      (withComment [keywordPiece .package, .space, .word file.package] decs.trailing) ::
      declLines style none file.decls ++ commentLines 0 false file.trailingComments

/-- A file is printed as its package clause and its declarations, and the comments behind them. -/
theorem LinesWrite.file (file : SourceFile) (h : file.Regular) :
    LinesWrite (fileLines style file) file.words (textsOf file.marks) := by
  have hname : Writes Start [.word file.package] Shut [.ident file.package] [] :=
    (Writes.ident file.package).before
  have hpackage := LinesWrite.line 0 (.withComment ((Writes.spacedKeyword .package).append hname)
    file.packageDecs.trailing)
  have hstart := (LinesWrite.commentLines 0 true file.packageDecs.leading).append
    (.gap (!file.packageDecs.leading.isEmpty && file.packageDecs.blankBefore))
  have hlines := (hstart.append (hpackage.append (.decls style file.decls h none))).append
    (.commentLines 0 false file.trailingComments)
  refine hlines.cast ?_ ?_
  · simp [SourceFile.words]
  · simp [SourceFile.marks, textsOf_around, textsAround, textsOf_cons_name, textsOf_nil]

/-- A regular file is printed with its words and its comments, each of them in its order. -/
theorem SourceFile.prints (file : SourceFile) (h : file.Regular) :
    Writes Start (fileOutput style file) Start file.words (textsOf file.marks) :=
  (LinesWrite.file style file h).render style.align

end HandlerSplit.Print
