import HandlerSplit.Proofs.Print.Labels
import HandlerSplit.Proofs.Print.Layout.Phrases
import HandlerSplit.Proofs.Print.Nodes
/-!
# Laying out the tree

Every expression, type and declaration of a regular tree may stand anywhere, and the lines of its
statements are neat, as long as its words and comments can be read from their own texts
(`Expr.firm`, `StmtKind.neat`, `GenDecl.firm`).
-/

namespace HandlerSplit

/-- A statement of a block is not empty. -/
theorem Stmt.Regular.nonempty {s : Stmt} (h : s.Regular) : s.kind.isEmpty = false := by
  obtain ⟨k, d⟩ := s
  exact h.1

/-- A statement of a header is not empty. -/
theorem Stmt.HeaderRegular.nonempty {s : Stmt} (h : s.HeaderRegular) : s.kind.isEmpty = false := by
  obtain ⟨k, d⟩ := s
  have hsimple : k.isSimple = true := h.1.1
  cases k with
  | empty => cases hsimple
  | _ => rfl

namespace Print

open Spot

/-! ## Words -/

variable {ws : List TokenKind} {cs : List String}

/-- A name that can be read stands firm. -/
theorem Genuine.ident {n : String} (h : Genuine ws cs) (hn : TokenKind.ident n ∈ ws := by grind) :
    Firm [.word n] :=
  .ident (h.1 _ hn nofun)

/-- A literal that can be read stands firm. -/
theorem Genuine.literal {t : String} (h : Genuine ws cs) (kind : LitKind)
    (ht : TokenKind.literal kind t ∈ ws := by grind) : Firm [.word t] :=
  .literal (h.1 _ ht nofun)

/-- An assignment operator stands firm. -/
theorem Genuine.assignOp {op : AssignOp} (h : Genuine ws cs) (hop : op.kind ∈ ws := by grind) :
    Firm [.word op.spelling] := by
  have hlegible := h.1 _ hop (by cases op <;> exact nofun)
  have htext : op.kind.text = op.spelling := by cases op <;> rfl
  have hfirm := (Plainly.of_legible hlegible (by cases op <;> rfl) (by cases op <;> rfl)
    (by cases op <;> rfl)).firm
  rwa [htext] at hfirm

/-! ## Comments of lists -/

section

variable {ms : List Mark} (h : Genuine ws (textsOf ms))

include h

theorem Genuine.elements {es : List Element} (hes : elementMarks es ⊆ ms := by grind) :
    ∀ d ∈ es.map (·.decs), Remarked d := by
  refine List.forall_mem_map.mpr fun e he => h.remarked e.expr.marks fun m hm => hes ?_
  rw [elementMarks_eq]
  exact List.mem_flatMap.mpr ⟨e, he, hm⟩

end

/-- A list of expressions is printed as at least one output. -/
theorem exprOutputs_ne_nil {style : Style} {xs : List Expr} (h : xs ≠ []) (p : Place) :
    exprOutputs style xs p ≠ [] := by
  cases xs with
  | nil => exact absurd rfl h
  | cons x xs => exact List.cons_ne_nil _ _

/-- Results, with the space before them. -/
theorem Firm.results {style : Style} {fs : List Field} {e : Enclosure}
    (hfs : ∀ indents, ∀ f ∈ fieldTexts style fs indents, NeatField f) (he : EnclosureRemarked e)
    (indent : Nat) : Firm (resultsOutput style (some ⟨fs, e⟩) indent) := by
  rw [resultsOutput]
  split
  · rename_i hlone
    obtain ⟨f, rfl⟩ : ∃ f, fs = [f] := by
      unfold isLoneResult at hlone
      split at hlone
      · rename_i f hf
        exact ⟨f, hf⟩
      · cases hlone
    have hone : ∃ ft, fieldTexts style [f] [indent] = [ft] := by
      obtain ⟨ns, x, tag, d⟩ := f
      cases x <;> exact ⟨_, rfl⟩
    obtain ⟨ft, hft⟩ := hone
    have hneat : NeatField ft := hfs [indent] ft (by rw [hft]; exact List.mem_cons_self)
    show Firm (.space :: List.flatMap (·.type) (fieldTexts style [f] [indent]))
    rw [hft, List.flatMap_singleton]
    exact hneat.type.space
  · exact (Firm.params (hfs _) he style indent).space

/-- What is printed as the empty statement is the empty statement. -/
theorem isEmpty_stmtText (style : Style) (s : Stmt) (indent : Nat) :
    (stmtText style s indent).isEmpty = s.kind.isEmpty := by
  obtain ⟨k, d⟩ := s
  have hkind : k.isEmpty = true ↔ k = .empty := by cases k <;> simp [StmtKind.isEmpty]
  exact Bool.eq_iff_iff.mpr ((isEmpty_kindText style k indent d).trans hkind.symm)

/-! ## Trees -/

variable {style : Style}

mutual

/-- Every expression that can be read may stand anywhere. -/
theorem Expr.firm (x : Expr) (hr : x.Regular) (hg : Genuine x.words (textsOf x.marks)) (p : Place) :
    Firm (exprOutput style x p) := by
  cases x with
  | ident n => exact hg.ident
  | literal kind text => exact hg.literal kind
  | composite t es b =>
    have ht := optExpr_firm t hr.1 hg.part p.inside
    have hes := elements_neat es hr.2 hg.part true 1 (elementIndents es b p.indent)
    have hdecs : ∀ d ∈ es.map (·.decs), Remarked d := hg.elements
    have hb : EnclosureRemarked b := hg.enclosure (elementMarks es)
    exact (Lays.optional (P := Anywhere) ht).append
      (Firm.bracketed .lbrace .rbrace rfl rfl hdecs hb hes style p.indent false)
  | funcLit s b =>
    have hs := Signature.firm s hr.1 hg.part p.indent
    have hb := Block.firm_body b hr.2 hg.part
      p.indent (keywordPiece .func :: signatureOutput style s p.indent)
    exact ((Firm.keyword .func).then hs).then hb.space
  | paren x =>
    rw [exprOutput]
    split
    · exact Expr.firm x hr hg p
    · split
      · exact Expr.firm x hr hg _
      · exact (Expr.firm x hr hg _).inParens
  | selector x n =>
    have hx := Expr.firm x hr hg.part p.inside
    have hn : Firm [.word n] := hg.ident
    have hperiod : Firm [.word "."] := Firm.mark .period rfl rfl
    exact hx.then (hperiod.then hn)
  | index y k =>
    have hy := Expr.firm y hr.1 hg.part p.outermost
    have hk := Expr.firm k hr.2 hg.part p.deeper
    exact hy.inBrackets hk.keeps
  | slice x low high max =>
    have hx := Expr.firm x hr.1 hg.part p.outermost
    have hlow := optExpr_firm low hr.2.1 hg.part p.deeper
    have hhigh := optExpr_firm high hr.2.2.1 hg.part p.deeper
    have hmax := optExpr_firm max hr.2.2.2 hg.part p.deeper
    refine hx.inBrackets (lays_bounds _ (List.forall_mem_append.mpr ⟨?_, ?_⟩))
    · exact List.forall_mem_cons.mpr ⟨hlow, List.forall_mem_singleton.mpr hhigh⟩
    · split
      · exact List.forall_mem_singleton.mpr hmax
      · exact List.forall_mem_nil _
  | typeAssert x t =>
    have hx := Expr.firm x hr.1 hg.part p.inside
    have ht := optExpr_firm t hr.2 hg.part p.outermost
    cases t with
    | none => exact hx.asserted (Firm.keyword .type).keeps
    | some t => exact hx.asserted (ht _ rfl).keeps
  | call f es variadic b =>
    have hf := Expr.firm f hr.1 hg.part
    have hes := elements_neat es hr.2 hg.part false
    have hdecs : ∀ d ∈ es.map (·.decs), Remarked d := hg.elements
    have hb : EnclosureRemarked b := hg.enclosure (elementMarks es)
    rw [exprOutput]
    refine Lays.then (Q := Inked) ?_ (Firm.bracketed .lparen .rparen rfl rfl hdecs hb (hes _ _)
      style _ variadic)
    split
    · exact (hf _).inParens
    · exact hf _
  | star x =>
    have hx := Expr.firm x hr hg.part p.outermost
    exact (Firm.operator .mul).then hx
  | unary op x =>
    exact (Expr.firm x hr hg.part p.inside).unary op
  | binary x op y lineBreak =>
    have hx := Expr.firm x hr.1 hg.part (leftPlace x op p)
    have hy := Expr.firm y hr.2 hg.part
    rw [exprOutput]
    split
    · exact hx.brokenBinary (hy _) _ op p.indent
    · exact hx.binary (hy _) _ op
  | keyValue k v =>
    have hk := Expr.firm k hr.1 hg.part p.outermost
    have hv := Expr.firm v hr.2 hg.part p.outermost
    exact hk.keyValue hv
  | arrayType len x =>
    have hlen := optExpr_firm len hr.1 hg.part p.outermost
    have hx := Expr.firm x hr.2 hg.part p.outermost
    exact (lays_brackets (.optional hlen)).then hx
  | mapType k v =>
    have hk := Expr.firm k hr.1 hg.part p.outermost
    have hv := Expr.firm v hr.2 hg.part p.outermost
    exact ((Firm.keyword .map).inBrackets hk.keeps).then hv
  | chanType dir x =>
    have hx := Expr.firm x hr hg.part p.outermost
    exact (lays_chan dir).append hx
  | funcType s =>
    exact (Firm.keyword .func).then (Signature.firm s hr hg.part p.indent)
  | structType fs =>
    exact FieldList.firm_block false true fs hr hg.part true p.indent (memberIndents fs p.indent)
  | interfaceType fs =>
    exact FieldList.firm_block true false fs hr hg.part false p.indent (memberIndents fs p.indent)
  | ellipsis x =>
    have hx := optExpr_firm x hr hg p.outermost
    have hdots : Firm [.word "..."] := Firm.mark .ellipsis rfl rfl
    exact hdots.append (.optional hx)
termination_by structural x

theorem optExpr_firm (x : Option Expr) (hr : optExprRegular x)
    (hg : Genuine (optExprWords x) (textsOf (optExprMarks x))) (p : Place) :
    ∀ o ∈ optExprOutput style x p, Firm o := by
  cases x with
  | none => exact fun _ ho => by cases ho
  | some x =>
    rintro _ ⟨⟩
    exact Expr.firm x hr hg p
termination_by structural x

theorem exprs_firm (xs : List Expr) (hr : exprsRegular xs)
    (hg : Genuine (exprWords xs) (textsOf (exprMarks xs))) (p : Place) :
    ∀ o ∈ exprOutputs style xs p, Firm o := by
  cases xs with
  | nil => exact List.forall_mem_nil _
  | cons x xs =>
    have hx := Expr.firm x hr.1 hg.part p
    have hxs := exprs_firm xs hr.2 hg.part p
    exact List.forall_mem_cons.mpr ⟨hx, hxs⟩
termination_by structural xs

/-- The elements of a list are neat items, whatever their indentation. -/
theorem elements_neat (es : List Element) (hr : elementsRegular es)
    (hg : Genuine (elementWords es) (textsOf (elementMarks es))) (pairs : Bool) (depth : Nat)
    (indents : List Nat) : ∀ item ∈ itemTexts style pairs depth es indents, NeatItem item := by
  cases es with
  | nil => exact List.forall_mem_nil _
  | cons e es =>
    obtain ⟨x, d⟩ := e
    have hgx : Genuine x.words (textsOf x.marks) := hg.part
    have hx := Expr.firm x hr.1 hgx ⟨depth, indents.headD 0, false⟩
    have hes := elements_neat es hr.2 hg.part pairs depth indents.tail
    cases x with
    | keyValue k v =>
      have hk := Expr.firm k hr.1.1 hgx.part (.atStart (indents.headD 0))
      have hv := Expr.firm v hr.1.2 hgx.part (.atStart (indents.headD 0))
      exact List.forall_mem_cons.mpr ⟨.keyValue hk hv pairs, hes⟩
    | _ => exact List.forall_mem_cons.mpr ⟨.plain hx, hes⟩
termination_by structural es

/-- The fields of a list are neat, whatever their indentation. -/
theorem fields_neat (methods tagged joined : Bool) (fs : List Field) (hr : fieldsRegular tagged fs)
    (hg : Genuine (fieldWords methods fs) (textsOf (fieldMarks joined fs))) (indents : List Nat) :
    ∀ f ∈ fieldTexts style fs indents, NeatField f := by
  cases fs with
  | nil => exact List.forall_mem_nil _
  | cons f fs =>
    obtain ⟨ns, x, tag, d⟩ := f
    have htype : Genuine (if isMethod methods ns x then x.words.tail else x.words)
        (textsOf x.marks) := hg.part
    have hx := Expr.firm x hr.1.2 htype.type (.atStart (indents.headD 0))
    have hfs := fields_neat methods tagged joined fs hr.2 hg.part indents.tail
    have hns : ∀ n ∈ ns, Firm [.word n] := fun n hn => hg.ident
    have htag : ∀ t ∈ tag, Firm [.word t] := fun t ht => hg.literal .string (by grind [Option.mem_def])
    have hd : Remarked d := hg.remarked (fieldNameMarks joined ns ++ x.marks)
    cases x with
    | funcType s =>
      have hs := Signature.firm s hr.1.2 htype.type.part (indents.headD 0)
      refine List.forall_mem_cons.mpr ⟨⟨hns, hx, ?_, htag, hd⟩, hfs⟩
      rintro _ ⟨⟩
      exact hs
    | _ => exact List.forall_mem_cons.mpr ⟨⟨hns, hx, (fun _ hs => by cases hs), htag, hd⟩, hfs⟩
termination_by structural fs

/-- A parameter list may stand anywhere. -/
theorem FieldList.firm (fs : FieldList) (hr : fs.Regular false)
    (hg : Genuine fs.words (textsOf (fs.marks true))) (indent : Nat) :
    Firm (paramListOutput style fs indent) := by
  obtain ⟨fs, e⟩ := fs
  have he : EnclosureRemarked e := hg.enclosure (fieldMarks true fs)
  have hfs := fields_neat false false true fs hr hg.part
  exact Firm.params (hfs _) he style indent
termination_by structural fs

/-- The fields between braces may stand anywhere. -/
theorem FieldList.firm_block (methods tagged : Bool) (fs : FieldList) (hr : fs.Regular tagged)
    (hg : Genuine (fs.memberWords methods) (textsOf (fs.marks false))) (isStruct : Bool)
    (indent : Nat) (indents : List Nat) :
    Firm (fieldBlock style isStruct fs indent (membersTexts style fs indents)) := by
  obtain ⟨fs, e⟩ := fs
  have he : EnclosureRemarked e := hg.enclosure (fieldMarks false fs)
  have hfs := fields_neat methods tagged false fs hr hg.part
  exact Firm.fieldBlock (hfs indents) style indent he isStruct
termination_by structural fs

theorem lays_results (rs : Option FieldList) (hr : resultsRegular rs)
    (hg : Genuine (resultWords rs) (textsOf (resultMarks rs))) (indent : Nat) :
    Lays Inked (resultsOutput style rs indent) Inked := by
  cases rs with
  | none => exact .nil
  | some fs =>
    obtain ⟨fs, e⟩ := fs
    have he : EnclosureRemarked e := hg.enclosure (fieldMarks true fs)
    have hfs := fields_neat false false true fs hr hg.part
    exact (Firm.results hfs he indent).before
termination_by structural rs

/-- A signature may stand anywhere. -/
theorem Signature.firm (s : Signature) (hr : s.Regular) (hg : Genuine s.words (textsOf s.marks))
    (indent : Nat) : Firm (signatureOutput style s indent) := by
  obtain ⟨ps, rs⟩ := s
  have hps := FieldList.firm ps hr.1 hg.part indent
  have hrs := lays_results rs hr.2 hg.part indent
  exact hps.append hrs
termination_by structural s

/-- A block may stand anywhere. -/
theorem Block.firm (b : Block) (hr : b.Regular) (hg : Genuine b.words (textsOf b.marks))
    (indent : Nat) : Firm (blockOutput style b indent (blockTexts style b (indent + 1))) := by
  obtain ⟨ss, e, oneLine⟩ := b
  have he : EnclosureRemarked e := hg.enclosure (stmtMarks ss)
  have hss := stmts_neat ss hr hg.part (indent + 1)
  exact Firm.block hss (b := ⟨ss, e, oneLine⟩) he style indent
termination_by structural b

/-- The body of a function may stand on the line of its header or on several. -/
theorem Block.firm_body (b : Block) (hr : b.Regular) (hg : Genuine b.words (textsOf b.marks))
    (indent : Nat) (header : Output) :
    Firm (bodyOutput style b indent header (blockTexts style b (indent + 1))) := by
  obtain ⟨ss, e, oneLine⟩ := b
  have he : EnclosureRemarked e := hg.enclosure (stmtMarks ss)
  have hss := stmts_neat ss hr hg.part (indent + 1)
  exact Firm.body hss (b := ⟨ss, e, oneLine⟩) he style indent header
termination_by structural b

/-- The lines of statements are neat. -/
theorem stmts_neat (ss : List Stmt) (hr : stmtsRegular ss)
    (hg : Genuine (stmtWords ss) (textsOf (stmtMarks ss))) (indent : Nat) :
    ∀ s ∈ stmtTexts style ss indent, NeatStmt s := by
  cases ss with
  | nil => exact List.forall_mem_nil _
  | cons s ss =>
    have hs := Stmt.neat s hr.1.kind hr.1.nonempty hg.part indent
    have hss := stmts_neat ss hr.2 hg.part indent
    exact List.forall_mem_cons.mpr ⟨hs, hss⟩
termination_by structural ss

theorem Stmt.neat (s : Stmt) (hr : s.kind.Regular) (hne : s.kind.isEmpty = false)
    (hg : Genuine s.words (textsOf s.marks)) (indent : Nat) : NeatStmt (stmtText style s indent) := by
  obtain ⟨k, d⟩ := s
  have hd : Remarked d := hg.remarked k.marks
  exact StmtKind.neat k hr hne hg.part indent hd
termination_by structural s

/-- The statement of a header may stand anywhere. -/
theorem header_firm (s : Option Stmt) (hr : headerRegular s)
    (hg : Genuine (optStmtWords s) (textsOf (optStmtMarks s))) (indent : Nat) :
    ∀ o ∈ optStmtOutput style s indent, Firm o := by
  cases s with
  | none => exact fun _ ho => by cases ho
  | some s =>
    rintro _ ⟨⟩
    exact (Stmt.neat s hr.kind hr.nonempty hg indent).text
termination_by structural s

/-- The lines of a statement are neat, with the comments around it. -/
theorem StmtKind.neat (k : StmtKind) (hr : k.Regular) (hne : k.isEmpty = false)
    (hg : Genuine k.words (textsOf k.marks)) (indent : Nat) {d : Decorations} (hd : Remarked d) :
    NeatStmt (kindText style k indent d) := by
  cases k with
  | expr x => exact .plain (Expr.firm x hr hg _) hd indent
  | assign l op r =>
    have hl := exprs_firm l hr.1 hg.part
    have hrhs := exprs_firm r hr.2.1 hg.part
    have hop : Firm [.word op.spelling] := hg.assignOp
    rw [kindText]
    refine .plain (Firm.assigned ?_ hop ?_ ?_) hd indent
    · exact hl _
    · exact hrhs _
    · exact exprOutputs_ne_nil hr.2.2 _
  | incDec x up => exact .plain ((Expr.firm x hr hg.part ⟨2, indent, false⟩).incDec up) hd indent
  | send c v =>
    have hc := Expr.firm c hr.1 hg.part (.atStart indent)
    exact .plain (hc.send (Expr.firm v hr.2 hg.part (.atStart indent))) hd indent
  | decl g => exact .plain (GenDecl.firm g hr.2 hg indent) hd indent
  | returns vs =>
    have hvs := exprs_firm vs hr hg.part (.atStart indent)
    exact .plain (Firm.returned hvs) hd indent
  | branch kind label =>
    refine .plain (Firm.spaced (Firm.keyword _) fun o ho => ?_) hd indent
    obtain ⟨l, hl, rfl⟩ := Option.map_eq_some_iff.mp ho
    exact hg.ident
  | block b => exact .plain (Block.firm b hr hg indent) hd indent
  | ifThen init cond body rest =>
    have hinit := header_firm init hr.1 hg.part indent
    have hcond := Expr.firm cond hr.2.1 hg.part (.header indent)
    have hbody := Block.firm body hr.2.2.1 hg.part indent
    have hrest := Else.lays rest hr.2.2.2 hg.part indent
    exact .plain (Firm.ifThen hinit hcond hbody hrest) hd indent
  | forLoop init cond post body =>
    have hinit := header_firm init hr.1 hg.part indent
    have hcond := optExpr_firm cond hr.2.1 hg.part (.header indent)
    have hpost := header_firm post hr.2.2.1 hg.part indent
    exact .plain (.forLoop hinit hcond hpost (Block.firm body hr.2.2.2 hg.part indent)) hd indent
  | rangeLoop key value define x body =>
    have hvars := lays_rangeVars define (optExpr_firm key hr.2.1 hg.part (.atStart indent))
      (optExpr_firm value hr.2.2.1 hg.part (.atStart indent))
    have hx := Expr.firm x hr.2.2.2.1 hg.part (.header indent)
    exact .plain (.rangeLoop hvars hx (Block.firm body hr.2.2.2.2 hg.part indent)) hd indent
  | switch init tag clauses braces =>
    have hinit := header_firm init hr.1 hg.part indent
    have htag := optExpr_firm tag hr.2.1 hg.part (.header indent)
    have hclauses := clauses_neat clauses hr.2.2 hg.part indent
    have he : EnclosureRemarked braces := hg.enclosure (clauseMarks clauses)
    exact .plain (.switch hinit htag (Firm.clauses hclauses he style indent)) hd indent
  | typeSwitch init guard clauses braces =>
    have hinit := header_firm init hr.1 hg.part indent
    have hguard := Stmt.neat guard hr.2.1.kind hr.2.1.nonempty hg.part indent
    have hclauses := clauses_neat clauses hr.2.2 hg.part indent
    have he : EnclosureRemarked braces := hg.enclosure (clauseMarks clauses)
    exact .plain (.typeSwitch hguard.text (Firm.clauses hclauses he style indent) hinit) hd indent
  | select clauses braces =>
    have hclauses := clauses_neat clauses hr hg.part indent
    have he : EnclosureRemarked braces := hg.enclosure (clauseMarks clauses)
    exact .plain ((Firm.keywordSpace .select).append (Firm.clauses hclauses he style indent)) hd indent
  | go x =>
    have hx := Expr.firm x hr hg.part (.atStart indent)
    exact .plain ((Firm.keywordSpace .go).append hx) hd indent
  | defer x =>
    have hx := Expr.firm x hr hg.part (.atStart indent)
    exact .plain ((Firm.keywordSpace .defer).append hx) hd indent
  | labeled label s =>
    have hlabel : Firm [.word label] := hg.ident
    refine .labeled hlabel (fun hempty => ?_) hd indent
    have hne : s.kind.isEmpty = false := (isEmpty_stmtText style s indent).symm.trans hempty
    exact Stmt.neat s hr.kind hne hg.part indent
  | empty => cases hne
termination_by structural k

/-- What follows an `if` stands behind its brace. -/
theorem Else.lays (rest : Else) (hr : rest.Regular) (hg : Genuine rest.words (textsOf rest.marks))
    (indent : Nat) : Lays Inked (elseOutput style rest indent) Inked := by
  cases rest with
  | none => exact .nil
  | elseIf init cond body rest =>
    have hinit := header_firm init hr.1 hg.part indent
    have hcond := Expr.firm cond hr.2.1 hg.part (.header indent)
    have hbody := Block.firm body hr.2.2.1 hg.part indent
    have hrest := Else.lays rest hr.2.2.2 hg.part indent
    have helse : Lays Anywhere [.space, keywordPiece .else, .space] Anywhere :=
      lays_sign (Firm.keyword .else)
    exact (helse.append (Firm.ifThen hinit hcond hbody hrest)).before
  | block b =>
    have hb := Block.firm b hr hg.part indent
    have helse : Lays Anywhere [.space, keywordPiece .else, .space] Anywhere :=
      lays_sign (Firm.keyword .else)
    exact (helse.append hb).before
termination_by structural rest

/-- The lines of clauses are neat. -/
theorem clauses_neat (cs : List Clause) (hr : clausesRegular cs)
    (hg : Genuine (clauseWords cs) (textsOf (clauseMarks cs))) (indent : Nat) :
    ∀ c ∈ clauseTexts style cs indent, NeatClause c := by
  cases cs with
  | nil => exact List.forall_mem_nil _
  | cons c cs =>
    obtain ⟨head, body, d⟩ := c
    have hhead := ClauseHead.firm head hr.1.1 hg.part indent
    have hbody := stmts_neat body hr.1.2 hg.part (indent + 1)
    have hcs := clauses_neat cs hr.2 hg.part indent
    have hd : Remarked d := hg.remarked head.marks
    exact List.forall_mem_cons.mpr ⟨⟨hhead, hbody, hd⟩, hcs⟩
termination_by structural cs

theorem ClauseHead.firm (head : ClauseHead) (hr : head.Regular)
    (hg : Genuine head.words (textsOf head.marks)) (indent : Nat) :
    Firm (headOutput style head indent) := by
  have hcolon : Firm [.word ":"] := Firm.mark .colon rfl rfl
  cases head with
  | default => exact (Firm.keyword .default).then hcolon
  | values xs =>
    have hxs := exprs_firm xs hr hg.part (.atStart indent)
    have hvalues : Lays Anywhere _ Anywhere := Lays.joined .spacedComma hxs
    exact ((Firm.keywordSpace .case).append hvalues).append hcolon
  | comm s =>
    have hs := Stmt.neat s hr.kind hr.nonempty hg.part indent
    exact ((Firm.keywordSpace .case).append hs.text).then hcolon
termination_by structural head

/-- A declaration may stand anywhere, alone or in a group. -/
theorem GenDecl.firm (d : GenDecl) (hr : d.Regular) (hg : Genuine d.words (textsOf d.marks))
    (indent : Nat) : Firm (genDeclOutput style d indent) := by
  obtain ⟨keyword, specs, group⟩ := d
  have hspecs := specs_neat keyword specs hr.2 hg.part
  refine Firm.genDecl (d := ⟨keyword, specs, group⟩) (hspecs _) ?_ style indent
  rintro e ⟨⟩
  exact hg.enclosure (specMarks specs)
termination_by structural d

theorem specs_neat (keyword : GenKeyword) (specs : List Spec) (hr : specsRegular keyword specs)
    (hg : Genuine (specWords specs) (textsOf (specMarks specs))) (indent : Nat) :
    ∀ s ∈ specTexts style specs indent, NeatSpec s := by
  cases specs with
  | nil => exact List.forall_mem_nil _
  | cons s specs =>
    obtain ⟨kind, d⟩ := s
    have hs := SpecKind.neat kind hr.1.2 hg.part indent
    have hspecs := specs_neat keyword specs hr.2 hg.part indent
    have hd : Remarked d := hg.remarked kind.marks
    exact List.forall_mem_cons.mpr ⟨⟨hs, hd⟩, hspecs⟩
termination_by structural specs

theorem SpecKind.neat (kind : SpecKind) (hr : kind.Regular)
    (hg : Genuine kind.words (textsOf kind.marks)) (indent : Nat) :
    NeatForm (specForm style kind indent) := by
  cases kind with
  | importPath name path =>
    have hpath : Firm [.word path] := hg.literal .string
    refine ⟨fun n hn => ?_, hpath⟩
    cases hn
    by_cases hdot : n = "."
    · rw [hdot]
      exact Firm.mark .period rfl rfl
    · exact hg.ident
  | value ns t vs =>
    have ht := optExpr_firm t hr.1 hg.part (.atStart indent)
    have hvs := exprs_firm vs hr.2.1 hg.part (.atStart indent)
    have hns : ∀ n ∈ ns, Firm [.word n] := fun n hn => hg.ident
    exact ⟨⟨hns, hr.2.2⟩, ht, firm_values hvs⟩
  | type n isAlias x =>
    have hn : Firm [.word n] := hg.ident
    have hx := Expr.firm x hr hg.part (.atStart indent)
    exact ⟨hn, hx⟩
termination_by structural kind

end

/-- A function may stand anywhere. -/
theorem FuncDecl.firm {f : FuncDecl} (hr : f.Regular) (hg : Genuine f.words (textsOf f.marks))
    (indent : Nat) : Firm (funcOutput style f indent) := by
  obtain ⟨recv, name, sig, body⟩ := f
  have hname : Firm [.word name] := hg.ident
  have hsig : Firm (signatureOutput style sig indent) := Signature.firm sig hr.2.1 hg.part indent
  have hrecv : ∀ r ∈ recv, Firm (paramListOutput style r indent) := by
    rintro r ⟨⟩
    exact FieldList.firm r hr.1 hg.part indent
  have hhead {start : Output} (hstart : Lays Anywhere start Anywhere) :
      Firm ([keywordPiece .func, .space] ++ start ++ .word name :: signatureOutput style sig indent) :=
    ((Firm.keywordSpace .func).append hstart).append (hname.then hsig)
  have hbody {b : Block} (hb : body = some b) {head : Output} (h : Firm head) :
      Firm (head ++ .space :: bodyOutput style b indent head (blockTexts style b (indent + 1))) := by
    subst hb
    have hfirm : Firm (bodyOutput style b _ head _) := Block.firm_body b (hr.2.2 b rfl) hg.part
      indent head
    exact h.then hfirm.space
  cases recv with
  | none =>
    cases body with
    | none => exact hhead .nil
    | some b => exact hbody rfl (hhead .nil)
  | some recv =>
    have hstart : Lays Anywhere (paramListOutput style recv indent ++ [.space]) Anywhere :=
      (hrecv recv rfl).then .space
    cases body with
    | none => exact hhead hstart
    | some b => exact hbody rfl (hhead hstart)

end Print

end HandlerSplit
