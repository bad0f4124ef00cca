import HandlerSplit.Proofs.Print.Script
import HandlerSplit.Proofs.Tree.Nodes
/-!
# The nodes of a printed tree

The words and comments of a node are among those of the tree. So if a tree can be written, all its
expressions can (`Expr.Printable`). In particular those of an accepted file can
(`printable_parseFile`).
-/

namespace HandlerSplit

open Print (Genuine)
open Event (Nodes)

/-- A regular expression whose words and comments can be read from their own texts. -/
structure Expr.Printable (x : Expr) : Prop where
  regular : x.Regular
  genuine : Genuine x.words (textsOf x.marks)

/-- All expressions can be written. -/
abbrev Event.AllPrintable : List Event → Prop :=
  Nodes Expr.Printable fun _ => True

open Event (AllPrintable)

/-- Some of the words and comments of a genuine output are genuine. -/
theorem Print.Genuine.mono {ws ws' : List TokenKind} {cs cs' : List String} (h : Genuine ws cs)
    (hws : ws' ⊆ ws) (hcs : cs' ⊆ cs) : Genuine ws' cs' :=
  ⟨fun k hk => h.1 k (hws hk), fun t ht => h.2 t (hcs ht)⟩

/-- A part of what can be written can be written. What a tree writes is what its parts write, so
the inclusions follow from the equations of its words and marks. -/
theorem Print.Genuine.part {ws ws' : List TokenKind} {ms ms' : List Mark}
    (h : Genuine ws (textsOf ms)) (hws : ws' ⊆ ws := by grind) (hms : ms' ⊆ ms := by grind) :
    Genuine ws' (textsOf ms') :=
  h.mono hws (List.filterMap_subset _ hms)

/-- A method is written without `func`. -/
theorem Print.Genuine.type {methods : Bool} {ns : List String} {x : Expr} {cs : List String}
    (h : Genuine (if isMethod methods ns x then x.words.tail else x.words) cs) :
    Genuine x.words cs := by
  split at h
  · rename_i hmethod
    cases x with
    | funcType s =>
      refine ⟨fun k hk hfault => ?_, h.2⟩
      rcases List.mem_cons.mp hk with rfl | hk
      · exact (plain_keyword .func).legible
      · exact h.1 k hk hfault
    | _ => simp [isMethod] at hmethod
  · exact h

/-- A statement that is regular in a block is regular in itself. -/
theorem Stmt.Regular.kind {s : Stmt} (h : s.Regular) : s.kind.Regular := by
  obtain ⟨k, d⟩ := s
  exact h.2

theorem Stmt.HeaderRegular.kind {s : Stmt} (h : s.HeaderRegular) : s.kind.Regular := by
  obtain ⟨k, d⟩ := s
  exact h.2

theorem Stmt.LabeledRegular.kind {s : Stmt} (h : s.LabeledRegular) : s.kind.Regular := by
  obtain ⟨k, d⟩ := s
  exact h.2

mutual

/-- All expressions of a regular tree that can be written can be written. -/
theorem Expr.printable (x : Expr) (hr : x.Regular) (hg : Genuine x.words (textsOf x.marks)) :
    AllPrintable x.events := by
  refine Nodes.aroundExpr ?_ ⟨hr, hg⟩
  cases x with
  | ident n => exact .names [n]
  | literal kind text => exact .nil
  | composite t es b =>
    have ht := optExpr_printable t hr.1 hg.part
    have hes := elements_printable es hr.2 hg.part
    exact ht.append hes
  | funcLit s b =>
    have hs := Signature.printable s hr.1 hg.part
    have hb := Block.printable b hr.2 hg.part
    exact hs.append hb
  | paren x => exact Expr.printable x hr hg
  | selector x n =>
    have hx := Expr.printable x hr hg.part
    exact hx.append (.names [n])
  | index y k =>
    have hy := Expr.printable y hr.1 hg.part
    have hk := Expr.printable k hr.2 hg.part
    exact hy.append hk
  | slice x low high max =>
    have hx := Expr.printable x hr.1 hg.part
    have hlow := optExpr_printable low hr.2.1 hg.part
    have hhigh := optExpr_printable high hr.2.2.1 hg.part
    have hmax := optExpr_printable max hr.2.2.2 hg.part
    exact ((hx.append hlow).append hhigh).append hmax
  | typeAssert x t =>
    have hx := Expr.printable x hr.1 hg.part
    have ht := optExpr_printable t hr.2 hg.part
    exact hx.append ht
  | call f es variadic b =>
    have hf := Expr.printable f hr.1 hg.part
    have hes := elements_printable es hr.2 hg.part
    exact hf.append hes
  | star x => exact Expr.printable x hr hg.part
  | unary op x => exact Expr.printable x hr hg.part
  | binary x op y breaks =>
    have hx := Expr.printable x hr.1 hg.part
    have hy := Expr.printable y hr.2 hg.part
    exact hx.append hy
  | keyValue k v =>
    have hk := Expr.printable k hr.1 hg.part
    have hv := Expr.printable v hr.2 hg.part
    exact hk.append hv
  | arrayType len x =>
    have hlen := optExpr_printable len hr.1 hg.part
    have hx := Expr.printable x hr.2 hg.part
    exact hlen.append hx
  | mapType k v =>
    have hk := Expr.printable k hr.1 hg.part
    have hv := Expr.printable v hr.2 hg.part
    exact hk.append hv
  | chanType dir x =>
    exact Expr.printable x hr hg.part
  | funcType s =>
    exact Signature.printable s hr hg.part
  | structType fs =>
    exact FieldList.printable_members false true fs hr hg.part
  | interfaceType fs =>
    exact FieldList.printable_members true false fs hr hg.part
  | ellipsis x => exact optExpr_printable x hr hg
termination_by structural x

theorem optExpr_printable (x : Option Expr) (hr : optExprRegular x)
    (hg : Genuine (optExprWords x) (textsOf (optExprMarks x))) :
    AllPrintable (optExprEvents x) := by
  cases x with
  | none => exact .nil
  | some x => exact Expr.printable x hr hg
termination_by structural x

theorem exprs_printable (xs : List Expr) (hr : exprsRegular xs)
    (hg : Genuine (exprWords xs) (textsOf (exprMarks xs))) : AllPrintable (exprEvents xs) := by
  cases xs with
  | nil => exact .nil
  | cons x xs =>
    have hx := Expr.printable x hr.1 hg.part
    have hxs := exprs_printable xs hr.2 hg.part
    exact hx.append hxs
termination_by structural xs

theorem elements_printable (es : List Element) (hr : elementsRegular es)
    (hg : Genuine (elementWords es) (textsOf (elementMarks es))) :
    AllPrintable (elementEvents es) := by
  cases es with
  | nil => exact .nil
  | cons e es =>
    obtain ⟨x, d⟩ := e
    have hx := Expr.printable x hr.1 hg.part
    have hes := elements_printable es hr.2 hg.part
    exact hx.append hes
termination_by structural es

theorem fields_printable (methods tagged joined : Bool) (fs : List Field)
    (hr : fieldsRegular tagged fs)
    (hg : Genuine (fieldWords methods fs) (textsOf (fieldMarks joined fs))) :
    AllPrintable (fieldEvents fs) := by
  cases fs with
  | nil => exact .nil
  | cons f fs =>
    obtain ⟨ns, x, tag, d⟩ := f
    have htype : Genuine (if isMethod methods ns x then x.words.tail else x.words)
        (textsOf x.marks) := hg.part
    have hx := Expr.printable x hr.1.2 htype.type
    have hfs := fields_printable methods tagged joined fs hr.2 hg.part
    exact (Nodes.append (.names ns) hx).append hfs
termination_by structural fs

theorem FieldList.printable (tagged joined : Bool) (fs : FieldList) (hr : fs.Regular tagged)
    (hg : Genuine fs.words (textsOf (fs.marks joined))) : AllPrintable fs.events := by
  obtain ⟨fs, e⟩ := fs
  exact fields_printable false tagged joined fs hr hg.part
termination_by structural fs

theorem FieldList.printable_members (methods tagged : Bool) (fs : FieldList)
    (hr : fs.Regular tagged) (hg : Genuine (fs.memberWords methods) (textsOf (fs.marks false))) :
    AllPrintable fs.events := by
  obtain ⟨fs, e⟩ := fs
  exact fields_printable methods tagged false fs hr hg.part
termination_by structural fs

theorem results_printable (rs : Option FieldList) (hr : resultsRegular rs)
    (hg : Genuine (resultWords rs) (textsOf (resultMarks rs))) :
    AllPrintable (resultEvents rs) := by
  cases rs with
  | none => exact .nil
  | some fs => exact FieldList.printable false true fs hr hg
termination_by structural rs

theorem Signature.printable (s : Signature) (hr : s.Regular)
    (hg : Genuine s.words (textsOf s.marks)) : AllPrintable s.events := by
  obtain ⟨ps, rs⟩ := s
  have hps := FieldList.printable false true ps hr.1 hg.part
  have hrs := results_printable rs hr.2 hg.part
  exact hps.append hrs
termination_by structural s

theorem Block.printable (b : Block) (hr : b.Regular) (hg : Genuine b.words (textsOf b.marks)) :
    AllPrintable b.events := by
  obtain ⟨ss, e, oneLine⟩ := b
  exact stmts_printable ss hr hg.part
termination_by structural b

theorem stmts_printable (ss : List Stmt) (hr : stmtsRegular ss)
    (hg : Genuine (stmtWords ss) (textsOf (stmtMarks ss))) : AllPrintable (stmtEvents ss) := by
  cases ss with
  | nil => exact .nil
  | cons s ss =>
    have hs := Stmt.printable s hr.1.kind hg.part
    have hss := stmts_printable ss hr.2 hg.part
    exact hs.append hss
termination_by structural ss

theorem Stmt.printable (s : Stmt) (hr : s.kind.Regular) (hg : Genuine s.words (textsOf s.marks)) :
    AllPrintable s.events := by
  obtain ⟨k, d⟩ := s
  have hk := StmtKind.printable k hr hg.part
  exact Nodes.aroundStmt hk trivial
termination_by structural s

theorem header_printable (s : Option Stmt) (hr : headerRegular s)
    (hg : Genuine (optStmtWords s) (textsOf (optStmtMarks s))) :
    AllPrintable (optStmtEvents s) := by
  cases s with
  | none => exact .nil
  | some s => exact Stmt.printable s hr.kind hg
termination_by structural s

/-- All expressions inside a statement that can be written can be written. -/
theorem StmtKind.printable (k : StmtKind) (hr : k.Regular)
    (hg : Genuine k.words (textsOf k.marks)) : AllPrintable k.inside := by
  cases k with
  | expr x => exact Expr.printable x hr hg
  | assign l op r =>
    have hl := exprs_printable l hr.1 hg.part
    have hr := exprs_printable r hr.2.1 hg.part
    exact hl.append hr
  | incDec x up =>
    exact Expr.printable x hr hg.part
  | send c v =>
    have hc := Expr.printable c hr.1 hg.part
    have hv := Expr.printable v hr.2 hg.part
    exact hc.append hv
  | decl d => exact GenDecl.printable d hr.2 hg
  | returns vs =>
    exact exprs_printable vs hr hg.part
  | branch kind label => exact .names label.toList
  | block b => exact Block.printable b hr hg
  | ifThen init cond body rest =>
    have hinit := header_printable init hr.1 hg.part
    have hcond := Expr.printable cond hr.2.1 hg.part
    have hbody := Block.printable body hr.2.2.1 hg.part
    have hrest := Else.printable rest hr.2.2.2 hg.part
    exact ((hinit.append hcond).append hbody).append hrest
  | forLoop init cond post body =>
    have hinit := header_printable init hr.1 hg.part
    have hcond := optExpr_printable cond hr.2.1 hg.part
    have hpost := header_printable post hr.2.2.1 hg.part
    have hbody := Block.printable body hr.2.2.2 hg.part
    exact ((hinit.append hcond).append hpost).append hbody
  | rangeLoop key value define x body =>
    have hkey := optExpr_printable key hr.2.1 hg.part
    have hvalue := optExpr_printable value hr.2.2.1 hg.part
    have hx := Expr.printable x hr.2.2.2.1 hg.part
    have hbody := Block.printable body hr.2.2.2.2 hg.part
    exact ((hkey.append hvalue).append hx).append hbody
  | switch init tag clauses braces =>
    have hinit := header_printable init hr.1 hg.part
    have htag := optExpr_printable tag hr.2.1 hg.part
    have hclauses := clauses_printable clauses hr.2.2 hg.part
    exact (hinit.append htag).append hclauses
  | typeSwitch init guard clauses braces =>
    have hinit := header_printable init hr.1 hg.part
    have hguard := Stmt.printable guard hr.2.1.kind hg.part
    have hclauses := clauses_printable clauses hr.2.2 hg.part
    exact (hinit.append hguard).append hclauses
  | select clauses braces =>
    exact clauses_printable clauses hr hg.part
  | go x => exact Expr.printable x hr hg.part
  | defer x => exact Expr.printable x hr hg.part
  | labeled label s =>
    have hs := Stmt.printable s hr.kind hg.part
    exact hs.cons_name label
  | empty => exact .nil
termination_by structural k

theorem Else.printable (rest : Else) (hr : rest.Regular)
    (hg : Genuine rest.words (textsOf rest.marks)) : AllPrintable rest.events := by
  cases rest with
  | none => exact .nil
  | elseIf init cond body rest =>
    have hinit := header_printable init hr.1 hg.part
    have hcond := Expr.printable cond hr.2.1 hg.part
    have hbody := Block.printable body hr.2.2.1 hg.part
    have hrest := Else.printable rest hr.2.2.2 hg.part
    exact ((hinit.append hcond).append hbody).append hrest
  | block b => exact Block.printable b hr hg.part
termination_by structural rest

theorem clauses_printable (cs : List Clause) (hr : clausesRegular cs)
    (hg : Genuine (clauseWords cs) (textsOf (clauseMarks cs))) :
    AllPrintable (clauseEvents cs) := by
  cases cs with
  | nil => exact .nil
  | cons c cs =>
    obtain ⟨head, body, d⟩ := c
    have hhead := ClauseHead.printable head hr.1.1 hg.part
    have hbody := stmts_printable body hr.1.2 hg.part
    have hcs := clauses_printable cs hr.2 hg.part
    exact (hhead.append hbody).append hcs
termination_by structural cs

theorem ClauseHead.printable (head : ClauseHead) (hr : head.Regular)
    (hg : Genuine head.words (textsOf head.marks)) : AllPrintable head.events := by
  cases head with
  | default => exact .nil
  | values xs =>
    exact exprs_printable xs hr hg.part
  | comm s =>
    exact Stmt.printable s hr.kind hg.part
termination_by structural head

theorem GenDecl.printable (d : GenDecl) (hr : d.Regular) (hg : Genuine d.words (textsOf d.marks)) :
    AllPrintable d.events := by
  obtain ⟨keyword, specs, group⟩ := d
  exact specs_printable keyword specs hr.2 hg.part
termination_by structural d

theorem specs_printable (keyword : GenKeyword) (specs : List Spec) (hr : specsRegular keyword specs)
    (hg : Genuine (specWords specs) (textsOf (specMarks specs))) :
    AllPrintable (specEvents specs) := by
  cases specs with
  | nil => exact .nil
  | cons s specs =>
    obtain ⟨kind, d⟩ := s
    have hs := SpecKind.printable kind hr.1.2 hg.part
    have hspecs := specs_printable keyword specs hr.2 hg.part
    exact hs.append hspecs
termination_by structural specs

theorem SpecKind.printable (kind : SpecKind) (hr : kind.Regular)
    (hg : Genuine kind.words (textsOf kind.marks)) : AllPrintable kind.events := by
  cases kind with
  | importPath name path => exact .nil
  | value ns t vs =>
    have ht := optExpr_printable t hr.1 hg.part
    have hvs := exprs_printable vs hr.2.1 hg.part
    exact (Nodes.append (.names ns) ht).append hvs
  | type n isAlias x =>
    have hx := Expr.printable x hr hg.part
    exact hx.cons_name n
termination_by structural kind

end

/-- All expressions of a function that can be written can be written. -/
theorem FuncDecl.printable (f : FuncDecl) (hr : f.Regular)
    (hg : Genuine f.words (textsOf f.marks)) : AllPrintable f.events := by
  obtain ⟨recv, name, sig, body⟩ := f
  have hrecv := results_printable recv hr.1 hg.part
  have hsig := Signature.printable sig hr.2.1 hg.part
  refine (hrecv.append (hsig.cons_name name)).append ?_
  cases body with
  | none => exact .nil
  | some b =>
    exact Block.printable b (hr.2.2 b rfl) hg.part

theorem Decl.printable (d : Decl) (hr : d.kind.Regular) (hg : Genuine d.words (textsOf d.marks)) :
    AllPrintable d.events := by
  obtain ⟨kind, decs⟩ := d
  have hkind : Genuine kind.words (textsOf kind.marks) := hg.part
  cases kind with
  | func f => exact f.printable hr hkind
  | gen d => exact d.printable hr hkind

/-- All expressions of an accepted file can be written. -/
theorem printable_parseFile {source : String} {file : SourceFile}
    (h : parseFile source = .ok file) : AllPrintable file.events := by
  intro e he
  obtain ⟨d, hd, he⟩ := List.mem_flatMap.mp he
  refine d.printable (Parse.regular_parseFile h d hd) ?_ e he
  refine (Print.genuine_parseFile h).part (fun k hk => ?_) fun m hm => ?_
  · exact List.mem_append_right _ (List.mem_flatMap.mpr ⟨d, hd, hk⟩)
  · exact List.mem_append_left _ (List.mem_append_right _ (List.mem_flatMap.mpr ⟨d, hd, hm⟩))

end HandlerSplit
