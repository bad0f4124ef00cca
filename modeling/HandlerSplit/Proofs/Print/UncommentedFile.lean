import HandlerSplit.Proofs.Print.Tree
import HandlerSplit.Proofs.Print.Uncommented
import HandlerSplit.Proofs.Tree.SettledFile
/-!
# Files without comments

A canonical file is regular, its words can be read from their own texts, and it has no comments
(`printable_of_canonicalFile`). So it is printed with its words and nothing else.
-/

namespace HandlerSplit

/-- A regular tree whose words can be read, and without comments. -/
structure Printable (regular : Prop) (ws : List TokenKind) (ms : List Mark) : Prop where
  regular : regular
  legible : ∀ k ∈ ws, k.Legible
  texts : textsOf ms = []

theorem Printable.genuine {regular : Prop} {ws : List TokenKind} {ms : List Mark}
    (h : Printable regular ws ms) : Print.Genuine ws (textsOf ms) := by
  refine ⟨fun k hk _ => h.legible k hk, ?_⟩
  rw [h.texts]
  exact nofun

/-! ## Expressions -/

theorem printable_of_uncommented {x : Expr} (h : x.Uncommented) (hsettled : Settled x.spelling) :
    Printable x.Regular x.words x.marks :=
  ⟨h.regular, fun k hk => (hsettled.plain k (h.words hk)).legible, h.texts⟩

theorem printable_of_canonical {x : Expr} (h : x.Canonical) :
    Printable x.Regular x.words x.marks :=
  printable_of_uncommented (uncommented_of_canonical h) (settled_of_canonical h).toSettled

theorem printable_exprs {xs : List Expr} (h : ∀ x ∈ xs, x.Canonical) :
    Printable (exprsRegular xs) (exprWords xs) (exprMarks xs) where
  regular := exprsRegular_iff.mpr fun x hx => (printable_of_canonical (h x hx)).regular
  legible k hk := by
    rw [exprWords_eq] at hk
    obtain ⟨x, hx, hk⟩ := List.mem_flatMap.mp hk
    exact (printable_of_canonical (h x hx)).legible k hk
  texts := by
    rw [exprMarks_eq, textsOf_flatMap, List.flatMap_eq_nil_iff]
    exact fun x hx => (printable_of_canonical (h x hx)).texts

theorem printable_opt {x : Option Expr} (h : ∀ y ∈ x, y.Canonical) :
    Printable (optExprRegular x) (optExprWords x) (optExprMarks x) := by
  cases x with
  | none => exact ⟨trivial, nofun, rfl⟩
  | some x => exact printable_of_canonical (h x rfl)

/-! ## Statements of a header -/

theorem legible_of_settled {k : TokenKind} (h : SettledAnywhere [k]) : k.Legible :=
  (h.plain k (List.mem_singleton_self k)).legible

theorem printable_of_simple {kind : StmtKind} (hkind : kind.Simple)
    (hexprs : ∀ x ∈ kind.exprs, x.Canonical) : Printable kind.Regular kind.words kind.marks := by
  cases hkind with
  | expr x => exact printable_of_canonical (hexprs x (List.mem_singleton_self x))
  | @assign lhs op rhs _ hop hne =>
    obtain ⟨hlhs, hrhs⟩ := List.forall_mem_append.mp hexprs
    have hl := printable_exprs hlhs
    have hr := printable_exprs hrhs
    refine ⟨⟨hl.regular, hr.regular, hne⟩, ?_, ?_⟩
    · simp only [StmtKind.words, List.forall_mem_append, List.forall_mem_singleton]
      exact ⟨⟨hl.legible, legible_of_settled (settled_of_assignOp hop)⟩, hr.legible⟩
    · rw [StmtKind.marks, textsOf_append, hl.texts, hr.texts, List.append_nil]
  | incDec x up =>
    have hx := printable_of_canonical (hexprs x (List.mem_singleton_self x))
    refine ⟨hx.regular, ?_, hx.texts⟩
    simp only [StmtKind.words, List.forall_mem_append, List.forall_mem_singleton]
    exact ⟨hx.legible, (plain_punct _).legible⟩
  | send chan value =>
    obtain ⟨hchan, hvalue⟩ := List.forall_mem_cons.mp hexprs
    have hc := printable_of_canonical hchan
    have hv := printable_of_canonical (List.forall_mem_singleton.mp hvalue)
    refine ⟨⟨hc.regular, hv.regular⟩, ?_, ?_⟩
    · simp only [StmtKind.words, List.forall_mem_append, List.forall_mem_singleton]
      exact ⟨⟨hc.legible, (plain_punct _).legible⟩, hv.legible⟩
    · rw [StmtKind.marks, textsOf_append, hc.texts, hv.texts, List.append_nil]

theorem isSimple_of_simple {kind : StmtKind} (h : kind.Simple) : kind.isSimple = true := by
  cases h <;> rfl

theorem printable_header {s : Option Stmt} (h : ∀ t ∈ s, t.CanonicalHeader) :
    Printable (headerRegular s) (optStmtWords s) (optStmtMarks s) := by
  cases s with
  | none => exact ⟨trivial, nofun, rfl⟩
  | some s =>
    obtain ⟨hdecs, hsimple, hexprs⟩ := h s rfl
    obtain ⟨kind, decs⟩ := s
    obtain rfl : decs = .plain := hdecs
    have hkind := printable_of_simple hsimple fun x hx => (hexprs x hx).canonical
    refine ⟨⟨⟨isSimple_of_simple hsimple, rfl⟩, hkind.regular⟩, hkind.legible, ?_⟩
    rw [optStmtMarks, Stmt.marks, Decorations.around_plain]
    exact hkind.texts

/-! ## Statements line by line -/

theorem Decorations.textsOf_onLine {d : Decorations} (h : d = .onLine d.blankBefore)
    (ms : List Mark) : textsOf (d.around ms) = textsOf ms := by
  rw [h, Decorations.around_of_trailing_none rfl]
  rfl

theorem isEmpty_of_canonicalStmt {kind : StmtKind} (h : kind.Canonical) : kind.isEmpty = false := by
  cases h with
  | simple hkind => cases hkind <;> rfl
  | _ => rfl

theorem printable_stmts {ss : List Stmt} (hlines : OwnLines (ss.map Stmt.decs))
    (hcanonical : ∀ s ∈ ss, s.kind.Canonical)
    (h : ∀ s ∈ ss, Printable s.kind.Regular s.kind.words s.kind.marks) :
    Printable (stmtsRegular ss) (stmtWords ss) (stmtMarks ss) where
  regular := by
    refine stmtsRegular_iff.mpr fun s hs => ?_
    have hempty := isEmpty_of_canonicalStmt (hcanonical s hs)
    have hs := (h s hs).regular
    cases s
    exact ⟨hempty, hs⟩
  legible k hk := by
    rw [stmtWords_eq] at hk
    obtain ⟨s, hs, hk⟩ := List.mem_flatMap.mp hk
    rw [Print.words_stmt] at hk
    exact (h s hs).legible k hk
  texts := by
    rw [stmtMarks_eq, textsOf_flatMap, List.flatMap_eq_nil_iff]
    intro s hs
    have hdecs := List.forall_mem_map.mp hlines.lines s hs
    have htexts := (h s hs).texts
    obtain ⟨kind, d⟩ := s
    exact (Decorations.textsOf_onLine hdecs _).trans htexts

theorem printable_block {ss : List Stmt} (hlines : OwnLines (ss.map Stmt.decs))
    (hcanonical : ∀ s ∈ ss, s.kind.Canonical)
    (h : ∀ s ∈ ss, Printable s.kind.Regular s.kind.words s.kind.marks) :
    Printable (Block.of ss).Regular (Block.of ss).words (Block.of ss).marks := by
  have hss := printable_stmts hlines hcanonical h
  refine ⟨hss.regular, ?_, ?_⟩
  · simp only [Block.of, Block.words, List.forall_mem_append, List.forall_mem_singleton]
    exact ⟨⟨(plain_punct _).legible, hss.legible⟩, (plain_punct _).legible⟩
  · exact (congrArg textsOf (List.append_nil (stmtMarks ss))).trans hss.texts

theorem printable_else {e : Else}
    (h : ∀ k ∈ e.branch?, Printable k.Regular k.words k.marks) :
    Printable e.Regular e.words e.marks := by
  have helse : (TokenKind.keyword .else).Legible := (plain_keyword .else).legible
  cases e with
  | none => exact ⟨trivial, nofun, rfl⟩
  | elseIf init cond body otherwise =>
    obtain ⟨hregular, hlegible, htexts⟩ := h _ rfl
    exact ⟨hregular, List.forall_mem_cons.mpr ⟨helse, hlegible⟩, htexts⟩
  | block body =>
    obtain ⟨hregular, hlegible, htexts⟩ := h _ rfl
    exact ⟨hregular, List.forall_mem_cons.mpr ⟨helse, hlegible⟩, htexts⟩

theorem printable_head {head : ClauseHead} (h : head.Canonical) :
    Printable head.Regular head.words head.marks := by
  cases h with
  | default => exact ⟨trivial, List.forall_mem_singleton.mpr (plain_keyword _).legible, rfl⟩
  | values _ hxs =>
    have hxs := printable_exprs hxs
    exact ⟨hxs.regular, List.forall_mem_cons.mpr ⟨(plain_keyword _).legible, hxs.legible⟩, hxs.texts⟩

theorem printable_clauses {cs : List Clause} (hclauses : OwnLines (cs.map Clause.decs))
    (hheads : ∀ c ∈ cs, c.head.Canonical)
    (h : ∀ c ∈ cs, Printable (stmtsRegular c.body) (stmtWords c.body) (stmtMarks c.body)) :
    Printable (clausesRegular cs) (clauseWords cs) (clauseMarks cs) where
  regular := clausesRegular_iff.mpr fun c hc =>
    ⟨(printable_head (hheads c hc)).regular, (h c hc).regular⟩
  legible k hk := by
    rw [clauseWords_eq] at hk
    obtain ⟨c, hc, hk⟩ := List.mem_flatMap.mp hk
    simp only [Clause.words, List.mem_append, List.mem_singleton] at hk
    rcases hk with (hk | rfl) | hk
    · exact (printable_head (hheads c hc)).legible k hk
    · exact (plain_punct _).legible
    · exact (h c hc).legible k hk
  texts := by
    rw [clauseMarks_eq, textsOf_flatMap, List.flatMap_eq_nil_iff]
    intro c hc
    have hdecs := List.forall_mem_map.mp hclauses.lines c hc
    rw [Clause.marks, textsOf_append, Decorations.textsOf_onLine hdecs,
      (printable_head (hheads c hc)).texts, (h c hc).texts, List.append_nil]

/-- A canonical statement is regular, its words can be read, and it has no comments. -/
theorem printable_of_canonicalStmt {kind : StmtKind} (h : kind.Canonical) :
    Printable kind.Regular kind.words kind.marks := by
  induction h with
  | simple hkind hexprs => exact printable_of_simple hkind hexprs
  | returns hvalues =>
    have hvalues := printable_exprs hvalues
    exact ⟨hvalues.regular, List.forall_mem_cons.mpr ⟨(plain_keyword _).legible, hvalues.legible⟩,
      hvalues.texts⟩
  | @branch kind label _ hlabel =>
    have hname : ∀ k ∈ nameWords label.toList, k.Legible := List.forall_mem_map.mpr fun l hl =>
      (plain_ident (hlabel l (Option.mem_toList.mp hl))).legible
    exact ⟨trivial, List.forall_mem_cons.mpr ⟨(plain_keyword _).legible, hname⟩,
      textsOf_nameMarks _⟩
  | go hcall | defer hcall =>
    have hcall := printable_of_canonical hcall
    exact ⟨hcall.regular, List.forall_mem_cons.mpr ⟨(plain_keyword _).legible, hcall.legible⟩,
      hcall.texts⟩
  | block hlines hss ih => exact printable_block hlines hss ih
  | ifThen hinit hcond hlines hss _ ih ihelse =>
    have hi := printable_header hinit
    have hc := printable_of_canonical hcond.canonical
    have hb := printable_block hlines hss ih
    have he := printable_else ihelse
    refine ⟨⟨hi.regular, hc.regular, hb.regular, he.regular⟩, ?_, ?_⟩
    · simp only [StmtKind.words, List.forall_mem_append, List.forall_mem_singleton]
      exact ⟨⟨⟨(plain_keyword _).legible, hi.legible, hc.legible⟩, hb.legible⟩, he.legible⟩
    · simp only [StmtKind.marks, textsOf_append, hi.texts, hc.texts, hb.texts, he.texts,
        List.append_nil]
  | forLoop hinit hcond hpost hlines hss ih =>
    have hi := printable_header hinit
    have hc := printable_opt fun x hx => (hcond x hx).canonical
    have hp := printable_header hpost
    have hb := printable_block hlines hss ih
    refine ⟨⟨hi.regular, hc.regular, hp.regular, hb.regular⟩, ?_, ?_⟩
    · simp only [StmtKind.words, List.forall_mem_append, List.forall_mem_singleton]
      exact ⟨⟨(plain_keyword _).legible, ⟨hi.legible, hc.legible⟩, hp.legible⟩, hb.legible⟩
    · simp only [StmtKind.marks, textsOf_append, hi.texts, hc.texts, hp.texts, hb.texts,
        List.append_nil]
  | @rangeLoop key value define x ss hkey hvalue hvars _ hx hlines hss ih =>
    have hk := printable_opt fun y hy => (hkey y hy).canonical
    have hv := printable_opt fun y hy => (hvalue y hy).canonical
    have hr := printable_of_canonical hx.canonical
    have hb := printable_block hlines hss ih
    have hsign : ∀ k ∈ rangeOpWords key.isSome define, k.Legible := by
      rw [rangeOpWords]
      split
      · exact List.forall_mem_singleton.mpr (plain_punct _).legible
      · exact List.forall_mem_nil _
    refine ⟨⟨hvars, hk.regular, hv.regular, hr.regular, hb.regular⟩, ?_, ?_⟩
    · simp only [StmtKind.words, List.forall_mem_append, List.forall_mem_singleton]
      exact ⟨⟨(plain_keyword _).legible, ⟨⟨⟨hk.legible, hv.legible⟩, hsign⟩,
        (plain_keyword _).legible⟩, hr.legible⟩, hb.legible⟩
    · simp only [StmtKind.marks, textsOf_append, hk.texts, hv.texts, hr.texts, hb.texts,
        List.append_nil]
  | @switch init tag cs hinit htag hclauses hheads hlines hss ih =>
    have hi := printable_header hinit
    have ht := printable_opt fun x hx => (htag x hx).canonical
    have hcs := printable_clauses hclauses hheads fun c hc =>
      printable_stmts (hlines c hc) (hss c hc) (ih c hc)
    refine ⟨⟨hi.regular, ht.regular, hcs.regular⟩, ?_, ?_⟩
    · simp only [StmtKind.words, List.forall_mem_append, List.forall_mem_singleton]
      exact ⟨⟨(plain_keyword _).legible, hi.legible, ht.legible⟩,
        ⟨(plain_punct _).legible, hcs.legible⟩, (plain_punct _).legible⟩
    · have hbraces : Enclosure.multiLine.around (clauseMarks cs) = clauseMarks cs :=
        List.append_nil _
      rw [StmtKind.marks, hbraces, textsOf_append, textsOf_append, hi.texts, ht.texts, hcs.texts]
      rfl
  | @labeled label s hlabel hdecs hs ih =>
    obtain ⟨kind, d⟩ := s
    obtain rfl : d = .ownLine := hdecs
    have hempty := isEmpty_of_canonicalStmt hs
    refine ⟨⟨⟨rfl, fun h => absurd (hempty.symm.trans h) Bool.false_ne_true⟩, ih.regular⟩, ?_, ?_⟩
    · simp only [StmtKind.words, Stmt.words, List.forall_mem_append, List.forall_mem_singleton]
      exact ⟨⟨(plain_ident hlabel).legible, (plain_punct _).legible⟩, ih.legible⟩
    · exact (congrArg textsOf (List.append_nil kind.marks)).trans ih.texts

/-! ## Files -/

theorem printable_of_uniform {fs : FieldList} (h : fs.Uniform)
    (htypes : ∀ f ∈ fs.fields, f.type.variadicElem.CanonicalType) :
    Printable (fs.Regular false) fs.words (fs.marks true) := by
  obtain ⟨hregular, hwords, htexts⟩ := uncommented_fields h fun f hf =>
    uncommented_of_variadicElem (uncommented_of_canonicalType (htypes f hf))
  have hsettled := settled_of_fields h fun f hf => settled_of_canonicalType (htypes f hf)
  exact ⟨hregular, fun k hk => (hsettled.plain k (hwords hk)).legible, htexts⟩

theorem printable_of_signature {sig : Signature} (h : sig.Shaped)
    (htypes : ∀ t ∈ sig.types, t.CanonicalType) :
    Printable sig.Regular sig.words sig.marks := by
  have hps := printable_of_uniform h.params fun f hf => htypes _ (sig.mem_types_of_params hf)
  have hrs : Printable (resultsRegular sig.results) (resultWords sig.results)
      (resultMarks sig.results) := by
    cases hresults : sig.results with
    | none => exact ⟨trivial, nofun, rfl⟩
    | some fs =>
      refine printable_of_uniform (h.results fs hresults) fun f hf => ?_
      have htype := htypes _ (sig.mem_types_of_results hresults hf)
      rwa [variadicElem_of_canonicalType htype]
  obtain ⟨ps, rs⟩ := sig
  refine ⟨⟨hps.regular, hrs.regular⟩, List.forall_mem_append.mpr ⟨hps.legible, hrs.legible⟩, ?_⟩
  rw [Signature.marks, textsOf_append, hps.texts, hrs.texts, List.append_nil]

theorem printable_of_canonicalFunc {f : FuncDecl} (h : f.Canonical) :
    Printable f.Regular f.words f.marks := by
  obtain ⟨b, hbody, hcanonical⟩ := h.body
  have hb := printable_of_canonicalStmt hcanonical
  have hs := printable_of_signature h.shaped h.types
  have hr : Printable (resultsRegular f.recv) (resultWords f.recv) (resultMarks f.recv) := by
    cases hrecv : f.recv with
    | none => exact ⟨trivial, nofun, rfl⟩
    | some recv =>
      obtain ⟨huniform, field, hfields, -, htype⟩ := h.recv recv hrecv
      refine printable_of_uniform huniform ?_
      rwa [hfields, List.forall_mem_singleton, variadicElem_of_canonicalType htype]
  refine ⟨⟨hr.regular, hs.regular, ?_⟩, ?_, ?_⟩
  · rw [hbody]
    rintro _ ⟨⟩
    exact hb.regular
  · simp only [FuncDecl.words, hbody, Option.toList_some, List.flatMap_singleton,
      List.forall_mem_append, List.forall_mem_singleton]
    exact ⟨⟨⟨⟨(plain_keyword _).legible, hr.legible⟩, (plain_ident h.name).legible⟩, hs.legible⟩,
      hb.legible⟩
  · rw [FuncDecl.marks, textsOf_append, textsOf_append, Print.textsOf_cons_name, hr.texts, hs.texts,
      hbody, Option.toList_some, List.flatMap_singleton]
    exact hb.texts

/-- A canonical file is regular, its words can be read, and it has no comments. -/
theorem printable_of_canonicalFile {file : SourceFile} (h : file.Canonical) :
    Printable file.Regular file.words file.marks where
  regular := by
    intro d hd
    obtain ⟨f, rfl, hf⟩ := h.decls d hd
    exact (printable_of_canonicalFunc hf).regular
  legible k hk := by
    simp only [SourceFile.words, List.mem_append, List.mem_singleton] at hk
    rcases hk with (rfl | rfl) | hk
    · exact (plain_keyword _).legible
    · exact (plain_ident h.package).legible
    · obtain ⟨d, hd, hk⟩ := List.mem_flatMap.mp hk
      obtain ⟨f, rfl, hf⟩ := h.decls d hd
      exact (printable_of_canonicalFunc hf).legible k hk
  texts := by
    have hdecls : textsOf (file.decls.flatMap Decl.marks) = [] := by
      rw [textsOf_flatMap, List.flatMap_eq_nil_iff]
      intro d hd
      obtain ⟨f, rfl, hf⟩ := h.decls d hd
      exact (Decorations.textsOf_onLine rfl _).trans (printable_of_canonicalFunc hf).texts
    rw [SourceFile.marks, textsOf_append, textsOf_append, hdecls, h.packageDecs, h.trailingComments]
    rfl

end HandlerSplit
