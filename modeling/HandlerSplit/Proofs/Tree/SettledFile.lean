import HandlerSplit.Proofs.Tree.CanonicalFile
import HandlerSplit.Proofs.Tree.Settled
/-!
# The tokens of canonical files

The tokens of a canonical statement, function or file are read one by one, as those of the
expressions and types in it are (`settled_of_canonicalFile`).
-/

namespace HandlerSplit

/-! ## Statements without a body -/

theorem SettledAnywhere.separated {kss : List (List TokenKind)} (h : ∀ ks ∈ kss, SettledAnywhere ks) :
    SettledAnywhere (separated kss) := by
  induction kss with
  | nil => exact .nil
  | cons ks kss ih =>
    obtain ⟨hks, hkss⟩ := List.forall_mem_cons.mp h
    cases kss with
    | nil =>
      rw [separated_singleton]
      exact hks
    | cons ks' kss =>
      have hcomma : SettledAnywhere [.punct .comma] := .mark .comma (by decide)
      rw [separated_cons_cons, List.append_cons]
      exact (hks.append hcomma).append (ih hkss)

theorem settled_of_exprs {xs : List Expr} (h : ∀ x ∈ xs, x.Canonical) :
    SettledAnywhere (separated (xs.map Expr.spelling)) :=
  .separated (List.forall_mem_map.mpr fun x hx => settled_of_canonical (h x hx))

theorem settled_of_assignOp {op : AssignOp} (h : op.isGrammatical = true) :
    SettledAnywhere [op.kind] := by
  cases op with
  | assign => exact .mark .assign (by decide)
  | define => exact .mark .define (by decide)
  | op o =>
    refine .single (plain_opAssign (of_decide_eq_true h)) ?_
    cases o <;> decide

theorem settled_of_simple {kind : StmtKind} (hkind : kind.Simple)
    (hexprs : ∀ x ∈ kind.exprs, x.Canonical) : SettledAnywhere kind.spelling := by
  cases hkind with
  | expr x => exact settled_of_canonical (hexprs x (List.mem_singleton_self x))
  | assign _ hop _ =>
    obtain ⟨hlhs, hrhs⟩ := List.forall_mem_append.mp hexprs
    exact ((settled_of_exprs hlhs).append (settled_of_assignOp hop)).append (settled_of_exprs hrhs)
  | incDec x up =>
    have hmark : SettledAnywhere [.punct (if up then .inc else .dec)] := by
      cases up <;> exact .mark _ (by decide)
    exact (settled_of_canonical (hexprs x (List.mem_singleton_self x))).append hmark
  | send chan value =>
    obtain ⟨hchan, hvalue⟩ := List.forall_mem_cons.mp hexprs
    have harrow : SettledAnywhere [.punct .arrow] := .mark .arrow (by decide)
    exact ((settled_of_canonical hchan).append harrow).append
      (settled_of_canonical (List.forall_mem_singleton.mp hvalue))

/-! ## Headers -/

theorem settled_of_header (isLoop : Bool) {init cond post : Option (List TokenKind)}
    (hinit : ∀ ks ∈ init, SettledAnywhere ks) (hcond : ∀ ks ∈ cond, SettledAnywhere ks)
    (hpost : ∀ ks ∈ post, SettledAnywhere ks) :
    SettledAnywhere (headerSpelling isLoop init cond post) := by
  have hpart {ks : Option (List TokenKind)} (h : ∀ ks' ∈ ks, SettledAnywhere ks') :
      SettledAnywhere (ks.getD []) := by
    cases ks with
    | none => exact .nil
    | some ks => exact h ks rfl
  have hsemicolon : SettledAnywhere [.semicolon false] := .single plain_semicolon (by decide)
  rw [headerSpelling]
  split
  · exact hpart hcond
  · refine (((hpart hinit).append hsemicolon).append (hpart hcond)).append ?_
    split
    · exact hsemicolon.append (hpart hpost)
    · exact .nil

theorem settled_of_clause {s : Option Stmt} (h : ∀ t ∈ s, t.CanonicalHeader) :
    ∀ ks ∈ clauseSpelling s, SettledAnywhere ks := by
  cases s with
  | none => exact nofun
  | some s =>
    rintro _ ⟨⟩
    exact settled_of_simple (h s rfl).simple fun x hx => ((h s rfl).exprs x hx).canonical

theorem settled_of_condition {x : Option Expr} (h : ∀ y ∈ x, y.CanonicalCondition) :
    ∀ ks ∈ x.map Expr.spelling, SettledAnywhere ks := by
  cases x with
  | none => exact nofun
  | some x =>
    rintro _ ⟨⟩
    exact settled_of_canonical (h x rfl).canonical

theorem settled_of_vars {key value : Option Expr} (hkey : ∀ y ∈ key, y.CanonicalHeader)
    (hvalue : ∀ y ∈ value, y.CanonicalHeader) (define : Bool) :
    SettledAnywhere (varsSpelling key value define) := by
  refine (settled_of_exprs fun x hx => ?_).append ?_
  · rw [List.mem_append, Option.mem_toList, Option.mem_toList] at hx
    exact (hx.elim (hkey x) (hvalue x)).canonical
  · rw [rangeOpWords]
    split
    · cases define <;> exact .mark _ (by decide)
    · exact .nil

theorem settled_of_head {head : ClauseHead} (h : head.Canonical) : SettledAnywhere head.spelling := by
  cases h with
  | default => exact .keyword .default
  | values _ hxs => exact (SettledAnywhere.keyword .case).append (settled_of_exprs hxs)

/-! ## Statements line by line -/

namespace Script

/-- A script whose tokens are read one by one. -/
def Settled (s : Script) : Prop :=
  SettledAnywhere s.kinds

namespace Settled

variable {s s' : Script}

theorem append (h : s.Settled) (h' : s'.Settled) : (s ++ s').Settled := by
  rw [Settled, kinds_append]
  exact SettledAnywhere.append h h'

theorem line {ks : List TokenKind} (h : SettledAnywhere ks) : (line ks).Settled := by
  rwa [Settled, kinds_line]

theorem lineBreak (h : s.Settled) : Script.Settled (.lineBreak :: s) :=
  h

theorem gap (isBlank : Bool) : (gap isBlank).Settled := by
  cases isBlank <;> exact SettledAnywhere.nil

theorem braced (h : s.Settled) : (braced s).Settled := by
  have hopen : SettledAnywhere [.punct .lbrace] := .mark .lbrace (by decide)
  have hclose : SettledAnywhere [.punct .rbrace] := .mark .rbrace (by decide)
  exact (line hopen).append (.lineBreak (h.append (line hclose)))

theorem flatMap {α : Type} {f : α → Script} {as : List α} (h : ∀ a ∈ as, (f a).Settled) :
    Script.Settled (as.flatMap f) := by
  induction as with
  | nil => exact SettledAnywhere.nil
  | cons a as ih =>
    obtain ⟨ha, has⟩ := List.forall_mem_cons.mp h
    exact ha.append (ih has)

/-- A line with its line break, and with the empty line before it. -/
theorem onLine (h : s.Settled) (isBlank : Bool) :
    Script.Settled (Script.gap isBlank ++ (s ++ [.lineBreak])) :=
  (gap isBlank).append (h.append (lineBreak SettledAnywhere.nil))

theorem stmts {ss : List Stmt} (h : ∀ s ∈ ss, s.kind.script.Settled) : (stmtsScript ss).Settled := by
  rw [stmtsScript_eq]
  refine .flatMap fun s hs => ?_
  rw [Stmt.script_eq]
  exact (h s hs).onLine _

end Settled

end Script

open Script.Settled in
/-- The tokens of a canonical statement are read one by one. -/
theorem settled_of_canonicalStmt {kind : StmtKind} (h : kind.Canonical) : kind.script.Settled := by
  have nothing : ∀ ks ∈ (none : Option (List TokenKind)), SettledAnywhere ks := nofun
  induction h with
  | simple hkind hexprs =>
    have hspelling := settled_of_simple hkind hexprs
    cases hkind <;> exact line hspelling
  | returns hvalues => exact line ((SettledAnywhere.keyword .return).append (settled_of_exprs hvalues))
  | @branch kind label _ hlabel =>
    refine line ((SettledAnywhere.keyword kind.keyword).append ?_)
    cases label with
    | none => exact .nil
    | some l => exact .ident (hlabel l rfl)
  | go hcall => exact line ((SettledAnywhere.keyword .go).append (settled_of_canonical hcall))
  | defer hcall => exact line ((SettledAnywhere.keyword .defer).append (settled_of_canonical hcall))
  | block _ _ ih => exact braced (stmts ih)
  | @ifThen init cond ss otherwise hinit hcond _ _ _ ih ihelse =>
    have hcond : ∀ ks ∈ some cond.spelling, SettledAnywhere ks := by
      rintro _ ⟨⟩
      exact settled_of_canonical hcond.canonical
    have hheader := settled_of_header false (settled_of_clause hinit) hcond nothing
    refine ((line ((SettledAnywhere.keyword .if).append hheader)).append (braced (stmts ih))).append ?_
    rw [Else.script_eq]
    cases hbranch : otherwise.branch? with
    | none => exact SettledAnywhere.nil
    | some k => exact (line (.keyword .else)).append (ihelse k hbranch)
  | forLoop hinit hcond hpost _ _ ih =>
    have hheader := settled_of_header true (settled_of_clause hinit) (settled_of_condition hcond)
      (settled_of_clause hpost)
    exact (line ((SettledAnywhere.keyword .for).append hheader)).append (braced (stmts ih))
  | @rangeLoop key value define x ss hkey hvalue _ _ hx _ _ ih =>
    have hvars := settled_of_vars hkey hvalue define
    have hheader := ((SettledAnywhere.keyword .for).append hvars).append (.keyword .range)
    exact (line (hheader.append (settled_of_canonical hx.canonical))).append (braced (stmts ih))
  | @switch init tag cs hinit htag _ hheads _ _ ih =>
    have hheader := settled_of_header false (settled_of_clause hinit) (settled_of_condition htag)
      nothing
    refine (line ((SettledAnywhere.keyword .switch).append hheader)).append (.braced ?_)
    rw [clausesScript_eq]
    refine .flatMap fun c hc => (gap _).append ((line ?_).append (.lineBreak (stmts (ih c hc))))
    have hcolon : SettledAnywhere [.punct .colon] := .mark .colon (by decide)
    exact (settled_of_head (hheads c hc)).append hcolon
  | @labeled label s hlabel _ _ ih =>
    obtain ⟨k, d⟩ := s
    have hcolon : SettledAnywhere [.punct .colon] := .mark .colon (by decide)
    exact (line ((SettledAnywhere.ident hlabel).append hcolon)).append (.lineBreak ih)

/-! ## Files -/

open Script.Settled in
theorem settled_of_canonicalFunc {f : FuncDecl} (h : f.Canonical) : f.script.Settled := by
  have htypes (t : Expr) (ht : t.CanonicalType) : t.CanonicalType ∧ SettledAnywhere t.spelling :=
    ⟨ht, settled_of_canonicalType ht⟩
  have hrecv : SettledAnywhere (f.recv.elim [] FieldList.spelling) := by
    cases hrecv : f.recv with
    | none => exact .nil
    | some recv =>
      obtain ⟨huniform, field, hfields, -, htype⟩ := h.recv recv hrecv
      have hparams := settled_of_fields huniform (by
        rw [hfields, List.forall_mem_singleton, variadicElem_of_canonicalType htype]
        exact settled_of_canonicalType htype)
      obtain ⟨fs, e⟩ := recv
      exact .bracketed .nil hparams .lparen .rparen (by decide) (by decide)
  obtain ⟨b, hbody, hcanonical⟩ := h.body
  have hname : SettledAnywhere [.ident f.name] := .ident h.name
  have hsig := settled_of_signature h.shaped fun t ht => htypes t (h.types t ht)
  rw [FuncDecl.script, hbody]
  exact (line ((((SettledAnywhere.keyword .func).append hrecv).append hname).append hsig)).append
    (settled_of_canonicalStmt hcanonical)

open Script.Settled in
/-- The tokens of a canonical file are read one by one. -/
theorem settled_of_canonicalFile {file : SourceFile} (h : file.Canonical) :
    file.script.Settled := by
  refine (line ((SettledAnywhere.keyword .package).append (.ident h.package))).append
    (.lineBreak (.flatMap fun d hd => ?_))
  obtain ⟨f, rfl, hf⟩ := h.decls d hd
  exact (settled_of_canonicalFunc hf).onLine _

end HandlerSplit
