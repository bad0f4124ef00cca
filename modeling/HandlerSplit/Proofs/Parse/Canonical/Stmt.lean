import HandlerSplit.Proofs.Parse.Canonical.Control
/-!
# Reading canonical statements

The script of a canonical statement is read as that statement, up to the end of its last line
(`readable_of_canonicalStmt`). The levels of the grammar and the turns of its loops are enough for
what the script holds, as it has more tokens than each of its parts.
-/

namespace HandlerSplit

open Script (line)

/-! ## Sizes of scripts -/

namespace Script

variable {α : Type} {f : α → Script} {as : List α}

/-- A part of a script is no longer than the script. -/
theorem size_le_flatMap {a : α} (ha : a ∈ as) : (f a).size ≤ size (as.flatMap f) := by
  induction as with
  | nil => cases ha
  | cons b as ih =>
    rw [List.flatMap_cons, size_append]
    rcases List.mem_cons.mp ha with rfl | ha
    · exact Nat.le_add_right _ _
    · exact Nat.le_add_left_of_le (ih ha)

/-- A script of parts that are not empty is at least as long as there are parts. -/
theorem length_le_size_flatMap (h : ∀ a ∈ as, 0 < (f a).size) : as.length ≤ size (as.flatMap f) := by
  induction as with
  | nil => exact Nat.zero_le _
  | cons a as ih =>
    obtain ⟨ha, has⟩ := List.forall_mem_cons.mp h
    have hrest := ih has
    rw [List.flatMap_cons, size_append, List.length_cons]
    omega

end Script

theorem length_le_of_mem_map {xs : List Expr} {x : Expr} (hx : x ∈ xs) :
    x.spelling.length ≤ (separated (xs.map Expr.spelling)).length :=
  length_le_separated (List.mem_map_of_mem hx)

/-- There are at most as many expressions as tokens, and one more. -/
theorem length_exprs_le (xs : List Expr) :
    xs.length ≤ (separated (xs.map Expr.spelling)).length + 1 := by
  have hcard := card_le_separated (xs.map Expr.spelling)
  rwa [List.length_map] at hcard

namespace StmtKind

/-- An expression is no longer than the statement it is in. -/
theorem length_le_of_mem_exprs {kind : StmtKind} {x : Expr} (hx : x ∈ kind.exprs) :
    x.spelling.length ≤ kind.spelling.length := by
  cases kind with
  | assign lhs op rhs =>
    simp only [spelling, List.length_append]
    rcases List.mem_append.mp hx with hx | hx <;> have := length_le_of_mem_map hx <;> omega
  | returns values => exact Nat.le_succ_of_le (length_le_of_mem_map hx)
  | send chan value =>
    simp only [spelling, List.length_append]
    rcases List.mem_cons.mp hx with rfl | hx
    · omega
    · obtain rfl := List.mem_singleton.mp hx
      omega
  | expr | incDec | go | defer =>
    obtain rfl := List.mem_singleton.mp hx
    simp [spelling]
  | _ => cases hx

theorem length_exprs_le (kind : StmtKind) : kind.exprs.length ≤ kind.spelling.length + 1 := by
  cases kind with
  | assign lhs op rhs =>
    have hlhs := HandlerSplit.length_exprs_le lhs
    have hrhs := HandlerSplit.length_exprs_le rhs
    simp only [exprs, spelling, List.length_append, List.length_singleton]
    omega
  | returns values => exact Nat.le_succ_of_le (HandlerSplit.length_exprs_le values)
  | send chan value =>
    simp only [exprs, spelling, List.length_append, List.length_cons, List.length_nil]
    omega
  | _ => simp [exprs]

end StmtKind

/-- A header has the tokens of its clauses. -/
theorem length_le_header (isLoop : Bool) (init cond post : Option (List TokenKind)) :
    (∀ ks ∈ init, ks.length ≤ (headerSpelling isLoop init cond post).length) ∧
      (∀ ks ∈ cond, ks.length ≤ (headerSpelling isLoop init cond post).length) ∧
      (isLoop = true → ∀ ks ∈ post, ks.length ≤ (headerSpelling isLoop init cond post).length) := by
  cases init <;> cases cond <;> cases post <;> cases isLoop <;> simp [headerSpelling] <;> omega

/-- The variables of a range clause are no longer than the clause. -/
theorem length_le_vars (key value : Option Expr) (define : Bool) :
    ∀ x, x ∈ key ∨ x ∈ value → x.spelling.length ≤ (varsSpelling key value define).length := by
  intro x hx
  have hmem : x ∈ key.toList ++ value.toList := by
    rwa [List.mem_append, Option.mem_toList, Option.mem_toList]
  rw [varsSpelling, List.length_append]
  exact Nat.le_add_right_of_le (length_le_of_mem_map hmem)

/-! ## First tokens -/

namespace Parse

/-- What starts an expression starts a statement. -/
theorem startsStmt_of_startsExpr {k : TokenKind} (hk : startsExpr k = true) :
    startsStmt k = true := by
  cases k with
  | keyword => cases hk
  | semicolon => cases hk
  | eof => cases hk
  | punct mark =>
    cases mark with
    | rbrace => cases hk
    | _ => rfl
  | _ => rfl

/-- A canonical statement shows by its first token that it is one. -/
theorem startsStmt_script {kind : StmtKind} (h : kind.Canonical) :
    ∃ k tail, kind.script = .token k :: tail ∧ startsStmt k = true := by
  cases h with
  | simple hkind hexprs =>
    obtain ⟨k, ks, hks, hk⟩ := startsExpr_simple hkind fun x hx => startsExpr_spelling (hexprs x hx)
    exact ⟨k, line ks, by rw [script_of_simple hkind, hks, Script.line_cons],
      startsStmt_of_startsExpr hk⟩
  | @branch kind => exact ⟨_, _, rfl, by cases kind <;> rfl⟩
  | @labeled label s =>
    obtain ⟨kind, d⟩ := s
    exact ⟨_, _, rfl, rfl⟩
  | _ => exact ⟨_, _, rfl, rfl⟩

/-! ## Room in a statement -/

namespace Fits

variable {budget m size nesting : Nat} {ctx : Context}

/-- A header takes no level. -/
theorem inHeader (h : Fits budget m ctx size nesting) :
    Fits budget m ctx.inHeader size nesting where
  levels := h.levels
  turns := h.turns
  depth := h.depth
  header := Int.le_refl (-1)

end Fits

section

variable {budget m size nesting : Nat} {ctx : Context}

/-- Expressions where there is room for a phrase that holds them. -/
theorem inner_of_mem {xs : List Expr} (hxs : ∀ x ∈ xs, x.Canonical)
    (hbare : ∀ x ∈ xs, Print.hasBareComposite x = true → 0 ≤ ctx.exprLevel)
    (hfits : Fits budget m ctx size nesting) (hsize : ∀ x ∈ xs, x.spelling.length ≤ size)
    (hnesting : exprsNesting xs ≤ nesting) :
    ∀ x ∈ xs, Inner (Grammar.level budget (m + 1)) ctx x := by
  intro x hx
  have hdeep := nesting_le_of_mem_exprs hx
  exact .of (hxs x hx) (hfits.part (k := 0) (hsize x hx) (by omega)) (hbare x hx)
    (readable_of_canonical (hxs x hx))

/-- The expressions of a statement without a body. -/
theorem inner_of_mem_exprs (kind : StmtKind) (hexprs : ∀ x ∈ kind.exprs, x.Canonical)
    (hbare : ∀ x ∈ kind.exprs, Print.hasBareComposite x = true → 0 ≤ ctx.exprLevel)
    (hfits : Fits budget m ctx size nesting) (hsize : kind.spelling.length ≤ size)
    (hnesting : exprsNesting kind.exprs ≤ nesting) :
    (∀ x ∈ kind.exprs, Inner (Grammar.level budget (m + 1)) ctx x) ∧
      kind.exprs.length ≤ (Grammar.level budget (m + 1)).budget := by
  have hlength := kind.length_exprs_le
  have hturns := hfits.turns
  refine ⟨inner_of_mem hexprs hbare hfits (fun x hx => ?_) hnesting, ?_⟩
  · exact Nat.le_trans (StmtKind.length_le_of_mem_exprs hx) hsize
  · rw [budget_level]
    omega

/-- An expression of a header. -/
theorem Inner.ofHeader {x : Expr} (h : x.CanonicalHeader) (hfits : Fits budget m ctx size nesting)
    (hsize : x.spelling.length ≤ size) (hnesting : x.nesting ≤ nesting) :
    Inner (Grammar.level budget (m + 1)) ctx.inHeader x :=
  .of h.canonical (hfits.inHeader.part (k := 0) hsize hnesting)
    (fun hbare => absurd (h.bare.symm.trans hbare) Bool.false_ne_true)
    (readable_of_canonical h.canonical)

/-- What may be missing in a header is an expression inside if it is there. -/
theorem innerOpt_of {x : Option Expr} (h : ∀ y ∈ x, y.CanonicalHeader)
    (hfits : Fits budget m ctx size nesting) (hsize : ∀ y ∈ x, y.spelling.length ≤ size)
    (hnesting : optNesting x ≤ nesting) :
    ∀ y ∈ x, Inner (Grammar.level budget (m + 1)) ctx.inHeader y := by
  rintro y rfl
  exact .ofHeader (h y rfl) hfits (hsize y rfl) hnesting

/-- A statement of a header. -/
theorem innerClause_of {init : Option Stmt} (h : ∀ s ∈ init, s.CanonicalHeader)
    (hfits : Fits budget m ctx size nesting) (hsize : ∀ ks ∈ clauseSpelling init, ks.length ≤ size)
    (hnesting : clauseNesting init ≤ nesting) :
    ∀ s ∈ init, InnerClause (Grammar.level budget (m + 1)) ctx.inHeader s := by
  rintro s rfl
  obtain ⟨hdecs, hsimple, hexprs⟩ := h s rfl
  obtain ⟨hinner, hturns⟩ := inner_of_mem_exprs s.kind (fun x hx => (hexprs x hx).canonical)
    (fun x hx hbare => absurd ((hexprs x hx).bare.symm.trans hbare) Bool.false_ne_true)
    hfits.inHeader (hsize _ rfl) hnesting
  exact ⟨hdecs, hsimple, hinner, hturns⟩

end

/-! ## Bodies -/

/-- What a grammar makes of the script of a statement. A block or an `if` statement may also follow
an `else`. -/
structure ReadableStmt (g : Grammar) (ctx : Context) (kind : StmtKind) : Prop where
  stmt : Parses g.stmtHere kind.script kind ctx (· = .semicolon true)
  block : ∀ b, kind = .block b → InnerBlock g ctx b
  ifThen : ∀ init cond b otherwise, kind = .ifThen init cond b otherwise →
    Parses g.ifThenHere kind.script (init, cond, b, otherwise) ctx (· = .semicolon true)

/-- A statement that is read wherever there is room for it outside of headers. -/
def StmtReadableAnywhere (budget : Nat) (kind : StmtKind) : Prop :=
  ∀ {m : Nat} {ctx : Context}, Fits budget m ctx kind.script.size kind.nesting →
    0 ≤ ctx.exprLevel → ReadableStmt (Grammar.level budget (m + 1)) ctx kind

/-- Canonical statements line by line, which are read wherever there is room for them. -/
structure ReadableBody (budget : Nat) (ss : List Stmt) : Prop where
  lines : OwnLines (ss.map Stmt.decs)
  canonical : ∀ s ∈ ss, s.kind.Canonical
  readable : ∀ s ∈ ss, StmtReadableAnywhere budget s.kind

section

variable {budget m : Nat} {ctx : Context}

/-- Statements where there is room for all of them. -/
theorem innerStmt_of_mem {ss : List Stmt} (h : ReadableBody budget ss)
    (hfits : Fits budget m ctx (stmtsScript ss).size (stmtsNesting ss))
    (hlevel : 0 ≤ ctx.exprLevel) :
    ∀ s ∈ ss, InnerStmt (Grammar.level budget (m + 2)) ctx s := by
  intro s hs
  have hsize : s.kind.script.size ≤ (stmtsScript ss).size := by
    have hle := Script.size_le_flatMap (f := Stmt.script) hs
    rw [Stmt.script_eq, Script.size_append, Script.size_append] at hle
    rw [stmtsScript_eq]
    omega
  have hparses := h.readable s hs (hfits.part (k := 0) (by omega) (nesting_le_of_mem_stmts hs))
    hlevel
  exact ⟨h.lines.lines _ (List.mem_map_of_mem hs), startsStmt_script (h.canonical s hs),
    hparses.stmt⟩

/-- A body is at least as long as it has statements. -/
theorem length_stmts_le {ss : List Stmt} (h : ReadableBody budget ss) :
    ss.length ≤ (stmtsScript ss).size := by
  rw [stmtsScript_eq]
  refine Script.length_le_size_flatMap fun s hs => ?_
  obtain ⟨k, tail, hscript, -⟩ := startsStmt_script (h.canonical s hs)
  rw [Stmt.script_eq, hscript]
  simp [Script.size]

/-- A body where there is room for it. -/
theorem innerBlock_of {ss : List Stmt} (h : ReadableBody budget ss)
    (hfits : Fits budget m ctx (Block.of ss).script.size (Block.of ss).nesting)
    (hlevel : 0 ≤ ctx.exprLevel) :
    InnerBlock (Grammar.level budget (m + 1)) ctx (.of ss) := by
  have hsize : (Block.of ss).script.size = (stmtsScript ss).size + 2 := Script.size_braced _
  have hnesting : (Block.of ss).nesting = stmtsNesting ss + 1 := rfl
  have hlength := length_stmts_le h
  have hturns := hfits.turns
  have hdepth := hfits.depth
  obtain ⟨m, rfl⟩ := hfits.below (k := 1) (by omega)
  have hstmts := innerStmt_of_mem h (hfits.deeper (by omega) (by omega)) hlevel
  exact .block hstmts (by rw [budget_level]; omega) (by omega)

/-- The head of a clause with room is a head inside. -/
theorem innerHead_of {size nesting : Nat} {head : ClauseHead} (h : head.Canonical)
    (hlevel : 0 ≤ ctx.exprLevel) (hfits : Fits budget m ctx size nesting)
    (hsize : head.spelling.length ≤ size) (hnesting : head.nesting ≤ nesting) :
    InnerHead (Grammar.level budget (m + 1)) ctx head := by
  cases h with
  | default => trivial
  | @values xs hne hxs =>
    have hspelling : (ClauseHead.values xs).spelling.length =
        (separated (xs.map Expr.spelling)).length + 1 := rfl
    have hcard := length_exprs_le xs
    have hturns := hfits.turns
    refine ⟨hne, inner_of_mem hxs (fun _ _ _ => hlevel) hfits (fun x hx => ?_) hnesting, ?_⟩
    · have := length_le_of_mem_map hx
      omega
    · rw [budget_level]
      omega

/-- Clauses of a switch where there is room for all of them. -/
theorem innerCase_of_mem {cs : List Clause} (hclauses : OwnLines (cs.map Clause.decs))
    (hheads : ∀ c ∈ cs, c.head.Canonical) (hbodies : ∀ c ∈ cs, ReadableBody budget c.body)
    (hfits : Fits budget (m + 1) ctx ((clausesScript cs).size + 1) (clausesNesting cs))
    (hlevel : 0 ≤ ctx.exprLevel) :
    ∀ c ∈ cs, InnerCase (Grammar.level budget (m + 2)) ctx c := by
  intro c hc
  have hsize : c.head.spelling.length + (stmtsScript c.body).size < (clausesScript cs).size := by
    have hle := Script.size_le_flatMap (f := Clause.script) hc
    rw [clausesScript_eq]
    simp only [Clause.script, Script.size_append, Script.size_line, Script.size, List.length_append,
      List.length_singleton] at hle
    omega
  have hlength := length_stmts_le (hbodies c hc)
  have hturns := hfits.turns
  obtain ⟨hhead, hbody⟩ := nesting_le_of_mem_clauses hc
  have hstmts := innerStmt_of_mem (hbodies c hc) (hfits.part (by omega) hbody) hlevel
  exact ⟨hclauses.lines _ (List.mem_map_of_mem hc),
    innerHead_of (hheads c hc) hlevel hfits (by omega) hhead, hstmts, by rw [budget_level]; omega⟩

/-- Clauses are at least as long as there are of them. -/
theorem length_clauses_le (cs : List Clause) : cs.length ≤ (clausesScript cs).size := by
  rw [clausesScript_eq]
  refine Script.length_le_size_flatMap fun c hc => ?_
  simp only [Clause.script, Script.size_append, Script.size_line, List.length_append,
    List.length_singleton]
  omega

/-! ## Canonical statements -/

/-- A statement that is never behind an `else` is readable if it is parsed. -/
theorem ReadableStmt.ofStmt {g : Grammar} {kind : StmtKind}
    (hbranch : ∀ e : Else, e.branch? ≠ some kind)
    (h : Parses g.stmtHere kind.script kind ctx (· = .semicolon true)) : ReadableStmt g ctx kind :=
  ⟨h, fun b hb => absurd (congrArg some hb.symm) (hbranch (.block b)),
    fun init cond b e he => absurd (congrArg some he.symm) (hbranch (.elseIf init cond b e))⟩

/-- A canonical expression is no type guard. -/
theorem isTypeGuard_eq_false {x : Expr} (h : x.Canonical) : isTypeGuard x = false := by
  cases h <;> rfl

/-- What follows the body of an `if` statement, where there is room for it. -/
theorem otherwise_of {otherwise : Else}
    (hread : ∀ kind ∈ otherwise.branch?, StmtReadableAnywhere budget kind)
    (hfits : Fits budget (m + 1) ctx otherwise.script.size otherwise.nesting)
    (hlevel : 0 ≤ ctx.exprLevel) (rest : Script) (hrest : rest.first true = .semicolon true) :
    Yields (Grammar.level budget (m + 2)).otherwise
      (Script.view (otherwise.script ++ rest) true 0 ctx) otherwise (rest.view true 0 ctx) := by
  rw [Else.script_eq, Else.nesting_eq] at hfits
  -- an `if` statement behind `else` is read one level of the grammar down, a block on this level
  refine .otherwise ?_ ?_ hrest
  · rintro init cond b e rfl
    exact (hread _ rfl (hfits.part (Nat.le_refl _) (Nat.le_refl _)) hlevel).ifThen init cond b e rfl
  · rintro b rfl
    exact (hread _ rfl (hfits.part (k := 0) (Nat.le_succ _) (Nat.le_refl _)) hlevel).block b rfl

namespace StmtReadableAnywhere

variable {init : Option Stmt} {ss : List Stmt}

/-- An `if` with what follows it. -/
theorem ifThen {cond : Expr} {otherwise : Else} (hinit : ∀ s ∈ init, s.CanonicalHeader)
    (hcond : cond.CanonicalCondition) (hbody : ReadableBody budget ss)
    (helse : ∀ kind ∈ otherwise.branch?, StmtReadableAnywhere budget kind) :
    StmtReadableAnywhere budget (.ifThen init cond (.of ss) otherwise) := by
  intro m ctx hfits hlevel
  have hsize : (StmtKind.ifThen init cond (.of ss) otherwise).script.size =
      (headerSpelling false (clauseSpelling init) (some cond.spelling) none).length +
        (Block.of ss).script.size + otherwise.script.size + 1 := by
    simp [StmtKind.script, Script.size]
    omega
  have hnesting : (StmtKind.ifThen init cond (.of ss) otherwise).nesting =
      max (max (clauseNesting init) cond.nesting)
        (max (Block.of ss).nesting otherwise.nesting) := rfl
  have hblock : (Block.of ss).script.size = (stmtsScript ss).size + 2 := Script.size_braced _
  obtain ⟨hisize, hcsize, -⟩ := length_le_header false (clauseSpelling init) (some cond.spelling)
    none
  have hturns := hfits.turns
  obtain ⟨m, rfl⟩ := hfits.below (k := 1) (by omega)
  -- every part of the statement is smaller than the statement by at least one token
  have hi := innerClause_of hinit hfits (fun ks hks => by have := hisize ks hks; omega) (by omega)
  have hc := Inner.ofHeader hcond.toCanonicalHeader hfits (by have := hcsize _ rfl; omega)
    (by omega)
  have hb := innerBlock_of hbody (hfits.part (k := 0) (by omega) (by omega)) hlevel
  have he := otherwise_of helse (hfits.part (k := 0) (by omega) (by omega)) hlevel
  have hthen := Parses.ifThenHere (by rw [budget_level]; omega) hi hb hc he
  refine ⟨fun semi gap rest hrest => ?_, by rintro _ ⟨⟩, ?_⟩
  · exact .peekToken (.bind (hthen semi gap rest hrest) .pure)
  · rintro _ _ _ _ ⟨⟩
    exact hthen

/-- A loop with clauses, any of which may be missing. -/
theorem forLoop {cond : Option Expr} {post : Option Stmt} (hinit : ∀ s ∈ init, s.CanonicalHeader)
    (hcond : ∀ x ∈ cond, x.CanonicalCondition) (hpost : ∀ s ∈ post, s.CanonicalHeader)
    (hbody : ReadableBody budget ss) :
    StmtReadableAnywhere budget (.forLoop init cond post (.of ss)) := by
  intro m ctx hfits hlevel
  have hsize : (StmtKind.forLoop init cond post (.of ss)).script.size =
      (headerSpelling true (clauseSpelling init) (cond.map Expr.spelling)
        (clauseSpelling post)).length + (Block.of ss).script.size + 1 := by
    simp [StmtKind.script, Script.size, Nat.add_right_comm]
  have hnesting : (StmtKind.forLoop init cond post (.of ss)).nesting =
      max (max (clauseNesting init) (max (optNesting cond) (clauseNesting post)))
        (Block.of ss).nesting := rfl
  obtain ⟨hisize, hcsize, hpsize⟩ := length_le_header true (clauseSpelling init)
    (cond.map Expr.spelling) (clauseSpelling post)
  have hturns := hfits.turns
  have hi := innerClause_of hinit hfits (fun ks hks => by have := hisize ks hks; omega) (by omega)
  have hp := innerClause_of hpost hfits (fun ks hks => by have := hpsize rfl ks hks; omega)
    (by omega)
  have hc := innerOpt_of (fun x hx => (hcond x hx).toCanonicalHeader) hfits
    (fun x hx => by have := hcsize _ (Option.mem_map_of_mem _ hx); omega) (by omega)
  have hb := innerBlock_of hbody (hfits.part (k := 0) (by omega) (by omega)) hlevel
  have hloop := Parses.forLoop (by rw [budget_level]; omega) hi hb hc hp
  exact .ofStmt (by rintro ⟨⟩ ⟨⟩) fun semi gap rest _ =>
    .peekToken (hloop semi gap rest trivial)

/-- A loop over a range, with variables or without. -/
theorem rangeLoop {key value : Option Expr} {define : Bool} {x : Expr}
    (hkey : ∀ y ∈ key, y.CanonicalHeader) (hvalue : ∀ y ∈ value, y.CanonicalHeader)
    (hvars : value.isSome = true → key.isSome = true)
    (hdefine : define = true → key.isSome = true) (hx : x.CanonicalCondition)
    (hbody : ReadableBody budget ss) :
    StmtReadableAnywhere budget (.rangeLoop key value define x (.of ss)) := by
  intro m ctx hfits hlevel
  have hsize : (StmtKind.rangeLoop key value define x (.of ss)).script.size =
      (varsSpelling key value define).length + x.spelling.length + (Block.of ss).script.size + 2 := by
    simp [StmtKind.script, Script.size]
    omega
  have hnesting : (StmtKind.rangeLoop key value define x (.of ss)).nesting =
      max (max (optNesting key) (max (optNesting value) x.nesting)) (Block.of ss).nesting := rfl
  have hblock : (Block.of ss).script.size = (stmtsScript ss).size + 2 := Script.size_braced _
  have hvsize := length_le_vars key value define
  have hturns := hfits.turns
  have hk := innerOpt_of hkey hfits (fun y hy => by have := hvsize y (.inl hy); omega) (by omega)
  have hv := innerOpt_of hvalue hfits (fun y hy => by have := hvsize y (.inr hy); omega) (by omega)
  have hr := Inner.ofHeader hx.toCanonicalHeader hfits (by omega) (by omega)
  have hb := innerBlock_of hbody (hfits.part (k := 0) (by omega) (by omega)) hlevel
  have hloop := Parses.rangeLoop hb hk hv hvars hdefine hr (by rw [budget_level]; omega)
  exact .ofStmt (by rintro ⟨⟩ ⟨⟩) fun semi gap rest _ =>
    .peekToken (hloop semi gap rest trivial)

/-- A switch whose clauses stand on lines of their own. -/
theorem switch {tag : Option Expr} {cs : List Clause} (hinit : ∀ s ∈ init, s.CanonicalHeader)
    (htag : ∀ x ∈ tag, x.CanonicalCondition) (hclauses : OwnLines (cs.map Clause.decs))
    (hheads : ∀ c ∈ cs, c.head.Canonical) (hbodies : ∀ c ∈ cs, ReadableBody budget c.body) :
    StmtReadableAnywhere budget (.switch init tag cs .multiLine) := by
  intro m ctx hfits hlevel
  have hsize : (StmtKind.switch init tag cs .multiLine).script.size =
      (headerSpelling false (clauseSpelling init) (tag.map Expr.spelling) none).length +
        (clausesScript cs).size + 3 := by
    simp [StmtKind.script, Script.size]
    omega
  have hnesting : (StmtKind.switch init tag cs .multiLine).nesting =
      max (max (clauseNesting init) (optNesting tag)) (clausesNesting cs) := rfl
  obtain ⟨hisize, htsize, -⟩ := length_le_header false (clauseSpelling init)
    (tag.map Expr.spelling) none
  have hlength := length_clauses_le cs
  have hturns := hfits.turns
  obtain ⟨m, rfl⟩ := hfits.below (k := 1) (by omega)
  have hi := innerClause_of hinit hfits (fun ks hks => by have := hisize ks hks; omega) (by omega)
  have ht := innerOpt_of (fun x hx => (htag x hx).toCanonicalHeader) hfits
    (fun x hx => by have := htsize _ (Option.mem_map_of_mem _ hx); omega) (by omega)
  have hcs := innerCase_of_mem hclauses hheads hbodies
    (hfits.part (k := 0) (by omega) (by omega)) hlevel
  have hswitch := Parses.switch (by rw [budget_level]; omega) hi ht
    (fun x hx => isTypeGuard_eq_false (htag x hx).canonical) hcs (by rw [budget_level]; omega)
  exact .ofStmt (by rintro ⟨⟩ ⟨⟩) fun semi gap rest _ =>
    .peekToken (hswitch semi gap rest trivial)

/-- A label on the line above its statement. -/
theorem labeled {label : String} {s : Stmt} (hlabel : isName label = true)
    (hdecs : s.decs = .ownLine) (hs : s.kind.Canonical) (h : StmtReadableAnywhere budget s.kind) :
    StmtReadableAnywhere budget (.labeled label s) := by
  intro m ctx hfits hlevel
  have hsize : (StmtKind.labeled label s).script.size = s.kind.script.size + 2 := by
    cases s
    simp [StmtKind.script, Script.size]
  have hnesting : (StmtKind.labeled label s).nesting = max 1 s.kind.nesting := by
    cases s
    rfl
  have hone : (Expr.ident label).spelling.length = 1 ∧ (Expr.ident label).nesting = 1 := ⟨rfl, rfl⟩
  have hown : s.decs = .onLine s.decs.blankBefore := by
    rw [hdecs]
    rfl
  have hturns := hfits.turns
  obtain ⟨m, rfl⟩ := hfits.below (k := 1) (by omega)
  have hident := Inner.of (.ident hlabel) (hfits.part (k := 0) (by omega) (by omega))
    (fun _ => hlevel) (readable_of_canonical (.ident hlabel))
  have hstmt := h (hfits.part (k := 1) (by omega) (by omega)) hlevel
  exact .ofStmt (by rintro ⟨⟩ ⟨⟩) (.labeled hident (by rw [budget_level]; omega) hdecs
    ⟨hown, startsStmt_script hs, hstmt.stmt⟩)

end StmtReadableAnywhere

/-- A canonical statement is read as that statement. -/
theorem readable_of_canonicalStmt {kind : StmtKind} (h : kind.Canonical) :
    StmtReadableAnywhere budget kind := by
  induction h with
  | @simple kind hkind hexprs =>
    intro m ctx hfits hlevel
    have hscript := script_of_simple hkind
    have hnesting : kind.nesting = exprsNesting kind.exprs := by
      cases hkind <;> rfl
    obtain ⟨hinner, hturns⟩ := inner_of_mem_exprs kind hexprs (fun _ _ _ => hlevel) hfits
      (by simp [hscript]) (Nat.le_of_eq hnesting.symm)
    refine .ofStmt (by cases hkind <;> rintro ⟨⟩ ⟨⟩) ?_
    rw [hscript]
    exact .onOneLine hkind hinner hturns
  | @returns values hvalues =>
    intro m ctx hfits hlevel
    obtain ⟨hinner, hturns⟩ := inner_of_mem_exprs (.returns values) hvalues
      (fun _ _ _ => hlevel) hfits (by simp [StmtKind.script]) (Nat.le_refl _)
    exact .ofStmt (by rintro ⟨⟩ ⟨⟩) (.returns hinner hturns)
  | branch hallows hlabel =>
    intro m ctx hfits hlevel
    exact .ofStmt (by rintro ⟨⟩ ⟨⟩) (.branch hallows)
  | @go call hcall =>
    intro m ctx hfits hlevel
    obtain ⟨hinner, -⟩ := inner_of_mem_exprs (.go call) (List.forall_mem_singleton.mpr hcall)
      (fun _ _ _ => hlevel) hfits (by simp [StmtKind.script]) (Nat.le_refl _)
    exact .ofStmt (by rintro ⟨⟩ ⟨⟩) (.go (List.forall_mem_singleton.mp hinner))
  | @defer call hcall =>
    intro m ctx hfits hlevel
    obtain ⟨hinner, -⟩ := inner_of_mem_exprs (.defer call)
      (List.forall_mem_singleton.mpr hcall) (fun _ _ _ => hlevel) hfits (by simp [StmtKind.script])
      (Nat.le_refl _)
    exact .ofStmt (by rintro ⟨⟩ ⟨⟩) (.defer (List.forall_mem_singleton.mp hinner))
  | @block ss hlines hss ih =>
    intro m ctx hfits hlevel
    have hblock := innerBlock_of ⟨hlines, hss, ih⟩ hfits hlevel
    refine ⟨fun semi gap rest hrest => ?_, ?_, by rintro _ _ _ _ ⟨⟩⟩
    · exact .peekToken (.bind (hblock semi gap rest trivial) .pure)
    · rintro _ ⟨⟩
      exact hblock
  | ifThen hinit hcond hlines hss _ ih ihelse =>
    exact StmtReadableAnywhere.ifThen hinit hcond ⟨hlines, hss, ih⟩ ihelse
  | forLoop hinit hcond hpost hlines hss ih =>
    exact StmtReadableAnywhere.forLoop hinit hcond hpost ⟨hlines, hss, ih⟩
  | rangeLoop hkey hvalue hvars hdefine hx hlines hss ih =>
    exact StmtReadableAnywhere.rangeLoop hkey hvalue hvars hdefine hx ⟨hlines, hss, ih⟩
  | switch hinit htag hclauses hheads hlines hss ih =>
    exact StmtReadableAnywhere.switch hinit htag hclauses hheads fun c hc =>
      ⟨hlines c hc, hss c hc, ih c hc⟩
  | labeled hlabel hdecs hs ih => exact StmtReadableAnywhere.labeled hlabel hdecs hs ih

end

end Parse

end HandlerSplit
