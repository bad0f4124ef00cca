import HandlerSplit.Proofs.Parse.Canonical.Block
import HandlerSplit.Proofs.Parse.Canonical.Header
/-!
# Reading control statements

Labels, the clauses of a switch, and the statements that hold blocks, where what they hold is read.
Each is read up to the semicolon that the line break behind it inserts.
-/

namespace HandlerSplit.Parse

open Script (line)

variable {β : Type} {g : Grammar} {ctx : Context} {rest : Script}

/-! ## Clauses of a switch -/

/-- What a clause of a switch is chosen by, of which the expressions are read. -/
def InnerHead (g : Grammar) (ctx : Context) : ClauseHead → Prop
  | .default => True
  | .values xs => xs ≠ [] ∧ (∀ x ∈ xs, Inner g ctx x) ∧ xs.length ≤ g.budget
  | .comm _ => False

/-- A clause of a switch whose statements are read. -/
structure InnerCase (g : Grammar) (ctx : Context) (c : Clause) : Prop where
  decs : c.decs = .onLine c.decs.blankBefore
  head : InnerHead g ctx c.head
  body : ∀ s ∈ c.body, InnerStmt g ctx s
  turns : c.body.length < g.budget

/-- Clauses line by line, up to the closing brace. -/
theorem Yields.cases {turn : Parser (Turn Clause)} {cs : List Clause}
    (h : ∀ c ∈ cs, InnerCase g ctx c) {n : Nat} (hn : cs.length < n)
    (hstop : Yields turn (Script.view (.token (.punct .rbrace) :: rest) false 1 ctx) .stop
      (Script.view (.token (.punct .rbrace) :: rest) false 1 ctx))
    (hturn : ∀ c ∈ cs, ∀ s, endsStmts (Script.first false s) = true →
      Yields turn (Script.view (c.script ++ s) false 1 ctx) (.more c) (s.view false 1 ctx)) :
    Yields (entries turn n)
      (Script.view (clausesScript cs ++ .token (.punct .rbrace) :: rest) false 1 ctx) cs
      (Script.view (.token (.punct .rbrace) :: rest) false 1 ctx) := by
  rw [clausesScript_eq]
  refine .lines (endsStmts · = true) hn hstop rfl (fun c hc s => ?_) hturn
  have hhead := (h c hc).head
  obtain ⟨head, body, d⟩ := c
  cases hblank : d.blankBefore <;> cases head with
  | comm => exact hhead.elim
  | _ => simp [Clause.script, Script.gap, hblank, ClauseHead.spelling, Script.first, endsStmts]

/-- The clauses of a switch in their braces. The brace that opens them is kept for errors. -/
theorem Yields.clauses (phrase : Opened) {cs : List Clause} (h : ∀ c ∈ cs, InnerCase g ctx c)
    (hn : cs.length < g.budget) {k : Span × List Clause × Enclosure → Parser β} {b : β} {v : View}
    (hk : ∀ opening, Yields (k (opening, cs, .multiLine)) (rest.view true 0 ctx) b v) (semi : Bool)
    (gap : Nat) :
    Yields (g.clauses phrase (do return .values (← g.exprs)) >>= k)
      (Script.view (Script.braced (clausesScript cs) ++ rest) semi gap ctx) b v := by
  have hscript : Script.braced (clausesScript cs) ++ rest = .token (.punct .lbrace) :: .lineBreak ::
      (clausesScript cs ++ .token (.punct .rbrace) :: rest) := by
    simp [Script.braced]
  rw [hscript, Grammar.clauses]
  simp only [bind_assoc, pure_bind]
  refine .peek fun opening => .expectPunct (.claimTrailing (.bind (.cases h hn ?_ ?_)
    (.closeEnclosure (.expectPunct (hk opening.span)))))
  · exact .peekToken .pure
  · intro c hc s hs
    obtain ⟨hdecs, hhead, hbody, hturns⟩ := h c hc
    obtain ⟨head, body, d⟩ := c
    obtain ⟨isBlank, rfl⟩ : ∃ isBlank, d = .onLine isBlank := ⟨_, hdecs⟩
    have hstmts := Yields.stmts hbody hturns hs
    rw [Clause.script, List.append_assoc, view_gap, List.append_assoc, List.cons_append]
    cases head with
    | default =>
      exact .peekToken (.onLine (.bind (.next .pure) (.expectPunct (.claimTrailing
        (.bind hstmts .pure)))))
    | values xs =>
      obtain ⟨hne, hxs, hlength⟩ := hhead
      have hexprs := Parses.exprs hne hxs hlength false 0
        (.token (.punct .colon) :: .lineBreak :: (stmtsScript body ++ s)) ⟨rfl, by rintro ⟨⟩⟩
      simp only [ClauseHead.spelling, Script.line_append, Script.line_cons, Script.line_nil,
        List.append_assoc, List.cons_append, List.nil_append]
      exact .peekToken (.onLine (.bind (.next (.bind hexprs .pure)) (.expectPunct (.claimTrailing
        (.bind hstmts .pure)))))
    | comm => exact hhead.elim

/-! ## Bodies -/

/-- A block that is read wherever it stands. -/
abbrev InnerBlock (g : Grammar) (ctx : Context) (b : Block) : Prop :=
  Parses g.nestedBlock b.script b ctx fun _ => True

/-- A body starts with its brace. -/
theorem Yields.body {b : Block} (hb : InnerBlock g ctx b) (semi : Bool) (rest : Script) :
    ∃ s, b.script ++ rest = .token (.punct .lbrace) :: s ∧
      Yields g.nestedBlock (Script.view (.token (.punct .lbrace) :: s) semi 0 ctx) b
        (rest.view true 0 ctx) := by
  have hread := hb semi 0 rest trivial
  obtain ⟨ss, braces, oneLine⟩ := b
  exact ⟨_, rfl, hread⟩

/-! ## Control statements -/

theorem level_inHeader (ctx : Context) : ctx.inHeader.exprLevel < 0 :=
  Int.negSucc_lt_zero 0

section

variable {init : Option Stmt} {b : Block} (hn : 0 < g.budget)
  (hinit : ∀ s ∈ init, InnerClause g ctx.inHeader s) (hb : InnerBlock g ctx b)

include hn hinit hb

/-- An `if` statement. -/
theorem Parses.ifThenHere {cond : Expr} {otherwise : Else} (hcond : Inner g ctx.inHeader cond)
    (helse : ∀ rest : Script, rest.first true = .semicolon true →
      Yields g.otherwise (Script.view (otherwise.script ++ rest) true 0 ctx) otherwise
        (rest.view true 0 ctx)) :
    Parses g.ifThenHere (StmtKind.ifThen init cond b otherwise).script (init, cond, b, otherwise) ctx
      (· = .semicolon true) := by
  intro semi gap rest hrest
  have htail := helse rest hrest
  obtain ⟨s, hs, hbody⟩ := Yields.body hb true (otherwise.script ++ rest)
  have hheader := Yields.ifHeader s (level_inHeader ctx) hn hinit hcond
  simp only [StmtKind.script, Script.line_cons, List.append_assoc, List.cons_append,
    List.nil_append, hs]
  exact .expectKeyword (.bind (.inHeader hheader) (.bind hbody (.bind htail .pure)))

/-- A loop with clauses. -/
theorem Parses.forLoop {cond : Option Expr} {post : Option Stmt}
    (hcond : ∀ x ∈ cond, Inner g ctx.inHeader x)
    (hpost : ∀ s ∈ post, InnerClause g ctx.inHeader s) :
    Parses g.loop (StmtKind.forLoop init cond post b).script (.forLoop init cond post b) ctx
      fun _ => True := by
  intro semi gap rest _
  obtain ⟨s, hs, hbody⟩ := Yields.body hb true rest
  have hheader := Yields.loopHeader s (level_inHeader ctx) hn hinit hcond hpost
  simp only [StmtKind.script, Script.line_cons, List.append_assoc, List.cons_append,
    List.nil_append, hs]
  exact .expectKeyword (.bind (.inHeader hheader) (.bind hbody .pure))

end

/-- A loop over a range. -/
theorem Parses.rangeLoop {b : Block} (hb : InnerBlock g ctx b) {key value : Option Expr}
    (hkey : ∀ y ∈ key, Inner g ctx.inHeader y) (hvalue : ∀ y ∈ value, Inner g ctx.inHeader y)
    (hvars : value.isSome = true → key.isSome = true) {define : Bool}
    (hdefine : define = true → key.isSome = true) {x : Expr} (hx : Inner g ctx.inHeader x)
    (hbudget : 2 ≤ g.budget) :
    Parses g.loop (StmtKind.rangeLoop key value define x b).script (.rangeLoop key value define x b)
      ctx fun _ => True := by
  intro semi gap rest _
  obtain ⟨s, hs, hbody⟩ := Yields.body hb true rest
  have hheader := Yields.rangeHeader s (level_inHeader ctx) hkey hvalue hvars hdefine hx hbudget
  rw [StmtKind.script, List.append_assoc, hs, List.append_assoc, List.append_assoc,
    Script.line_append, List.append_assoc, ← List.append_assoc (varsSpelling key value define)]
  exact .expectKeyword (.bind (.inHeader hheader) (.bind hbody .pure))

/-- A switch on values. -/
theorem Parses.switch (hn : 0 < g.budget) {init : Option Stmt} {tag : Option Expr}
    {cs : List Clause} (hinit : ∀ s ∈ init, InnerClause g ctx.inHeader s)
    (htag : ∀ x ∈ tag, Inner g ctx.inHeader x)
    (hguard : ∀ x ∈ tag, isTypeGuard x = false) (hcs : ∀ c ∈ cs, InnerCase g ctx c)
    (hturns : cs.length < g.budget) :
    Parses g.switch (StmtKind.switch init tag cs .multiLine).script (.switch init tag cs .multiLine)
      ctx fun _ => True := by
  intro semi gap rest _
  obtain ⟨s, hs⟩ : ∃ s, Script.braced (clausesScript cs) ++ rest = .token (.punct .lbrace) :: s :=
    ⟨_, rfl⟩
  have hheader := Yields.switchHeader s (level_inHeader ctx) hn hinit htag
  have hclauses {k : Span × List Clause × Enclosure → Parser StmtKind} {kind : StmtKind} {v : View}
      (hk : ∀ opening, Yields (k (opening, cs, .multiLine)) (rest.view true 0 ctx) kind v) :=
    Yields.clauses .switch hcs hturns hk true 0
  rw [hs] at hclauses
  rw [StmtKind.script, List.append_assoc, hs, Script.line_append, List.append_assoc]
  refine .expectKeyword (.bind (.inHeader hheader) (hclauses fun opening => ?_))
  cases tag with
  | none => exact .pure
  | some x =>
    show Yields (if isTypeGuard x = true then _ else _) _ _ _
    rw [hguard x rfl, if_neg Bool.false_ne_true]
    exact .pure

/-- What follows the body of an `if` statement. -/
theorem Yields.otherwise {e : Else}
    (hif : ∀ init cond b e', e = .elseIf init cond b e' →
      Parses g.ifThen (StmtKind.ifThen init cond b e').script (init, cond, b, e') ctx
        (· = .semicolon true))
    (hblock : ∀ b, e = .block b → InnerBlock g ctx b) (hrest : rest.first true = .semicolon true) :
    Yields g.otherwise (Script.view (e.script ++ rest) true 0 ctx) e (rest.view true 0 ctx) := by
  cases e with
  | none =>
    have hend : rest.first true ≠ .keyword .else := by
      rw [hrest]
      exact TokenKind.noConfusion
    exact .atNe hend .pure
  | elseIf init cond b e =>
    have hread := hif init cond b e rfl false 0 rest hrest
    exact .atTrue rfl (.next (.peekKind (.bind hread .pure)))
  | block b =>
    obtain ⟨s, hs, hbody⟩ := Yields.body (hblock b rfl) false rest
    rw [Else.script, List.cons_append, hs]
    exact .atTrue rfl (.next (.peekKind (.bind hbody .pure)))

/-! ## Statements -/

/-- Before the semicolon that ends a statement. -/
theorem Yields.peekEnd (hrest : rest.first true = .semicolon true) {k : TokenKind → Parser β}
    {gap : Nat} {b : β} {v : View} (h : Yields (k (.semicolon true)) (rest.view true gap ctx) b v) :
    Yields (Parse.peekKind >>= k) (rest.view true gap ctx) b v :=
  .peekKind (hrest ▸ h)

/-- A statement that starts with an expression. -/
theorem Yields.exprFirst {k : TokenKind} (hk : startsExpr k = true) {kind : StmtKind} {s : Script}
    {semi : Bool} {gap : Nat} {v : View}
    (h : Yields (g.simple false true) (Script.view (.token k :: s) semi gap ctx) (.plain kind) v) :
    Yields g.stmtHere (Script.view (.token k :: s) semi gap ctx) kind v := by
  refine .peekToken ?_
  cases k with
  | keyword => cases hk
  | punct mark =>
    cases mark with
    | lbrace => cases hk
    | _ => exact .bind h .pure
  | _ => exact .bind h .pure

/-- A label with its statement. -/
theorem Parses.labeled {label : String} (hlabel : Inner g ctx (.ident label)) (hn : 0 < g.budget)
    {s : Stmt} (hdecs : s.decs = .ownLine) (h : InnerStmt g ctx s) :
    Parses g.stmtHere (StmtKind.labeled label s).script (.labeled label s) ctx
      (· = .semicolon true) := by
  intro semi gap rest hrest
  obtain ⟨-, ⟨k, tail, hscript, hk⟩, hparses⟩ := h
  obtain ⟨kind, d⟩ := s
  obtain rfl : d = .ownLine := hdecs
  have hread := hparses false 1 rest hrest
  have hlabeled : Yields (g.labeled label) (Script.view (kind.script ++ rest) false 1 ctx)
      (.labeled label ⟨kind, .ownLine⟩) (rest.view true 0 ctx) := by
    rw [hscript] at hread ⊢
    refine .peekToken ?_
    split
    · cases hk
    · cases hk
    · exact .startDecorations (.bind hread .pure)
  have hafter : Yields (g.afterExpr true (.ident label))
      (Script.view (.token (.punct .colon) :: .lineBreak :: (kind.script ++ rest)) true 0 ctx)
      (.plain (.labeled label ⟨kind, .ownLine⟩)) (rest.view true 0 ctx) :=
    .atTrue rfl (.next (.bind hlabeled .pure))
  refine .exprFirst rfl (.simpleOf rfl (.exprsStmt hlabel hn false true ?_ rfl hafter semi gap))
  exact ⟨rfl, nofun⟩

/-- A statement that stays on one line. -/
theorem Parses.onOneLine {kind : StmtKind} (hkind : kind.Simple)
    (h : ∀ x ∈ kind.exprs, Inner g ctx x) (hn : kind.exprs.length ≤ g.budget) :
    Parses g.stmtHere (line kind.spelling) kind ctx (· = .semicolon true) := by
  intro semi gap rest hrest
  have hread := Parses.simple hkind h hn false true semi gap rest (by rw [hrest]; rfl)
  obtain ⟨k, ks, hks, hk⟩ := startsExpr_simple hkind fun x hx => (h x hx).starts
  rw [hks] at hread ⊢
  exact .exprFirst hk hread

/-- A `return` statement. -/
theorem Parses.returns {values : List Expr} (h : ∀ x ∈ values, Inner g ctx x)
    (hn : values.length ≤ g.budget) :
    Parses g.stmtHere (line (StmtKind.returns values).spelling) (.returns values) ctx
      (· = .semicolon true) := by
  intro semi gap rest hrest
  cases values with
  | nil => exact .peekToken (.next (.peekEnd hrest .pure))
  | cons x xs =>
    have hread := Parses.exprs (List.cons_ne_nil x xs) h hn true 0 rest
      (hrest ▸ ⟨rfl, TokenKind.noConfusion⟩)
    obtain ⟨k, ks, hks, hk⟩ := (h x List.mem_cons_self).starts
    rw [StmtKind.spelling, Script.line_append, List.append_assoc]
    rw [separated_cons, hks] at hread ⊢
    refine .peekToken (.next (.peekToken ?_))
    split
    · cases hk
    · cases hk
    · exact .bind hread .pure

/-- A branch statement. -/
theorem Parses.branch {kind : BranchKind} {label : Option String}
    (hallows : BranchKind.allows kind label = true) :
    Parses g.stmtHere (line (StmtKind.branch kind label).spelling) (.branch kind label) ctx
      (· = .semicolon true) := by
  intro semi gap rest hrest
  have hlabel (semi : Bool) (hsemi : label = none → semi = true) : Yields Grammar.branchLabel
      (Script.view (line (label.toList.map .ident) ++ rest) semi 0 ctx) label
      (rest.view true 0 ctx) := by
    cases label with
    | none =>
      obtain rfl := hsemi rfl
      exact .peekEnd hrest .pure
    | some l => exact .peekToken (.next .pure)
  cases kind with
  | «break» => exact .peekToken (.next (.bind (hlabel _ fun _ => rfl) .pure))
  | «continue» => exact .peekToken (.next (.bind (hlabel _ fun _ => rfl) .pure))
  | goto =>
    cases label with
    | none => cases hallows
    | some l => exact .peekToken (.next (.bind (hlabel _ nofun) .pure))
  | «fallthrough» =>
    cases label with
    | none => exact .peekToken (.next .pure)
    | some l => cases hallows

/-- A `go` statement. -/
theorem Parses.go {call : Expr} (h : Inner g ctx call) :
    Parses g.stmtHere (line (StmtKind.go call).spelling) (.go call) ctx (· = .semicolon true) := by
  intro semi gap rest hrest
  have hread := h.parses false 0 rest (hrest ▸ rfl)
  exact .peekToken (.next (.bind hread .pure))

/-- A `defer` statement. -/
theorem Parses.defer {call : Expr} (h : Inner g ctx call) :
    Parses g.stmtHere (line (StmtKind.defer call).spelling) (.defer call) ctx
      (· = .semicolon true) := by
  intro semi gap rest hrest
  have hread := h.parses false 0 rest (hrest ▸ rfl)
  exact .peekToken (.next (.bind hread .pure))

end HandlerSplit.Parse
