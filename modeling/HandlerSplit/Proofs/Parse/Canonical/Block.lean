import HandlerSplit.Parse.Stmt
import HandlerSplit.Proofs.Parse.View
import HandlerSplit.Proofs.Tree.CanonicalFile
/-!
# Reading line by line

Statements, clauses and declarations that stand line by line are read one after the other, with the
empty lines before them (`Yields.lines`). A block of such statements is one of several lines
(`Parses.block`).
-/

namespace HandlerSplit.Parse

variable {α β : Type} {g : Grammar} {ctx : Context} {rest : Script}

/-! ## Lines -/

/-- How many lines a node starts below the one before it. -/
def linesDown (isBlank : Bool) : Nat :=
  if isBlank then 2 else 1

/-- A line of a script starts one line down, or two behind an empty line. -/
theorem view_gap (isBlank : Bool) (s : Script) :
    Script.view (Script.gap isBlank ++ s) false 1 ctx = s.view false (linesDown isBlank) ctx := by
  cases isBlank <;> rfl

/-- The layout of a node on a line of its own. -/
theorem Yields.onLine {kind : TokenKind} {s : Script} {semi isBlank : Bool}
    {k : Decorations → Parser β} {b : β} {v : View}
    (h : Yields (k (.onLine isBlank)) (Script.view (.token kind :: s) semi (linesDown isBlank) ctx)
      b v) :
    Yields (Parse.startDecorations >>= k)
      (Script.view (.token kind :: s) semi (linesDown isBlank) ctx) b v := by
  refine .startDecorations ?_
  cases isBlank <;> exact h

/-- Nodes line by line. A turn reads a node and goes on to the next line, if what follows there is
as `F` says. -/
theorem Yields.lines {turn : Parser (Turn α)} {script : α → Script} (F : TokenKind → Prop)
    {as : List α} {n : Nat} (hn : as.length < n)
    (hstop : Yields turn (rest.view false 1 ctx) .stop (rest.view false 1 ctx))
    (hrest : F (rest.first false)) (hfirst : ∀ a ∈ as, ∀ s, F (Script.first false (script a ++ s)))
    (hturn : ∀ a ∈ as, ∀ s, F (Script.first false s) →
      Yields turn (Script.view (script a ++ s) false 1 ctx) (.more a) (Script.view s false 1 ctx)) :
    Yields (entries turn n) (Script.view (as.flatMap script ++ rest) false 1 ctx) as
      (rest.view false 1 ctx) := by
  obtain ⟨n, rfl⟩ := Nat.exists_eq_succ_of_ne_zero (Nat.ne_of_gt (Nat.zero_lt_of_lt hn))
  induction as generalizing n with
  | nil => exact .stop hstop
  | cons a as ih =>
    obtain ⟨-, hfirsts⟩ := List.forall_mem_cons.mp hfirst
    obtain ⟨ha, has⟩ := List.forall_mem_cons.mp hturn
    obtain ⟨n, rfl⟩ := Nat.exists_eq_succ_of_ne_zero
      (Nat.ne_of_gt (Nat.zero_lt_of_lt (Nat.lt_of_succ_lt_succ hn)))
    have hnext : F (Script.first false (as.flatMap script ++ rest)) := by
      cases as with
      | nil => exact hrest
      | cons b bs =>
        rw [List.flatMap_cons, List.append_assoc]
        exact hfirsts b List.mem_cons_self _
    rw [List.flatMap_cons, List.append_assoc]
    exact .more (ha _ hnext) (ih hfirsts has n (Nat.lt_of_succ_lt_succ hn))

/-! ## Statements -/

/-- The tokens a statement starts with. -/
def startsStmt (k : TokenKind) : Bool :=
  !endsStmts k && !k.isSemicolon

/-- A statement on lines of its own, which is read up to the end of its last line. -/
structure InnerStmt (g : Grammar) (ctx : Context) (s : Stmt) : Prop where
  decs : s.decs = .onLine s.decs.blankBefore
  starts : ∃ k tail, s.kind.script = .token k :: tail ∧ startsStmt k = true
  parses : Parses g.stmt s.kind.script s.kind ctx (· = .semicolon true)

/-- Statements up to a closing brace or the next clause. -/
theorem Yields.stmts {ss : List Stmt} (h : ∀ s ∈ ss, InnerStmt g ctx s) (hn : ss.length < g.budget)
    (hrest : endsStmts (rest.first false) = true) :
    Yields g.stmts (Script.view (stmtsScript ss ++ rest) false 1 ctx) ss (rest.view false 1 ctx) := by
  rw [stmtsScript_eq]
  refine .lines (fun _ => True) hn ?_ trivial (fun _ _ _ => trivial) fun s hs rest' _ => ?_
  · refine .peekKind ?_
    rw [if_pos hrest]
    exact .pure
  · obtain ⟨hdecs, ⟨k, tail, hscript, hk⟩, hparses⟩ := h s hs
    obtain ⟨kind, d⟩ := s
    obtain ⟨hends, hsemicolon⟩ : endsStmts k = false ∧ k.isSemicolon = false := by
      rwa [startsStmt, Bool.and_eq_true, Bool.not_eq_true', Bool.not_eq_true'] at hk
    have hread := hparses false (linesDown d.blankBefore) (.lineBreak :: rest') rfl
    rw [Stmt.script_eq, List.append_assoc, view_gap, List.append_assoc]
    rw [hscript] at hread ⊢
    refine .peekToken ?_
    rw [hends, hsemicolon, if_neg Bool.false_ne_true, if_neg Bool.false_ne_true]
    have hstmt : (⟨kind, .onLine d.blankBefore⟩ : Stmt) = ⟨kind, d⟩ := congrArg (Stmt.mk kind) hdecs.symm
    rw [← hstmt]
    exact .onLine (.bind hread (.peekKind (.expectTerminator (.claimTrailing .pure))))

/-! ## Blocks -/

/-- As `Yields`, where the last token ended on line `line` or below. -/
def YieldsFrom (line : Nat) (p : Parser α) (v : View) (a : α) (v' : View) : Prop :=
  ∀ c, Shows v c → line ≤ c.prevEndLine →
    ∃ c', p.run c = (.ok a, c') ∧ Shows v' c' ∧ c.prevEndLine ≤ c'.prevEndLine

namespace YieldsFrom

variable {v v' v'' : View} {a : α} {b : β} {line gap : Nat} {semi : Bool} {kind : TokenKind}
  {s : Script}

/-- Yields from a line follow one another. -/
theorem bind {p : Parser α} {k : α → Parser β} (hp : Yields p v a v')
    (hk : YieldsFrom line (k a) v' b v'') : YieldsFrom line (p >>= k) v b v'' := by
  intro c hc hline
  obtain ⟨c', hrun, hc', hle⟩ := hp c hc
  obtain ⟨c'', hrun', hc'', hle'⟩ := hk c' hc' (Nat.le_trans hline hle)
  exact ⟨c'', by rw [bind_run, hrun]; exact hrun', hc'', Nat.le_trans hle hle'⟩

theorem peekKind {k : TokenKind → Parser β}
    (h : YieldsFrom line (k (s.first semi)) (s.view semi gap ctx) b v') :
    YieldsFrom line (Parse.peekKind >>= k) (s.view semi gap ctx) b v' := by
  intro c hc hline
  rw [peekKind_bind_run, Yields.first_of_shows hc]
  exact h c hc hline

/-- A token that starts a line stands below everything before it. -/
theorem peekBelow {k : Token → Parser β}
    (h : ∀ t : Token, line < t.span.line →
      Yields (k t) (Script.view (.token kind :: s) semi (gap + 1) ctx) b v') :
    YieldsFrom line (Parse.peek >>= k) (Script.view (.token kind :: s) semi (gap + 1) ctx) b v' := by
  intro c hc hline
  have hbelow : c.current.span.line = c.prevEndLine + (gap + 1) := Shows.line hc
  exact h c.current (by omega) c hc

end YieldsFrom

/-- Past a mark whose line is looked at later. -/
theorem Yields.opening {mark : Punct} {s : Script} {semi : Bool} {gap : Nat} {k : Token → Parser β}
    {b : β} {v : View} (h : ∀ t : Token, YieldsFrom t.span.line (k t)
      (s.view (TokenKind.punct mark).endsStatement 0 ctx) b v) :
    Yields (do let t ← Parse.peek; Parse.expectPunct mark; k t)
      (Script.view (.token (.punct mark) :: s) semi gap ctx) b v := by
  intro c hc
  have hline : c.current.span.line = c.prevEndLine + gap := Shows.line hc
  have hkind : (c.current.kind == .punct mark) = true := beq_iff_eq.mpr (Shows.kind hc)
  obtain ⟨hshows, hend⟩ := hc.past
  obtain ⟨c', hrun, hc', hle⟩ := h c.current c.advance hshows (Nat.le_of_eq hend.symm)
  refine ⟨c', ?_, hc', by omega⟩
  have hexpect : (Parse.expectPunct mark).run c = (.ok (), c.advance) := by
    show (if c.current.kind == .punct mark then Parse.advance else
      unexpected (.token (.punct mark)) : Parser Unit).run c = _
    rw [if_pos hkind]
    rfl
  show (Parse.expectPunct mark >>= fun _ => k c.current).run c = _
  rw [bind_run, hexpect]
  exact hrun

/-- Statements line by line in braces. -/
theorem Parses.blockInner {ss : List Stmt} (h : ∀ s ∈ ss, InnerStmt g ctx s)
    (hn : ss.length < g.budget) :
    Parses g.blockInner (Block.of ss).script (.of ss) ctx fun _ => True := by
  intro semi gap rest _
  have hstmts := @Yields.stmts g ctx (.token (.punct .rbrace) :: rest) ss h hn rfl
  have hscript : (Block.of ss).script ++ rest = .token (.punct .lbrace) :: .lineBreak ::
      (stmtsScript ss ++ .token (.punct .rbrace) :: rest) := by
    simp [Block.of, Block.script, Script.braced]
  rw [hscript]
  refine .opening fun opening => .bind .noTrailing (.bind hstmts (.peekKind (.peekBelow fun t ht => ?_)))
  have hbelow : (t.span.line == opening.span.line) = false := beq_false_of_ne (Nat.ne_of_gt ht)
  rw [hbelow]
  exact .closeEnclosure (.next .pure)

/-- A block one level of nesting down. -/
theorem Parses.block {ss : List Stmt} (h : ∀ s ∈ ss, InnerStmt g ctx.deeper s)
    (hn : ss.length < g.budget) (hdepth : ctx.depth < maxNesting) :
    Parses g.nestedBlock (Block.of ss).script (.of ss) ctx fun _ => True :=
  fun semi gap rest hrest => .nested hdepth (Parses.blockInner h hn semi gap rest hrest)

end HandlerSplit.Parse
