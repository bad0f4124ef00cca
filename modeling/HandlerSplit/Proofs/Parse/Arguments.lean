import HandlerSplit.Parse.Expr
import HandlerSplit.Proofs.Parse.Standing
import Mathlib.Data.List.Forall2
/-!
# The tokens of arguments

The arguments of a call stand between its parentheses with commas between them, and behind each of
them there may be `...` (`ArgumentList`). The parser takes `...` behind any argument, and of the
call it remembers only whether there was one (`callArgs_passes`).
-/

namespace HandlerSplit

/-- `...`, if it stands behind an argument. -/
def spreadMark (spread : Bool) : List TokenKind :=
  if spread then [.punct .ellipsis] else []

/-- The tokens of a list of arguments: those of each argument, `...` where `spreads` says so, and
commas. A comma may stand behind the last. -/
inductive ArgumentList : List (List TokenKind) → List Bool → List TokenKind → Prop
  | nil : ArgumentList [] [] []
  | last (item : List TokenKind) (spread : Bool) :
    ArgumentList [item] [spread] (item ++ spreadMark spread)
  | cons (item : List TokenKind) (spread : Bool) {items : List (List TokenKind)}
    {spreads : List Bool} {ks : List TokenKind} (hrest : ArgumentList items spreads ks) :
    ArgumentList (item :: items) (spread :: spreads)
      (item ++ spreadMark spread ++ .punct .comma :: ks)

/-- There is one mark of `...`, or none, for each argument. -/
theorem ArgumentList.length {items : List (List TokenKind)} {spreads : List Bool}
    {ks : List TokenKind} (h : ArgumentList items spreads ks) : spreads.length = items.length := by
  induction h with
  | nil => rfl
  | last => rfl
  | cons _ _ _ ih => exact congrArg (· + 1) ih

/-- The tokens tell behind which arguments `...` stands. -/
theorem ArgumentList.unique {items : List (List TokenKind)} {spreads spreads' : List Bool}
    {ks ks' : List TokenKind} (h : ArgumentList items spreads ks)
    (h' : ArgumentList items spreads' ks') (heq : ks = ks') : spreads = spreads' := by
  induction h generalizing spreads' ks' with
  | nil =>
    cases h'
    rfl
  | last item spread =>
    cases h' with
    | last _ spread' => cases spread <;> cases spread' <;> simp [spreadMark] at heq ⊢
    | cons _ spread' _ => cases spread <;> cases spread' <;> simp [spreadMark] at heq
  | cons item spread _ ih =>
    cases h' with
    | last _ spread' => cases spread <;> cases spread' <;> simp [spreadMark] at heq
    | cons _ spread' hrest' =>
      cases spread <;> cases spread' <;> simp [spreadMark] at heq
      all_goals rw [ih hrest' heq]

namespace Parse

/-- The grammar reads the tokens `ks` as the expression `x`, up to what comes behind them. -/
def Grammar.ReadsAs (g : Grammar) (ks : List TokenKind) (x : Expr) : Prop :=
  ∃ c c', Proper c.tokens ∧ g.expr.run c = (.ok x, c') ∧ c.kinds = ks ++ c'.kinds

/-! ## Steps -/

theorem at?_ok {kind : TokenKind} {c c' : Cursor} {found : Bool}
    (hrun : (at? kind).run c = (.ok found, c')) : found = (c.current.kind == kind) ∧ c' = c := by
  cases hrun
  exact ⟨rfl, rfl⟩

/-- Past a mark that is the current token. -/
theorem kinds_advance_of_punct {c : Cursor} (hproper : Proper c.tokens) {mark : Punct}
    (h : c.current.kind = .punct mark) :
    Proper c.advance.tokens ∧ c.kinds = .punct mark :: c.advance.kinds :=
  ⟨c.proper_advance hproper, h ▸ c.kinds_of_advance hproper (by rw [h]; exact nofun)⟩

/-- A mark that is expected is the first of the tokens that are left. -/
theorem expectPunct_ok {mark : Punct} {c c' : Cursor} {u : Unit} (hproper : Proper c.tokens)
    (hrun : (expectPunct mark).run c = (.ok u, c')) :
    Proper c'.tokens ∧ c.kinds = .punct mark :: c'.kinds := by
  obtain ⟨found, d, hat, hrun⟩ := bind_ok hrun
  obtain ⟨rfl, rfl⟩ := at?_ok hat
  split at hrun
  · rename_i hkind
    obtain rfl : d.advance = c' := congrArg Prod.snd hrun
    exact kinds_advance_of_punct hproper (eq_of_beq hkind)
  · rw [unexpected, peekKind_bind_run] at hrun
    split at hrun <;> cases hrun

/-- A parser that moves on passes a stretch of tokens. -/
theorem Moves.passes {α : Type} {p : Parser α} (hp : Moves p) {c c' : Cursor} {a : α}
    (hproper : Proper c.tokens) (hrun : p.run c = (.ok a, c')) :
    Proper c'.tokens ∧ ∃ ks, c.kinds = ks ++ c'.kinds := by
  obtain ⟨hproper', ⟨ks, hks⟩, -⟩ :=
    hp.stands_run c.kinds c.context c a c' ⟨hproper, List.suffix_rfl, rfl⟩ hrun
  exact ⟨hproper', ks, hks.symm⟩

/-- Between brackets a run takes the tokens it takes outside. -/
theorem bracketed_ok {α : Type} {p : Parser α} {c c' : Cursor} {a : α}
    (hrun : (bracketed p).run c = (.ok a, c')) :
    ∃ d d' : Cursor, p.run d = (.ok a, d') ∧ d.tokens = c.tokens ∧ c'.tokens = d'.tokens := by
  rw [bracketed_run] at hrun
  rcases hp : p.run { c with exprLevel := c.exprLevel + 1 } with ⟨r, d'⟩
  rw [hp] at hrun
  obtain ⟨rfl, rfl⟩ := Prod.mk.inj hrun
  exact ⟨_, d', hp, rfl, rfl⟩

/-! ## Arguments -/

/-- The tokens that a turn of the argument loop passes. -/
def Grammar.ArgumentTurn (g : Grammar) (before after : List TokenKind) :
    Turn (Element × Bool) → Prop
  | .stop => before = after
  | .skip => False
  | .more (a, spread) => ∃ item, g.ReadsAs item a.expr ∧
      before = item ++ spreadMark spread ++ .punct .comma :: after
  | .last (a, spread) => ∃ item, g.ReadsAs item a.expr ∧ before = item ++ spreadMark spread ++ after

namespace Grammar

variable {g : Grammar}

/-- A turn takes an argument, `...` if there is one, and a comma if there is one. -/
theorem elementTurn_passes {c c' : Cursor} {x : Expr} {decs : Decorations} {spread : Bool}
    {t : Turn (Element × Bool)} {before item : List TokenKind} (hproper : Proper c.tokens)
    (hx : g.ReadsAs item x) (hbefore : before = item ++ spreadMark spread ++ c.kinds)
    (hrun : (elementTurn decs fun decs => (Element.mk x decs, spread)).run c = (.ok t, c')) :
    Proper c'.tokens ∧ g.ArgumentTurn before c'.kinds t := by
  obtain ⟨found, d, hat, hrun⟩ := bind_ok hrun
  obtain ⟨rfl, rfl⟩ := at?_ok hat
  split at hrun
  · rename_i hcomma
    obtain ⟨hadvance, hkinds⟩ := kinds_advance_of_punct hproper (eq_of_beq hcomma)
    obtain ⟨u, e, hnext, hrun⟩ := bind_ok hrun
    obtain rfl : d.advance = e := congrArg Prod.snd hnext
    obtain ⟨trailing, e, hclaim, hrun⟩ := bind_ok hrun
    obtain ⟨rfl, rfl⟩ := pure_ok hrun
    have htokens := (marks_claimTrailing hclaim).1
    refine ⟨htokens ▸ hadvance, item, hx, ?_⟩
    rw [Cursor.kinds_of_tokens htokens, ← hkinds, hbefore]
  · obtain ⟨rfl, rfl⟩ := pure_ok hrun
    exact ⟨hproper, item, hx, hbefore⟩

/-- The loop over arguments, turn by turn. -/
theorem entries_passes {turn : Parser (Turn (Element × Bool))}
    (hturn : ∀ c t c', Proper c.tokens → turn.run c = (.ok t, c') →
      Proper c'.tokens ∧ g.ArgumentTurn c.kinds c'.kinds t)
    (n : Nat) {c c' : Cursor} {args : List (Element × Bool)} (hproper : Proper c.tokens)
    (hrun : (Parse.entries turn n).run c = (.ok args, c')) :
    Proper c'.tokens ∧ ∃ items ks, ArgumentList items (args.map (·.2)) ks ∧
      List.Forall₂ (fun a item => g.ReadsAs item a.1.expr) args items ∧
      c.kinds = ks ++ c'.kinds := by
  induction n generalizing c args with
  | zero => cases hrun
  | succ n ih =>
    obtain ⟨t, d, hfirst, hrun⟩ := bind_ok hrun
    obtain ⟨hd, hpassed⟩ := hturn c t d hproper hfirst
    cases t with
    | stop =>
      obtain ⟨rfl, rfl⟩ := pure_ok hrun
      exact ⟨hd, [], [], .nil, .nil, hpassed⟩
    | skip => exact hpassed.elim
    | more a =>
      obtain ⟨item, hitem, hkinds⟩ := hpassed
      obtain ⟨rest, e, hrest, hrun⟩ := bind_ok hrun
      obtain ⟨rfl, rfl⟩ := pure_ok hrun
      obtain ⟨hproper', items, ks, hlist, hitems, hleft⟩ := ih hd hrest
      refine ⟨hproper', item :: items, _, .cons item a.2 hlist, .cons hitem hitems, ?_⟩
      rw [hkinds, hleft]
      simp
    | last a =>
      obtain ⟨item, hitem, hkinds⟩ := hpassed
      obtain ⟨rfl, rfl⟩ := pure_ok hrun
      exact ⟨hd, [item], _, .last item a.2, .cons hitem .nil, hkinds⟩

/-- What is read between the parentheses of a call is a list of arguments, and the call is variadic
if `...` stands behind any of them. -/
theorem callArgs_passes [hexpr : Moves g.expr] {opening : Span} {c c' : Cursor}
    {args : List Element} {variadic : Bool} {parens : Enclosure} (hproper : Proper c.tokens)
    (hrun : (g.callArgs opening).run c = (.ok (args, variadic, parens), c')) :
    Proper c'.tokens ∧ ∃ items spreads ks, ArgumentList items spreads ks ∧
      List.Forall₂ (fun a item => g.ReadsAs item a.expr) args items ∧
      variadic = spreads.any id ∧ c.kinds = ks ++ c'.kinds := by
  obtain ⟨openComment, d, hclaim, hrun⟩ := bind_ok hrun
  have hd := (marks_claimTrailing hclaim).1
  obtain ⟨entries, e, hentries, hrun⟩ := bind_ok hrun
  obtain ⟨enclosure, f, hclose, hrun⟩ := bind_ok hrun
  obtain ⟨hanswer, rfl⟩ := pure_ok hrun
  cases hclose
  cases hanswer
  have hlist := entries_passes (g := g) (fun c t c' hproper hrun => ?turn) _ (hd ▸ hproper) hentries
  case turn =>
    rw [peekKind_bind_run] at hrun
    split at hrun
    · obtain ⟨rfl, rfl⟩ := pure_ok hrun
      exact ⟨hproper, rfl⟩
    · cases hrun
    · obtain ⟨decs, d, hstart, hrun⟩ := bind_ok hrun
      cases hstart
      obtain ⟨x, d, hx, hrun⟩ := bind_ok hrun
      obtain ⟨hd, item, hitem⟩ := hexpr.passes (c := { c with pending := [] }) hproper hx
      have hreads : g.ReadsAs item x := ⟨{ c with pending := [] }, d, hproper, hx, hitem⟩
      have hkinds : c.kinds = item ++ d.kinds := hitem
      obtain ⟨spread, e, hat, hrun⟩ := bind_ok hrun
      obtain ⟨rfl, rfl⟩ := at?_ok hat
      cases hspread : e.current.kind == TokenKind.punct .ellipsis with
      | false =>
        rw [hspread] at hrun
        exact elementTurn_passes hd hreads (by rw [hkinds, spreadMark]; simp) hrun
      | true =>
        rw [hspread] at hrun
        obtain ⟨hadvance, hdots⟩ := kinds_advance_of_punct hd (eq_of_beq hspread)
        obtain ⟨u, f, hnext, hrun⟩ := bind_ok hrun
        obtain rfl : e.advance = f := congrArg Prod.snd hnext
        exact elementTurn_passes hadvance hreads (by rw [hkinds, hdots, spreadMark]; simp) hrun
  obtain ⟨hproper', items, ks, hargs, hitems, hkinds⟩ := hlist
  refine ⟨hproper', items, _, ks, hargs, List.forall₂_map_left_iff.mpr hitems, ?_, ?_⟩
  · rw [List.any_map]
    rfl
  · rw [← Cursor.kinds_of_tokens hd, hkinds]
    rfl

/-- A call is read from its opening parenthesis up to the closing one. -/
theorem call_passes [hexpr : Moves g.expr] {fn y : Expr} {c c' : Cursor} (hproper : Proper c.tokens)
    (hrun : (g.call fn).run c = (.ok y, c')) :
    ∃ args variadic parens items spreads ks, y = .call fn args variadic parens ∧
      ArgumentList items spreads ks ∧
      List.Forall₂ (fun a item => g.ReadsAs item a.expr) args items ∧
      variadic = spreads.any id ∧
      c.kinds = .punct .lparen :: (ks ++ [.punct .rparen]) ++ c'.kinds := by
  obtain ⟨opening, d, hpeek, hrun⟩ := bind_ok hrun
  cases hpeek
  obtain ⟨u, d, hopen, hrun⟩ := bind_ok hrun
  obtain ⟨hd, hlparen⟩ := expectPunct_ok hproper hopen
  obtain ⟨⟨args, variadic, parens⟩, e, hargs, hrun⟩ := bind_ok hrun
  obtain ⟨d', e', hargs, hd', he'⟩ := bracketed_ok hargs
  obtain ⟨he, items, spreads, ks, hlist, hitems, hvariadic, hkinds⟩ :=
    callArgs_passes (hd' ▸ hd) hargs
  obtain ⟨u, f, hclose, hrun⟩ := bind_ok hrun
  obtain ⟨-, hrparen⟩ := expectPunct_ok (he' ▸ he) hclose
  obtain ⟨rfl, rfl⟩ := pure_ok hrun
  refine ⟨args, variadic, parens, items, spreads, ks, rfl, hlist, hitems, hvariadic, ?_⟩
  rw [hlparen, ← Cursor.kinds_of_tokens hd', hkinds, ← Cursor.kinds_of_tokens he', hrparen]
  simp

end Grammar

end Parse

end HandlerSplit
