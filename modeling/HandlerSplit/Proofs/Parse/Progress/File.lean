import HandlerSplit.Proofs.Parse.Layout.File
import HandlerSplit.Proofs.Parse.Progress.Stmt
/-!
# Progress in whole texts

A text is read to its end and no further: of its tokens, comments aside, each is asked for at most
once, and as many levels of the grammar and turns of every loop as there are tokens are enough for
any text (`parsing_proceeds`).
-/

namespace HandlerSplit

namespace Parse

namespace Grammar

variable (g : Grammar)

/-- A top-level declaration with its terminator. -/
def declTurn : Parser (Turn Decl) := do
  let kind ← peekKind
  if kind = .eof then return .stop
  else if kind.isSemicolon then
    advance
    return .skip
  else
    let decs ← startDecorations
    let kind ← g.declKind
    if !(← at? .eof) then expectTerminator
    declEnd kind decs

/-- The declarations of a file are a loop with one of them to each turn. -/
theorem decls_eq : g.decls = g.entries g.declTurn :=
  rfl

/-- The turns of the list loops of a level: what stands between commas, parameters, fields, specs,
statements, clauses, arguments, elements and declarations. -/
inductive IsTurn : {α : Type} → Parser (Turn α) → Prop
  | exprs : IsTurn (commaTurn g.expr)
  | idents : IsTurn (commaTurn expectIdent)
  | params (opening : Span) : IsTurn (g.paramTurn opening)
  | structFields (opening : Span) : IsTurn (fieldTurn .struct g.taggedField opening)
  | interfaceEntries (opening : Span) : IsTurn (fieldTurn .interface g.interfaceEntry opening)
  | specs (keyword : GenKeyword) (opening : Span) : IsTurn (g.specTurn keyword opening)
  | stmts : IsTurn g.stmtTurn
  | switchClauses (opening : Span) :
    IsTurn (g.clauseTurn .switch (do return .values (← g.exprs)) opening)
  | selectClauses (opening : Span) :
    IsTurn (g.clauseTurn .select (do return .comm (← (← g.simple false false).toStmt)) opening)
  | args (opening : Span) : IsTurn (g.argTurn opening)
  | elements (opening : Span) : IsTurn (g.literalTurn opening)
  | decls : IsTurn g.declTurn

/-- The loops in which an expression grows: by what follows an operand, or by an operator. -/
inductive IsGrowth : (Expr → Parser (Option Expr)) → Prop
  | postfixed : IsGrowth g.postfixed
  | extended (strength : Nat) : IsGrowth (g.extended strength)

/-- What is read of whole texts: a file, an expression or a type. -/
inductive IsWhole : {α : Type} → Parser α → Prop
  | file : IsWhole g.sourceFile
  | expr : IsWhole (alone (g.binaryFrom 1))
  | type : IsWhole (alone g.nestedType)

namespace Serves

variable {g : Grammar} {K : TokenKind → Prop} {n : Nat}

theorem declEnd (kind : DeclKind) (d : Decorations) : Proceeds K n Never (declEnd kind d) :=
  .claimTrailing fun _ => .answer

/-- What is read alone is followed by the end of the text. -/
theorem alone {α : Type} {phrase : Parser α} (h : Proceeds Anything n Never phrase) :
    Proceeds K n Never (alone phrase) := by
  refine .bind h.weaken fun a => .at? (.past (.advance nofun) fun _ => ?_) ?_
  · exact .at? .answer (.unexpected _)
  · exact .at? .answer (.unexpected _)

variable (hg : g.Serves n)

include hg

theorem funcDecl {M : FuncDecl → Prop} : Proceeds K n M g.funcDecl := by
  refine .past .expectKeyword fun _ => .bind (.atPunct ?_ .answer) fun recv => ?_
  · exact .past hg.params fun _ => .answer
  refine .past .expectIdent fun name => .past hg.signature fun s => ?_
  refine .bind (.atPunct ?_ .answer) fun body => .answer
  exact .past hg.nestedBlock fun _ => .answer

theorem declKind {M : DeclKind → Prop} : Proceeds K n M g.declKind := by
  refine .peekKind fun kind => ?_
  split
  · exact .past hg.funcDecl fun _ => .answer
  iterate 4 exact .past hg.genDecl fun _ => .answer
  · exact .unexpected _

/-- A turn that goes on has taken a declaration. -/
theorem declTurn : Proceeds K n Turn.GoesOn g.declTurn := by
  refine .peekKind fun kind => ?_
  split
  · exact .pure id
  · split
    · rename_i hsemicolon
      exact .past (.advance (isSemicolon_ne_eof hsemicolon)) fun _ => .answer
    · refine .startDecorations fun d => .past hg.declKind fun kind => ?_
      exact .at? (declEnd kind d) (.bind .expectTerminator fun _ => declEnd kind d)

theorem decls : Proceeds K n Never g.decls := by
  rw [decls_eq]
  exact hg.entries hg.declTurn

/-- A whole file is decided on `n` tokens. -/
theorem sourceFile : Proceeds K n Never g.sourceFile := by
  refine .startDecorations fun d => .past .expectKeyword fun _ => .past .expectIdent fun package => ?_
  refine .bind .expectTerminator fun _ => .claimTrailing fun trailing => .bind hg.decls fun ds => ?_
  exact .claimComments fun cs => .answer

/-- Every turn of a loop of the grammar that goes on takes a token. -/
theorem turn {α : Type} {turn : Parser (Turn α)} (h : g.IsTurn turn) :
    Proceeds K (n - 1) Turn.GoesOn turn := by
  have hle := Nat.sub_le n 1
  cases h with
  | exprs => exact (commaTurn hg.expr).fewer hle
  | idents => exact commaTurn .expectIdent
  | params opening => exact (hg.paramTurn opening).fewer hle
  | structFields opening => exact (fieldTurn _ opening hg.taggedField).fewer hle
  | interfaceEntries opening => exact (fieldTurn _ opening hg.interfaceEntry).fewer hle
  | specs keyword opening => exact (hg.specTurn keyword opening).fewer hle
  | stmts => exact hg.stmtTurn
  | switchClauses opening => exact (hg.clauseTurn _ opening hg.valuesHead).fewer hle
  | selectClauses opening => exact (hg.clauseTurn _ opening hg.commHead).fewer hle
  | args opening => exact (hg.argTurn opening).fewer hle
  | elements opening => exact hg.literalTurn opening
  | decls => exact hg.declTurn.fewer hle

/-- Every growth of an expression takes a token. -/
theorem growth {grow : Expr → Parser (Option Expr)} (h : g.IsGrowth grow) (x : Expr) :
    Proceeds K n (·.isSome = true) (grow x) := by
  cases h with
  | postfixed => exact hg.postfixed x
  | extended strength => exact hg.extended strength x

/-- Every phrase that is asked of a whole text is decided on `n` tokens. -/
theorem whole {α : Type} {p : Parser α} (h : g.IsWhole p) : Proceeds K n Never p := by
  cases h with
  | file => exact hg.sourceFile
  | expr => exact alone ((hg.binaryFrom 1).fewer (Nat.le_succ n))
  | type => exact alone hg.typeHere

end Serves

end Grammar

/-! ## Whole texts -/

variable {tokens : List Token}

/-- At the start all tokens but the comments are left. -/
theorem Cursor.left_start (h : Proper tokens) :
    (Cursor.start tokens).left = grammatical tokens := by
  rw [left, kinds_start h, grammatical_eq]

/-- The first token has been asked for at the start. -/
theorem Cursor.total_start (h : Proper tokens) :
    (Cursor.start tokens).total = grammatical tokens + 1 := by
  rw [total, left_start h, start, taken_advance, Nat.zero_add, Nat.add_comm]

theorem Cursor.proper_start (h : Proper tokens) : Proper (Cursor.start tokens).tokens :=
  proper_advance (.cons nofun nofun h)

/-- A text is read, in whatever levels, without passing its end. -/
theorem total_whole {α : Type} {p : Parser α} {budget levels : Nat} (h : Proper tokens)
    (hp : (Grammar.level budget levels).IsWhole p) :
    (p.run (Cursor.start tokens)).2.total = grammatical tokens + 1 := by
  have hserves := Grammar.serves_level (Nat.zero_le budget) (Nat.zero_le levels)
  rw [(hserves.whole (K := Anything) hp _ (Cursor.proper_start h) trivial).total,
    Cursor.total_start h]

/-- Where there are levels and turns for all its tokens, a text is accepted or rejected for what it
is. -/
theorem decided_whole {α : Type} {p : Parser α} {budget levels : Nat} (h : Proper tokens)
    (hp : (Grammar.level budget levels).IsWhole p) (hturns : grammatical tokens ≤ budget)
    (hlevels : grammatical tokens ≤ levels) (e : Rejection)
    (he : (p.run (Cursor.start tokens)).1 = .error e) : e.fault ≠ .exhausted := by
  have hserves := Grammar.serves_level hturns hlevels
  have hrun := hserves.whole (K := Anything) hp _ (Cursor.proper_start h) trivial
  exact hrun.decided (Nat.le_of_eq (Cursor.left_start h)) e he

/-- What is read of a text is decided with the levels and turns it is given. -/
theorem decided_onText {α : Type} {phrase : Grammar → Parser α} {source : String}
    (hphrase : ∀ g : Grammar, g.IsWhole (phrase g)) (e : SyntaxError)
    (he : onText phrase source = .error e) : e.fault ≠ .exhausted := by
  have hdecided := decided_whole (tokenize_proper source.toList)
    (hphrase (Grammar.forTokens (grammatical (tokenize source.toList))))
    (Nat.le_add_right _ 2) (Nat.le_add_right _ 2)
  obtain ⟨r, c, hrun, rfl⟩ := exists_runOn_error he
  exact hdecided r (congrArg Prod.fst hrun)

end Parse

open Parse

/-- Files, expressions and types are read with at most as many calls of `advance` as there are
tokens beside comments, the end of the text included, and no call is at the end
(`Cursor.total_advance_iff`). A turn of a list loop takes a token unless it is the last, and so does
what an expression grows by. So no parse is cut short where there are a level and a turn for each
token, as there are when a file, an expression or a type is parsed. -/
theorem parsing_proceeds (source : String) :
    (∀ (budget levels : Nat) {α : Type} {p : Parser α}, (Grammar.level budget levels).IsWhole p →
      let tokens := tokenize source.toList
      let run := p.run (Cursor.start tokens)
      run.2.taken ≤ grammatical tokens ∧ run.2.total = (Cursor.start tokens).total ∧
        (grammatical tokens ≤ budget → grammatical tokens ≤ levels →
          ∀ e, run.1 = .error e → e.fault ≠ .exhausted)) ∧
    (∀ (budget levels : Nat) (c : Cursor), Proper c.tokens →
      (∀ {α : Type} {turn : Parser (Turn α)}, (Grammar.level budget levels).IsTurn turn →
        ∀ t c', turn.run c = (.ok t, c') → t.GoesOn → c'.left < c.left) ∧
      ∀ {grow : Expr → Parser (Option Expr)}, (Grammar.level budget levels).IsGrowth grow →
        ∀ x y c', (grow x).run c = (.ok (some y), c') → c'.left < c.left) ∧
    (∀ e, parseFile source = .error e → e.fault ≠ .exhausted) ∧
    (∀ e, parseExpr source = .error e → e.fault ≠ .exhausted) ∧
    ∀ e, parseType source = .error e → e.fault ≠ .exhausted := by
  refine ⟨fun budget levels α p hp => ?_, fun budget levels c hc => ⟨?_, ?_⟩, ?_, ?_, ?_⟩
  · have hproper := tokenize_proper source.toList
    have htotal := total_whole hproper hp
    have hleft := (p.run (Cursor.start (tokenize source.toList))).2.left_pos
    refine ⟨?_, htotal.trans (Cursor.total_start hproper).symm, decided_whole hproper hp⟩
    rw [Cursor.total] at htotal
    show (p.run _).2.taken ≤ _
    omega
  · intro α turn hturn t c' hrun hgoes
    have hserves := Grammar.serves_level (Nat.zero_le budget) (Nat.zero_le levels)
    have hturn' := hserves.turn (K := Anything) hturn c hc trivial
    rw [hrun] at hturn'
    exact hturn'.moved t rfl hgoes
  · intro grow hgrow x y c' hrun
    have hserves := Grammar.serves_level (Nat.zero_le budget) (Nat.zero_le levels)
    have hgrow' := hserves.growth (K := Anything) hgrow x c hc trivial
    rw [hrun] at hgrow'
    exact hgrow'.moved (some y) rfl rfl
  · exact decided_onText fun _ => .file
  · exact decided_onText fun _ => .expr
  · exact decided_onText fun _ => .type

/-- A text that ends inside a call, with a closing delimiter in place of a terminator. -/
def unclosedSource : String :=
  "package p\n\nvar (x = f(1, 2)) // x\n\nfunc f() \x7b g(1,\n"

/-- It is rejected, at its end, after as many tokens as it has. -/
theorem parsing_proceeds_unclosed :
    let tokens := tokenize unclosedSource.toList
    let run := (Grammar.level 40 40).sourceFile.run (Cursor.start tokens)
    run.1.toOption.isNone ∧ (∀ e, run.1 = .error e → e.fault ≠ .exhausted) ∧
      run.2.left = 1 ∧ run.2.taken = grammatical tokens := by
  have hrun : let tokens := tokenize unclosedSource.toList
      let run := (Grammar.level 40 40).sourceFile.run (Cursor.start tokens)
      run.1.toOption.isNone ∧ run.2.left = 1 ∧ grammatical tokens ≤ 40 := by
    decide +kernel
  obtain ⟨hnone, hleft, hbudget⟩ := hrun
  obtain ⟨-, htotal, hdecided⟩ := (parsing_proceeds unclosedSource).1 40 40 .file
  have hsum := htotal.trans (Cursor.total_start (tokenize_proper _))
  rw [Cursor.total, hleft] at hsum
  exact ⟨hnone, hdecided hbudget hbudget, hleft, Nat.succ.inj hsum⟩

end HandlerSplit
