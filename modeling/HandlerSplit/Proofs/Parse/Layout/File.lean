import HandlerSplit.Parse.Source
import HandlerSplit.Proofs.Parse.Layout.Stmt
/-!
# Layout and source files

What a source file is parsed to is decided by the kinds of its tokens, comments left out. Line
breaks count only where they make a semicolon.
-/

namespace HandlerSplit

namespace Parse

namespace Grammar.LayoutBlind

/-- Which comments stand around a declaration is layout. -/
theorem declEnd {kind kind' : DeclKind} (h : kind.bare = kind'.bare) (decs decs' : Decorations) :
    Agree (Turn.map Decl.bare) (declEnd kind decs) (declEnd kind' decs') := by
  refine .bind .claimTrailing fun _ _ _ => .pure ?_
  simp only [Turn.map, Decl.bare, h]

variable {g : Grammar} (hg : g.LayoutBlind)

include hg

/-- A function or method, with its body or without. -/
theorem funcDecl : Blind FuncDecl.bare g.funcDecl := by
  refine .next (.expectKeyword _) ?_
  refine .bind (e := Option.map FieldList.bare) (.atPunct fun b => ?_) fun recv recv' hrecv => ?_
  · split
    · exact .bind hg.params fun _ _ h => .pure (congrArg some h)
    · exact .pure rfl
  refine .same .expectIdent fun name => .bind hg.signature fun s s' hs => ?_
  refine .bind (e := Option.map Block.bare) (.atPunct fun b => ?_) fun body body' hbody => .pure ?_
  · split
    · exact .bind hg.nestedBlock fun _ _ h => .pure (congrArg some h)
    · exact .pure rfl
  · simp only [FuncDecl.bare, bareResults_eq_map, hrecv, hs, hbody]

theorem declKind : Blind DeclKind.bare g.declKind := by
  refine .peekKind fun kind => ?_
  split
  · exact .bind hg.funcDecl fun _ _ h => .pure (congrArg DeclKind.func h)
  iterate 4 exact .bind hg.genDecl fun _ _ h => .pure (congrArg DeclKind.gen h)
  · exact .unexpected _

/-- Declarations up to the end of the text. -/
theorem decls : Blind (List.map Decl.bare) g.decls := by
  refine .entries (.peekKind fun kind => ?_) _
  split
  · exact .pure rfl
  · split
    · exact .next .advance (.pure rfl)
    · refine .bind .startDecorations fun d d' _ => .bind hg.declKind fun k k' hk => ?_
      refine .at? fun b => ?_
      split
      · exact .next .expectTerminator (declEnd hk d d')
      · exact declEnd hk d d'

/-- A whole file is read without regard to layout. -/
theorem sourceFile : Blind SourceFile.bare g.sourceFile := by
  refine .bind .startDecorations fun _ _ _ => .next (.expectKeyword _) ?_
  refine .same .expectIdent fun package => .next .expectTerminator (.bind .claimTrailing ?_)
  refine fun _ _ _ => .bind hg.decls fun ds ds' hds => .bind .claimComments fun _ _ _ => .pure ?_
  simp only [SourceFile.bare, hds]

end Grammar.LayoutBlind

/-- Texts with the same kinds of tokens start with one gist. -/
theorem gist_start {tokens tokens' : List Token} (h : kindsOf tokens = kindsOf tokens') :
    (Cursor.start tokens).gist = (Cursor.start tokens').gist := by
  rw [Cursor.start, Cursor.start, Cursor.gist_advance, Cursor.gist_advance, h]

theorem grammatical_eq (tokens : List Token) :
    grammatical tokens = (kindsOf tokens).length := by
  rw [grammatical, kindsOf, ← List.countP_eq_length_filter, List.countP_map]
  rfl

/-- Runs of a phrase on tokens of the same kinds are alike. -/
theorem runOn_alike {α β : Type} {e : α → β} {phrase : Grammar → Parser α}
    (hphrase : ∀ g : Grammar, g.LayoutBlind → Blind e (phrase g)) {tokens tokens' : List Token}
    (h : kindsOf tokens = kindsOf tokens') :
    Alike e (runOn phrase tokens) (runOn phrase tokens') := by
  rw [runOn, runOn, grammatical_eq, grammatical_eq, h]
  exact hphrase _ (Grammar.level_layoutBlind _ _) _ _ (gist_start h)

end Parse

open Parse

/-- Texts with the same tokens beside comments are parsed to the same program, or rejected with
the same message. -/
theorem parseFile_layout (s s' : String)
    (h : kindsOf (tokenize s.toList) = kindsOf (tokenize s'.toList)) :
    (∃ file file', parseFile s = .ok file ∧ parseFile s' = .ok file' ∧ file.bare = file'.bare) ∨
      ∃ e e', parseFile s = .error e ∧ parseFile s' = .error e' ∧
        e.fault.message = e'.fault.message := by
  have halike := runOn_alike (fun _ hg => hg.sourceFile) h
  simp only [parseFile, onText]
  generalize runOn Grammar.sourceFile (tokenize s.toList) = r at halike ⊢
  generalize runOn Grammar.sourceFile (tokenize s'.toList) = r' at halike ⊢
  cases halike with
  | ok hbare _ => exact .inl ⟨_, _, rfl, rfl, hbare⟩
  | error hfault _ => exact .inr ⟨_, _, rfl, rfl, congrArg Fault.message hfault⟩

/-- A function on few lines. -/
def tightSource : String :=
  "package p\n\nfunc f(a, b int) \x7b\n\tg()\n\x7d\n"

/-- The same function on more lines, with comments. -/
def looseSource : String :=
  "// p\npackage p // p\nfunc f(a, /* a */\n\tb int) \x7b // f\n\n\tg( /* g */ )\n\n\x7d\n"

theorem parseFile_layout_tight_loose :
    kindsOf (tokenize tightSource.toList) = kindsOf (tokenize looseSource.toList) ∧
      ((∃ file file', parseFile tightSource = .ok file ∧ parseFile looseSource = .ok file' ∧
          file.bare = file'.bare) ∨
        ∃ e e', parseFile tightSource = .error e ∧ parseFile looseSource = .error e' ∧
          e.fault.message = e'.fault.message) := by
  have h : kindsOf (tokenize tightSource.toList) = kindsOf (tokenize looseSource.toList) := by
    decide +kernel
  exact ⟨h, parseFile_layout _ _ h⟩

end HandlerSplit
