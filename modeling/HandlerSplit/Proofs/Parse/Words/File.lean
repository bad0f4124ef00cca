import HandlerSplit.Proofs.Parse.Marks.File
import HandlerSplit.Proofs.Parse.Words.Stmt
/-!
# Words of source files

A source file that is accepted has the words of its text, in order: the tree holds every token
that is no comment, semicolon, comma, parenthesis or `...`, and no other.
-/

namespace HandlerSplit

namespace Parse

namespace Grammar.Exact

variable {g : Grammar} {K : TokenKind → Prop}

/-- The comment that trails a declaration is no word. -/
theorem declEnd (kind : DeclKind) (d : Decorations) :
    Consumes K kind.words (Turn.words Decl.words) (declEnd kind d) :=
  .claimTrailing fun _ => .pure rfl

variable (hg : g.Exact)

include hg

/-- The receiver, the name, the signature and the body of a function, in this order. -/
theorem funcDecl : Consumes K [] FuncDecl.words g.funcDecl := by
  refine .expectKeyword (.bind (e := resultWords) (.atPunct ?_ (.pure rfl)) fun recv => ?_)
  · exact .bind hg.params fun _ => .pure rfl
  refine .bind .expectIdent fun name => .bind hg.signature fun s => ?_
  refine .bind (e := fun b => b.toList.flatMap Block.words) (.atPunct ?_ (.pure rfl))
    fun body => .pure rfl
  exact .bind hg.nestedBlock fun _ => .pure (List.append_nil _)

theorem declKind : Consumes K [] DeclKind.words g.declKind := by
  refine .peekKind fun kind _ => ?_
  split
  · exact .bind hg.funcDecl fun _ => .pure rfl
  iterate 4 exact .bind hg.genDecl fun _ => .pure rfl
  · exact .unexpected _

/-- The words of declarations in order. -/
theorem decls : Consumes K [] (List.flatMap Decl.words) g.decls := by
  refine .entries (.peekKind fun kind _ => ?_) _
  split
  · exact .pure rfl
  · split
    · rename_i hsemicolon
      refine .free (fun kind' h => ?_) (.pure rfl)
      obtain rfl : kind' = kind := h
      cases kind' <;> first | rfl | cases hsemicolon
    · refine .startDecorations fun d => .bind hg.declKind fun kind => ?_
      exact .at? (declEnd kind d) (.skip .expectTerminator (declEnd kind d))

/-- A file has the words that were consumed up to its end. -/
theorem sourceFile : Consumes K [] SourceFile.words g.sourceFile := by
  refine .startDecorations fun d => .expectKeyword (.bind .expectIdent fun package => ?_)
  refine .skip .expectTerminator (.claimTrailing fun trailing => .bind hg.decls fun ds => ?_)
  exact .claimComments fun cs => .pure rfl

end Grammar.Exact

/-- At the start all words of the text are still to be consumed. -/
theorem Cursor.words_start {tokens : List Token} (h : Proper tokens) :
    Proper (Cursor.start tokens).tokens ∧ (Cursor.start tokens).words = wordsOf tokens :=
  Cursor.words_advance (.cons nofun nofun h) nofun

/-- At the end no word is left. -/
theorem Cursor.words_end {c : Cursor} (h : Proper c.tokens) (heof : c.current.kind = .eof) :
    c.words = [] := by
  have hrest : c.rest = [] := h.eq_nil heof
  rw [Cursor.words, Cursor.tokens, hrest, wordsOf_cons_of_not _ (by rw [heof]; rfl)]
  rfl

/-- The words of an accepted file are the words of its text. -/
theorem words_parseFile {source : String} {file : SourceFile}
    (h : parseFile source = .ok file) : file.words = wordsOf (tokenize source.toList) := by
  obtain ⟨c, hrun⟩ := exists_runOn_ok h
  obtain ⟨hstart, hstartWords⟩ := Cursor.words_start (tokenize_proper source.toList)
  obtain ⟨hend, hwords⟩ :=
    (Grammar.level_exact _ _).sourceFile (K := Anything) _ hstart trivial _ _ hrun
  obtain ⟨heof, -⟩ := Grammar.sourceFile_end hrun
  rw [hstartWords, Cursor.words_end hend heof, List.append_nil] at hwords
  exact hwords.symm

end Parse

end HandlerSplit
