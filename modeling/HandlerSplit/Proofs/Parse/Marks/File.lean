import HandlerSplit.Parse.Source
import HandlerSplit.Proofs.Parse.Marks.Stmt
/-!
# Comments and names of source files

A source file that is accepted holds the comments and names of its text. Names that share a
type in a parameter list lose the comments between them; every other comment is kept.
-/

namespace HandlerSplit

namespace Parse

/-- The entries of a list end with a turn that stops or is the last. -/
theorem entries_end {α : Type} {turn : Parser (Turn α)} {n : Nat} {c c' : Cursor} {as : List α}
    (hrun : (entries turn n).run c = (.ok as, c')) :
    ∃ d t, turn.run d = (.ok t, c') ∧ (t = .stop ∨ ∃ a, t = .last a) := by
  induction n generalizing c as with
  | zero => cases hrun
  | succ n ih =>
    obtain ⟨t, d, hturn, hrun⟩ := bind_ok hrun
    cases t with
    | stop =>
      obtain ⟨-, rfl⟩ := pure_ok hrun
      exact ⟨c, _, hturn, .inl rfl⟩
    | skip => exact ih hrun
    | more a =>
      obtain ⟨as', d', hrest, hrun⟩ := bind_ok hrun
      obtain ⟨-, rfl⟩ := pure_ok hrun
      exact ih hrest
    | last a =>
      obtain ⟨-, rfl⟩ := pure_ok hrun
      exact ⟨c, _, hturn, .inr ⟨a, rfl⟩⟩

/-- The declarations end where the text ends. -/
theorem Grammar.decls_end {g : Grammar} {c c' : Cursor} {ds : List Decl}
    (hrun : g.decls.run c = (.ok ds, c')) : c'.current.kind = .eof := by
  obtain ⟨d, t, hturn, ht⟩ := entries_end hrun
  rw [peekKind_bind_run] at hturn
  split at hturn
  · rename_i heof
    obtain ⟨-, rfl⟩ := pure_ok hturn
    exact heof
  · split at hturn
    · obtain ⟨_, _, -, hturn⟩ := bind_ok hturn
      obtain ⟨rfl, -⟩ := pure_ok hturn
      rcases ht with ht | ⟨_, ht⟩ <;> cases ht
    · have more : ∃ a, t = .more a := by
        refine Answers.after (Q := fun t => ∃ a, t = .more a) (fun d => ?_) _ _ _ hturn
        refine .after fun kind => .after fun b => ?_
        split
        · exact .after fun _ => .after fun trailing => .pure ⟨_, rfl⟩
        · exact .after fun trailing => .pure ⟨_, rfl⟩
      obtain ⟨a, rfl⟩ := more
      rcases ht with ht | ⟨_, ht⟩ <;> cases ht

/-- A source file that is accepted is read to its end, and no comment waits then. -/
theorem Grammar.sourceFile_end {g : Grammar} {c c' : Cursor} {file : SourceFile}
    (hrun : g.sourceFile.run c = (.ok file, c')) :
    c'.current.kind = .eof ∧ c'.waiting = [] := by
  iterate 5 obtain ⟨_, _, -, hrun⟩ := bind_ok hrun
  obtain ⟨ds, c₁, hdecls, hrun⟩ := bind_ok hrun
  obtain ⟨cs, c₂, hclaim, hrun⟩ := bind_ok hrun
  obtain ⟨-, rfl⟩ := pure_ok hrun
  obtain ⟨-, rfl⟩ := Prod.mk.inj hclaim
  have heof : c₁.current.kind = .eof := decls_end hdecls
  exact ⟨heof, rfl⟩

namespace Grammar.Keeps

variable {g : Grammar} {K : TokenKind → Prop}

/-- The comments before a declaration, its own marks, and the comment that trails it. -/
theorem declEnd (kind : DeclKind) (d : Decorations) :
    Reads K (commentMarks d.leading ++ kind.marks) (Turn.marks Decl.marks) (declEnd kind d) :=
  .claimTrailing fun _ => .pure rfl

variable (hg : g.Keeps)

include hg

/-- The marks of the receiver, the name, the signature and the body. -/
theorem funcDecl : Reads K [] FuncDecl.marks g.funcDecl := by
  refine .skip (.expectKeyword _) ?_
  refine .bind (e := resultMarks) (.atPunct ?_ (.pure rfl)) fun recv => ?_
  · exact .bind hg.params fun _ => .pure rfl
  refine .bind .expectIdent fun name => .bind hg.signature fun s => ?_
  refine .bind (e := fun b => b.toList.flatMap Block.marks) (.atPunct ?_ (.pure rfl))
    fun body => .pure ?_
  · exact .bind hg.nestedBlock fun _ => .pure (List.append_nil _)
  · rw [FuncDecl.marks]
    simp only [List.append_assoc, List.nil_append, List.cons_append]

theorem declKind : Reads K [] DeclKind.marks g.declKind := by
  refine .peekKind fun kind _ => ?_
  split
  · exact .bind hg.funcDecl fun _ => .pure rfl
  iterate 4 exact .bind hg.genDecl fun _ => .pure rfl
  · exact .unexpected _

/-- The marks of declarations in order. -/
theorem decls : Reads K [] (List.flatMap Decl.marks) g.decls := by
  refine .entries (.peekKind fun kind _ => ?_) _
  split
  · exact .pure rfl
  · split
    · rename_i hsemicolon
      exact .next (mark?_of_isSemicolon hsemicolon) (.pure rfl)
    · refine .startDecorations fun d hd => .bind hg.declKind fun kind => ?_
      exact .at? (declEnd kind d) (.skip .expectTerminator (declEnd kind d))

/-- A file that is read holds the marks up to its end. -/
theorem sourceFile : Reads K [] SourceFile.marks g.sourceFile := by
  refine .startDecorations fun d _ => .skip (.expectKeyword _) ?_
  refine .bind .expectIdent fun package => ?_
  refine .skip .expectTerminator (.claimTrailing fun trailing => .bind hg.decls fun ds => ?_)
  exact .claimComments fun cs => .pure rfl

end Grammar.Keeps

/-- At the start all marks of the text are still to be taken. -/
theorem Cursor.marks_start {tokens : List Token} (h : Proper tokens) :
    Proper (Cursor.start tokens).tokens ∧ (Cursor.start tokens).marks = marksOf tokens :=
  Cursor.marks_advance (.cons nofun nofun h) nofun

/-- At the end, with no comment waiting, no mark is left. -/
theorem Cursor.marks_end {c : Cursor} (h : Proper c.tokens) (heof : c.current.kind = .eof)
    (hwaiting : c.waiting = []) : c.marks = [] := by
  have hrest : c.rest = [] := h.eq_nil heof
  rw [Cursor.marks, Cursor.tokens, hwaiting, hrest, marksOf_cons_of_none _ (by rw [heof]; rfl)]
  rfl

/-- A source file that is accepted takes all marks of its text. -/
theorem parseFile_takes {source : String} {file : SourceFile}
    (h : parseFile source = .ok file) :
    Takes (marksOf (tokenize source.toList)) file.marks [] := by
  obtain ⟨c, hrun⟩ := exists_runOn_ok h
  obtain ⟨hstart, hmarks⟩ := Cursor.marks_start (tokenize_proper source.toList)
  obtain ⟨hend, ms, rfl, htakes⟩ :=
    (Grammar.level_keeps _ _).sourceFile (K := Anything) _ hstart trivial _ _ hrun
  obtain ⟨heof, hwaiting⟩ := Grammar.sourceFile_end hrun
  rw [hmarks, Cursor.marks_end hend heof hwaiting] at htakes
  exact htakes

end Parse

/-- The comments a file records, in the order of its source. -/
def SourceFile.comments (file : SourceFile) : List String :=
  textsOf file.marks

/-- For each name of a file, in the order of its source, whether it shares the type of the name
before it in a list of parameters or results. -/
def SourceFile.joins (file : SourceFile) : List Bool :=
  joinsOf file.marks

open Parse

/-- The comments an accepted file records are those of its text of which the next name is not
joined to the name before it. -/
theorem comments_eq_textsBefore {source : String} {file : SourceFile}
    (h : parseFile source = .ok file) :
    file.comments = textsBefore false file.joins (marksOf (tokenize source.toList)) := by
  have htexts := (parseFile_takes h).texts [] rfl
  rw [List.append_nil] at htexts
  exact (htexts.trans (List.append_nil _)).symm

/-- Where no two names share a type, every comment is recorded. -/
theorem comments_eq_of_no_joins {source : String} {file : SourceFile}
    (h : parseFile source = .ok file) (hjoins : ∀ joined ∈ file.joins, joined = false) :
    file.comments = textsOf (marksOf (tokenize source.toList)) := by
  rw [comments_eq_textsBefore h]
  exact (textsBefore_eq_textsOf_iff _ _).mpr (textsBefore_eq_nil _ _ hjoins)

/-- The names of an accepted file are those of its text, and the comments it records are those of
its text of which the next name is not joined to the name before it. So all comments are recorded
if and only if none stands between names that share a type. -/
theorem parseFile_comments {source : String} {file : SourceFile}
    (h : parseFile source = .ok file) :
    let ms := marksOf (tokenize source.toList)
    namesOf file.marks = namesOf ms ∧ file.comments = textsBefore false file.joins ms ∧
      (file.comments = textsOf ms ↔ textsBefore true file.joins ms = []) := by
  have hcomments := comments_eq_textsBefore h
  refine ⟨((parseFile_takes h).names.trans (List.append_nil _)).symm, hcomments, ?_⟩
  rw [hcomments]
  exact textsBefore_eq_textsOf_iff _ _

/-- A file whose comments stand in all sorts of places, none of them between joined names. -/
def commentedSource : String :=
  "// p\npackage p // q\n\nfunc f(a int /* a */, /* b */ b, c int) \x7b // f\n\t/* g */ " ++
    "g( /* x */ a)\n\tif b /* c */ == c \x7b\n\t\x7d\n\x7d\n// end\n"

theorem parseFile_comments_commented :
    ∃ file, parseFile commentedSource = .ok file ∧
      let ms := marksOf (tokenize commentedSource.toList)
      namesOf file.marks = namesOf ms ∧ file.comments = textsBefore false file.joins ms ∧
        (file.comments = textsOf ms ↔ textsBefore true file.joins ms = []) := by
  obtain ⟨file, h⟩ := exists_ok_of_isSome (x := parseFile commentedSource) (by decide +kernel)
  exact ⟨file, h, parseFile_comments h⟩

/-- A comment between two names of one type. -/
def joinedSource : String :=
  "package p\n\nfunc f(a, /* c */ b int) \x7b\n\x7d\n"

/-- The comment is not recorded. -/
theorem parseFile_comments_lost :
    (parseFile joinedSource).toOption.map SourceFile.comments = some [] ∧
      textsOf (marksOf (tokenize joinedSource.toList)) = ["/* c */"] := by
  decide +kernel

end HandlerSplit
