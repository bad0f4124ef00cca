import HandlerSplit.Parse.Source
import HandlerSplit.Proofs.Parse.Regular.Stmt
/-!
# Source files are read regular
-/

namespace HandlerSplit.Parse

namespace Grammar.Regular

variable {g : Grammar} (hg : g.Regular)

include hg

theorem funcDecl : Answers FuncDecl.Regular g.funcDecl := by
  refine .after fun _ => .bind (P := resultsRegular) (.after fun paren => ?_) fun recv hrecv =>
    .after fun name => .bind hg.signature fun s hs =>
      .bind (P := fun b => ∀ x ∈ b, Block.Regular x) (.after fun brace => ?_) fun body hbody =>
        .pure ⟨hrecv, hs, hbody⟩
  · split
    · exact .bind hg.params fun fs hfs => .pure hfs
    · exact .pure trivial
  · split
    · refine .bind hg.nestedBlock fun b hb => .pure fun x hx => ?_
      cases hx
      exact hb
    · exact .pure nofun

theorem declKind : Answers DeclKind.Regular g.declKind := by
  refine .after fun kind => ?_
  split
  · exact .bind hg.funcDecl fun f hf => .pure hf
  iterate 4 exact .bind hg.genDecl fun d hd => .pure hd
  · exact .unexpected _

theorem decls : Answers (fun ds : List Decl => ∀ d ∈ ds, d.kind.Regular) g.decls := by
  refine .entries (P := fun d : Decl => d.kind.Regular) (.after fun kind => ?_) _
  split
  · exact .pure trivial
  · split
    · exact .after fun _ => .pure trivial
    · refine .after fun d => .bind hg.declKind fun kind hkind => .after fun eof => ?_
      have hend : Answers (Turn.All fun d : Decl => d.kind.Regular) (declEnd kind d) :=
        .after fun trailing => .pure hkind
      split
      · exact .after fun _ => hend
      · exact hend

theorem sourceFile : Answers SourceFile.Regular g.sourceFile := by
  refine .after fun d => .after fun _ => .after fun package => .after fun _ => ?_
  exact .after fun trailing => .bind hg.decls fun ds hds => .after fun cs => .pure hds

end Grammar.Regular

/-- An accepted file is regular. -/
theorem regular_parseFile {source : String} {file : SourceFile}
    (h : parseFile source = .ok file) : file.Regular := by
  obtain ⟨c, hrun⟩ := exists_runOn_ok h
  exact (Grammar.level_regular _ _).sourceFile _ _ _ hrun

end HandlerSplit.Parse
