import HandlerSplit.Proofs.Parse.Built.File
import HandlerSplit.Proofs.Print.Layout.Text
import HandlerSplit.Proofs.Print.Layout.Tree
/-!
# Files in layout normal form

The declarations of a file and the comments around them are neat lines. So an accepted file is
printed in layout normal form, whatever the style (`print_laidOut`).
-/

namespace HandlerSplit

namespace Print

open Spot

variable {style : Style}

theorem Decl.firm {d : Decl} (hr : d.kind.Regular) (hg : Genuine d.words (textsOf d.marks)) :
    Firm (declOutput style d) := by
  obtain ⟨kind, decs⟩ := d
  have hkind : Genuine kind.words (textsOf kind.marks) := hg.part
  cases kind with
  | gen d => exact GenDecl.firm d hr hkind 0
  | func f => exact FuncDecl.firm hr hkind 0

theorem NeatLines.gap (isBlank : Bool) : NeatLines (if isBlank then [.blank] else []) := by
  cases isBlank with
  | true => exact .blank .nil
  | false => exact .nil

theorem neatLines_decls {ds : List Decl} (hr : ∀ d ∈ ds, d.kind.Regular)
    (hg : ∀ d ∈ ds, Genuine d.words (textsOf d.marks)) (last : Option Keyword) :
    NeatLines (declLines style last ds) := by
  induction ds generalizing last with
  | nil => exact .nil
  | cons d ds ih =>
    obtain ⟨hrd, hrds⟩ := List.forall_mem_cons.mp hr
    obtain ⟨hgd, hgds⟩ := List.forall_mem_cons.mp hg
    have hd : Remarked d.decs := hgd.remarked d.kind.marks
    have hdecl : Firm (declOutput style d) := Decl.firm hrd hgd
    exact (((NeatLines.gap _).append (.comments hd.leading 0 true)).append (.gap _)).append
      (.row (neatCells_withComment hdecl.before hd.trailing).merge (ih hrds hgds _))

theorem neatLines_file {file : SourceFile} (hr : file.Regular)
    (hg : Genuine file.words file.comments) : NeatLines (fileLines style file) := by
  have hd : Remarked file.packageDecs := hg.remarked [.name file.package false]
    fun m hm => List.mem_append_left _ (List.mem_append_left _ hm)
  have htrailing : Remarks file.trailingComments := hg.remarks fun m hm => List.mem_append_right _ hm
  have hname : Firm [.word file.package] := hg.ident (by simp [SourceFile.words])
  have hpackage : Firm [keywordPiece .package, .space, .word file.package] :=
    (Firm.keywordSpace .package).append hname
  have hdecls : NeatLines (declLines style none file.decls) := by
    refine neatLines_decls hr (fun d hmem => hg.part (fun k hk => ?_) fun m hm => ?_) none
    · exact List.mem_append_right _ (List.mem_flatMap.mpr ⟨d, hmem, hk⟩)
    · exact List.mem_append_left _ (List.mem_append_right _ (List.mem_flatMap.mpr ⟨d, hmem, hm⟩))
  have hstart := (NeatLines.comments hd.leading 0 true).append
    (.gap (!file.packageDecs.leading.isEmpty && file.packageDecs.blankBefore))
  exact (hstart.append (.row (neatCells_withComment hpackage.before hd.trailing).merge hdecls)).append
    (.comments htrailing 0 false)

end Print

/-- An accepted file is printed in layout normal form. -/
theorem print_laidOut {source : String} {file : SourceFile} (h : parseFile source = .ok file)
    (style : Print.Style) :
    (file.print style).toList = (Print.fileOutput style file).chars ∧
      Print.LaidOut (Print.fileOutput style file) := by
  have hgenuine := Print.genuine_parseFile h
  have hlines : Print.NeatLines (Print.fileLines style file) :=
    Print.neatLines_file (Parse.regular_parseFile h) hgenuine
  obtain ⟨hneat, hline⟩ := hlines.render style.align Print.Spot.start ⟨rfl, rfl⟩
  refine ⟨Print.toList_render _, Print.laidOut_of_neat hneat hline fun hnil => ?_⟩
  have hwords := (Print.written_parseFile h style).words
  rw [hnil] at hwords
  cases hwords

/-- A file with empty lines at its start and its end, next to brackets and behind one another. -/
def airySource : String :=
  "\n\npackage p\n\n\n\nfunc f() \x7b // a\n\n\n\tg(\n\n\t\t1,\n\n\t)  \n\n\n\t// b\n\n\x7d\n\n\n"

theorem print_laidOut_airy :
    ∃ file, parseFile airySource = .ok file ∧
      file.print {} = "package p\n\nfunc f() \x7b // a\n\tg(\n\t\t1,\n\t)\n\n\t// b\n\x7d\n" ∧
      (file.print {}).toList = (Print.fileOutput {} file).chars ∧
      Print.LaidOut (Print.fileOutput {} file) := by
  have hprint : (parseFile airySource).toOption.map (·.print {}) =
      some "package p\n\nfunc f() \x7b // a\n\tg(\n\t\t1,\n\t)\n\n\t// b\n\x7d\n" := by
    decide +kernel
  obtain ⟨file, h, hprint⟩ := exists_ok_of_map hprint
  exact ⟨file, h, hprint, print_laidOut h {}⟩

end HandlerSplit
