import HandlerSplit.Parse.Source
import HandlerSplit.Proofs.Parse.Canonical.Stmt
import HandlerSplit.Proofs.Parse.Canonical.Types
/-!
# Reading canonical files

The script of a canonical function is read as that function, and functions are read one after the
other up to the end of the text (`Yields.sourceFile`).
-/

namespace HandlerSplit.Parse

open Script (line)

variable {budget m : Nat} {ctx : Context}

/-! ## Functions -/

/-- A receiver where there is room for it. -/
theorem Parses.receiver {recv : FieldList} (h : recv.CanonicalReceiver)
    (hfits : Fits budget m ctx recv.spelling.length recv.nesting) :
    Parses (Grammar.level budget (m + 1)).params (line recv.spelling) recv ctx fun _ => True := by
  obtain ⟨huniform, field, hfields, -, htype⟩ := h
  obtain ⟨fs, e⟩ := recv
  obtain rfl : fs = [field] := hfields
  have hlength : (FieldList.spelling ⟨[field], e⟩).length =
      (separated (fieldSpellings [field])).length + 2 := by
    simp [FieldList.spelling]
  have htypes : ∀ f ∈ [field], f.type.variadicElem.CanonicalType ∧
      TypeReadableAnywhere budget f.type.variadicElem := by
    rw [List.forall_mem_singleton, variadicElem_of_canonicalType htype]
    exact ⟨htype, parses_of_canonicalType htype⟩
  have hinner := innerParam_of_mem htypes (hfits.part (k := 0) (by omega) (Nat.le_refl _))
  exact .params huniform hinner (by rw [budget_level]; exact hfits.turns)

/-- A function where there is room for it. -/
theorem Parses.funcDecl {f : FuncDecl} (h : f.Canonical)
    (hfits : Fits budget m ctx f.script.size f.nesting) (hlevel : 0 ≤ ctx.exprLevel) :
    Parses (Grammar.level budget (m + 1)).funcDecl f.script f ctx fun _ => True := by
  intro semi gap rest _
  obtain ⟨hrecv, -, hshaped, htypes, b, hbody, hcanonical⟩ := h
  cases hcanonical with
  | simple hkind => cases hkind
  | @block ss hlines hss =>
    obtain ⟨recv, name, sig, body⟩ := f
    obtain rfl : body = some (.of ss) := hbody
    have hscript : FuncDecl.script ⟨recv, name, sig, some (.of ss)⟩ =
        .token (.keyword .func) :: (line (recv.elim [] FieldList.spelling) ++
          .token (.ident name) :: (line sig.spelling ++ (Block.of ss).script)) := by
      simp [FuncDecl.script]
    have hsize : (FuncDecl.script ⟨recv, name, sig, some (.of ss)⟩).size =
        (recv.elim [] FieldList.spelling).length + sig.spelling.length + (Block.of ss).script.size +
          2 := by
      rw [hscript]
      simp [Script.size]
      omega
    have hnesting : FuncDecl.nesting ⟨recv, name, sig, some (.of ss)⟩ =
      max (max (recv.elim 0 FieldList.nesting) sig.nesting) (Block.of ss).nesting := rfl
    have hrecvRoom : Fits budget m ctx (recv.elim [] FieldList.spelling).length
      (recv.elim 0 FieldList.nesting) := hfits.part (k := 0) (by omega) (by omega)
    have hsigRoom : Fits budget m ctx sig.spelling.length sig.nesting :=
      hfits.part (k := 0) (by omega) (by omega)
    have hblock := innerBlock_of ⟨hlines, hss, fun s hs => readable_of_canonicalStmt (hss s hs)⟩
      (hfits.part (k := 0) (by omega) (by omega)) hlevel
    obtain ⟨s, hs, hbody⟩ := Yields.body hblock true rest
    have hsig := Parses.signatureOf hshaped
      (fun t ht => ⟨htypes t ht, parses_of_canonicalType (htypes t ht)⟩) hsigRoom true 0
      (.token (.punct .lbrace) :: s) rfl
    rw [hscript, List.cons_append, List.append_assoc, List.cons_append, List.append_assoc, hs]
    cases recv with
    | none =>
      exact .expectKeyword (.bind (.atFalse rfl .pure) (.expectIdent (.bind hsig
        (.bind (.atTrue rfl (.bind hbody .pure)) .pure))))
    | some recv =>
      have hparams := Parses.receiver (hrecv recv rfl) hrecvRoom false 0
        (.token (.ident name) :: (line sig.spelling ++ .token (.punct .lbrace) :: s)) trivial
      obtain ⟨fs, e⟩ := recv
      exact .expectKeyword (.bind (.atTrue rfl (.bind hparams .pure)) (.expectIdent (.bind hsig
        (.bind (.atTrue rfl (.bind hbody .pure)) .pure))))

/-! ## Files -/

/-- The script of a function starts with its keyword. -/
theorem exists_script_func (f : FuncDecl) : ∃ s, f.script = .token (.keyword .func) :: s :=
  ⟨_, rfl⟩

/-- A function of a file stands behind an empty line. -/
theorem script_appended (f : FuncDecl) :
    Decl.script (.appended f) = Script.gap true ++ (f.script ++ [.lineBreak]) :=
  rfl

/-- Line breaks do not count as tokens. -/
theorem size_script_appended (f : FuncDecl) : (Decl.script (.appended f)).size = f.script.size := by
  simp [script_appended, Script.size]

/-- Functions one after the other, up to the end of the text. -/
theorem Yields.decls {ds : List Decl} (h : ∀ d ∈ ds, ∃ f, d = .appended f ∧ f.Canonical)
    (hfits : ∀ d ∈ ds, Fits budget m ctx d.script.size d.nesting) (hlevel : 0 ≤ ctx.exprLevel)
    (hn : ds.length < budget) :
    Yields (Grammar.level budget (m + 1)).decls
      (Script.view (ds.flatMap Decl.script) false 1 ctx) ds (Script.view [] false 1 ctx) := by
  rw [← List.append_nil (ds.flatMap Decl.script)]
  refine .lines (fun _ => True) (by rw [budget_level]; exact hn) ?_ trivial
    (fun _ _ _ => trivial) fun d hd rest _ => ?_
  · exact .peekKind .pure
  · obtain ⟨f, rfl, hf⟩ := h d hd
    have hroom := hfits _ hd
    rw [size_script_appended] at hroom
    have hread := Parses.funcDecl hf hroom hlevel false 2 (.lineBreak :: rest) trivial
    obtain ⟨s, hs⟩ := exists_script_func f
    rw [script_appended, List.append_assoc, view_gap, List.append_assoc]
    rw [hs] at hread ⊢
    have hdecl : Yields (Grammar.level budget (m + 1)).declKind
        (Script.view (.token (.keyword .func) :: s ++ .lineBreak :: rest) false 2 ctx) (.func f)
        (Script.view (.lineBreak :: rest) true 0 ctx) :=
      .peekToken (.bind hread .pure)
    exact .peekToken (.onLine (.bind hdecl (.atFalse rfl (.expectTerminator
      (.claimTrailing .pure)))))

/-- A file where there is room for it. -/
theorem Yields.sourceFile {file : SourceFile} (h : file.Canonical)
    (hfits : Fits budget m ctx file.script.size file.nesting) (hlevel : 0 ≤ ctx.exprLevel) :
    Yields (Grammar.level budget (m + 1)).sourceFile (file.script.view false 1 ctx) file
      (Script.view [] false 1 ctx) := by
  have hsize : file.script.size = Script.size (file.decls.flatMap Decl.script) + 2 := by
    simp [SourceFile.script, Script.size]
  have hroom (d : Decl) (hd : d ∈ file.decls) : Fits budget m ctx d.script.size d.nesting := by
    have hle := Script.size_le_flatMap (f := Decl.script) hd
    exact hfits.part (k := 0) (by omega) (SourceFile.nesting_le_of_mem hd)
  have hlength : file.decls.length ≤ Script.size (file.decls.flatMap Decl.script) := by
    refine Script.length_le_size_flatMap fun d hd => ?_
    obtain ⟨f, rfl, -⟩ := h.decls d hd
    obtain ⟨s, hs⟩ := exists_script_func f
    rw [size_script_appended, hs]
    exact Nat.succ_pos _
  have hturns := hfits.turns
  have hdecls := Yields.decls h.decls hroom hlevel (by omega)
  obtain ⟨package, decs, ds, comments⟩ := file
  obtain rfl : decs = .ownLine := h.packageDecs
  obtain rfl : comments = [] := h.trailingComments
  exact .startDecorations (.expectKeyword (.expectIdent (.expectTerminator (.claimTrailing
    (.bind hdecls (.bind .claimComments .pure))))))

end HandlerSplit.Parse
