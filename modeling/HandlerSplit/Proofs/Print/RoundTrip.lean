import HandlerSplit.Proofs.Parse.Canonical.File
import HandlerSplit.Proofs.Print.CanonicalFile
/-!
# Reading what is printed

A canonical expression, type or file that is printed and read is the same tree (`parseExpr_print`,
`parseType_print`, `parseFile_print`), if it is not nested more deeply than the parser goes.
-/

namespace HandlerSplit

namespace Parse

variable {α : Type} {p : Parser α} {a : α} {v : View} {gap : Nat} {ctx : Context}

/-- A phrase that makes up the whole text, up to the semicolon that the end inserts. -/
theorem Yields.alone (h : Yields p v a (Script.view [] true gap ctx)) :
    Yields (Parse.alone p) v a (Script.view [] false gap ctx) :=
  .bind h (.atTrue rfl (.nextEnd (.atTrue rfl .pure)))

end Parse

namespace Print

open Parse

/-- The text of a tree is read as that tree if its tokens are. -/
theorem onText_print (phrase : Grammar → Parser Expr) {x : Expr} {F : TokenKind → Prop}
    (hsettled : SettledAnywhere x.spelling) (huncommented : x.Uncommented)
    (hspells : SpelledAnywhere {} x) (hstop : F (.semicolon true))
    (h : ∀ n, x.spelling.length < n →
      Parses (phrase (Grammar.forTokens n)) (Script.line x.spelling) x ⟨0, 0⟩ F) :
    onText (fun g => Parse.alone (phrase g)) x.print = .ok x := by
  have hscript := hspells.inside (.atStart 0) rfl
  have hkinds := kinds_eq_script (exprOutput {} x (.atStart 0))
  rw [hscript, Script.kinds_line] at hkinds
  have hgenuine : Genuine x.words (textsOf x.marks) := by
    refine ⟨fun k hk _ => (hsettled.plain k (huncommented.words hk)).legible, ?_⟩
    rw [huncommented.texts]
    exact nofun
  have hwritten := (Expr.prints {} x huncommented.regular (.atStart 0)).writes hgenuine
  refine onText_render (v := Script.view [] false 0 ⟨0, 0⟩) hwritten.legible
    (hwritten.apart none nofun).1 (hkinds ▸ hsettled.plain) (hkinds ▸ hsettled.parted)
    fun n hn => .alone ?_
  rw [hscript] at hn ⊢
  rw [Script.size_line] at hn
  have hyields := h n hn false 1 [] hstop
  rwa [List.append_nil] at hyields

end Print

open Parse

/-- There is room for the phrase of a text where the text starts. -/
theorem fits_forTokens {size nesting n m : Nat} (hnesting : nesting ≤ maxNesting) (hn : size < n)
    (hm : n ≤ m) : Fits (n + 2) m ⟨0, 0⟩ size nesting where
  levels := by omega
  turns := by omega
  depth := by simpa using hnesting
  header := by decide

/-- A canonical expression is what the parser reads in its text. -/
theorem parseExpr_print {x : Expr} (h : x.Canonical) (hnesting : x.nesting ≤ maxNesting) :
    parseExpr x.print = .ok x := by
  refine Print.onText_print (F := (continuesExpr 1 0 · = false)) (fun g => g.binaryFrom 1)
    (settled_of_canonical h) (uncommented_of_canonical h) (Print.spells_of_canonical h) rfl
    fun n hn => ?_
  have hread := readable_of_canonical h (fits_forTokens hnesting hn (Nat.le_add_right n 2)) fun _ =>
    Int.le_refl 0
  refine hread.parses ?_ (one_le_strength x)
  rw [budget_level]
  omega

/-- An expression whose operators and bounds differ in their blanks. -/
def blankedExpr : Expr :=
  .binary
    (.binary
      (.call
        (.slice (.selector (.ident "a") "b") (some (.literal .int "1")) (some (.literal .int "2"))
          (some (.literal .int "3")))
        [⟨.ident "x", .plain⟩,
          ⟨.composite (some (.ident "T")) [⟨.keyValue (.ident "k") (.unary .neg (.ident "v")), .plain⟩]
            .plain, .plain⟩]
        false .plain)
      .mul (.ident "c") false)
    .add (.literal .string "\"s\"") false

theorem parseExpr_print_blanked :
    (blankedExpr.Canonical ∧ blankedExpr.nesting ≤ maxNesting) ∧
      blankedExpr.print = "a.b[1:2:3](x, T\x7bk: -v\x7d)*c + \"s\"" ∧
      parseExpr blankedExpr.print = .ok blankedExpr := by
  have hname {n : String} (h : isName n = true) : (Expr.ident n).Canonical := .ident h
  have hint {text : String} (h : isDecimal text = true) :
      ∀ y ∈ some (Expr.literal .int text), y.Canonical := by
    rintro y ⟨⟩
    exact .int h
  have hcanonical : blankedExpr.Canonical := by
    refine .binary (.binary (.call ?_ rfl ?_ (by decide)) (hname (by decide)) (by decide)
      (by decide)) (.string (by decide)) (by decide) (by decide)
    · exact .slice (.selector (hname (by decide)) rfl rfl (by decide)) rfl (hint (by decide))
        (hint (by decide)) (hint (by decide)) fun _ => rfl
    · refine List.forall_mem_cons.mpr ⟨hname (by decide), List.forall_mem_singleton.mpr ?_⟩
      refine .composite (by decide) (List.forall_mem_singleton.mpr ?_) (by decide)
      exact List.forall_mem_cons.mpr ⟨hname (by decide),
        List.forall_mem_singleton.mpr (.unary (hname (by decide)) rfl)⟩
  have hnesting : blankedExpr.nesting ≤ maxNesting := by decide
  exact ⟨⟨hcanonical, hnesting⟩, by decide +kernel, parseExpr_print hcanonical hnesting⟩

/-- A text that a canonical type is printed as is read as that type. -/
theorem parseType_of_print {t : Expr} (h : t.CanonicalType) (hnesting : t.nesting ≤ maxNesting)
    {text : String} (htext : t.print = text) : parseType text = .ok t := by
  subst htext
  exact Print.onText_print (F := (continuesType · = false)) (fun g => g.nestedType)
    (settled_of_canonicalType h) (uncommented_of_canonicalType h) (Print.spells_of_canonicalType h)
    rfl fun n hn => parses_of_canonicalType h (fits_forTokens hnesting hn (Nat.le_add_right n 2))

/-- A canonical type is what the parser reads in its text. -/
theorem parseType_print {t : Expr} (h : t.CanonicalType) (hnesting : t.nesting ≤ maxNesting) :
    parseType t.print = .ok t :=
  parseType_of_print h hnesting rfl

/-- A function type with parameters that share a type, a variadic one and named results. -/
def groupedType : Expr :=
  .funcType
    ⟨.of [⟨["a", "b"], .ident "int", none, .plain⟩,
        ⟨["c"], .ellipsis (some (.star (.selector (.ident "p") "T"))), none, .plain⟩],
      some (.of
        [⟨["x"], .mapType (.ident "string") (.chanType .send (.arrayType none (.ident "byte"))), none,
          .plain⟩, ⟨["err"], .ident "error", none, .plain⟩])⟩

theorem parseType_print_grouped :
    (groupedType.CanonicalType ∧ groupedType.nesting ≤ maxNesting) ∧
      groupedType.print = "func(a, b int, c ...*p.T) (x map[string]chan<- []byte, err error)" ∧
      parseType groupedType.print = .ok groupedType := by
  have hname {n : String} (h : isName n = true) : (Expr.ident n).CanonicalType := .ident h
  have hcanonical : groupedType.CanonicalType := by
    refine .func ⟨⟨rfl, by decide, by decide, by decide, .inl (by decide)⟩, ?_, ?_⟩ ?_
    · rintro _ ⟨⟩
      exact ⟨rfl, by decide, by decide, by decide, .inl (by decide)⟩
    · rintro _ ⟨⟩ f hf
      cases hf
    · refine List.forall_mem_cons.mpr ⟨hname (by decide), List.forall_mem_cons.mpr
        ⟨.star (.qualified (by decide) (by decide)), List.forall_mem_cons.mpr
          ⟨.map (hname (by decide)) (.chan (.array rfl (hname (by decide))) nofun),
            List.forall_mem_singleton.mpr (hname (by decide))⟩⟩⟩
  have hnesting : groupedType.nesting ≤ maxNesting := by decide
  exact ⟨⟨hcanonical, hnesting⟩, by decide +kernel, parseType_print hcanonical hnesting⟩

/-- A file that is printed as a canonical one is read as the canonical one. -/
theorem parseFile_of_fileOutput {file other : SourceFile} (h : file.Canonical)
    (hnesting : file.nesting ≤ maxNesting) (style : Print.Style)
    (hother : Print.fileOutput style other = Print.fileOutput style file) :
    parseFile (other.print style) = .ok file := by
  have hprintable := printable_of_canonicalFile h
  have hwritten := Print.SourceFile.prints style file hprintable.regular hprintable.genuine
  have hsettled := settled_of_canonicalFile h
  have hscript : (Print.fileOutput style file).script = file.script := Print.script_fileOutput h
  have hkinds := Print.kinds_eq_script (Print.fileOutput style file)
  rw [hscript] at hkinds
  rw [SourceFile.print, hother]
  refine Print.onText_render (v := Script.view [] false 1 ⟨0, 0⟩) hwritten.legible
    (hwritten.apart none rfl).1 (hkinds ▸ hsettled.plain) (hkinds ▸ hsettled.parted) fun n hn => ?_
  rw [hscript] at hn ⊢
  exact .sourceFile h (fits_forTokens hnesting hn (Nat.le_succ n)) (Int.le_refl 0)

/-- A canonical file is what the parser reads in its text. -/
theorem parseFile_print {file : SourceFile} (h : file.Canonical)
    (hnesting : file.nesting ≤ maxNesting) (style : Print.Style) :
    parseFile (file.print style) = .ok file :=
  parseFile_of_fileOutput h hnesting style rfl

/-- A loop under a label, with an `if` statement that has an initial statement and an `else`. -/
def labeledRange : StmtKind :=
  .labeled "L"
    ⟨.rangeLoop (some (.ident "i")) none true (.ident "n")
        (.of
          [⟨.ifThen
              (some (.plain (.assign [.ident "y"] .define
                [.call (.ident "g") [⟨.ident "i", .plain⟩] false .plain])))
              (.binary (.ident "y") .gtr (.ident "x") false)
              (.of [⟨.branch .continue (some "L"), .ownLine⟩])
              (.block (.of [⟨.incDec (.ident "x") true, .ownLine⟩])), .ownLine⟩]), .ownLine⟩

theorem labeledRange_canonical : labeledRange.Canonical := by
  have hheader {n : String} (h : isName n = true) : (Expr.ident n).CanonicalHeader :=
    ⟨.ident h, rfl⟩
  have hcond : (Expr.binary (.ident "y") .gtr (.ident "x") false).Canonical :=
    .binary (.ident (by decide)) (.ident (by decide)) (by decide) (by decide)
  refine .labeled (by decide) rfl (.rangeLoop ?_ nofun nofun (fun _ => rfl)
    ⟨hheader (by decide), rfl⟩ ⟨by decide, by decide⟩ (List.forall_mem_singleton.mpr
      (.ifThen ?_ ⟨⟨hcond, rfl⟩, rfl⟩ ⟨by decide, by decide⟩
        (List.forall_mem_singleton.mpr (.branch rfl ?_)) ?_)))
  · rintro _ ⟨⟩
    exact hheader (by decide)
  · rintro _ ⟨⟩
    refine ⟨rfl, .assign (by decide) rfl (by decide), List.forall_mem_cons.mpr
      ⟨hheader (by decide), List.forall_mem_singleton.mpr ⟨?_, rfl⟩⟩⟩
    exact .call (.ident (by decide)) rfl (List.forall_mem_singleton.mpr (.ident (by decide)))
      (by decide)
  · rintro _ ⟨⟩
    decide
  · rintro _ ⟨⟩
    exact .block ⟨by decide, by decide⟩ (List.forall_mem_singleton.mpr
      (.simple (.incDec _ _) (List.forall_mem_singleton.mpr (.ident (by decide)))))

/-- A switch with values and a default. -/
def valueSwitch : StmtKind :=
  .switch none (some (.ident "x"))
    [⟨.values [.literal .int "1", .literal .int "2"], [⟨.returns [.ident "n"], .ownLine⟩],
        .ownLine⟩, ⟨.default, [], .ownLine⟩] .multiLine

theorem valueSwitch_canonical : valueSwitch.Canonical := by
  refine .switch nofun ?_ ⟨by decide, by decide⟩
    (List.forall_mem_cons.mpr ⟨.values (by decide) ?_, List.forall_mem_singleton.mpr .default⟩)
    (List.forall_mem_cons.mpr ⟨⟨by decide, by decide⟩, List.forall_mem_singleton.mpr
      ⟨by decide, by decide⟩⟩)
    (List.forall_mem_cons.mpr ⟨List.forall_mem_singleton.mpr (.returns ?_),
      List.forall_mem_singleton.mpr nofun⟩)
  · rintro _ ⟨⟩
    exact ⟨⟨.ident (by decide), rfl⟩, rfl⟩
  · exact List.forall_mem_cons.mpr ⟨.int (by decide),
      List.forall_mem_singleton.mpr (.int (by decide))⟩
  · exact List.forall_mem_singleton.mpr (.ident (by decide))

/-- A method whose statements stand behind empty lines or not. -/
def spacedMethod : FuncDecl where
  recv := some (.of [.of ["r"] (.star (.ident "T"))])
  name := "f"
  signature := ⟨.of [.of ["n"] (.ident "int")], some (.of [.of [] (.ident "int")])⟩
  body := some (.of
    [⟨.assign [.ident "x"] .define [.literal .int "0"], .ownLine⟩, ⟨labeledRange, .blankLine⟩,
      ⟨valueSwitch, .ownLine⟩, ⟨.returns [.ident "x"], .blankLine⟩])

theorem spacedMethod_canonical : spacedMethod.Canonical := by
  refine ⟨?_, by decide, ⟨⟨rfl, by decide, by decide, by decide, .inl (by decide)⟩, ?_, ?_⟩,
    List.forall_mem_cons.mpr ⟨.ident (by decide), List.forall_mem_singleton.mpr
      (.ident (by decide))⟩, _, rfl, .block ⟨by decide, by decide⟩ ?_⟩
  · rintro _ ⟨⟩
    exact ⟨⟨rfl, by decide, by decide, by decide, .inl (by decide)⟩, _, rfl, by decide,
      .star (.ident (by decide))⟩
  · rintro _ ⟨⟩
    exact ⟨rfl, by decide, by decide, by decide, .inr (by decide)⟩
  · rintro _ ⟨⟩ _ ⟨⟩ _
    rfl
  · refine List.forall_mem_cons.mpr ⟨.simple (.assign (by decide) rfl (by decide)) ?_,
      List.forall_mem_cons.mpr ⟨labeledRange_canonical, List.forall_mem_cons.mpr
        ⟨valueSwitch_canonical, List.forall_mem_singleton.mpr (.returns ?_)⟩⟩⟩
    · exact List.forall_mem_cons.mpr ⟨.ident (by decide),
        List.forall_mem_singleton.mpr (.int (by decide))⟩
    · exact List.forall_mem_singleton.mpr (.ident (by decide))

/-- A file with a method. -/
def methodFile : SourceFile where
  package := "p"
  packageDecs := .ownLine
  decls := [.appended spacedMethod]
  trailingComments := []

theorem parseFile_print_method :
    (methodFile.Canonical ∧ methodFile.nesting ≤ maxNesting) ∧
      methodFile.print {} =
        "package p\n\nfunc (r *T) f(n int) int \x7b\n\tx := 0\n\nL:\n\tfor i := range n \x7b\n" ++
          "\t\tif y := g(i); y > x \x7b\n\t\t\tcontinue L\n\t\t\x7d else \x7b\n\t\t\tx++\n" ++
          "\t\t\x7d\n\t\x7d\n\tswitch x \x7b\n\tcase 1, 2:\n\t\treturn n\n\tdefault:\n\t\x7d\n\n" ++
          "\treturn x\n\x7d\n" ∧
      parseFile (methodFile.print {}) = .ok methodFile := by
  have hcanonical : methodFile.Canonical :=
    ⟨by decide, rfl, List.forall_mem_singleton.mpr ⟨_, rfl, spacedMethod_canonical⟩, rfl⟩
  have hnesting : methodFile.nesting ≤ maxNesting := by decide
  exact ⟨⟨hcanonical, hnesting⟩, by decide +kernel, parseFile_print hcanonical hnesting {}⟩

end HandlerSplit
