import HandlerSplit.Proofs.Print.Lined
import HandlerSplit.Proofs.Print.RoundTrip
import HandlerSplit.Proofs.Tree.CanonicalNodes
import HandlerSplit.Proofs.Tree.CanonicalSubst
/-!
# Files that are read again

A file that was put together from canonical parts need not be canonical itself: the statements of a
body may have kept the layout of where they came from. If they have no comments that makes no
difference, as each is printed on a line of its own. Such a file is readable: its printed text is
read as the canonical file it is printed as (`SourceFile.Readable.parse`).
-/

namespace HandlerSplit

open Parse (maxNesting)

variable {n growth : Nat}

/-! ## Statements -/

/-- A canonical statement of a body, nested less than `n` levels deep. Its layout is left open, but
for comments. -/
structure Stmt.Readable (n : Nat) (t : Stmt) : Prop where
  canonical : t.kind.Canonical
  comments : t.decs.hasComments = false
  nesting : t.kind.nesting < n

/-- A block of readable statements. -/
def Block.Readable (n : Nat) (b : Block) : Prop :=
  ∃ ss, b = .of ss ∧ ∀ t ∈ ss, t.Readable n

/-- A node has no comments if none stands before it and none trails it. -/
theorem Decorations.hasComments_eq_false_iff {d : Decorations} :
    d.hasComments = false ↔ d.leading = [] ∧ d.trailing = none := by
  simp [hasComments]

/-- A node without comments stands on its line as `Decorations.onLine` says. -/
theorem Decorations.lined_eq_onLine {d : Decorations} (h : d.hasComments = false) (first : Bool) :
    d.lined first = .onLine (d.blankBefore && !first) := by
  obtain ⟨hleading, htrailing⟩ := hasComments_eq_false_iff.mp h
  rw [lined, onLine, hleading, htrailing]
  simp

/-- Putting statements on lines of their own leaves their kinds as they are. -/
theorem mem_linedStmts {ts : List Stmt} {t : Stmt} (h : t ∈ linedStmts ts) :
    ∃ t' ∈ ts, t.kind = t'.kind := by
  cases ts with
  | nil => cases h
  | cons u us =>
    rcases List.mem_cons.mp h with rfl | h
    · exact ⟨u, List.mem_cons_self, rfl⟩
    · obtain ⟨u', hu', rfl⟩ := List.mem_map.mp h
      exact ⟨u', List.mem_cons_of_mem _ hu', rfl⟩

/-- Statements without comments are laid out line by line. -/
theorem ownLines_linedStmts {ts : List Stmt} (h : ∀ t ∈ ts, t.decs.hasComments = false) :
    OwnLines ((linedStmts ts).map Stmt.decs) := by
  cases ts with
  | nil => exact ⟨nofun, nofun⟩
  | cons t ts =>
    obtain ⟨ht, hts⟩ := List.forall_mem_cons.mp h
    have hlines {t : Stmt} (ht : t.decs.hasComments = false) (first : Bool) :
        t.decs.lined first = .onLine (t.decs.lined first).blankBefore := by
      rw [Decorations.lined_eq_onLine ht]
      rfl
    refine ⟨List.forall_mem_map.mpr (List.forall_mem_cons.mpr ⟨hlines ht true, ?_⟩), ?_⟩
    · exact List.forall_mem_map.mpr fun u hu => hlines (hts u hu) false
    · rintro _ ⟨⟩
      show (t.decs.lined true).blankBefore = false
      rw [Decorations.lined_eq_onLine ht]
      exact Bool.and_false _

/-- A readable block is printed as a canonical one. -/
theorem Block.Readable.lined {b : Block} (h : b.Readable n) :
    (StmtKind.block b.lined).Canonical ∧ (0 < n → b.lined.nesting ≤ n) := by
  obtain ⟨ss, rfl, hss⟩ := h
  refine ⟨.block (ownLines_linedStmts fun t ht => (hss t ht).comments) fun t ht => ?_, fun hn => ?_⟩
  · obtain ⟨u, hu, hkind⟩ := mem_linedStmts ht
    exact hkind ▸ (hss u hu).canonical
  · have hle : stmtsNesting (linedStmts ss) ≤ n - 1 := by
      refine stmtsNesting_le_iff.mpr fun t ht => ?_
      obtain ⟨u, hu, hkind⟩ := mem_linedStmts ht
      exact hkind ▸ Nat.le_pred_of_lt (hss u hu).nesting
    show stmtsNesting (linedStmts ss) + 1 ≤ n
    omega

/-- The body of a canonical block is readable. -/
theorem Block.readable_of_canonical {b : Block} (h : (StmtKind.block b).Canonical)
    (hnesting : b.nesting ≤ n) : b.Readable n := by
  cases h with
  | simple hkind => cases hkind
  | @block ss hlines hss =>
    have hle : stmtsNesting ss + 1 ≤ n := hnesting
    refine ⟨ss, rfl, fun t ht => ⟨hss t ht, ?_, ?_⟩⟩
    · rw [hlines.lines _ (List.mem_map_of_mem ht)]
      rfl
    · exact Nat.lt_of_lt_of_le (Nat.lt_succ_of_le (nesting_le_of_mem_stmts ht)) hle

/-- A mild substitution keeps a block readable. -/
theorem Block.Readable.subst {s : Substitution} (hs : s.Mild growth) {b : Block}
    (h : b.Readable n) : (b.subst s).Readable (n + growth) := by
  obtain ⟨ss, rfl, hss⟩ := h
  refine ⟨substStmts s ss, rfl, ?_⟩
  rw [substStmts_eq_map, List.forall_mem_map]
  intro t ht
  obtain ⟨hcanonical, hcomments, hnesting⟩ := hss t ht
  obtain ⟨hdecs, hcanonical', hnesting'⟩ :=
    Stmt.succeeds_subst hs hcanonical (hcanonical.subst hs)
  exact ⟨hcanonical', hdecs ▸ hcomments, by omega⟩

/-! ## Functions and files -/

/-- A canonical signature that the parser has levels for. -/
structure Signature.Readable (g : Signature) : Prop where
  shaped : g.Shaped
  types : ∀ t ∈ g.types, t.CanonicalType
  nesting : g.nesting ≤ maxNesting

/-- A function of canonical parts, whose body is nested at most `n` levels deep. -/
structure FuncDecl.Readable (n : Nat) (f : FuncDecl) : Prop where
  recv : ∀ recv ∈ f.recv, recv.CanonicalReceiver ∧ recv.nesting ≤ maxNesting
  name : isName f.name = true
  signature : f.signature.Readable
  body : ∃ b, f.body = some b ∧ b.Readable n

/-- A file of functions that are readable. -/
structure SourceFile.Readable (n : Nat) (file : SourceFile) : Prop where
  package : isName file.package = true
  packageDecs : file.packageDecs = .ownLine
  decls : ∀ d ∈ file.decls, ∃ f, d = .appended f ∧ f.Readable n
  trailingComments : file.trailingComments = []

/-- A function is as deep as the deepest of its parts. -/
theorem FuncDecl.nesting_le_iff {f : FuncDecl} :
    f.nesting ≤ n ↔ (∀ recv ∈ f.recv, recv.nesting ≤ n) ∧ f.signature.nesting ≤ n ∧
      ∀ b ∈ f.body, b.nesting ≤ n := by
  have helim {α : Type} (x : Option α) (size : α → Nat) :
      x.elim 0 size ≤ n ↔ ∀ y ∈ x, size y ≤ n := by
    cases x <;> simp
  rw [nesting, Nat.max_le, Nat.max_le, helim, helim, and_assoc]

/-- A readable function is printed as a canonical one. -/
theorem FuncDecl.Readable.lined {f : FuncDecl} (h : f.Readable maxNesting) :
    f.lined.Canonical ∧ f.lined.nesting ≤ maxNesting := by
  obtain ⟨hrecv, hname, hsignature, b, hbody, hb⟩ := h
  obtain ⟨recv, name, signature, body⟩ := f
  obtain rfl : body = some b := hbody
  obtain ⟨hcanonical, hnesting⟩ := hb.lined
  refine ⟨⟨fun r hr => (hrecv r hr).1, hname, hsignature.shaped, hsignature.types, b.lined, rfl,
    hcanonical⟩, FuncDecl.nesting_le_iff.mpr ⟨fun r hr => (hrecv r hr).2, hsignature.nesting, ?_⟩⟩
  rintro _ ⟨⟩
  exact hnesting (by decide)

/-- A file is as deep as the deepest of its declarations. -/
theorem SourceFile.nesting_le_iff {file : SourceFile} :
    file.nesting ≤ n ↔ ∀ d ∈ file.decls, d.nesting ≤ n := by
  rw [nesting]
  induction file.decls with
  | nil => exact iff_of_true (Nat.zero_le n) (List.forall_mem_nil _)
  | cons d ds ih => rw [List.map_cons, List.foldr_cons, Nat.max_le, ih, List.forall_mem_cons]

/-- A readable file is printed as a canonical one. -/
theorem SourceFile.Readable.lined {file : SourceFile} (h : file.Readable maxNesting) :
    file.lined.Canonical ∧ file.lined.nesting ≤ maxNesting := by
  refine ⟨⟨h.package, h.packageDecs, List.forall_mem_map.mpr fun d hd => ?_, h.trailingComments⟩,
    nesting_le_iff.mpr (List.forall_mem_map.mpr fun d hd => ?_)⟩
  · obtain ⟨f, rfl, hf⟩ := h.decls d hd
    exact ⟨f.lined, rfl, hf.lined.1⟩
  · obtain ⟨f, rfl, hf⟩ := h.decls d hd
    exact hf.lined.2

/-- The text of a readable file is read as the file that it is printed as. -/
theorem SourceFile.Readable.parse {file : SourceFile} (h : file.Readable maxNesting)
    (style : Print.Style) : parseFile (file.print style) = .ok file.lined :=
  parseFile_of_fileOutput h.lined.1 h.lined.2 style (Print.fileOutput_lined style file).symm

/-- A canonical function is readable. -/
theorem FuncDecl.readable_of_canonical {f : FuncDecl} (h : f.Canonical) (hnesting : f.nesting ≤ n)
    (hn : n ≤ maxNesting) : f.Readable n := by
  obtain ⟨hrecv, hname, hshaped, htypes, b, hbody, hb⟩ := h
  obtain ⟨hrecvNesting, hsignatureNesting, hbodyNesting⟩ := nesting_le_iff.mp hnesting
  exact ⟨fun r hr => ⟨hrecv r hr, Nat.le_trans (hrecvNesting r hr) hn⟩, hname,
    ⟨hshaped, htypes, Nat.le_trans hsignatureNesting hn⟩, b, hbody,
    Block.readable_of_canonical hb (hbodyNesting b hbody)⟩

/-- A canonical file is readable. -/
theorem SourceFile.readable_of_canonical {file : SourceFile} (h : file.Canonical)
    (hnesting : file.nesting ≤ n) (hn : n ≤ maxNesting) : file.Readable n := by
  refine ⟨h.package, h.packageDecs, fun d hd => ?_, h.trailingComments⟩
  obtain ⟨f, rfl, hf⟩ := h.decls d hd
  exact ⟨f, rfl, FuncDecl.readable_of_canonical hf (nesting_le_iff.mp hnesting _ hd) hn⟩

/-! ## Changes -/

/-- A block that can be read with few levels can be read with more. -/
theorem Block.Readable.mono {b : Block} {m : Nat} (h : b.Readable n) (hle : n ≤ m) :
    b.Readable m := by
  obtain ⟨ss, rfl, hss⟩ := h
  refine ⟨ss, rfl, fun t ht => ?_⟩
  obtain ⟨hcanonical, hcomments, hnesting⟩ := hss t ht
  exact ⟨hcanonical, hcomments, Nat.lt_of_lt_of_le hnesting hle⟩

/-- A file that can be read with few levels can be read with more. -/
theorem SourceFile.Readable.mono {file : SourceFile} {m : Nat} (h : file.Readable n) (hle : n ≤ m) :
    file.Readable m := by
  refine ⟨h.package, h.packageDecs, fun d hd => ?_, h.trailingComments⟩
  obtain ⟨f, rfl, hrecv, hname, hsignature, b, hbody, hb⟩ := h.decls d hd
  exact ⟨f, rfl, hrecv, hname, hsignature, b, hbody, hb.mono hle⟩

/-- A function of a readable file is readable. -/
theorem SourceFile.Readable.func {file : SourceFile} (h : file.Readable n) {i : Nat} {f : FuncDecl}
    (hf : file.func? i = some f) : f.Readable n := by
  obtain ⟨d, hd, hfunc⟩ := Option.bind_eq_some_iff.mp hf
  obtain ⟨g, rfl, hg⟩ := h.decls d (List.mem_of_getElem? hd)
  obtain rfl : g = f := Option.some.inj hfunc
  exact hg

/-- A file stays readable if a readable function is put in the place of one. -/
theorem SourceFile.Readable.setFunc {file : SourceFile} (h : file.Readable n) (i : Nat)
    {f : FuncDecl} (hf : f.Readable n) : (file.setFunc i f).Readable n := by
  refine ⟨h.package, h.packageDecs, fun d hd => ?_, h.trailingComments⟩
  obtain ⟨j, hj⟩ := List.mem_iff_getElem?.mp hd
  obtain ⟨e, he, rfl⟩ : ∃ e, file.decls[j]? = some e ∧
      (if i = j then { e with kind := .func f } else e) = d := by
    rw [SourceFile.setFunc, List.getElem?_modify] at hj
    exact Option.map_eq_some_iff.mp hj
  obtain ⟨g, rfl, hg⟩ := h.decls e (List.mem_of_getElem? he)
  by_cases hij : i = j
  · rw [if_pos hij]
    exact ⟨f, rfl, hf⟩
  · rw [if_neg hij]
    exact ⟨g, rfl, hg⟩

/-- A file stays readable if readable functions are appended. -/
theorem SourceFile.Readable.append {file : SourceFile} (h : file.Readable n) {ds : List Decl}
    (hds : ∀ d ∈ ds, ∃ f, d = .appended f ∧ f.Readable n) :
    ({ file with decls := file.decls ++ ds } : SourceFile).Readable n :=
  ⟨h.package, h.packageDecs, List.forall_mem_append.mpr ⟨h.decls, hds⟩, h.trailingComments⟩

end HandlerSplit
