import HandlerSplit.Print.Parts
import HandlerSplit.Proofs.Print.Layout.Lists
/-!
# Laying out the parts of statements and declarations

A node may stand anywhere if its parts may, and its lines are neat. Only the empty statement writes
nothing; it is no statement of a block, and as a labeled statement it leaves its label alone.
-/

namespace HandlerSplit.Print

open Output (commaSeparated joined names)
open Spot

variable {o : Output} {P Q : Spot → Prop}

/-! ## Words and spaces -/

/-- A phrase behind another, with a space between them. -/
theorem Firm.spaced (ho : Firm o) {b : Option Output} (hb : ∀ o ∈ b, Firm o) : Firm (spaced o b) := by
  cases b with
  | none => exact ho
  | some b =>
    have hspaced : Lays Anywhere ([.space] ++ b) Inked := Lays.space.append (hb b rfl)
    exact ho.then hspaced

/-- A phrase behind a space. -/
theorem Firm.space (ho : Firm o) : Firm (.space :: o) :=
  Lays.append (a := [.space]) (Q := Anywhere) .space ho

/-- A reserved word with a space may stand anywhere. -/
theorem Firm.keywordSpace (w : Keyword) : Lays Anywhere [keywordPiece w, .space] Anywhere :=
  Lays.then (a := [keywordPiece w]) (Firm.keyword w) .space

/-- Names with commas between them may stand anywhere. -/
theorem Firm.names {ns : List String} (h : ∀ n ∈ ns, Firm [.word n]) (hne : ns ≠ []) :
    Firm (Output.names ns) :=
  .commaSeparated (List.forall_mem_map.mpr h) (mt List.map_eq_nil_iff.mp hne)

theorem neatCell_comment {comment : Option Comment} (h : Remarks comment.toList) :
    ∀ c ∈ (comment.map fun c => [Piece.word c.text]).toList, NeatCell c := by
  cases comment with
  | none => exact List.forall_mem_nil _
  | some c => exact List.forall_mem_singleton.mpr (.inr (.comment (h c List.mem_cons_self)))

/-! ## Fields -/

/-- The printed form of a field whose parts may stand anywhere. -/
structure NeatField (f : FieldText) : Prop where
  names : ∀ n ∈ f.names, Firm [.word n]
  type : Firm f.type
  signature : ∀ s ∈ f.signature, Firm s
  tag : ∀ t ∈ f.tag, Firm [.word t]
  remarked : Remarked f.decs

namespace NeatField

variable {f : FieldText}

theorem output (h : NeatField f) : Firm f.output := by
  refine Firm.spaced (b := f.tag.map fun tag => [.word tag]) ?_ fun t ht => ?_
  · split
    · exact h.type
    · rename_i hne
      exact (Firm.names h.names fun hnil => hne (List.isEmpty_iff.mpr hnil)).then h.type.space
  · obtain ⟨tag, htag, rfl⟩ := Option.map_eq_some_iff.mp ht
    exact h.tag tag htag

/-- A member of an interface or a struct may stand anywhere. -/
theorem member (h : NeatField f) (isStruct : Bool) : Firm (f.member isStruct) := by
  unfold FieldText.member
  split
  · rename_i signature name hsignature hnames
    have hname : Firm [.word name] := h.names name (by rw [hnames]; exact List.mem_cons_self)
    exact hname.then (h.signature signature hsignature)
  · exact h.output

/-- The cells of a field are neat. -/
theorem structCells (h : NeatField f) : NeatCells f.structCells := by
  have hcell {t : String} (ht : Lays Fresh [.word t] Inked) : NeatCell [.word t] := .inr ht
  have hempty : ∀ c ∈ [([] : Output)], NeatCell c := List.forall_mem_singleton.mpr (.inl rfl)
  rw [FieldText.structCells]
  refine NeatCells.append (NeatCells.append ?_ ?_) ?_
  · split
    · rename_i hnamed
      have hne : f.names ≠ [] := fun hnil => by rw [hnil] at hnamed; cases hnamed
      exact ⟨(Firm.names h.names hne).before, List.forall_mem_singleton.mpr h.type.cell⟩
    · exact ⟨h.type.before, List.forall_mem_nil _⟩
  · split
    · rename_i tag htag
      have hword := List.forall_mem_singleton.mpr (hcell (h.tag tag htag).before)
      split
      · exact hword
      · exact List.forall_mem_append.mpr ⟨hempty, hword⟩
    · exact List.forall_mem_nil _
  · split
    · rename_i c hc
      have hremark := h.remarked.trailing c (by rw [hc]; exact List.mem_cons_self)
      refine List.forall_mem_append.mpr ⟨?_, List.forall_mem_singleton.mpr (hcell (.comment hremark))⟩
      split
      · exact hempty
      · exact List.forall_mem_nil _
    · exact List.forall_mem_nil _

end NeatField

/-- The members between braces stand on neat lines. -/
theorem neatLines_members (isStruct : Bool) {fs : List FieldText} (h : ∀ f ∈ fs, NeatField f)
    (indent : Nat) (first : Bool) : NeatLines (memberLines isStruct indent first fs) := by
  induction fs generalizing first with
  | nil => exact .nil
  | cons f fs ih =>
    obtain ⟨hf, hfs⟩ := List.forall_mem_cons.mp h
    refine (NeatLines.leading hf.remarked.leading indent first).append (.row ?_ (ih hfs false))
    refine NeatCells.merge ?_
    split
    · exact hf.structCells
    · exact neatCells_withComment (hf.member false).before hf.remarked.trailing

section

variable {fs : List FieldText} (h : ∀ f ∈ fs, NeatField f) {e : Enclosure}
  (he : EnclosureRemarked e) (style : Style) (indent : Nat)

include h he

/-- Parameters in parentheses may stand anywhere. -/
theorem Firm.params : Firm (paramsOutput style e indent fs) :=
  .bracketed .lparen .rparen rfl rfl
    (List.forall_mem_map.mpr fun f hf => (h f hf).remarked) he
    (List.forall_mem_map.mpr fun f hf => .plain (h f hf).output) style indent false

omit he in
/-- Fields between braces may stand anywhere. -/
theorem Firm.fieldBlock {list : FieldList} (he : EnclosureRemarked list.enclosure)
    (isStruct : Bool) : Firm (fieldBlock style isStruct list indent fs) := by
  have hopen : Lays Anywhere [.word "\x7b"] Near := (Lays.opening (m := .lbrace) rfl).behind
  have hclose : Lays Near [.word "\x7d"] Inked := .closing (m := .rbrace) rfl
  unfold Print.fieldBlock
  dsimp only
  generalize (if isStruct then Keyword.struct else .interface) = keyword
  split
  · split
    · rename_i f
      have hmember := (h f List.mem_cons_self).member isStruct
      have hstart : Lays Anywhere
          [keywordPiece keyword, .word "\x7b", .space] Anywhere :=
        Lays.then (a := [_]) (Firm.keyword _)
          (Lays.then (a := [_]) hopen .space)
      have hend : Lays Inked [.space, .word "\x7d"] Inked :=
        Lays.append (a := [.space]) (Lays.space (P := Near)).before hclose
      exact (hstart.append hmember).append hend
    · exact Lays.then (a := [_]) (Firm.keyword _) (Lays.append (a := [_]) hopen hclose)
  · have hlines := (neatLines_members isStruct h (indent + 1) true).append
      (NeatLines.comments he.closing (indent + 1) fs.isEmpty)
    have hbraced := Firm.braced style .lbrace .rbrace rfl rfl he indent hlines
    exact (Firm.keywordSpace _).append hbraced

end

/-! ## Statements -/

/-- The printed form of a statement that is not empty. -/
structure NeatStmt (s : StmtText) : Prop where
  text : Firm s.text
  lead : NeatLines s.lead
  own : Firm s.own
  innerTrailing : Remarks s.innerTrailing.toList
  remarked : Remarked s.decs

theorem Remarks.or {c c' : Option Comment} (h : Remarks c.toList) (h' : Remarks c'.toList) :
    Remarks (c.or c').toList := by
  cases c with
  | none => exact h'
  | some c => exact h

/-- A statement without a label is neat if its text may stand anywhere. -/
theorem NeatStmt.plain (ho : Firm o) {d : Decorations} (hd : Remarked d) (indent : Nat) :
    NeatStmt (.plain indent o d) :=
  ⟨ho, .nil, ho, List.forall_mem_nil _, hd⟩

/-- A label stands alone before the empty statement. -/
theorem NeatStmt.labeled {label : String} (hlabel : Firm [.word label]) {inner : StmtText}
    (hinner : inner.isEmpty = false → NeatStmt inner) {d : Decorations} (hd : Remarked d)
    (indent : Nat) : NeatStmt (.labeled indent label inner d) := by
  have hcolon : Firm [.word ":"] := Firm.mark .colon rfl rfl
  have hhead : Firm [.word label, .word ":"] := hlabel.then hcolon
  unfold StmtText.labeled
  split
  · exact ⟨hhead, .nil, hhead, List.forall_mem_nil _, hd⟩
  · rename_i hempty
    rw [Bool.not_eq_true] at hempty
    have h := hinner hempty
    have hbreak : Lays Inked [.newline, .tabs indent] Anywhere :=
      Lays.append (a := [.newline]) .lineEnd (.tabs (P := Anywhere) indent)
    have hrest := (NeatLines.comments h.remarked.leading indent true).append h.lead
    exact ⟨(hhead.append hbreak).append h.text, .row (NeatCells.merge ⟨hhead.before, List.forall_mem_nil _⟩) hrest,
      h.own, h.remarked.trailing.or h.innerTrailing, hd⟩

/-- A neat statement stands on neat lines. -/
theorem NeatStmt.lines {s : StmtText} (h : NeatStmt s) : NeatLines s.lines :=
  h.lead.append (.line _ (neatCells_withComment h.own.before
    (h.remarked.trailing.or h.innerTrailing)))

/-- Neat statements stand on neat lines. -/
theorem neatLines_stmts {ss : List StmtText} (h : ∀ s ∈ ss, NeatStmt s) (indent : Nat)
    (first : Bool) : NeatLines (stmtLines indent first ss) := by
  induction ss generalizing first with
  | nil => exact .nil
  | cons s ss ih =>
    obtain ⟨hs, hss⟩ := List.forall_mem_cons.mp h
    rw [stmtLines]
    split
    · exact ih hss first
    · exact ((NeatLines.leading hs.remarked.leading indent first).append hs.lines).append
        (ih hss false)

section

variable {ss : List StmtText} (h : ∀ s ∈ ss, NeatStmt s) {b : Block}
  (he : EnclosureRemarked b.enclosure) (style : Style) (indent : Nat)

include h he

/-- A block of neat statements may stand anywhere. -/
theorem Firm.block : Firm (blockOutput style b indent ss) :=
  .braced style .lbrace .rbrace rfl rfl he indent
    ((neatLines_stmts h (indent + 1) true).append (NeatLines.comments he.closing _ _))

theorem Firm.body (header : Output) : Firm (bodyOutput style b indent header ss) := by
  have hopen : Lays Anywhere [.word "\x7b"] Near := (Lays.opening (m := .lbrace) rfl).behind
  have hclose : Lays Near [.word "\x7d"] Inked := .closing (m := .rbrace) rfl
  rw [bodyOutput]
  split
  · split
    · exact Lays.append (a := [_]) hopen hclose
    · rename_i hne
      have hsemicolon : Lays Anywhere [.word ";", .space] Anywhere :=
        Lays.then (a := [_]) Firm.semicolon .space
      have htexts : Firm (Output.joined [.word ";", .space] (ss.map (·.text))) :=
        .joined hsemicolon (List.forall_mem_map.mpr fun s hs => (h s hs).text)
          fun hnil => hne (List.isEmpty_iff.mpr (List.map_eq_nil_iff.mp hnil))
      have hstart : Lays Anywhere [.word "\x7b", .space] Anywhere :=
        Lays.then (a := [_]) hopen .space
      have hend : Lays Inked [.space, .word "\x7d"] Inked :=
        Lays.append (a := [.space]) (Lays.space (P := Near)).before hclose
      exact (hstart.append htexts).append hend
  · exact Firm.block h he style indent

end

/-! ## Clauses and headers -/

/-- The printed form of a clause. -/
structure NeatClause (c : ClauseText) : Prop where
  head : Firm c.head
  body : ∀ s ∈ c.body, NeatStmt s
  remarked : Remarked c.decs

/-- Neat clauses stand on neat lines, with their bodies below them. -/
theorem neatLines_clauses {cs : List ClauseText} (h : ∀ c ∈ cs, NeatClause c) (indent : Nat)
    (first : Bool) : NeatLines (clauseLines indent first cs) := by
  induction cs generalizing first with
  | nil => exact .nil
  | cons c cs ih =>
    obtain ⟨hc, hcs⟩ := List.forall_mem_cons.mp h
    have hrow := NeatCells.merge (neatCells_withComment hc.head.before hc.remarked.trailing)
    exact ((NeatLines.leading hc.remarked.leading indent first).append
      (.row (r := ⟨indent, _⟩) hrow (neatLines_stmts hc.body (indent + 1) true))).append (ih hcs false)

/-- Neat clauses between braces may stand anywhere. -/
theorem Firm.clauses {cs : List ClauseText} (h : ∀ c ∈ cs, NeatClause c) {e : Enclosure}
    (he : EnclosureRemarked e) (style : Style) (indent : Nat) :
    Firm (clausesOutput style e indent cs) :=
  .braced style .lbrace .rbrace rfl rfl he indent
    ((neatLines_clauses h indent true).append (NeatLines.comments he.closing _ _))

/-- What stands between a control keyword and its brace. -/
theorem lays_header (isLoop : Bool) {init cond post : Option Output} (hinit : ∀ o ∈ init, Firm o)
    (hcond : ∀ o ∈ cond, Firm o) (hpost : ∀ o ∈ post, Firm o) :
    Lays Anywhere (headerOutput isLoop init cond post) Anywhere := by
  have hspaced {b : Option Output} (hb : ∀ o ∈ b, Firm o) :
      Lays Anywhere ((b.map fun o => o ++ [.space]).getD []) Anywhere := by
    cases b with
    | none => exact .nil
    | some b => exact (hb b rfl).then .space
  have hsemicolon : Lays Anywhere [.word ";", .space] Anywhere :=
    Lays.then (a := [_]) Firm.semicolon .space
  have hstart : Lays Anywhere (.space :: init.getD [] ++ [.word ";", .space]) Anywhere :=
    (Lays.then (a := [.space]) (Q := Anywhere) .space
      (.optional hinit)).append hsemicolon
  unfold headerOutput
  split
  · exact .space
  · rename_i cond
    exact (hcond cond rfl).space.then .space
  · split
    · exact ((hstart.then (.optional hcond)).append hsemicolon).append (hspaced hpost)
    · exact hstart.append (hspaced hcond)

/-! ## Declarations -/

/-- The printed form of an entry of a declaration. -/
def NeatForm : SpecForm → Prop
  | .importPath name path => (∀ n ∈ name, Firm [.word n]) ∧ Firm [.word path]
  | .value names type values =>
    ((∀ n ∈ names, Firm [.word n]) ∧ names ≠ []) ∧ (∀ o ∈ type, Firm o) ∧ ∀ o ∈ values, Firm o
  | .type name _ type => Firm [.word name] ∧ Firm type

/-- An entry with its comments. -/
structure NeatSpec (s : SpecText) : Prop where
  form : NeatForm s.form
  remarked : Remarked s.decs

theorem Firm.valuesCell {values : Output} (h : Firm values) : Firm (SpecForm.valuesCell values) := by
  have hsign : Lays Anywhere [.word "=", .space] Anywhere :=
    Lays.then (a := [_]) (Firm.mark .assign rfl rfl) .space
  exact hsign.append h

theorem Firm.typeCell {type : Output} (h : Firm type) (isAlias : Bool) :
    Firm (SpecForm.typeCell isAlias type) := by
  refine Lays.append (Q := Anywhere) ?_ h
  split
  · exact Lays.then (a := [_]) (Firm.mark .assign rfl rfl) .space
  · exact .nil

/-- An entry that stands alone may stand anywhere. -/
theorem NeatForm.output {f : SpecForm} (h : NeatForm f) : Firm f.output := by
  cases f with
  | importPath name path =>
    refine Lays.append (Q := Anywhere) ?_ h.2
    cases name with
    | none => exact .nil
    | some n => exact Lays.then (a := [_]) (h.1 n rfl) .space
  | value names type values =>
    refine Firm.spaced (Firm.spaced (Firm.names h.1.1 h.1.2) h.2.1) fun o ho => ?_
    obtain ⟨values, hvalues, rfl⟩ := Option.map_eq_some_iff.mp ho
    exact (h.2.2 values hvalues).valuesCell
  | type name isAlias type =>
    have hname : Lays Anywhere [.word name, .space] Anywhere :=
      Lays.then (a := [_]) h.1 .space
    exact hname.append (h.2.typeCell isAlias)

/-- The first cell of an entry in a group, and the cells behind it. -/
theorem NeatForm.cells {f : SpecForm} (h : NeatForm f) (keepType : Bool) (comment : Option Comment) :
    NeatCells (f.cells keepType comment) := by
  cases f with
  | importPath name path => exact ⟨(NeatForm.output h).before, List.forall_mem_nil _⟩
  | type name isAlias type =>
    exact ⟨h.1.before, List.forall_mem_singleton.mpr (h.2.typeCell isAlias).cell⟩
  | value names type values =>
    refine ⟨(Firm.names h.1.1 h.1.2).before, ?_⟩
    refine List.forall_mem_append.mpr ⟨List.forall_mem_append.mpr ⟨?_, ?_⟩, ?_⟩
    · split
      · refine List.forall_mem_singleton.mpr ?_
        cases type with
        | none => exact .inl rfl
        | some o => exact (h.2.1 o rfl).cell
      · exact List.forall_mem_nil _
    · cases values with
      | none => exact List.forall_mem_nil _
      | some o => exact List.forall_mem_singleton.mpr (h.2.2 o rfl).valuesCell.cell
    · split
      · exact fun c hc => .inl (List.eq_of_mem_replicate hc)
      · exact List.forall_mem_nil _

/-- Neat entries stand on neat lines. -/
theorem neatLines_specs {ss : List SpecText} (h : ∀ s ∈ ss, NeatSpec s) (indent : Nat)
    (several first : Bool) (keeps : List Bool) :
    NeatLines (specLines indent several first ss keeps) := by
  induction ss generalizing first keeps with
  | nil => exact .nil
  | cons s ss ih =>
    cases keeps with
    | nil => exact .nil
    | cons keep keeps =>
      obtain ⟨hs, hss⟩ := List.forall_mem_cons.mp h
      refine (NeatLines.leading hs.remarked.leading indent first).append (.row ?_ (ih hss false keeps))
      refine NeatCells.merge (NeatCells.append ?_ (neatCell_comment hs.remarked.trailing))
      split
      · exact hs.form.cells keep _
      · exact ⟨hs.form.output.before, List.forall_mem_nil _⟩

/-- A declaration of neat entries may stand anywhere. -/
theorem Firm.genDecl {ss : List SpecText} (h : ∀ s ∈ ss, NeatSpec s) {d : GenDecl}
    (hd : ∀ e ∈ d.group, EnclosureRemarked e) (style : Style) (indent : Nat) :
    Firm (genOutput style d indent ss) := by
  have hkeyword : Lays Anywhere [keywordPiece d.keyword.keyword, .space] Anywhere :=
    Firm.keywordSpace _
  have hnothing : Firm ([keywordPiece d.keyword.keyword, .space] ++ [.word "(", .word ")"]) := by
    have hopen : Lays Anywhere [.word "("] Near := (Lays.opening (m := .lparen) rfl).behind
    have hclose : Lays Near [.word ")"] Inked := .closing (m := .rparen) rfl
    exact hkeyword.append (Lays.append (a := [_]) hopen hclose)
  unfold genOutput
  dsimp only
  split
  · cases ss with
    | nil => exact hnothing
    | cons s ss => exact hkeyword.append (h s List.mem_cons_self).form.output
  · rename_i group hgroup
    split
    · exact hnothing
    · have he := hd group hgroup
      have hlines := (neatLines_specs h (indent + 1) (ss.length > 1) true
        (keepsType (ss.map (·.form)))).append (NeatLines.comments he.closing (indent + 1) ss.isEmpty)
      exact hkeyword.append (Firm.braced style .lparen .rparen rfl rfl he indent hlines)

end HandlerSplit.Print
