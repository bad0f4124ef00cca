import HandlerSplit.Proofs.Print.Entries
import HandlerSplit.Proofs.Print.Flow.Lists
/-!
# The flow of statements and declarations

Printed forms are alike if their parts have the same flow. What is put together from parts that are
alike has the same flow, in every style; the body of a function has it on one line and on several
(`flow_bodyOutput`).
-/

namespace HandlerSplit.Print

open Output (SameFlow)

theorem cellsFlow_congr {cells cells' : List Output} (h : List.Forall₂ SameFlow cells cells') :
    cellsFlow cells = cellsFlow cells' := by
  funext rest
  induction h with
  | nil => rfl
  | cons ho _ ih => rw [cellsFlow, cellsFlow, ho, ih]

theorem map_eq_of_forall₂ {α β : Type} {f : α → β} {R : α → α → Prop} {xs xs' : List α}
    (hR : ∀ x x', R x x' → f x = f x') (h : List.Forall₂ R xs xs') : xs.map f = xs'.map f := by
  rw [← List.forall₂_eq_eq_eq, List.forall₂_map_left_iff, List.forall₂_map_right_iff]
  exact h.imp hR

theorem SameFlow.spaced {a a' : Output} {b b' : Option Output} (ha : a.SameFlow a')
    (hb : Option.Rel SameFlow b b') : (spaced a b).SameFlow (spaced a' b') := by
  cases hb with
  | none => exact ha
  | some hb => exact ha.append (hb.cons .space)

theorem SameFlow.getD {a a' : Option Output} (h : Option.Rel SameFlow a a') :
    (a.getD []).SameFlow (a'.getD []) := by
  cases h with
  | none => rfl
  | some h => exact h

/-- A comment behind a text is a cell of its own. -/
theorem flow_withComment {o o' : Output} (h : o.SameFlow o') (comment : Option Comment) :
    cellsFlow (withComment o comment) = cellsFlow (withComment o' comment) :=
  cellsFlow_congr (.cons h (List.forall₂_same.mpr fun _ _ => rfl))

/-! ## Fields -/

/-- Two fields with the same flow. -/
structure FieldText.Alike (f f' : FieldText) : Prop where
  names : f.names = f'.names
  type : f.type.SameFlow f'.type
  signature : Option.Rel SameFlow f.signature f'.signature
  tag : f.tag = f'.tag
  decs : f.decs = f'.decs

namespace FieldText.Alike

variable {f f' : FieldText} (h : Alike f f')

include h

theorem output : f.output.SameFlow f'.output := by
  rw [FieldText.output, FieldText.output, h.names, h.tag]
  refine SameFlow.spaced ?_ ?_
  · split
    · exact h.type
    · exact .append rfl (h.type.cons .space)
  · cases f'.tag with
    | none => exact .none
    | some tag => exact .some rfl

/-- A member of an interface is its output, and a field of a struct its cells. -/
theorem member (isStruct : Bool) : (f.member isStruct).SameFlow (f'.member isStruct) := by
  have hout := h.output
  obtain ⟨names, type, signature, tag, decs⟩ := f
  obtain ⟨names', type', signature', tag', decs'⟩ := f'
  obtain ⟨rfl, -, hsignature, -, -⟩ := h
  cases hsignature with
  | none => cases isStruct <;> exact hout
  | some hsignature =>
    cases isStruct with
    | true => exact hout
    | false =>
      rcases names with _ | ⟨name, _ | _⟩
      · exact hout
      · exact hsignature.cons (.word name)
      · exact hout

/-- How the cells of a field are padded is no part of its flow. -/
theorem structCells : cellsFlow f.structCells = cellsFlow f'.structCells := by
  funext rest
  rw [FieldText.structCells, FieldText.structCells, h.names, h.tag, h.decs]
  simp only [cellsFlow_append]
  split <;> simp only [cellsFlow, h.type]

end FieldText.Alike

section

variable {fs fs' : List FieldText} (h : List.Forall₂ FieldText.Alike fs fs')

include h

/-- Parameters have the same flow on one line or on several. -/
theorem SameFlow.params (style style' : Style) (enclosure : Enclosure) (indent : Nat) :
    (paramsOutput style enclosure indent fs).SameFlow
      (paramsOutput style' enclosure indent fs') := by
  rw [paramsOutput, paramsOutput, map_eq_of_forall₂ (fun _ _ hf => hf.decs) h]
  refine .bracketed ?_ style style' _ (by rfl) _ _ _ _
  rw [List.forall₂_map_left_iff, List.forall₂_map_right_iff]
  exact h.imp fun f f' hf => .plain hf.output

/-- A lone result, or what stands for it. -/
theorem SameFlow.types : SameFlow (fs.flatMap (·.type)) (fs'.flatMap (·.type)) := by
  induction h with
  | nil => rfl
  | cons hf _ ih => exact hf.type.append ih

/-- The members of a list have the same flow line by line. -/
theorem linesFlow_members (isStruct : Bool) (indent : Nat) (first : Bool) :
    linesFlow (memberLines isStruct indent first fs) =
      linesFlow (memberLines isStruct indent first fs') := by
  funext rest
  induction h generalizing first with
  | nil => rfl
  | @cons f f' _ _ hf _ ih =>
    have hcells : cellsFlow (if isStruct then f.structCells
        else withComment (f.member false) f.decs.trailing) =
          cellsFlow (if isStruct then f'.structCells
            else withComment (f'.member false) f'.decs.trailing) := by
      rw [hf.decs]
      split
      · exact hf.structCells
      · exact flow_withComment (hf.member false) _
    rw [memberLines, memberLines, linesFlow_append, linesFlow_append, linesFlow_ofCells,
      linesFlow_ofCells, ih, hcells, hf.decs]

/-- Fields between braces have the same flow in both styles. -/
theorem SameFlow.fieldBlock (style style' : Style) (isStruct : Bool) (list : FieldList) (indent : Nat) :
    (fieldBlock style isStruct list indent fs).SameFlow
      (fieldBlock style' isStruct list indent fs') := by
  unfold Print.fieldBlock
  dsimp only
  split
  · cases h with
    | nil => rfl
    | cons hf hfs =>
      cases hfs with
      | nil => exact .append (.append rfl (hf.member isStruct)) rfl
      | cons => rfl
  · have hempty : fs.isEmpty = fs'.isEmpty := by cases h <;> rfl
    refine .append rfl (funext fun rest => ?_)
    rw [flow_braced, flow_braced, linesFlow_append, linesFlow_append, linesFlow_members h, hempty]

end

/-! ## Statements -/

/-- Two statements with the same flow. -/
structure StmtText.Alike (s s' : StmtText) : Prop where
  text : s.text.SameFlow s'.text
  lead : linesFlow s.lead = linesFlow s'.lead
  own : s.own.SameFlow s'.own
  innerTrailing : s.innerTrailing = s'.innerTrailing
  isEmpty : s.isEmpty = s'.isEmpty
  decs : s.decs = s'.decs

theorem StmtText.Alike.plain (indent : Nat) {o o' : Output} (h : o.SameFlow o')
    (decs : Decorations) : Alike (.plain indent o decs) (.plain indent o' decs) :=
  ⟨h, rfl, h, rfl, rfl, rfl⟩

/-- A label before statements that are alike. -/
theorem StmtText.Alike.labeled {s s' : StmtText} (h : Alike s s') (indent : Nat) (label : String)
    (decs : Decorations) : Alike (.labeled indent label s decs) (.labeled indent label s' decs) := by
  rw [StmtText.labeled, StmtText.labeled, h.isEmpty, h.decs, h.innerTrailing]
  split
  · exact ⟨rfl, rfl, rfl, rfl, rfl, rfl⟩
  · refine ⟨.append rfl h.text, ?_, h.own, rfl, rfl, rfl⟩
    funext rest
    dsimp only
    rw [List.cons_append, List.cons_append, linesFlow_cons, linesFlow_cons, linesFlow_append,
      linesFlow_append, h.lead]

/-- Statements that are alike have lines of the same flow. -/
theorem StmtText.Alike.lines {s s' : StmtText} (h : Alike s s') :
    linesFlow s.lines = linesFlow s'.lines := by
  funext rest
  rw [StmtText.lines, StmtText.lines, linesFlow_append, linesFlow_append, linesFlow_ofCells,
    linesFlow_ofCells, h.lead, h.decs, h.innerTrailing, flow_withComment h.own]

section

variable {ss ss' : List StmtText} (h : List.Forall₂ StmtText.Alike ss ss')

include h

/-- The lines of a block have the same flow in both styles. -/
theorem linesFlow_stmts (indent : Nat) (first : Bool) :
    linesFlow (stmtLines indent first ss) = linesFlow (stmtLines indent first ss') := by
  funext rest
  induction h generalizing first with
  | nil => rfl
  | cons hs _ ih =>
    rw [stmtLines, stmtLines, hs.isEmpty, hs.decs]
    split
    · exact ih first
    · rw [linesFlow_append, linesFlow_append, linesFlow_append, linesFlow_append, hs.lines, ih]

theorem SameFlow.block (style style' : Style) (block : Block) (indent : Nat) :
    (blockOutput style block indent ss).SameFlow (blockOutput style' block indent ss') := by
  funext rest
  rw [blockOutput, blockOutput, flow_braced, flow_braced, linesFlow_append, linesFlow_append, linesFlow_stmts h,
    linesFlow_commentLines _ _ (!(stmtLines (indent + 1) true ss').any Line.isRow)]

end

/-- A statement that stands on one line if its text does. -/
structure StmtText.Sound (s : StmtText) : Prop where
  empty : s.isEmpty = true → s.text = []
  single : s.text.isMultiline = false → s.lead = [] ∧ s.own = s.text ∧ s.innerTrailing = none

/-- A statement without a label is its text. -/
theorem StmtText.Sound.plain (indent : Nat) (o : Output) (decs : Decorations) :
    Sound (.plain indent o decs) where
  empty := by rintro ⟨⟩
  single _ := ⟨rfl, rfl, rfl⟩

theorem StmtText.Sound.labeled (indent : Nat) (label : String) (s : StmtText)
    (decs : Decorations) : Sound (.labeled indent label s decs) := by
  have hnonempty : (StmtText.labeled indent label s decs).isEmpty = false := by
    rw [StmtText.labeled]
    split <;> rfl
  refine ⟨fun hempty => absurd hempty (by rw [hnonempty]; exact Bool.false_ne_true), ?_⟩
  rw [StmtText.labeled]
  split
  · exact fun _ => ⟨rfl, rfl, rfl⟩
  · intro hsingle
    rw [Output.isMultiline, List.append_assoc, List.any_append, Bool.or_eq_false_iff] at hsingle
    cases hsingle.2

/-- Statements of one line each, without comments. -/
theorem linesFlow_single {ss : List StmtText} (hsound : ∀ s ∈ ss, s.Sound)
    (hcomments : ∀ s ∈ ss, s.decs.hasComments = false) (hsingle : ∀ s ∈ ss, s.text.isMultiline = false)
    (indent : Nat) (first : Bool) (rest : List Glyph) :
    linesFlow (stmtLines indent first ss) rest = cellsFlow (ss.map (·.text)) rest := by
  induction ss generalizing first with
  | nil => rfl
  | cons s ss ih =>
    obtain ⟨hs, hss⟩ := List.forall_mem_cons.mp hsound
    obtain ⟨hc, hcs⟩ := List.forall_mem_cons.mp hcomments
    obtain ⟨hone, hones⟩ := List.forall_mem_cons.mp hsingle
    rw [stmtLines, List.map_cons, cellsFlow, hc, Bool.not_false, Bool.and_true]
    split
    · rename_i hempty
      rw [ih hss hcs hones, hs.empty hempty, Output.flow_nil, gap_cellsFlow]
    · obtain ⟨hlead, hown, htrailing⟩ := hs.single hone
      rw [Decorations.hasComments, Bool.or_eq_false_iff, Bool.not_eq_false', List.isEmpty_iff,
        Option.isSome_eq_false_iff, Option.isNone_iff_eq_none] at hc
      have hleading (rest : List Glyph) :
          linesFlow (leadingLines indent s.decs first) rest = gap rest := by
        rw [leadingLines, hc.1]
        split
        · exact gap_gap rest
        · rfl
      have hcell : withComment s.text (none.or none) = [s.text] := rfl
      rw [linesFlow_append, linesFlow_append, hleading, StmtText.lines, hlead, hown, htrailing, hc.2,
        hcell, List.nil_append, linesFlow_ofCells, ih hss hcs hones, linesFlow_nil, gap_cellsFlow,
        cellsFlow, cellsFlow, gap_cellsFlow, gap_cellsFlow]

/-- Statements with semicolons between them. -/
theorem flow_semicolons (os : List Output) (rest : List Glyph) :
    gap ((Output.joined [.word ";", .space] os).flow (gap rest)) = cellsFlow os rest := by
  have hsemicolon (rest : List Glyph) : Output.flow [.word ";", .space] rest = gap rest := by
    rw [Output.flow_cons, Output.flow_space]
    exact gap_gap rest
  induction os with
  | nil => exact gap_gap rest
  | cons o os ih =>
    cases os with
    | nil => rw [Output.joined_singleton, cellsFlow, cellsFlow]
    | cons o' os =>
      rw [Output.joined_cons_cons, Output.flow_append, Output.flow_append, hsemicolon, ih]
      rfl

/-- A body on one line has the flow of a body on several. -/
theorem flow_bodyOutput (style : Style) (block : Block) (indent : Nat) (header : Output)
    {ss : List StmtText} (hsound : ∀ s ∈ ss, s.Sound) :
    (bodyOutput style block indent header ss).SameFlow (blockOutput style block indent ss) := by
  have hopening : Lone "\x7b" := rfl
  have hclosing : Lone "\x7d" := rfl
  rw [bodyOutput]
  split
  · rename_i hfits
    simp only [fitsOneLine, Bool.and_eq_true, Bool.not_eq_true', List.all_eq_true,
      decide_eq_true_eq, Enclosure.hasComments, Bool.or_eq_false_iff, Bool.not_eq_false',
      List.isEmpty_iff, Option.isSome_eq_false_iff, Option.isNone_iff_eq_none] at hfits
    obtain ⟨⟨⟨⟨⟨-, hopen, hclose⟩, hcomments⟩, -⟩, hsingle⟩, -⟩ := hfits
    funext rest
    rw [blockOutput, flow_braced, hopen, hclose, commentLines, List.append_nil,
      linesFlow_single hsound hcomments hsingle, openCommentOutput, Output.flow_nil]
    split
    · rename_i hempty
      rw [List.isEmpty_iff.mp hempty, List.map_nil, cellsFlow, Output.flow_cons, hopening.flow_gap]
    · rw [← flow_semicolons, Output.flow_append, Output.flow_append, Output.flow_cons,
        Output.flow_cons .space [.word "\x7d"], Output.flow_space, Output.flow_space]
  · rfl

/-- A body has the same flow on the line of its header and on several lines. -/
theorem SameFlow.body (style style' : Style) (block : Block) (indent : Nat) (header header' : Output)
    {ss ss' : List StmtText} (h : List.Forall₂ StmtText.Alike ss ss') (hsound : ∀ s ∈ ss, s.Sound)
    (hsound' : ∀ s ∈ ss', s.Sound) : (bodyOutput style block indent header ss).SameFlow
      (bodyOutput style' block indent header' ss') :=
  ((flow_bodyOutput style block indent header hsound).trans (SameFlow.block h style style' block indent)).trans
    (flow_bodyOutput style' block indent header' hsound').symm

/-! ## Clauses and headers -/

/-- Two clauses with the same flow. -/
structure ClauseText.Alike (c c' : ClauseText) : Prop where
  head : c.head.SameFlow c'.head
  body : List.Forall₂ StmtText.Alike c.body c'.body
  decs : c.decs = c'.decs

/-- The lines of clauses have the same flow in both styles. -/
theorem linesFlow_clauses {cs cs' : List ClauseText} (h : List.Forall₂ ClauseText.Alike cs cs')
    (indent : Nat) (first : Bool) :
    linesFlow (clauseLines indent first cs) = linesFlow (clauseLines indent first cs') := by
  funext rest
  induction h generalizing first with
  | nil => rfl
  | cons hc _ ih =>
    simp only [clauseLines, linesFlow_append, List.append_assoc, List.cons_append, linesFlow_ofCells]
    rw [hc.decs, flow_withComment hc.head, linesFlow_stmts hc.body, ih]

theorem SameFlow.clauses (style style' : Style) (braces : Enclosure) (indent : Nat)
    {cs cs' : List ClauseText} (h : List.Forall₂ ClauseText.Alike cs cs') :
    (clausesOutput style braces indent cs).SameFlow
      (clausesOutput style' braces indent cs') := by
  have hempty : cs.isEmpty = cs'.isEmpty := by cases h <;> rfl
  funext rest
  rw [clausesOutput, clausesOutput, flow_braced, flow_braced, linesFlow_append, linesFlow_append,
    linesFlow_clauses h, hempty]

/-- The clauses of a header have the same flow, with semicolons as blanks. -/
theorem SameFlow.header (isLoop : Bool) {init init' cond cond' post post' : Option Output}
    (hinit : Option.Rel SameFlow init init') (hcond : Option.Rel SameFlow cond cond')
    (hpost : Option.Rel SameFlow post post') :
    (headerOutput isLoop init cond post).SameFlow (headerOutput isLoop init' cond' post') := by
  have hspaced {o o' : Option Output} (h : Option.Rel SameFlow o o') :
      SameFlow ((o.map (· ++ [.space])).getD []) ((o'.map (· ++ [.space])).getD []) := by
    cases h with
    | none => rfl
    | some h => exact h.append rfl
  -- A header with an initial statement or a third clause.
  have hstart := (SameFlow.cons .space (SameFlow.getD hinit)).append
    (rfl : SameFlow [.word ";", .space] [.word ";", .space])
  have hplain := hstart.append (hspaced hcond)
  have hloop := ((hstart.append (SameFlow.getD hcond)).append
    (rfl : SameFlow [.word ";", .space] [.word ";", .space])).append (hspaced hpost)
  cases hinit with
  | some =>
    cases isLoop
    exacts [hplain, hloop]
  | none =>
    cases hpost with
    | some =>
      cases isLoop
      exacts [hplain, hloop]
    | none =>
      cases hcond with
      | none => rfl
      | some h => exact (h.cons .space).append rfl

/-! ## Declarations -/

/-- Two entries of a declaration with the same flow. -/
inductive SpecForm.Alike : SpecForm → SpecForm → Prop where
  | importPath (name : Option String) (path : String) :
    Alike (.importPath name path) (.importPath name path)
  | value (names : List String) {type type' values values' : Option Output}
    (htype : Option.Rel SameFlow type type') (hvalues : Option.Rel SameFlow values values') :
    Alike (.value names type values) (.value names type' values')
  | type (name : String) (isAlias : Bool) {type type' : Output} (htype : type.SameFlow type') :
    Alike (.type name isAlias type) (.type name isAlias type')

namespace SpecForm.Alike

variable {f f' : SpecForm}

theorem values {values values' : Option Output} (h : Option.Rel SameFlow values values') :
    Option.Rel SameFlow (values.map SpecForm.valuesCell) (values'.map SpecForm.valuesCell) := by
  cases h with
  | none => exact .none
  | some h => exact .some (.append rfl h)

theorem output (h : Alike f f') : f.output.SameFlow f'.output := by
  cases h with
  | importPath => rfl
  | value names htype hvalues =>
    exact SameFlow.spaced (SameFlow.spaced rfl htype) (values hvalues)
  | type name isAlias htype => exact .append rfl (.append rfl htype)

/-- Cells that are kept empty for others have no flow. -/
theorem cells (h : Alike f f') (keep keep' : Bool) (comment : Option Comment) :
    cellsFlow (f.cells keep comment) = cellsFlow (f'.cells keep' comment) := by
  cases h with
  | importPath => rfl
  | type name isAlias htype => exact cellsFlow_congr (.cons rfl (.cons (.append rfl htype) .nil))
  | @value names type type' values values' htype hvalues =>
    funext rest
    have hkeep (keep : Bool) (type : Option Output) (rest : List Glyph) :
        cellsFlow (if type.isSome || keep then [type.getD []] else []) rest =
          cellsFlow type.toList rest := by
      cases type with
      | some => rfl
      | none =>
        cases keep with
        | false => rfl
        | true => exact cellsFlow_empty [] rest rfl
    have hempty (n : Nat) (rest : List Glyph) :
        cellsFlow (if comment.isSome then List.replicate n [] else []) rest = gap rest := by
      split
      · induction n with
        | zero => rfl
        | succ n ih => rw [List.replicate_succ, cellsFlow_empty _ _ rfl, ih]
      · rfl
    have htoList {o o' : Option Output} (h : Option.Rel SameFlow o o') :
        cellsFlow o.toList = cellsFlow o'.toList := by
      cases h with
      | none => rfl
      | some h => exact cellsFlow_congr (.cons h .nil)
    simp only [SpecForm.cells, List.cons_append, cellsFlow, cellsFlow_append, hkeep, hempty,
      htoList htype, htoList (Alike.values hvalues)]

end SpecForm.Alike

/-- Two entries with the same flow and layout. -/
structure SpecText.Alike (s s' : SpecText) : Prop where
  form : s.form.Alike s'.form
  decs : s.decs = s'.decs

section

variable {ss ss' : List SpecText} (h : List.Forall₂ SpecText.Alike ss ss')

include h

/-- The lines of a group have the same flow, whichever cells are kept. -/
theorem linesFlow_specs (indent : Nat) (several first : Bool) {keeps keeps' : List Bool}
    (hlength : keeps.length = ss.length) (hlength' : keeps'.length = ss.length) :
    linesFlow (specLines indent several first ss keeps) =
      linesFlow (specLines indent several first ss' keeps') := by
  funext rest
  induction h generalizing first keeps keeps' with
  | nil => cases keeps <;> cases keeps' <;> rfl
  | @cons s s' _ _ hs _ ih =>
    rcases keeps with _ | ⟨keep, keeps⟩
    · cases hlength
    rcases keeps' with _ | ⟨keep', keeps'⟩
    · cases hlength'
    have hcells : cellsFlow (if several then s.form.cells keep s'.decs.trailing else [s.form.output]) =
        cellsFlow (if several then s'.form.cells keep' s'.decs.trailing else [s'.form.output]) := by
      split
      · exact hs.form.cells keep keep' _
      · exact cellsFlow_congr (.cons hs.form.output .nil)
    rw [specLines, specLines, linesFlow_append, linesFlow_append, linesFlow_ofCells, linesFlow_ofCells, cellsFlow_append,
      cellsFlow_append, hs.decs, hcells, ih false (Nat.succ.inj hlength) (Nat.succ.inj hlength')]

theorem SameFlow.decl (style style' : Style) (decl : GenDecl) (indent : Nat) :
    (genOutput style decl indent ss).SameFlow (genOutput style' decl indent ss') := by
  have hempty : ss.isEmpty = ss'.isEmpty := by cases h <;> rfl
  rw [genOutput, genOutput]
  cases decl.group with
  | none =>
    cases h with
    | nil => rfl
    | cons hs => exact .append rfl hs.form.output
  | some group =>
    dsimp only
    rw [← hempty, ← h.length_eq]
    split
    · rfl
    · refine .append rfl (funext fun rest => ?_)
      have hlength := (length_keepsType (ss.map (·.form))).trans (List.length_map _)
      have hlength' := (length_keepsType (ss'.map (·.form))).trans (List.length_map _)
      rw [flow_braced, flow_braced, linesFlow_append, linesFlow_append,
        linesFlow_specs h _ _ _ hlength (hlength'.trans h.length_eq.symm)]

end

end HandlerSplit.Print
