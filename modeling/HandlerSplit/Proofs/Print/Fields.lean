import HandlerSplit.Print.Parts
import HandlerSplit.Proofs.Parse.Taking
import HandlerSplit.Proofs.Print.Brackets
/-!
# What fields write

Parameters and results are bracketed lists of fields; the members of a struct or interface stand on
lines of their own, those of a struct in columns.
-/

namespace HandlerSplit

theorem textsOf_around (d : Decorations) (ms : List Mark) :
    textsOf (d.around ms) = Print.textsAround d (textsOf ms) := by
  simp [Decorations.around, Print.textsAround]

theorem textsOf_enclosure (e : Enclosure) (ms : List Mark) :
    textsOf (e.around ms) =
      e.openComment.toList.map (·.text) ++ textsOf ms ++ e.closeComments.map (·.text) := by
  simp [Enclosure.around]

theorem textsOf_fieldNameMarks (joined : Bool) (ns : List String) :
    textsOf (fieldNameMarks joined ns) = [] := by
  cases ns with
  | nil => rfl
  | cons n ns => exact List.filterMap_eq_nil_iff.mpr (by simp [fieldNameMarks, Mark.text?])

theorem textsOf_nameMarks (ns : List String) : textsOf (nameMarks ns) = [] :=
  List.filterMap_eq_nil_iff.mpr (by simp [nameMarks, Mark.text?])

theorem textsOf_flatMap {α : Type} (xs : List α) (marks : α → List Mark) :
    textsOf (xs.flatMap marks) = xs.flatMap fun x => textsOf (marks x) :=
  List.filterMap_flatMap ..

namespace Print

/-! ## Names and phrases -/

/-- A phrase of one word. -/
theorem Phrase.word {k : TokenKind} (hword : k.isWord = true) (hmark : k.isMark = false)
    (hcomment : k.comment? = none) (hfault : ∀ f, k ≠ .fault f)
    (hshut : ∀ c, Text.continuesIdent c = false → k.joins c = false) :
    Phrase [.word k.text] [k] [] := by
  have hopening : Writes Open [.word k.text] Shut [k] [] :=
    .opening hword hmark hcomment hfault hshut
  refine .ofWord hopening.before fun hgenuine => ?_
  exact opens_of_legible (hgenuine.1 k List.mem_cons_self hfault) hmark hcomment

theorem Phrase.ident (n : String) : Phrase [.word n] [.ident n] [] :=
  Phrase.word (k := .ident n) rfl rfl rfl nofun fun _ hc => hc

theorem Phrase.literal (kind : LitKind) (t : String) : Phrase [.word t] [.literal kind t] [] := by
  refine Phrase.word (k := .literal kind t) rfl rfl rfl nofun fun c hc => ?_
  cases kind <;> first | exact hc | rfl

theorem Phrase.keyword (w : Keyword) : Phrase [keywordPiece w] [.keyword w] [] :=
  Phrase.word (k := .keyword w) rfl rfl rfl nofun fun _ hc => hc

/-- Phrases with commas between them. -/
theorem Phrase.commaSeparated {α : Type} {w : α → List TokenKind} {t : α → List String} {x : α}
    {o : Output} {xs : List α} {os : List Output} (h : Phrase o (w x) (t x))
    (hs : List.Forall₂ (fun x o => Phrase o (w x) (t x)) xs os) :
    Phrase (Output.commaSeparated (o :: os)) ((x :: xs).flatMap w) ((x :: xs).flatMap t) := by
  cases hs with
  | nil =>
    rw [Output.commaSeparated, Output.joined_singleton]
    exact h.cast (List.append_nil _).symm (List.append_nil _).symm
  | @cons y p ys ps hy hys =>
    have hrest : Writes Start (Output.commaSeparated (p :: ps)) Shut _ _ :=
      .joined_cons Writes.comma.before hy.writes.before (hys.imp fun _ _ h => h.writes.before)
    rw [Output.commaSeparated, Output.joined_cons_cons]
    exact h.append (Writes.comma.append hrest)

/-- Names with commas between them. -/
theorem Phrase.names (n : String) (ns : List String) :
    Phrase (Output.names (n :: ns)) (nameWords (n :: ns)) [] := by
  have hnames : List.Forall₂ (fun n o => Phrase o [TokenKind.ident n] []) ns (ns.map fun n => [.word n]) :=
    List.forall₂_map_right_iff.mpr (List.forall₂_same.mpr fun n _ => .ident n)
  refine (Phrase.commaSeparated (w := fun n => [.ident n]) (t := fun _ => []) (.ident n)
    hnames).cast ?_ ?_
  · exact List.map_eq_flatMap.symm
  · exact List.flatMap_eq_nil_iff.mpr fun _ _ => rfl

theorem Writes.names (ns : List String) :
    Writes Start (Output.names ns) Closed (nameWords ns) [] := by
  cases ns with
  | nil => exact Writes.nil.behind
  | cons n ns =>
    have h : Writes Start (Output.names (n :: ns)) Shut (nameWords (n :: ns)) [] :=
      (Phrase.names n ns).writes.before
    exact h.behind

/-! ## Parts that may be missing -/

/-- A second part behind a space, if it is there. -/
theorem Phrase.spaced {a : Output} {b : Option Output} {ws ws' : List TokenKind}
    {cs cs' : List String} (ha : Phrase a ws cs) (hb : ∀ o ∈ b, Writes Start o Shut ws' cs')
    (hnone : b = none → ws' = [] ∧ cs' = []) :
    Phrase (spaced a b) (ws ++ ws') (cs ++ cs') := by
  cases b with
  | none =>
    obtain ⟨rfl, rfl⟩ := hnone rfl
    rw [List.append_nil, List.append_nil]
    exact ha
  | some o => exact ha.append (Writes.space.append (hb o rfl))

/-! ## Fields -/

/-- The printed form of a field. -/
structure FieldText.Prints (f : FieldText) (x : Field) : Prop where
  names : f.names = x.names
  tag : f.tag = x.tag
  decs : f.decs = x.decs
  type : Phrase f.type x.type.words (textsOf x.type.marks)
  signature : ∀ sig, f.signature = some sig → (∃ s, x.type = .funcType s) ∧
    Writes Shut sig Shut x.type.words.tail (textsOf x.type.marks)
  other : f.signature = none → ∀ s, x.type ≠ .funcType s

namespace FieldText.Prints

variable {f : FieldText} {x : Field}

/-- Names and type, as far as there are names. -/
theorem named (h : f.Prints x) :
    Phrase (if f.names.isEmpty then f.type else Output.names f.names ++ .space :: f.type)
      (nameWords x.names ++ x.type.words) (textsOf x.type.marks) := by
  rw [h.names]
  rcases x.names with _ | ⟨n, ns⟩
  · exact h.type
  · have htype : Writes Ended (.space :: f.type) Shut x.type.words (textsOf x.type.marks) :=
      Writes.space.append h.type.writes
    exact (Phrase.names n ns).append htype

theorem tagged (h : f.Prints x) :
    (∀ o ∈ f.tag.map fun tag => [Piece.word tag], Writes Start o Shut (tagWords x.tag) []) ∧
      (x.tag = none → tagWords x.tag = []) := by
  rw [h.tag]
  refine ⟨fun o ho => ?_, fun hnone => by rw [hnone]; rfl⟩
  obtain ⟨tag, htag, rfl⟩ := Option.map_eq_some_iff.mp ho
  rw [htag]
  exact (Writes.literal .string tag).before

theorem output (h : f.Prints x) : Phrase f.output (x.words false) (textsOf x.type.marks) := by
  obtain ⟨htag, hnone⟩ := h.tagged
  refine (Phrase.spaced h.named htag fun hno => ⟨hnone ?_, rfl⟩).cast ?_ (List.append_nil _)
  · rwa [Option.map_eq_none_iff, h.tag] at hno
  · have hmethod : isMethod false x.names x.type = false := rfl
    rw [Field.words, hmethod, if_neg Bool.false_ne_true]

/-- A field as a member of a struct, or of an interface, where no field has a tag. -/
theorem member (h : f.Prints x) {isStruct : Bool} (htag : x.tag = none ∨ isStruct = true) :
    Phrase (f.member isStruct) (x.words (!isStruct)) (textsOf x.type.marks) := by
  unfold FieldText.member
  split
  · rename_i sig n hsignature hnames
    obtain ⟨⟨s, hs⟩, hsig⟩ := h.signature sig hsignature
    rw [h.names] at hnames
    have hwords : x.words true = [.ident n] ++ x.type.words.tail := by
      rw [Field.words, hnames, hs, htag.resolve_right Bool.false_ne_true]
      exact List.append_nil _
    rw [Bool.not_false, hwords]
    exact (Phrase.ident n).append hsig
  · rename_i isStruct _ _ _ hnot
    have hmethod : isMethod (!isStruct) x.names x.type = false := by
      unfold isMethod
      split
      · rename_i n s hstruct hnames htype
        cases hsignature : f.signature with
        | none => exact absurd htype (h.other hsignature s)
        | some sig =>
          refine absurd (h.names.trans hnames) (hnot sig n ?_ hsignature)
          simpa using hstruct
      · rfl
    refine h.output.cast ?_ rfl
    rw [Field.words, Field.words, hmethod]
    rfl

/-- The cells of the tag of a struct field. -/
theorem columnsWrite_tag (named : Bool) (tag : Option String) :
    ColumnsWrite (match tag with
      | some tag => if named then [[.word tag]] else [[], [.word tag]]
      | none => []) (tagWords tag) [] := by
  cases tag with
  | none => exact .nil
  | some tag =>
    have hcell : ColumnsWrite [[.word tag]] [.literal .string tag] [] :=
      .single (Writes.literal .string tag).before
    cases named with
    | true => exact hcell
    | false => exact ColumnsWrite.empty.append hcell

/-- The cells of a struct field, behind those of its names and type. -/
theorem cellsWrite_tagged {start : List Output} {ws : List TokenKind} {cs : List String}
    (hstart : ColumnsWrite start ws cs) (named : Bool) (tag : Option String)
    (trailing : Option Comment) :
    CellsWrite (start ++ (match tag with
      | some tag => if named then [[.word tag]] else [[], [.word tag]]
      | none => []) ++ match trailing with
        | some c => (if tag.isNone && !named then [[]] else []) ++ [[.word c.text]]
        | none => []) (ws ++ tagWords tag) (cs ++ trailing.toList.map (·.text)) := by
  have hgap : ColumnsWrite (if tag.isNone && !named then [[]] else []) [] [] := by
    split
    · exact .empty
    · exact .nil
  have hall := (hstart.append (columnsWrite_tag named tag)).cast rfl (List.append_nil _)
  cases trailing with
  | none => exact (hall.append .nil).cellsWrite.cast (List.append_nil _) rfl
  | some c =>
    have hcells := ((hall.append hgap).withComment (some c)).cast (List.append_nil _)
      (congrArg (· ++ _) (List.append_nil _))
    rw [List.append_assoc] at hcells
    exact hcells

/-- The cells of a struct field. -/
theorem structCells (h : f.Prints x) : CellsWrite f.structCells (x.words false)
    (textsOf x.type.marks ++ x.decs.trailing.toList.map (·.text)) := by
  have hmethod : isMethod false x.names x.type = false := rfl
  rw [FieldText.structCells, Field.words, hmethod, if_neg Bool.false_ne_true, h.names, h.tag, h.decs]
  refine cellsWrite_tagged ?_ _ _ _
  split
  · exact (ColumnsWrite.single (Writes.names x.names)).append (.single h.type.writes.before)
  · rename_i hnamed
    have hnone : x.names = [] := by simpa using hnamed
    rw [hnone]
    exact .single h.type.writes.before

end FieldText.Prints

/-! ## Field lists -/

section Lists

variable {xs : List Field} {fs : List FieldText}

theorem textsOf_fieldMarks (joined : Bool) (xs : List Field) :
    textsOf (fieldMarks joined xs) = xs.flatMap fun x => textsAround x.decs (textsOf x.type.marks) := by
  rw [fieldMarks_eq, textsOf_flatMap]
  refine List.flatMap_congr fun x _ => ?_
  rw [Field.marks, textsOf_around, Field.inner, textsOf_append, textsOf_fieldNameMarks,
    List.nil_append]

theorem textsOf_fieldList (joined : Bool) (xs : List Field) (e : Enclosure) :
    textsOf (FieldList.marks joined ⟨xs, e⟩) = e.openComment.toList.map (·.text) ++
      (xs.flatMap fun x => textsAround x.decs (textsOf x.type.marks)) ++
      e.closeComments.map (·.text) := by
  rw [FieldList.marks, textsOf_enclosure, textsOf_fieldMarks]

theorem decs_of_prints (h : List.Forall₂ (fun x f => FieldText.Prints f x) xs fs) :
    fs.map (·.decs) = xs.map (·.decs) := by
  induction h with
  | nil => rfl
  | cons hf _ ih => rw [List.map_cons, List.map_cons, hf.decs, ih]

/-- Parameters or results in parentheses. -/
theorem Writes.params (style : Style) (h : List.Forall₂ (fun x f => FieldText.Prints f x) xs fs)
    (e : Enclosure) (indent : Nat) (joined : Bool) :
    Writes Closed (paramsOutput style e indent fs) Clear (fieldWords false xs)
      (textsOf (FieldList.marks joined ⟨xs, e⟩)) := by
  have hitems : List.Forall₂ (fun (x : Field) item => ItemWrites item (x.words false)
      (textsOf x.type.marks)) xs (fs.map fun f => .plain f.output) :=
    List.forall₂_map_right_iff.mpr (h.imp fun _ _ hf => ⟨hf.output, nofun⟩)
  rw [paramsOutput, decs_of_prints h, textsOf_fieldList, fieldWords_eq]
  exact (Writes.bracketed style .lparen .rparen (fun _ => rfl)
    ⟨by decide, fun _ => rfl⟩ hitems e indent false).cast (List.append_nil _) rfl

/-- Results with the space before them. A lone result has neither name nor comments. -/
theorem Writes.results (style : Style) {fs' : List FieldText}
    (hlone : List.Forall₂ (fun x f => FieldText.Prints f x) xs fs)
    (h : List.Forall₂ (fun x f => FieldText.Prints f x) xs fs')
    (htags : ∀ x ∈ xs, x.tag = none ∨ false = true) (e : Enclosure) (indent : Nat) :
    Writes Shut (if isLoneResult ⟨xs, e⟩ then .space :: fs.flatMap (·.type)
      else .space :: paramsOutput style e indent fs') Shut (fieldWords false xs)
      (textsOf (FieldList.marks true ⟨xs, e⟩)) := by
  split
  · rename_i hresult
    unfold isLoneResult at hresult
    dsimp only at hresult
    split at hresult
    · rename_i x
      simp only [Bool.and_eq_true, Bool.not_eq_true', List.isEmpty_iff, Enclosure.hasComments,
        Decorations.hasComments, Bool.or_eq_false_iff, Bool.not_eq_false', List.isEmpty_iff,
        Option.isSome_eq_false_iff, Option.isNone_iff_eq_none] at hresult
      obtain ⟨⟨hnames, hleading, htrailing⟩, hopen, hclose⟩ := hresult
      have htag : x.tag = none := (htags x List.mem_cons_self).resolve_right Bool.false_ne_true
      cases hlone with
      | cons hf hfs =>
        cases hfs
        rw [List.flatMap_singleton]
        have htype : Writes Shut _ Shut _ _ := Writes.space.before.append hf.type.writes
        refine htype.cast ?_ ?_
        · rw [fieldWords_eq, List.flatMap_singleton, Field.words, hnames, htag]
          exact (List.append_nil _).symm
        · rw [textsOf_fieldList, hopen, hclose, List.flatMap_singleton, textsAround, hleading,
            htrailing]
          simp
    · cases hresult
  · exact (Writes.space.before.append (.params style h e indent true)).behind

/-- The lines of the members of a struct or interface. -/
theorem LinesWrite.members {isStruct : Bool} (h : List.Forall₂ (fun x f => FieldText.Prints f x) xs fs)
    (htags : ∀ x ∈ xs, x.tag = none ∨ isStruct = true) (indent : Nat) (first : Bool) :
    LinesWrite (memberLines isStruct indent first fs) (fieldWords (!isStruct) xs)
      (xs.flatMap fun x => textsAround x.decs (textsOf x.type.marks)) := by
  induction h generalizing first with
  | nil => exact .nil
  | @cons x f xs fs hf _ ih =>
    obtain ⟨htag, htags⟩ := List.forall_mem_cons.mp htags
    have hcells : CellsWrite
        (if isStruct then f.structCells else withComment (f.member false) f.decs.trailing)
        (x.words (!isStruct)) (textsOf x.type.marks ++ x.decs.trailing.toList.map (·.text)) := by
      cases isStruct with
      | true => exact hf.structCells
      | false =>
        rw [if_neg Bool.false_ne_true, hf.decs]
        exact .withComment (hf.member htag).writes.before _
    have hlines := (LinesWrite.leadingLines indent f.decs first).append
      ((LinesWrite.line indent hcells).append (ih htags false))
    rw [fieldWords_eq] at hlines ⊢
    exact hlines.cast rfl (by simp [textsAround, hf.decs])

/-- A struct or interface type. -/
theorem Phrase.fieldBlock (style : Style) {isStruct : Bool}
    (h : List.Forall₂ (fun x f => FieldText.Prints f x) xs fs)
    (htags : ∀ x ∈ xs, x.tag = none ∨ isStruct = true) (e : Enclosure) (indent : Nat) (joined : Bool) :
    Phrase (fieldBlock style isStruct ⟨xs, e⟩ indent fs)
      ([.keyword (if isStruct then .struct else .interface)] ++
        FieldList.memberWords (!isStruct) ⟨xs, e⟩)
      (textsOf (FieldList.marks joined ⟨xs, e⟩)) := by
  rw [textsOf_fieldList, FieldList.memberWords]
  unfold Print.fieldBlock
  dsimp only
  split
  · rename_i hone
    simp only [isOneLineFields, Bool.and_eq_true, Bool.not_eq_true', decide_eq_true_eq,
      List.all_eq_true, Enclosure.hasComments, Decorations.hasComments, Bool.or_eq_false_iff,
      Bool.not_eq_false', List.isEmpty_iff, Option.isSome_eq_false_iff,
      Option.isNone_iff_eq_none] at hone
    obtain ⟨⟨⟨-, hopen, hclose⟩, hfields⟩, hlength⟩ := hone
    rw [hopen, hclose]
    have hopening : Writes Closed [.word "\x7b"] Clear [.punct .lbrace] [] :=
      Writes.bracket (m := .lbrace) fun _ => rfl
    have hclosing : Writes Ended [.word "\x7d"] Clear [.punct .rbrace] [] :=
      Writes.closing (m := .rbrace) (by decide) fun _ => rfl
    cases h with
    | nil => exact (Phrase.keyword _).append (hopening.append hclosing)
    | @cons x f xs fs hf hfs =>
      cases hfs with
      | cons => simp at hlength
      | nil =>
        obtain ⟨-, hleading, htrailing⟩ := hfields x List.mem_cons_self
        have htexts : textsAround x.decs (textsOf x.type.marks) = textsOf x.type.marks := by
          rw [textsAround, hleading, htrailing]
          exact List.append_nil _
        have hmember := (hf.member (htags x List.mem_cons_self)).writes
        have hbody := (((hopening.append Writes.space).append
          (hmember.before : Writes Start _ _ _ _)).append (Writes.space.append hclosing))
        rw [fieldWords_eq]
        exact ((Phrase.keyword _).append hbody).cast (by simp) (by simp [htexts])
  · have hlines := (LinesWrite.members h htags (indent + 1) true).append
      (.commentLines (indent + 1) fs.isEmpty e.closeComments)
    have hbraced := Writes.braced style .lbrace .rbrace (fun _ => rfl)
      ⟨by decide, fun _ => rfl⟩ hlines e indent
    have hspaced : Writes Ended _ Clear _ _ := Writes.space.append hbraced
    exact ((Phrase.keyword _).append hspaced).cast (by simp [wordOf, TokenKind.isWord]) (by simp)

end Lists

end Print

end HandlerSplit
