import HandlerSplit.Proofs.Print.Statements
/-!
# What declarations write

An entry of a declaration is written on one line, or in columns where its declaration has several.
-/

namespace HandlerSplit.Print

/-- The words of the values of an entry, with the sign before them. -/
def valuesWords : List Expr → List TokenKind
  | [] => []
  | v :: vs => [.punct .assign] ++ exprWords (v :: vs)

theorem words_value (ns : List String) (type : Option Expr) (vs : List Expr) :
    (SpecKind.value ns type vs).words = nameWords ns ++ optExprWords type ++ valuesWords vs := by
  cases vs with
  | nil => exact (List.append_nil _).symm
  | cons v vs => simp [SpecKind.words, valuesWords, exprWords]

/-- The printed form of an entry. -/
inductive SpecForm.Prints : SpecForm → SpecKind → Prop where
  | importPath (name : Option String) (path : String) :
    Prints (.importPath name path) (.importPath name path)
  | value (names : List String) {ty values : Option Output} {type : Option Expr} {vs : List Expr}
    (htype : OptWrites ty (optExprWords type) (textsOf (optExprMarks type)))
    (hvalues : OptWrites (values.map SpecForm.valuesCell) (valuesWords vs)
      (textsOf (exprMarks vs))) :
    Prints (.value names ty values) (.value names type vs)
  | type (name : String) (isAlias : Bool) {o : Output} {x : Expr}
    (hx : Writes Start o Ended x.words (textsOf x.marks)) :
    Prints (.type name isAlias o) (.type name isAlias x)

/-- A second part behind a space, if it is there. -/
theorem Writes.spaced {P : Before → Prop} {a : Output} {b : Option Output}
    {ws ws' : List TokenKind} {cs cs' : List String} (ha : Writes P a Ended ws cs)
    (hb : OptWrites b ws' cs') : Writes P (spaced a b) Ended (ws ++ ws') (cs ++ cs') := by
  cases b with
  | none =>
    obtain ⟨rfl, rfl⟩ := hb.2 rfl
    exact ha.cast (List.append_nil _).symm (List.append_nil _).symm
  | some o => exact ha.append (Writes.space.append hb.1)

/-- The name before an import path. -/
theorem Writes.importName (name : Option String) :
    Writes Start ((name.map fun n => [Piece.word n, .space]).getD []) Start (importNameWords name)
      [] := by
  cases name with
  | none => exact .nil
  | some n =>
    by_cases hpoint : n = "."
    · have hword : Writes Start [.word "."] Ended [.punct .period] [] := by
        refine Writes.token (k := .punct .period) rfl (.inr (legible_punct _)) ?_ ?_
        · rintro _ s rfl j hj
          cases hj
        · rintro k ⟨⟩
          rfl
      rw [importNameWords, if_pos hpoint, hpoint]
      exact hword.append .space
    · have hword : Writes Start [.word n] Shut [.ident n] [] := (Writes.ident n).before
      rw [importNameWords, if_neg hpoint]
      exact hword.append .space

theorem textsOf_importNameMarks (name : Option String) : textsOf (importNameMarks name) = [] := by
  cases name with
  | none => rfl
  | some n =>
    rw [importNameMarks]
    split <;> rfl

/-- The type of a type declaration. -/
theorem Writes.typeCell {o : Output} {ws : List TokenKind} {cs : List String}
    (h : Writes Start o Ended ws cs) (isAlias : Bool) :
    Writes Start (SpecForm.typeCell isAlias o) Ended
      ((if isAlias then [.punct .assign] else []) ++ ws) cs := by
  cases isAlias with
  | false => exact h
  | true =>
    have hsign : Writes Start [.word "="] Open [.punct .assign] [] :=
      (Writes.mark .assign (by decide)).before
    exact (hsign.append Writes.space).append h

namespace SpecForm.Prints

variable {f : SpecForm} {k : SpecKind}

/-- An entry on one line. -/
theorem output (h : f.Prints k) : Writes Start f.output Ended k.words (textsOf k.marks) := by
  cases h with
  | importPath name path =>
    have hpath : Writes Open [.word path] Ended [.literal .string path] [] :=
      (Writes.literal .string path).behind
    refine ((Writes.importName name).append hpath).cast rfl ?_
    rw [SpecKind.marks, textsOf_importNameMarks]
    rfl
  | value names htype hvalues =>
    have hnames : Writes Start (Output.names names) Ended (nameWords names) [] :=
      (Writes.names names).behind
    refine ((hnames.spaced htype).spaced hvalues).cast (words_value ..).symm ?_
    rw [SpecKind.marks, textsOf_append, textsOf_append, textsOf_nameMarks]
  | type name isAlias hx =>
    have hname : Writes Start [.word name] Shut [.ident name] [] := (Writes.ident name).before
    exact ((hname.append Writes.space).append (hx.typeCell isAlias)).cast
      (by simp [SpecKind.words]) rfl

/-- The cells of an entry. -/
theorem cells (h : f.Prints k) (keepType : Bool) (comment : Option Comment) :
    ColumnsWrite (f.cells keepType comment) k.words (textsOf k.marks) := by
  cases h with
  | importPath name path => exact .single (output (.importPath name path))
  | @value names ty values type vs htype hvalues =>
    have htypeCell : ColumnsWrite (if ty.isSome || keepType then [ty.getD []] else [])
        (optExprWords type) (textsOf (optExprMarks type)) := by
      split
      · exact .single htype.1
      · rename_i hnone
        rw [Bool.or_eq_true, not_or, Option.not_isSome_iff_eq_none] at hnone
        obtain ⟨hws, hcs⟩ := htype.2 hnone.1
        rw [hws, hcs]
        exact .nil
    have hvalueCell : ColumnsWrite (values.map SpecForm.valuesCell).toList (valuesWords vs)
        (textsOf (exprMarks vs)) := by
      cases hcell : values.map SpecForm.valuesCell with
      | none =>
        obtain ⟨hws, hcs⟩ := hvalues.2 hcell
        rw [hws, hcs]
        exact .nil
      | some o =>
        rw [hcell] at hvalues
        exact .single hvalues.1
    have hgap (n : Nat) : ColumnsWrite (if comment.isSome then List.replicate n [] else []) [] [] := by
      split
      · induction n with
        | zero => exact .nil
        | succ n ih => exact ColumnsWrite.empty.append ih
      · exact .nil
    have hnames : ColumnsWrite [Output.names names] (nameWords names) [] :=
      .single (Writes.names names)
    refine (((hnames.append htypeCell).append hvalueCell).append (hgap _)).cast ?_ ?_
    · rw [List.append_nil, words_value]
    · rw [SpecKind.marks, textsOf_append, textsOf_append, textsOf_nameMarks, List.append_nil]
  | type name isAlias hx =>
    have hname : Writes Start [.word name] Shut [.ident name] [] := (Writes.ident name).before
    exact ((ColumnsWrite.single hname).append (.single (hx.typeCell isAlias))).cast
      (by simp [SpecKind.words]) rfl

end SpecForm.Prints

/-! ## Groups -/

/-- The printed form of an entry with its layout. -/
structure SpecText.Prints (t : SpecText) (s : Spec) : Prop where
  form : t.form.Prints s.kind
  decs : t.decs = s.decs

variable {ss : List Spec} {ts : List SpecText}

theorem textsOf_specMarks (ss : List Spec) :
    textsOf (specMarks ss) = ss.flatMap fun s => textsAround s.decs (textsOf s.kind.marks) := by
  rw [specMarks_eq, textsOf_flatMap]
  exact List.flatMap_congr fun s _ => textsOf_around s.decs s.kind.marks

theorem length_keepsType (forms : List SpecForm) : (keepsType forms).length = forms.length := by
  have hsplit := List.flatten_splitBy (fun a b : SpecForm => a.hasValues == b.hasValues) forms
  conv => rhs; rw [← hsplit]
  rw [keepsType, List.length_flatMap, List.length_flatten]
  simp

theorem LinesWrite.specs (h : List.Forall₂ (fun s t => SpecText.Prints t s) ss ts) (several : Bool)
    {keeps : List Bool} (hkeeps : keeps.length = ts.length) (indent : Nat) (first : Bool) :
    LinesWrite (specLines indent several first ts keeps) (specWords ss) (textsOf (specMarks ss)) := by
  rw [specWords_eq, textsOf_specMarks]
  induction h generalizing first keeps with
  | nil => exact .nil
  | @cons s t ss ts ht _ ih =>
    rcases keeps with _ | ⟨keep, keeps⟩
    · cases hkeeps
    have hcells : ColumnsWrite (if several then t.form.cells keep t.decs.trailing else [t.form.output])
        s.kind.words (textsOf s.kind.marks) := by
      split
      · exact ht.form.cells keep t.decs.trailing
      · exact .single ht.form.output
    have hlines := (LinesWrite.leadingLines indent t.decs first).append
      ((LinesWrite.line indent (hcells.withComment t.decs.trailing)).append
        (ih (Nat.succ.inj hkeeps) false))
    exact hlines.cast rfl (by simp [textsAround, ht.decs])

/-- A declaration. Without parentheses it has one entry, which has no layout. -/
theorem Writes.genDecl (style : Style) (h : List.Forall₂ (fun s t => SpecText.Prints t s) ss ts)
    {keyword : GenKeyword} {group : Option Enclosure}
    (hone : group = none → ss.map (·.decs) = [.plain]) (indent : Nat) :
    Writes Open (genOutput style ⟨keyword, ss, group⟩ indent ts) Ended
      (GenDecl.words ⟨keyword, ss, group⟩) (textsOf (GenDecl.marks ⟨keyword, ss, group⟩)) := by
  have hkeyword : Writes Open [keywordPiece keyword.keyword, .space] Start
      [.keyword keyword.keyword] [] := (Writes.keyword _).append .space
  have hopening : Writes Closed [.word "("] Clear [] [] := Writes.bracket (m := .lparen) fun _ => rfl
  have hclosing : Writes Ended [.word ")"] Clear [] [] :=
    Writes.closing (m := .rparen) (by decide) fun _ => rfl
  cases group with
  | none =>
    have hdecs := hone rfl
    cases h with
    | nil => cases hdecs
    | @cons s t ss ts ht hts =>
      obtain ⟨hs, hss⟩ := List.cons.inj hdecs
      rw [List.map_eq_nil_iff] at hss
      subst hss
      refine (hkeyword.append ht.form.output).cast ?_ ?_
      · rw [GenDecl.words, specWords_eq, List.flatMap_singleton]
      · have hplain : s.decs = .plain := hs
        rw [GenDecl.marks, textsOf_specMarks, List.flatMap_singleton, hplain]
        exact (List.append_nil _).symm
  | some group =>
    unfold genOutput
    dsimp only
    split
    · rename_i hempty
      rw [Bool.and_eq_true, List.isEmpty_iff, Bool.not_eq_true', Enclosure.hasComments,
        Bool.or_eq_false_iff, Option.isSome_eq_false_iff, Option.isNone_iff_eq_none,
        Bool.not_eq_false', List.isEmpty_iff] at hempty
      obtain ⟨rfl, hopen, hclose⟩ := hempty
      cases h
      refine (hkeyword.append (hopening.append hclosing)).behind.cast rfl ?_
      rw [GenDecl.marks, textsOf_enclosure, hopen, hclose]
      rfl
    · have hlines := (LinesWrite.specs h (ts.length > 1) ((length_keepsType (ts.map (·.form))).trans
        (List.length_map _)) (indent + 1) true).append
          (.commentLines (indent + 1) ts.isEmpty group.closeComments)
      have hbraced := Writes.braced style .lparen .rparen (fun _ => rfl)
        ⟨by decide, fun _ => rfl⟩ hlines group indent
      refine (hkeyword.append hbraced).behind.cast ?_ ?_
      · simp [GenDecl.words, wordOf, TokenKind.isWord]
      · rw [GenDecl.marks, textsOf_enclosure]
        simp

end HandlerSplit.Print
