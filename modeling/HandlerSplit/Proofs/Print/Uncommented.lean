import HandlerSplit.Proofs.Print.Fields
import HandlerSplit.Proofs.Tree.Canonical
import HandlerSplit.Proofs.Tree.Regular
/-!
# Trees without comments

A canonical tree has no comments and is regular. Its words are among its tokens: what is left out of
the words is only what the layout of the tree asks for.
-/

namespace HandlerSplit

/-- A tree that is written without comments, and whose words are among its tokens. -/
structure Expr.Uncommented (x : Expr) : Prop where
  regular : x.Regular
  words : x.words ⊆ x.spelling
  texts : textsOf x.marks = []

theorem uncommented_elements {es : List Element} (h : ∀ e ∈ es, e.expr.Uncommented)
    (hdecs : ∀ e ∈ es, e.decs = .plain) :
    elementsRegular es ∧ elementWords es ⊆ separated (elementSpellings es) ∧
      textsOf (elementMarks es) = [] := by
  refine ⟨elementsRegular_iff.mpr fun e he => (h e he).regular, ?_, ?_⟩
  · rw [elementWords_eq, elementSpellings_eq]
    intro k hk
    obtain ⟨e, he, hk⟩ := List.mem_flatMap.mp hk
    exact mem_separated_of_mem (List.mem_map_of_mem he) ((h e he).words hk)
  · rw [elementMarks_eq, textsOf_flatMap, List.flatMap_eq_nil_iff]
    intro e he
    rw [Element.marks, hdecs e he, Decorations.around_plain]
    exact (h e he).texts

theorem uncommented_opt {y : Option Expr} (h : ∀ z ∈ y, z.Uncommented) :
    optExprRegular y ∧ optExprWords y ⊆ optSpelling y ∧ maxWords y ⊆ maxSpelling y ∧
      textsOf (optExprMarks y) = [] := by
  cases y with
  | none => exact ⟨trivial, List.Subset.refl _, List.Subset.refl _, rfl⟩
  | some y =>
    specialize h y rfl
    exact ⟨h.regular, h.words, List.cons_subset_cons _ h.words, h.texts⟩

theorem uncommented_of_isTypeName {t : Expr} (h : t.isTypeName = true) : t.Uncommented := by
  cases t with
  | ident n => exact ⟨trivial, List.Subset.refl _, rfl⟩
  | selector x n =>
    cases x with
    | ident p => exact ⟨trivial, List.Subset.refl _, rfl⟩
    | _ => cases h
  | _ => cases h

theorem uncommented_of_parts {x : Expr} (h : ∀ y ∈ x.parts, y.Uncommented) : x.Uncommented := by
  cases x with
  | keyValue k v =>
    obtain ⟨hregular, hwords, htexts⟩ := h k (by simp [Expr.parts])
    obtain ⟨hregular', hwords', htexts'⟩ := h v (by simp [Expr.parts])
    refine ⟨⟨hregular, hregular'⟩, by grind, ?_⟩
    rw [Expr.marks, textsOf_append, htexts, htexts', List.append_nil]
  | _ => exact h _ (by simp [Expr.parts])

/-- A canonical expression is written without comments, and its words are among its tokens. -/
theorem uncommented_of_canonical {x : Expr} (h : x.Canonical) : x.Uncommented := by
  induction h with
  | ident | int | string => exact ⟨trivial, List.Subset.refl _, rfl⟩
  | paren _ _ ih =>
    obtain ⟨hregular, hwords, htexts⟩ := ih
    exact ⟨hregular, by grind, htexts⟩
  | selector _ _ _ _ ih =>
    obtain ⟨hregular, hwords, htexts⟩ := ih
    refine ⟨hregular, by grind, ?_⟩
    rw [Expr.marks, textsOf_append, htexts]
    rfl
  | index _ _ _ ih ihkey =>
    obtain ⟨hregular, hwords, htexts⟩ := ih
    obtain ⟨hregular', hwords', htexts'⟩ := ihkey
    refine ⟨⟨hregular, hregular'⟩, by grind, ?_⟩
    rw [Expr.marks, textsOf_append, htexts, htexts', List.append_nil]
  | slice _ _ _ _ _ _ ih ihlow ihhigh ihmax =>
    obtain ⟨hregular, hwords, htexts⟩ := ih
    obtain ⟨hlow, hlowWords, -, hlowTexts⟩ := uncommented_opt ihlow
    obtain ⟨hhigh, hhighWords, -, hhighTexts⟩ := uncommented_opt ihhigh
    obtain ⟨hmax, -, hmaxWords, hmaxTexts⟩ := uncommented_opt ihmax
    refine ⟨⟨hregular, hlow, hhigh, hmax⟩, by grind, ?_⟩
    simp only [Expr.marks, textsOf_append, htexts, hlowTexts, hhighTexts, hmaxTexts,
      List.append_nil]
  | call _ _ _ hdecs ih ihargs =>
    obtain ⟨hregular, hwords, htexts⟩ := ih
    obtain ⟨hregular', hwords', htexts'⟩ := uncommented_elements ihargs hdecs
    refine ⟨⟨hregular, hregular'⟩, by grind, ?_⟩
    rw [Expr.marks, Enclosure.around_plain, textsOf_append, htexts, htexts', List.append_nil]
  | composite htype _ hdecs ih =>
    obtain ⟨hregular, hwords, htexts⟩ := uncommented_of_isTypeName htype
    obtain ⟨hregular', hwords', htexts'⟩ :=
      uncommented_elements (fun e he => uncommented_of_parts (ih e he)) hdecs
    refine ⟨⟨hregular, hregular'⟩, by grind, ?_⟩
    rw [Expr.marks, Enclosure.around_plain, textsOf_append, htexts', List.append_nil]
    exact htexts
  | unary _ _ ih | star _ _ ih =>
    obtain ⟨hregular, hwords, htexts⟩ := ih
    exact ⟨hregular, List.cons_subset_cons _ hwords, htexts⟩
  | binary _ _ _ _ ihx ihy =>
    obtain ⟨hregular, hwords, htexts⟩ := ihx
    obtain ⟨hregular', hwords', htexts'⟩ := ihy
    refine ⟨⟨hregular, hregular'⟩, by grind, ?_⟩
    rw [Expr.marks, textsOf_append, htexts, htexts', List.append_nil]

theorem uncommented_of_variadicElem {t : Expr} (h : t.variadicElem.Uncommented) :
    t.Uncommented := by
  cases t with
  | ellipsis y =>
    cases y with
    | none => exact h
    | some y => exact ⟨h.regular, List.subset_cons_of_subset _ h.words, h.texts⟩
  | _ => exact h

theorem uncommented_fields {fs : FieldList} (h : fs.Uniform)
    (htypes : ∀ f ∈ fs.fields, f.type.Uncommented) :
    fs.Regular false ∧ fs.words ⊆ separated (fieldSpellings fs.fields) ∧
      textsOf (fs.marks true) = [] := by
  obtain ⟨fs, e⟩ := fs
  obtain ⟨he, htags, hdecs, -, -⟩ := h
  refine ⟨fieldsRegular_iff.mpr fun f hf => ⟨.inl (htags f hf), (htypes f hf).regular⟩, ?_, ?_⟩
  · rw [FieldList.words, fieldWords_eq, fieldSpellings_eq]
    intro k hk
    obtain ⟨f, hf, hk⟩ := List.mem_flatMap.mp hk
    refine mem_separated_of_mem (List.mem_map_of_mem hf) (List.mem_append.mpr ?_)
    have hfield : f.words false = nameWords f.names ++ f.type.words := by
      rw [Field.words, htags f hf]
      exact List.append_nil _
    rw [hfield, List.mem_append, nameWords, List.mem_map] at hk
    rcases hk with ⟨name, hname, rfl⟩ | hk
    · exact .inl (mem_separated_of_mem (List.mem_map_of_mem hname) (List.mem_singleton_self _))
    · exact .inr ((htypes f hf).words hk)
  · obtain rfl : e = .plain := he
    rw [FieldList.marks, Enclosure.around_plain, fieldMarks_eq, textsOf_flatMap,
      List.flatMap_eq_nil_iff]
    intro f hf
    rw [Field.marks, hdecs f hf, Decorations.around_plain, Field.inner, textsOf_append,
      textsOf_fieldNameMarks, (htypes f hf).texts]
    rfl

theorem uncommented_results {rs : Option FieldList} (h : ∀ fs ∈ rs, fs.Uniform)
    (htypes : ∀ fs ∈ rs, ∀ f ∈ fs.fields, f.type.Uncommented) :
    resultsRegular rs ∧ resultWords rs ⊆ resultsSpelling rs ∧ textsOf (resultMarks rs) = [] := by
  cases rs with
  | none => exact ⟨trivial, List.Subset.refl _, rfl⟩
  | some fs =>
    obtain ⟨hregular, hwords, htexts⟩ := uncommented_fields (h fs rfl) (htypes fs rfl)
    obtain ⟨fs, e⟩ := fs
    exact ⟨hregular, List.Subset.trans hwords (sublist_resultsSpelling fs e).subset, htexts⟩

theorem uncommented_of_isLength {len : Option Expr} (h : isLength len = true) :
    ∀ x ∈ len, x.Uncommented := by
  rintro x rfl
  cases x with
  | ellipsis y =>
    cases y with
    | none => exact ⟨trivial, nofun, rfl⟩
    | some y => cases h
  | literal => exact ⟨trivial, List.Subset.refl _, rfl⟩
  | _ => cases h

/-- A canonical type is written without comments, and its words are among its tokens. -/
theorem uncommented_of_canonicalType {t : Expr} (h : t.CanonicalType) : t.Uncommented := by
  induction h with
  | ident | qualified | struct | interface => exact ⟨trivial, List.Subset.refl _, rfl⟩
  | star _ ih => exact ⟨ih.regular, List.cons_subset_cons _ ih.words, ih.texts⟩
  | paren _ _ ih =>
    obtain ⟨hregular, hwords, htexts⟩ := ih
    exact ⟨hregular, by grind, htexts⟩
  | array hlen _ ih =>
    obtain ⟨hregular, hwords, htexts⟩ := ih
    obtain ⟨hlen, hlenWords, -, hlenTexts⟩ := uncommented_opt (uncommented_of_isLength hlen)
    refine ⟨⟨hlen, hregular⟩, by grind, ?_⟩
    rw [Expr.marks, textsOf_append, hlenTexts, htexts, List.append_nil]
  | map _ _ ihk ihv =>
    obtain ⟨hregular, hwords, htexts⟩ := ihk
    obtain ⟨hregular', hwords', htexts'⟩ := ihv
    refine ⟨⟨hregular, hregular'⟩, by grind, ?_⟩
    rw [Expr.marks, textsOf_append, htexts, htexts', List.append_nil]
  | chan _ _ ih =>
    obtain ⟨hregular, hwords, htexts⟩ := ih
    exact ⟨hregular, by grind, htexts⟩
  | @func sig hsig _ ih =>
    obtain ⟨hparams, hparamWords, hparamTexts⟩ := uncommented_fields hsig.params
      fun f hf => uncommented_of_variadicElem (ih _ (sig.mem_types_of_params hf))
    obtain ⟨hresults, hresultWords, hresultTexts⟩ := uncommented_results hsig.results
      fun fs hfs f hf => ih _ (sig.mem_types_of_results hfs hf)
    obtain ⟨⟨ps, e⟩, rs⟩ := sig
    refine ⟨⟨hparams, hresults⟩, by grind, ?_⟩
    rw [Expr.marks, Signature.marks, textsOf_append, hparamTexts, hresultTexts, List.append_nil]

end HandlerSplit
