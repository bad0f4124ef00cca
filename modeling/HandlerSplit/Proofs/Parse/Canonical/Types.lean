import HandlerSplit.Proofs.Parse.Canonical.Expr
import HandlerSplit.Proofs.Parse.Canonical.Params
/-!
# Reading canonical types

The tokens of a canonical type or signature are read as that type or signature, wherever they are
not gone on with (`parses_of_canonicalType`, `Parses.signature`).
-/

namespace HandlerSplit.Parse

open Script (line)

variable {g : Grammar} {ctx : Context} {rest : Script}

/-! ## Signatures -/

/-- The types of results that are read inside of them. -/
def InnerResults (g : Grammar) (ctx : Context) (fs : List Field) : Prop :=
  if isLoneType fs then ∀ f ∈ fs, InnerType g ctx f.type else ∀ f ∈ fs, InnerParam g ctx f

/-- The results of a function, if it has any, behind its parameters. -/
theorem Yields.results {rs : Option FieldList} (h : ∀ fs ∈ rs, fs.Uniform)
    (hlone : ∀ fs ∈ rs, ∀ f, fs.fields = [f] → f.names = [] → Print.isParen f.type = false)
    (htypes : ∀ fs ∈ rs, InnerResults g ctx fs.fields)
    (hturns : (resultsSpelling rs).length < g.budget)
    (hstop : continuesType (rest.first true) = false) :
    Yields g.results (Script.view (line (resultsSpelling rs) ++ rest) true 0 ctx) rs
      (Script.view rest true 0 ctx) := by
  cases rs with
  | none =>
    have hparen : rest.first true ≠ .punct .lparen := by
      intro heq
      rw [heq] at hstop
      cases hstop
    have hstarts : ¬(rest.first true).startsType = true := by
      intro heq
      rw [continuesType, heq, Bool.or_true] at hstop
      cases hstop
    have hfirst : Script.first true (line (resultsSpelling none) ++ rest) = rest.first true := rfl
    refine .peekKind ?_
    rw [hfirst, if_neg hparen, if_neg hstarts]
    exact .pure
  | some fs =>
    specialize h _ rfl
    specialize hlone _ rfl
    specialize htypes _ rfl
    obtain ⟨fs, enclosure⟩ := fs
    rw [resultsSpelling] at hturns ⊢
    by_cases hfs : isLoneType fs = true
    · -- a lone type is read as it is, and not as a parameter list
      rw [InnerResults, if_pos hfs] at htypes
      obtain ⟨f, rfl, hnames, hspelling⟩ := exists_of_isLoneType hfs
      obtain ⟨ns, t, tag, d⟩ := f
      obtain rfl : ns = [] := hnames
      obtain rfl : tag = none := h.tags _ (List.mem_singleton.mpr rfl)
      obtain rfl : d = .plain := h.decs _ (List.mem_singleton.mpr rfl)
      obtain rfl : enclosure = .plain := h.enclosure
      have ht : InnerType g ctx t := htypes _ (List.mem_singleton.mpr rfl)
      have hread := ht.parses true 0 rest hstop
      obtain ⟨k, ks, hks, hk⟩ := startsType_spelling ht.canonical
      rw [hlone _ rfl rfl, if_neg Bool.false_ne_true] at hk
      rw [if_pos hfs, hspelling]
      rw [hks] at hread ⊢
      have hparen : k ≠ .punct .lparen := by
        rintro rfl
        cases hk
      have hfirst : Script.first true (line (k :: ks) ++ rest) = k := rfl
      refine .peekKind ?_
      rw [hfirst, if_neg hparen, if_pos hk]
      exact .bind hread .pure
    · rw [InnerResults, if_neg hfs] at htypes
      rw [if_neg hfs] at hturns ⊢
      exact .peekKind (.bind (Parses.params h htypes hturns true 0 rest trivial) .pure)

/-- A signature, up to what would go on with it. -/
theorem Parses.signature {s : Signature} (h : s.Shaped)
    (hparams : ∀ f ∈ s.params.fields, InnerParam g ctx f)
    (hresults : ∀ fs ∈ s.results, InnerResults g ctx fs.fields)
    (hturns : s.spelling.length < g.budget) :
    Parses g.signature (line s.spelling) s ctx (continuesType · = false) := by
  intro semi gap rest hstop
  obtain ⟨ps, rs⟩ := s
  have hlength : (Signature.spelling ⟨ps, rs⟩).length =
      ps.spelling.length + (resultsSpelling rs).length := by
    rw [Signature.spelling, List.length_append]
  have hfirst : ps.spelling.length < g.budget := by omega
  have hsecond : (resultsSpelling rs).length < g.budget := by omega
  have hps := Parses.params h.params hparams hfirst semi gap (line (resultsSpelling rs) ++ rest)
    trivial
  have hrs := Yields.results h.results h.lone hresults hsecond hstop
  rw [Signature.spelling, Script.line_append, List.append_assoc]
  exact .bind hps (.bind hrs .pure)

/-! ## Room in a signature -/

/-- Without its dots a type is no longer, and as deep. -/
theorem variadicElem_le (t : Expr) :
    t.variadicElem.spelling.length ≤ t.spelling.length ∧ t.variadicElem.nesting = t.nesting := by
  cases t with
  | ellipsis x =>
    cases x with
    | none => exact ⟨Nat.le_refl _, rfl⟩
    | some t => exact ⟨Nat.le_succ _, rfl⟩
  | _ => exact ⟨Nat.le_refl _, rfl⟩

/-- A type is no longer than the fields it is in. -/
theorem length_le_of_mem_fields {fs : List Field} {f : Field} (hf : f ∈ fs) :
    f.type.spelling.length ≤ (separated (fieldSpellings fs)).length := by
  have hmem : separated (f.names.map fun n => [.ident n]) ++ f.type.spelling ∈ fieldSpellings fs := by
    rw [fieldSpellings_eq]
    exact List.mem_map_of_mem hf
  have hle := length_le_separated hmem
  rw [List.length_append] at hle
  omega

/-- A type is no deeper than the fields it is in. -/
theorem nesting_le_of_mem_fields {fs : List Field} {f : Field} (hf : f ∈ fs) :
    f.type.nesting ≤ fieldsNesting fs := by
  induction fs with
  | nil => cases hf
  | cons f' fs ih =>
    obtain ⟨ns, x, tag, d⟩ := f'
    rcases List.mem_cons.mp hf with rfl | hf
    · exact Nat.le_max_left _ _
    · exact Nat.le_trans (ih hf) (Nat.le_max_right _ _)

/-- A parameter is a type name by itself, or its type is one of those that nest. -/
theorem nesting_le_of_mem_params {fs : List Field} {f : Field} (hf : f ∈ fs) :
    f.names = [] ∧ f.type.isQualified = true ∨ f.type.nesting ≤ paramsNesting fs := by
  induction fs with
  | nil => cases hf
  | cons f' fs ih =>
    obtain ⟨ns, x, tag, d⟩ := f'
    rcases List.mem_cons.mp hf with rfl | hf
    · by_cases hname : (ns.isEmpty && x.isQualified) = true
      · rw [Bool.and_eq_true, List.isEmpty_iff] at hname
        exact .inl hname
      · refine .inr ?_
        rw [paramsNesting, if_neg hname]
        exact Nat.le_max_left _ _
    · exact (ih hf).imp_right fun h => Nat.le_trans h (Nat.le_max_right _ _)

/-- A type that is read wherever there is room for it. -/
def TypeReadableAnywhere (budget : Nat) (t : Expr) : Prop :=
  ∀ {m : Nat} {ctx : Context}, Room budget m ctx t →
    Parses (Grammar.level budget m).nestedType (line t.spelling) t ctx (continuesType · = false)

section

variable {budget m : Nat} {t x : Expr}

/-- A canonical type for which there is room is a type inside. -/
theorem InnerType.of (ht : t.CanonicalType) (hroom : Room budget m ctx t)
    (hread : TypeReadableAnywhere budget t) : InnerType (Grammar.level budget (m + 1)) ctx t :=
  ⟨ht, hread hroom⟩

/-- The parameters of a signature with room are parameters inside. -/
theorem innerParam_of_mem {fs : List Field}
    (htypes : ∀ f ∈ fs, f.type.variadicElem.CanonicalType ∧
      TypeReadableAnywhere budget f.type.variadicElem)
    (hfits : Fits budget m ctx (separated (fieldSpellings fs)).length (paramsNesting fs)) :
    ∀ f ∈ fs, InnerParam (Grammar.level budget (m + 1)) ctx f := by
  intro f hf
  obtain ⟨hcanonical, hread⟩ := htypes f hf
  have hlength := length_le_of_mem_fields hf
  obtain ⟨helem, hsame⟩ := variadicElem_le f.type
  refine (nesting_le_of_mem_params hf).imp_right fun hle => ?_
  exact .of hcanonical (hfits.part (k := 0) (by omega) (by omega)) hread

/-- The results of a signature with room are results inside. -/
theorem innerResults_of {fs : List Field}
    (htypes : ∀ f ∈ fs, f.type.CanonicalType ∧ TypeReadableAnywhere budget f.type)
    (hfits : Fits budget m ctx (separated (fieldSpellings fs)).length
      (if isLoneType fs then fieldsNesting fs else paramsNesting fs)) :
    InnerResults (Grammar.level budget (m + 1)) ctx fs := by
  rw [InnerResults]
  split
  · rename_i hlone
    rw [if_pos hlone] at hfits
    intro f hf
    obtain ⟨hcanonical, hread⟩ := htypes f hf
    exact .of hcanonical (hfits.part (k := 0) (length_le_of_mem_fields hf)
      (nesting_le_of_mem_fields hf)) hread
  · rename_i hlone
    rw [if_neg hlone] at hfits
    refine innerParam_of_mem (fun f hf => ?_) hfits
    obtain ⟨hcanonical, hread⟩ := htypes f hf
    rw [variadicElem_of_canonicalType hcanonical]
    exact ⟨hcanonical, hread⟩

/-- A signature where there is room for it. -/
theorem Parses.signatureOf {sig : Signature} (hsig : sig.Shaped)
    (htypes : ∀ t ∈ sig.types, t.CanonicalType ∧ TypeReadableAnywhere budget t)
    (hfits : Fits budget m ctx sig.spelling.length sig.nesting) :
    Parses (Grammar.level budget (m + 1)).signature (line sig.spelling) sig ctx
      (continuesType · = false) := by
  have hparams (f : Field) (hf : f ∈ sig.params.fields) := htypes _ (sig.mem_types_of_params hf)
  have hresults (fs : FieldList) (hfs : fs ∈ sig.results) (f : Field) (hf : f ∈ fs.fields) :=
    htypes _ (sig.mem_types_of_results hfs hf)
  obtain ⟨⟨ps, e⟩, rs⟩ := sig
  have hlength : (Signature.spelling ⟨⟨ps, e⟩, rs⟩).length =
      (separated (fieldSpellings ps)).length + (resultsSpelling rs).length + 2 := by
    simp [Signature.spelling, FieldList.spelling]; omega
  have hnesting : Signature.nesting ⟨⟨ps, e⟩, rs⟩ = max (paramsNesting ps) (resultsNesting rs) :=
    rfl
  refine .signature hsig ?_ ?_ (by rw [budget_level]; exact hfits.turns)
  · show ∀ f ∈ ps, _
    exact innerParam_of_mem hparams (hfits.part (k := 0) (by omega) (by omega))
  · rintro ⟨fs, e'⟩ rfl
    have hsize := (sublist_resultsSpelling fs e').length_le
    have hdeep : (if isLoneType fs then fieldsNesting fs else paramsNesting fs) =
        resultsNesting (some ⟨fs, e'⟩) := rfl
    show InnerResults _ _ fs
    exact innerResults_of (hresults _ rfl) (hfits.part (k := 0) (by omega) (by omega))

/-! ## Canonical types -/

/-- Reading a type takes at least one level. -/
theorem nesting_pos_of_canonicalType (h : t.CanonicalType) : 0 < t.nesting := by
  cases h <;> exact Nat.succ_pos _

/-- A canonical type is written with at least one token. -/
theorem length_pos_of_canonicalType (h : t.CanonicalType) : 0 < t.spelling.length := by
  obtain ⟨k, ks, hks, -⟩ := startsType_spelling h
  rw [hks]
  exact Nat.succ_pos _

/-- A struct or interface without members. -/
theorem Yields.emptyBlock (phrase : Opened) (entry : Parser Field) (hturns : 0 < g.budget)
    (semi : Bool) :
    Yields (g.fieldBlock phrase entry)
      (Script.view (.token (.punct .lbrace) :: .token (.punct .rbrace) :: rest) semi 0 ctx) (.of [])
      (Script.view rest true 0 ctx) := by
  obtain ⟨n, hn⟩ := Nat.exists_eq_add_of_lt hturns
  have hfields (turn : Parser (Turn Field)) {v : View} (hturn : Yields turn v .stop v) :
      Yields (g.entries turn) v [] v := by
    rw [Grammar.entries, hn]
    exact .stop hturn
  exact .peek fun opening => .expectPunct (.claimTrailing (.bind (hfields _ (.peekKind .pure))
    (.closeEnclosure (.expectPunct .pure))))

/-- A slice or array type. -/
theorem Parses.arrayType {len : Option Expr} (hlen : isLength len = true)
    (hint : ∀ text, isDecimal text = true → Inner g ctx.inBrackets (.literal .int text))
    (ht : InnerType g ctx t) :
    Parses g.arrayType (line (Expr.arrayType len t).spelling) (.arrayType len t) ctx
      (continuesType · = false) := by
  intro semi gap rest hstop
  have hread := ht.parses true 0 rest hstop
  simp only [Expr.spelling, Script.line_append, Script.line_cons, List.append_assoc,
    List.cons_append, List.nil_append]
  cases len with
  | none => exact .expectPunct (.bind (.peekKind .pure) (.expectPunct (.bind hread .pure)))
  | some x =>
    cases x with
    | ellipsis x =>
      cases x with
      | none =>
        exact .expectPunct (.bind (.peekKind (.next .pure)) (.expectPunct (.bind hread .pure)))
      | some x => cases hlen
    | literal kind text =>
      cases kind with
      | int =>
        have hlength := (hint text hlen).parses false 0
          (.token (.punct .rbracket) :: (line t.spelling ++ rest)) rfl
        exact .expectPunct (.bind (.peekKind (.bind (.bracketed hlength) .pure))
          (.expectPunct (.bind hread .pure)))
      | _ => cases hlen
    | _ => cases hlen

/-- The keyword of a channel type with its arrow. The arrow of another channel does not follow
`chan`. -/
theorem Yields.chanDir {dir : ChanDir} (hdir : dir = .both → rest.first false ≠ .punct .arrow)
    (semi : Bool) (gap : Nat) (ctx : Context) :
    Yields Parse.chanDir (Script.view (line dir.words ++ rest) semi gap ctx) dir
      (rest.view false 0 ctx) := by
  cases dir with
  | both => exact .atFalse rfl (.expectKeyword (.atNe (hdir rfl) .pure))
  | send => exact .atFalse rfl (.expectKeyword (.atTrue rfl (.next .pure)))
  | recv => exact .atTrue rfl (.next (.expectKeyword .pure))

/-- A type that is no receiving channel does not start with the arrow. -/
theorem first_ne_arrow (h : t.CanonicalType) (hrecv : t.isRecvChan = false) :
    Script.first false (line t.spelling ++ rest) ≠ .punct .arrow := by
  cases h with
  | @chan dir x =>
    cases dir with
    | recv => cases hrecv
    | _ => exact nofun
  | _ => exact nofun

/-- Where a phrase can be read, a loop has a turn. -/
theorem Fits.turns_pos {size nesting : Nat} (h : Fits budget m ctx size nesting) :
    0 < (Grammar.level budget m).budget := by
  rw [budget_level]
  exact Nat.zero_lt_of_lt h.turns

namespace TypeReadableAnywhere

theorem ident {name : String} : TypeReadableAnywhere budget (.ident name) := by
  intro m ctx hroom semi gap rest hstop
  have hdepth := hroom.depth
  have hnesting : (Expr.ident name).nesting = 1 := rfl
  have hpoint : rest.first true ≠ .punct .period := by
    intro heq
    rw [heq] at hstop
    cases hstop
  exact .nested (by omega) (.peekKind (.next (.atNe hpoint .pure)))

/-- A name with a package. -/
theorem qualified {pkg name : String} :
    TypeReadableAnywhere budget (.selector (.ident pkg) name) := by
  intro m ctx hroom semi gap rest hstop
  have hdepth := hroom.depth
  have hnesting : (Expr.selector (.ident pkg) name).nesting = 1 := rfl
  exact .nested (by omega) (.peekKind (.next (.atTrue rfl (.next (.expectIdent .pure)))))

theorem star (hx : x.CanonicalType) (h : TypeReadableAnywhere budget x) :
    TypeReadableAnywhere budget (.star x) := by
  intro m ctx hroom semi gap rest hstop
  have hlength : (Expr.star x).spelling.length = x.spelling.length + 1 := rfl
  have hnesting : (Expr.star x).nesting = x.nesting + 1 := rfl
  have hpos := length_pos_of_canonicalType hx
  have hdepth := hroom.depth
  obtain ⟨m, rfl⟩ := hroom.below (k := 1) (by omega)
  have hread := h (hroom.deeper (by omega) (by omega)) false 0 rest hstop
  exact .nested (by omega) (.peekKind (.next (.bind hread .pure)))

theorem paren (h : TypeReadableAnywhere budget x) : TypeReadableAnywhere budget (.paren x) := by
  intro m ctx hroom semi gap rest hstop
  have hlength : (Expr.paren x).spelling.length = x.spelling.length + 2 := by simp [Expr.spelling]
  have hnesting : (Expr.paren x).nesting = x.nesting + 1 := rfl
  have hdepth := hroom.depth
  obtain ⟨m, rfl⟩ := hroom.below (k := 1) (by omega)
  have hread := h (hroom.deeper (by omega) (by omega)) false 0 (.token (.punct .rparen) :: rest) rfl
  simp only [Expr.spelling, Script.line_append, Script.line_cons, List.append_assoc,
    List.cons_append, List.nil_append]
  exact .nested (by omega) (.peekKind (.next (.bind hread (.expectPunct .pure))))

/-- An array type, or a slice type if there is no length. -/
theorem array {len : Option Expr} (hlen : isLength len = true) (hx : x.CanonicalType)
    (h : TypeReadableAnywhere budget x) : TypeReadableAnywhere budget (.arrayType len x) := by
  intro m ctx hroom semi gap rest hstop
  have hlength : (Expr.arrayType len x).spelling.length =
      (optSpelling len).length + x.spelling.length + 2 := by
    simp [Expr.spelling]; omega
  have hnesting : (Expr.arrayType len x).nesting = max (optNesting len) x.nesting + 1 := rfl
  have hpos := nesting_pos_of_canonicalType hx
  have hpos' := length_pos_of_canonicalType hx
  have hdepth := hroom.depth
  obtain ⟨m, rfl⟩ := hroom.below (k := 1) (by omega)
  have hint (text : String) (htext : isDecimal text = true) :
      Inner (Grammar.level budget (m + 1)) ctx.deeper.inBrackets (.literal .int text) := by
    have hone : (Expr.literal .int text).spelling.length = 1 := rfl
    have hone' : (Expr.literal .int text).nesting = 1 := rfl
    exact .inBrackets (.int htext) (hroom.deeper (by omega) (by omega))
      (readable_of_canonical (.int htext))
  have helem := InnerType.of hx (hroom.deeper (by omega) (by omega)) h
  exact .nested (by omega) (.peekKind (Parses.arrayType hlen hint helem semi gap rest hstop))

theorem map {k v : Expr} (hk : TypeReadableAnywhere budget k) (hv : TypeReadableAnywhere budget v) :
    TypeReadableAnywhere budget (.mapType k v) := by
  intro m ctx hroom semi gap rest hstop
  have hlength : (Expr.mapType k v).spelling.length = k.spelling.length + v.spelling.length + 3 := by
    simp [Expr.spelling]; omega
  have hnesting : (Expr.mapType k v).nesting = max k.nesting v.nesting + 1 := rfl
  have hdepth := hroom.depth
  obtain ⟨m, rfl⟩ := hroom.below (k := 1) (by omega)
  have hkey := hk (hroom.deeper (by omega) (by omega)) false 0
    (.token (.punct .rbracket) :: (line v.spelling ++ rest)) rfl
  have hvalue := hv (hroom.deeper (by omega) (by omega)) true 0 rest hstop
  simp only [Expr.spelling, Script.line_append, Script.line_cons, List.append_assoc,
    List.cons_append, List.nil_append]
  exact .nested (by omega) (.peekKind (.expectKeyword (.expectPunct (.bind hkey
    (.expectPunct (.bind hvalue .pure))))))

/-- A channel type, whose element does not start with the arrow that would belong to it. -/
theorem chan {dir : ChanDir} (hx : x.CanonicalType) (hdir : dir = .both → x.isRecvChan = false)
    (h : TypeReadableAnywhere budget x) : TypeReadableAnywhere budget (.chanType dir x) := by
  intro m ctx hroom semi gap rest hstop
  have hlength : (Expr.chanType dir x).spelling.length = dir.words.length + x.spelling.length := by
    simp [Expr.spelling]
  have hnesting : (Expr.chanType dir x).nesting = x.nesting + 1 := rfl
  have hpos : 0 < dir.words.length := by
    cases dir <;> exact Nat.succ_pos _
  have hpos' := length_pos_of_canonicalType hx
  have hdepth := hroom.depth
  obtain ⟨m, rfl⟩ := hroom.below (k := 1) (by omega)
  have hread := h (hroom.deeper (by omega) (by omega)) false 0 rest hstop
  have harrow (h : dir = .both) : Script.first false (line x.spelling ++ rest) ≠ .punct .arrow :=
    first_ne_arrow hx (hdir h)
  have hchan := Yields.chanDir harrow semi gap ctx.deeper
  rw [Expr.spelling, Script.line_append, List.append_assoc]
  refine .nested (by omega) (.peekKind ?_)
  cases dir <;> exact .bind hchan (.bind hread .pure)

/-- A function type whose types are all readable. -/
theorem func {sig : Signature} (hsig : sig.Shaped) (htypes : ∀ t ∈ sig.types, t.CanonicalType)
    (h : ∀ t ∈ sig.types, TypeReadableAnywhere budget t) :
    TypeReadableAnywhere budget (.funcType sig) := by
  intro m ctx hroom semi gap rest hstop
  have hlength : (Expr.funcType sig).spelling.length = sig.spelling.length + 1 := rfl
  have hpos : 0 < sig.spelling.length := by
    obtain ⟨⟨ps, e⟩, rs⟩ := sig
    simp [Signature.spelling, FieldList.spelling]
  have hnesting : (Expr.funcType sig).nesting = sig.nesting + 1 := rfl
  have hdepth := hroom.depth
  obtain ⟨m, rfl⟩ := hroom.below (k := 1) (by omega)
  have hread := Parses.signatureOf hsig (fun t ht => ⟨htypes t ht, h t ht⟩)
    (hroom.deeper (by omega) (by omega)) false 0 rest hstop
  exact .nested (by omega) (.peekKind (.next (.bind hread .pure)))

/-- A struct without fields, as the braces of others stand on several lines. -/
theorem struct : TypeReadableAnywhere budget (.structType (.of [])) := by
  intro m ctx hroom semi gap rest hstop
  have hdepth := hroom.depth
  have hnesting : (Expr.structType (.of [])).nesting = 1 := rfl
  exact .nested (by omega)
    (.peekKind (.expectKeyword (.bind (.emptyBlock _ _ hroom.turns_pos _) .pure)))

theorem interface : TypeReadableAnywhere budget (.interfaceType (.of [])) := by
  intro m ctx hroom semi gap rest hstop
  have hdepth := hroom.depth
  have hnesting : (Expr.interfaceType (.of [])).nesting = 1 := rfl
  exact .nested (by omega)
    (.peekKind (.expectKeyword (.bind (.emptyBlock _ _ hroom.turns_pos _) .pure)))

end TypeReadableAnywhere

/-- The tokens of a canonical type are read as that type. -/
theorem parses_of_canonicalType (h : t.CanonicalType) : TypeReadableAnywhere budget t := by
  induction h with
  | ident => exact TypeReadableAnywhere.ident
  | qualified => exact TypeReadableAnywhere.qualified
  | star hx ih => exact TypeReadableAnywhere.star hx ih
  | paren _ _ ih => exact TypeReadableAnywhere.paren ih
  | array hlen hx ih => exact TypeReadableAnywhere.array hlen hx ih
  | map _ _ ihk ihv => exact TypeReadableAnywhere.map ihk ihv
  | chan hx hdir ih => exact TypeReadableAnywhere.chan hx hdir ih
  | func hsig htypes ih => exact TypeReadableAnywhere.func hsig htypes ih
  | struct => exact TypeReadableAnywhere.struct
  | interface => exact TypeReadableAnywhere.interface

end

end HandlerSplit.Parse
