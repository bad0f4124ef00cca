import HandlerSplit.Proofs.Handler.Derivation
import HandlerSplit.Proofs.Handler.Frame
import HandlerSplit.Proofs.Handler.Rebinding
import HandlerSplit.Proofs.Handler.Schema
import HandlerSplit.Proofs.Handler.Wrapping
import HandlerSplit.Proofs.Print.Rereading
/-!
# Rewritten files are read again

What a rewrite puts into a canonical file is canonical, if its conventions are: the methods are made
of statements of `Process` and `Register` with the version renamed, `Read` has names for selectors,
and the constructor has calls for the values it returns. Only these calls add a level of nesting. So
a canonical file that is not nested as deeply as the parser goes stays readable
(`transform_readable`).
-/

namespace HandlerSplit

open Parse (maxNesting)

variable {c : Conventions} {n : Nat}

/-! ## Substitutions of a rewrite -/

/-- Renaming to a name is mild. -/
theorem mild_renamed (old : String) {new : String} (hnew : isName new = true) :
    (Substitution.ofNames (renamed old new)).Mild 0 where
  name n hn := by
    show isName (if n = old then new else n) = true
    split
    · exact hnew
    · exact hn
  expr _ _ h := nomatch h
  stmt _ _ h := nomatch h

/-- Putting the name of a parameter for selectors is mild. -/
theorem mild_versionBinding (hversion : isName c.versionParam = true) :
    (versionBinding c).Mild 0 where
  name _ hn := hn
  expr x y hxy := by
    have hselects : selectsService c x = true := by
      by_contra hnot
      exact absurd (hxy.symm.trans (if_neg hnot)) nofun
    obtain ⟨middle, hmiddle⟩ := Option.isSome_iff_exists.mp hselects
    obtain ⟨f, rfl⟩ := middleSelector?_eq_some hmiddle
    obtain rfl := Option.some.inj (hxy.symm.trans (if_pos hselects))
    exact ⟨_, _, _, rfl, rfl, hversion⟩
  stmt _ _ h := nomatch h

/-- A value that is put into a call is one level deeper. -/
theorem mild_wrapping {wrapper : String} (hwrapper : isName wrapper = true) :
    (Substitution.wrapping wrapper).Mild 1 where
  name _ hn := hn
  expr _ _ h := nomatch h
  stmt t t' h := by
    have hone : t.returnsOne = true := by
      by_contra hnot
      exact absurd (h.symm.trans (if_neg hnot)) nofun
    obtain ⟨value, d, rfl⟩ := Stmt.returnsOne_iff.mp hone
    obtain rfl : Stmt.wrapped wrapper ⟨.returns [value], d⟩ = t' := Option.some.inj h
    refine ⟨[value], rfl, rfl, fun hvalue => .returns (List.forall_mem_singleton.mpr ?_), ?_⟩
    · exact .call (.ident hwrapper) rfl
        (List.forall_mem_singleton.mpr (hvalue value List.mem_cons_self))
        (List.forall_mem_singleton.mpr rfl)
    · show max (max 1 (max value.nesting 0 + 1)) 0 ≤ max value.nesting 0 + 1
      omega

/-! ## Conventions -/

/-- A canonical type that may be a lone result. -/
structure Expr.ReadableType (t : Expr) : Prop where
  canonical : t.CanonicalType
  nesting : t.nesting ≤ maxNesting
  paren : Print.isParen t = false

/-- The names that a rewrite writes. -/
def Conventions.names (c : Conventions) : List String :=
  [c.ctorWrapper, c.receiverName, c.dataParam, c.resourceParam, c.modifiedParam, c.versionParam,
    c.clientParam, c.keyField]

/-- Conventions whose names are names and whose types are canonical. -/
structure Conventions.Canonical (c : Conventions) : Prop where
  names : ∀ name ∈ c.names, isName name = true
  types : ∀ text ∈ c.types, ∃ t, typeExpr text = .ok t ∧ t.ReadableType

/-- A type of the conventions is the type whose text it is. -/
theorem typeExpr_of_print {t : Expr} (h : t.ReadableType) {text : String} (htext : t.print = text) :
    Conventions.typeExpr text = .ok t := by
  rw [Conventions.typeExpr, parseType_of_print h.canonical h.nesting htext]

/-- The standard conventions are canonical. -/
theorem canonical_standard : ({} : Conventions).Canonical where
  names := by decide
  types := by
    have hname {n : String} (h : isName n = true) : (Expr.ident n).ReadableType :=
      ⟨.ident h, Nat.le_add_left 1 39, rfl⟩
    have hpointer {p n : String} (hp : isName p = true) (hn : isName n = true) :
        (Expr.star (.selector (.ident p) n)).ReadableType :=
      ⟨.star (.qualified hp hn), Nat.le_add_left 2 38, rfl⟩
    have hread {t : Expr} (h : t.ReadableType) {text : String} (htext : t.print = text) :
        ∃ t, Conventions.typeExpr text = .ok t ∧ t.ReadableType :=
      ⟨t, typeExpr_of_print h htext, h⟩
    refine List.forall_mem_cons.mpr ⟨?_, List.forall_mem_cons.mpr ⟨?_, List.forall_mem_cons.mpr
      ⟨?_, List.forall_mem_cons.mpr ⟨?_, List.forall_mem_cons.mpr ⟨?_, List.forall_mem_cons.mpr
        ⟨?_, List.forall_mem_singleton.mpr ?_⟩⟩⟩⟩⟩⟩
    · exact hread (t := .selector (.ident "context") "Context")
        ⟨.qualified (by decide) (by decide), by decide, rfl⟩ (by decide +kernel)
    · exact hread (hpointer (p := "schema") (n := "ResourceData") (by decide) (by decide))
        (by decide +kernel)
    · exact hread (t := .mapType (.ident "string") (.interfaceType (.of [])))
        ⟨.map (.ident (by decide)) .interface, by decide, rfl⟩ (by decide +kernel)
    · exact hread (hname (n := "int") (by decide)) (by decide +kernel)
    · exact hread (hpointer (p := "gofastly") (n := "Client") (by decide) (by decide))
        (by decide +kernel)
    · exact hread (hpointer (p := "schema") (n := "Schema") (by decide) (by decide))
        (by decide +kernel)
    · exact hread (hname (n := "error") (by decide)) (by decide +kernel)

/-! ## Signatures -/

/-- Named parameters of canonical types. -/
structure FieldList.ReadableParams (params : FieldList) : Prop where
  uniform : params.Uniform
  types : ∀ f ∈ params.fields, f.type.CanonicalType ∧ f.type.nesting ≤ maxNesting

/-- The results of a signature that is readable. -/
structure ReadableResults (results : Option FieldList) : Prop where
  uniform : ∀ rs ∈ results, rs.Uniform
  lone : ∀ rs ∈ results, ∀ f, rs.fields = [f] → f.names = [] → Print.isParen f.type = false
  types : ∀ rs ∈ results, ∀ f ∈ rs.fields, f.type.CanonicalType
  nesting : resultsNesting results ≤ maxNesting

/-- Parameters are as deep as the deepest of their types. -/
theorem paramsNesting_le {fs : List Field} (h : ∀ f ∈ fs, f.type.nesting ≤ n) :
    paramsNesting fs ≤ n := by
  induction fs with
  | nil => exact Nat.zero_le n
  | cons f fs ih =>
    obtain ⟨ns, x, tag, decs⟩ := f
    obtain ⟨hf, hfs⟩ := List.forall_mem_cons.mp h
    refine Nat.max_le.mpr ⟨?_, ih hfs⟩
    split
    · exact Nat.zero_le n
    · exact hf

/-- Readable parameters and results make a readable signature. -/
theorem readable_signature {params : FieldList} {results : Option FieldList}
    (hparams : params.ReadableParams) (hresults : ReadableResults results) :
    Signature.Readable ⟨params, results⟩ where
  shaped := ⟨hparams.uniform, hresults.uniform, hresults.lone⟩
  types t ht := by
    rcases List.mem_append.mp ht with ht | ht
    · obtain ⟨f, hf, rfl⟩ := List.mem_map.mp ht
      have hcanonical := (hparams.types f hf).1
      rwa [variadicElem_of_canonicalType hcanonical]
    · obtain ⟨f, hf, rfl⟩ := List.mem_map.mp ht
      cases results with
      | none => cases hf
      | some rs => exact hresults.types rs rfl f hf
  nesting := by
    obtain ⟨fs, e⟩ := params
    exact Nat.max_le.mpr ⟨paramsNesting_le fun f hf => (hparams.types f hf).2, hresults.nesting⟩

/-- The results of a readable signature are readable, whatever its parameters are. -/
theorem Signature.Readable.results {g : Signature} (h : g.Readable) :
    ReadableResults g.results where
  uniform := h.shaped.results
  lone := h.shaped.lone
  types rs hrs f hf := h.types _ (g.mem_types_of_results hrs hf)
  nesting := by
    obtain ⟨params, results⟩ := g
    exact (Nat.max_le.mp h.nesting).2

/-- A lone result. -/
theorem readableResults_of {t : Expr} (h : t.ReadableType) :
    ReadableResults (some (.of [.of [] t])) where
  uniform := by
    rintro _ ⟨⟩
    exact ⟨rfl, List.forall_mem_singleton.mpr rfl, List.forall_mem_singleton.mpr rfl,
      List.forall_mem_singleton.mpr nofun, .inr (List.forall_mem_singleton.mpr rfl)⟩
  lone := by
    rintro _ ⟨⟩ _ ⟨⟩ _
    exact h.paren
  types := by
    rintro _ ⟨⟩
    exact List.forall_mem_singleton.mpr h.canonical
  nesting := Nat.max_le.mpr ⟨h.nesting, Nat.zero_le _⟩

/-- No parameters. -/
theorem readableParams_nil : (FieldList.of []).ReadableParams :=
  ⟨⟨rfl, nofun, nofun, nofun, .inl nofun⟩, nofun⟩

/-- Parameters that have names and readable types. -/
theorem readableParams_map (ps : List (List String × Expr))
    (hnames : ∀ p ∈ ps, p.1 ≠ [] ∧ ∀ name ∈ p.1, isName name = true)
    (htypes : ∀ p ∈ ps, p.2.ReadableType) :
    (FieldList.of (ps.map fun p => .of p.1 p.2)).ReadableParams where
  uniform :=
    { enclosure := rfl
      tags := List.forall_mem_map.mpr fun _ _ => rfl
      decs := List.forall_mem_map.mpr fun _ _ => rfl
      names := List.forall_mem_map.mpr fun p hp => (hnames p hp).2
      named := .inl (List.forall_mem_map.mpr fun p hp => (hnames p hp).1) }
  types := List.forall_mem_map.mpr fun p hp => ⟨(htypes p hp).canonical, (htypes p hp).nesting⟩

/-- The parameters of a method are readable. -/
theorem readableParams_of_handlerParams (hc : c.Canonical) {map : MapParam} {params : FieldList}
    (h : c.handlerParams map = .ok params) : params.ReadableParams := by
  obtain ⟨context, hcontext, hcontext'⟩ := hc.types c.contextType (by simp [Conventions.types])
  obtain ⟨data, hdata, hdata'⟩ := hc.types c.resourceDataType (by simp [Conventions.types])
  obtain ⟨resource, hresource, hresource'⟩ :=
    hc.types c.resourceMapType (by simp [Conventions.types])
  obtain ⟨version, hversion, hversion'⟩ := hc.types c.versionType (by simp [Conventions.types])
  obtain ⟨client, hclient, hclient'⟩ := hc.types c.clientType (by simp [Conventions.types])
  rw [Conventions.handlerParams, hcontext, hdata, hresource, hversion, hclient] at h
  obtain rfl := Except.ok.inj h
  have hmap : c.mapNames map ≠ [] ∧ ∀ name ∈ c.mapNames map, isName name = true := by
    have hresource := hc.names c.resourceParam (by simp [Conventions.names])
    have hmodified := hc.names c.modifiedParam (by simp [Conventions.names])
    cases map with
    | resource => exact ⟨List.cons_ne_nil _ _, by simpa [Conventions.mapNames] using hresource⟩
    | resourceAndModified =>
      exact ⟨List.cons_ne_nil _ _, by simpa [Conventions.mapNames] using ⟨hresource, hmodified⟩⟩
    | blank => exact ⟨List.cons_ne_nil _ _, List.forall_mem_singleton.mpr (by decide)⟩
  have hone {name : String} (h : isName name = true) :
      [name] ≠ [] ∧ ∀ n ∈ [name], isName n = true :=
    ⟨List.cons_ne_nil name [], List.forall_mem_singleton.mpr h⟩
  refine readableParams_map [(["_"], context), ([c.dataParam], data), (c.mapNames map, resource),
    ([c.versionParam], version), ([c.clientParam], client)] ?_ ?_
  · refine List.forall_mem_cons.mpr ⟨hone (by decide), List.forall_mem_cons.mpr ⟨hone ?_,
      List.forall_mem_cons.mpr ⟨hmap, List.forall_mem_cons.mpr ⟨hone ?_,
        List.forall_mem_singleton.mpr (hone ?_)⟩⟩⟩⟩
    all_goals exact hc.names _ (by simp [Conventions.names])
  · exact List.forall_mem_cons.mpr ⟨hcontext', List.forall_mem_cons.mpr ⟨hdata',
      List.forall_mem_cons.mpr ⟨hresource', List.forall_mem_cons.mpr ⟨hversion',
        List.forall_mem_singleton.mpr hclient'⟩⟩⟩⟩

/-- A lone result in a type of the conventions is readable. -/
theorem readableResults_of_result (hc : c.Canonical) {text : String} (htext : text ∈ c.types)
    {results : FieldList} (h : Conventions.result text = .ok results) :
    ReadableResults (some results) := by
  obtain ⟨t, ht, ht'⟩ := hc.types text htext
  rw [Conventions.result, ht] at h
  obtain rfl := Except.ok.inj h
  exact readableResults_of ht'

/-! ## Methods -/

/-- The receiver of a method. -/
theorem readable_receiver (hc : c.Canonical) {handler : String} (hhandler : isName handler = true) :
    (c.receiver handler).CanonicalReceiver ∧ (c.receiver handler).nesting ≤ maxNesting := by
  have hname : isName c.receiverName = true := hc.names _ (by simp [Conventions.names])
  refine ⟨⟨⟨rfl, ?_, ?_, ?_, .inl ?_⟩, _, rfl, nofun, .star (.ident hhandler)⟩,
    Nat.le_add_left 2 38⟩
  · exact List.forall_mem_singleton.mpr rfl
  · exact List.forall_mem_singleton.mpr rfl
  · exact List.forall_mem_singleton.mpr (List.forall_mem_singleton.mpr hname)
  · exact List.forall_mem_singleton.mpr nofun

/-- A method is readable if its body is. -/
theorem readable_method (hc : c.Canonical) {handler name : String}
    (hhandler : isName handler = true) (hname : isName name = true) {params : FieldList}
    {results : Option FieldList} {b : Block} (hparams : params.ReadableParams)
    (hresults : ReadableResults results) (hb : b.Readable n) :
    FuncDecl.Readable n ⟨some (c.receiver handler), name, ⟨params, results⟩, some b⟩ where
  recv := by
    rintro _ ⟨⟩
    exact readable_receiver hc hhandler
  name := hname
  signature := readable_signature hparams hresults
  body := ⟨b, rfl, hb⟩

/-- A return of a shallow value. -/
theorem readable_returning {x : Expr} (hx : x.Canonical) (hnesting : x.nesting ≤ 1) (hn : 1 < n) :
    (Stmt.returning [x]).Readable n where
  canonical := .returns (List.forall_mem_singleton.mpr hx)
  comments := rfl
  nesting := by
    show max x.nesting 0 < n
    omega

/-- Returning `nil` takes one level. -/
theorem readable_returnNil (hn : 1 < n) : Stmt.returnNil.Readable n :=
  readable_returning (.ident (by decide)) (Nat.le_refl 1) hn

/-- The loops of `Process` over a bucket have readable bodies. -/
theorem readable_bucketBodies {f : FuncDecl} (h : f.Readable n) (diffResult bucket : String) :
    ∀ b ∈ f.bucketBodies diffResult bucket, b.Readable n := by
  obtain ⟨-, -, -, _, hbody, ss, rfl, hss⟩ := h
  rw [FuncDecl.bucketBodies, hbody]
  intro b hb
  obtain ⟨s, hs, hloop⟩ := List.mem_filterMap.mp hb
  have hwithin : Event.CanonicalWithin n (stmtEvents ss) := by
    refine canonicalWithin_stmts (fun t ht => (hss t ht).canonical)
      (stmtsNesting_le_iff.mpr fun t ht => Nat.le_of_lt (hss t ht).nesting) fun t ht n hn => ?_
    exact (hss t ht).canonical.nodes hn
  obtain ⟨hcanonical, hnesting⟩ := hwithin.of_mem_stmts hs
  obtain ⟨kind, decs⟩ := s
  cases hcanonical with
  | @rangeLoop key value define x body _ _ _ _ _ hlines hbody =>
    obtain rfl : Block.of body = b := by
      simp only at hloop
      split at hloop
      · exact Option.some.inj hloop
      · cases hloop
    exact Block.readable_of_canonical (.block hlines hbody)
      (Nat.le_trans (Nat.le_max_right _ _) hnesting)
  | simple hkind => cases hkind <;> cases hloop
  | _ => cases hloop

/-- A statement that has been moved to the start of a body is readable. -/
theorem Stmt.Readable.atStart {t : Stmt} (h : t.Readable n) :
    ({ t with decs := t.decs.atStart } : Stmt).Readable n where
  canonical := h.canonical
  comments := by
    obtain ⟨hleading, htrailing⟩ := Decorations.hasComments_eq_false_iff.mp h.comments
    rw [Decorations.hasComments_eq_false_iff]
    simp only [Decorations.atStart, hleading, htrailing, and_self]
  nesting := h.nesting

/-- The statements of a loop that a method takes over. -/
theorem readable_keptStmts {ss : List Stmt} (h : ∀ t ∈ ss, t.Readable n) :
    ∀ t ∈ keptStmts c (.of ss), t.Readable n := by
  intro t ht
  have hmem : t ∈ clearStart ss.tail := (List.mem_filter.mp ht).1
  have htail : ∀ t ∈ ss.tail, t.Readable n := fun t ht => h t (List.mem_of_mem_tail ht)
  generalize ss.tail = us at hmem htail
  cases us with
  | nil => cases hmem
  | cons u us =>
    rcases List.mem_cons.mp hmem with rfl | hmem
    · exact (htail u List.mem_cons_self).atStart
    · exact htail t (List.mem_cons_of_mem _ hmem)

/-- The body of a method that is derived from `Process`. -/
theorem readable_derivation (hc : c.Canonical) (hn : 1 < n) {bodies : List Block}
    (h : ∀ b ∈ bodies, b.Readable n) : (derivation c bodies).1.Readable n := by
  rw [derivation]
  cases hlast : bodies.getLast? with
  | none => exact ⟨_, rfl, List.forall_mem_singleton.mpr (readable_returnNil hn)⟩
  | some loop =>
    obtain ⟨ss, rfl, hss⟩ := h loop (List.mem_of_getLast? hlast)
    have hversion : isName c.versionParam = true := hc.names _ (by simp [Conventions.names])
    obtain ⟨us, hus, hreadable⟩ := Block.Readable.subst (mild_renamed c.legacyVersion hversion)
      (b := .of (keptStmts c (.of ss))) ⟨_, rfl, readable_keptStmts hss⟩
    refine ⟨_, rfl, List.forall_mem_append.mpr ⟨?_, List.forall_mem_singleton.mpr
      (readable_returnNil hn)⟩⟩
    rw [← substStmts_eq_map]
    obtain rfl : substStmts _ (keptStmts c (.of ss)) = us := congrArg Block.stmts hus
    exact hreadable

/-- The return that is made of a schema assignment. -/
theorem Stmt.Readable.schema {s : Stmt} (hs : s.Readable n) {value : Expr}
    (h : schemaValue? c s = some value) :
    ({ Stmt.returning [value] with decs := s.decs } : Stmt).Readable n := by
  obtain ⟨key, hkind⟩ := schemaValue?_eq_some_iff.mp h
  obtain ⟨hcanonical, hcomments, hnesting⟩ := hs
  obtain ⟨kind, decs⟩ := s
  obtain rfl : kind = _ := hkind
  cases hcanonical with
  | simple _ hexprs =>
    refine ⟨.returns (List.forall_mem_singleton.mpr (hexprs value ?_)), hcomments, ?_⟩
    · exact List.mem_cons_of_mem _ List.mem_cons_self
    · exact Nat.lt_of_le_of_lt (Nat.le_max_right _ _) hnesting

/-- The statements that `GetSchema` takes over from `Register`, and its return. -/
theorem readable_schemaBody {ss body : List Stmt} (h : schemaBody? c ss = some body)
    (hss : ∀ t ∈ ss, t.Readable n) : ∀ t ∈ body, t.Readable n := by
  induction ss generalizing body with
  | nil => cases h
  | cons s ss ih =>
    obtain ⟨hs, hss⟩ := List.forall_mem_cons.mp hss
    rw [schemaBody?] at h
    cases hvalue : schemaValue? c s with
    | some value =>
      simp only [hvalue] at h
      obtain rfl := Option.some.inj h
      exact List.forall_mem_singleton.mpr (hs.schema hvalue)
    | none =>
      simp only [hvalue] at h
      obtain ⟨rest, hrest, rfl⟩ := Option.map_eq_some_iff.mp h
      exact List.forall_mem_cons.mpr ⟨hs, ih hrest hss⟩

/-! ## The rewritten file -/

variable {r : Refactorer} {index : DeclIndex} {file file' : SourceFile} {report : Report}
  {log log' : List LogEvent}

/-- The methods that are appended are readable. -/
theorem readable_crud (hc : c.Canonical) (hn : 1 < n) {handler : String}
    (hhandler : isName handler = true) {process : FuncDecl} (hprocess : process.Readable n)
    {ms : List CrudMethod} (h : (synthesizeCrud c handler process).run log = (.ok ms, log')) :
    ∀ m ∈ ms, ∃ f, m.decl = .appended f ∧ f.Readable n := by
  have hmethod {op : Operation} {m : CrudMethod} (hderived : DerivedFrom c handler process op m) :
      ∃ f, m.decl = .appended f ∧ f.Readable n := by
    obtain ⟨params, results, hparams, hresults, hdecl⟩ := hderived.decl
    have hname : isName op.method = true := by cases op <;> decide
    exact ⟨_, hdecl, readable_method hc hhandler hname (readableParams_of_handlerParams hc hparams)
      (readableResults_of_result hc (by simp [Conventions.types]) hresults)
      (readable_derivation hc hn (readable_bucketBodies hprocess _ _))⟩
  obtain _ | ⟨hcreate, _ | ⟨hupdate, _ | ⟨hdelete, _ | _⟩⟩⟩ := synthesizeCrud_ok h
  exact List.forall_mem_cons.mpr ⟨hmethod hcreate, List.forall_mem_cons.mpr ⟨hmethod hupdate,
    List.forall_mem_singleton.mpr (hmethod hdelete)⟩⟩

/-- The method made of a schema assignment is readable. -/
theorem readable_getSchema (hc : c.Canonical) {handler : String} (hhandler : isName handler = true)
    {register : FuncDecl} (hregister : register.Readable n) {d : Decl}
    (h : (synthesizeGetSchema c handler register).run log = (.ok d, log')) :
    ∃ f, d = .appended f ∧ f.Readable n := by
  obtain ⟨stmts, results, hstmts, hresults, rfl⟩ := synthesizeGetSchema_ok h
  obtain ⟨-, -, -, b, hbody, ss, rfl, hss⟩ := hregister
  have hss' : register.stmts = ss := by rw [FuncDecl.stmts, hbody]; rfl
  exact ⟨_, rfl, readable_method hc hhandler (by decide) readableParams_nil
    (readableResults_of_result hc (by simp [Conventions.types]) hresults)
    ⟨stmts, rfl, readable_schemaBody hstmts (hss' ▸ hss)⟩⟩

/-- The method that returns the key is readable. -/
theorem readable_key (hc : c.Canonical) (hn : 1 < n) {handler : String}
    (hhandler : isName handler = true) {d : Decl} (h : (emitKey c handler).run log = (d, log')) :
    ∃ f, d = .appended f ∧ f.Readable n := by
  cases h
  have hreceiver : isName c.receiverName = true := hc.names _ (by simp [Conventions.names])
  have hkey : isName c.keyField = true := hc.names _ (by simp [Conventions.names])
  refine ⟨_, rfl, readable_method hc hhandler (by decide) readableParams_nil
    (readableResults_of ⟨.ident (by decide), by decide, rfl⟩) ⟨_, rfl,
      List.forall_mem_singleton.mpr (readable_returning ?_ (Nat.le_refl 1) hn)⟩⟩
  exact .selector (.ident hreceiver) rfl rfl hkey

/-- The function `Read` is readable when it has been rebound, in the levels it had. -/
theorem readable_reboundRead (hc : c.Canonical) {read : FuncDecl} (h : read.Readable n)
    (hoffending : (rewriteBody (versionBinder c) {} read.body).2.offending = none)
    {params : FieldList} (hparams : c.handlerParams .blank = .ok params) :
    (reboundRead c params read).Readable n := by
  obtain ⟨hrecv, hname, hsignature, b, hbody, hb⟩ := h
  have hversion : isName c.versionParam = true := hc.names _ (by simp [Conventions.names])
  refine ⟨hrecv, hname, readable_signature (readableParams_of_handlerParams hc hparams)
    hsignature.results, b.subst (versionBinding c), ?_, hb.subst (mild_versionBinding hversion)⟩
  rcases rewriteBody_versionBinder (c := c) read.body with ⟨-, hrun⟩ | ⟨_, _, x, -, hx, -⟩
  · show (rewriteBody (versionBinder c) {} read.body).1 = _
    rw [hrun, hbody]
    rfl
  · rw [hoffending] at hx
    cases hx

/-- A constructor whose returns are wrapped takes one level more. -/
theorem readable_wrappedCtor {wrapper : String} (hwrapper : isName wrapper = true) {ctor : FuncDecl}
    (h : ctor.Readable n) : (wrappedCtor wrapper ctor).Readable (n + 1) := by
  obtain ⟨hrecv, hname, hsignature, b, hbody, hb⟩ := h
  refine ⟨hrecv, hname, hsignature, b.subst (.wrapping wrapper), ?_,
    hb.subst (mild_wrapping hwrapper)⟩
  have hrun := congrArg (·.1.body) (wrapReturns_run wrapper ctor [])
  rw [hbody] at hrun
  exact hrun

/-- The handler type of a readable file has a name. -/
theorem isName_handler {file : SourceFile} {n : Nat} (hfile : file.Readable n)
    {policy : AnchorPolicy} {index : DeclIndex}
    (h : (DeclIndex.build policy file).outcome.1 = .ok index) : isName index.handler = true := by
  obtain ⟨-, process, hprocess, hhandler⟩ := DeclIndex.build_ok_iff.mp h
  rw [FuncDecl.handlerType_eq_ok_iff, FuncDecl.receiverType] at hhandler
  have hrecv := (hfile.func hprocess).recv
  cases hreceiver : process.recv with
  | none =>
    rw [hreceiver] at hhandler
    cases hhandler
  | some recv =>
    obtain ⟨⟨-, field, hfields, -, htype⟩, -⟩ := hrecv recv hreceiver
    obtain ⟨fs, e⟩ := recv
    obtain rfl : fs = [field] := hfields
    rw [hreceiver] at hhandler
    rw [show field.type = _ from Option.some.inj hhandler] at htype
    cases htype with
    | star hname =>
      cases hname with
      | ident hname => exact hname

/-- What is made of a readable file is readable, with one level more. -/
theorem transform_readable (hc : r.conventions.Canonical) (hn : 0 < n) (hfile : file.Readable n)
    (hhandler : isName index.handler = true)
    (h : ((r.transform index).apply file).run log = ((.ok report, file'), log')) :
    file'.Readable (n + 1) := by
  obtain ⟨process, register, read, ctor, crud, getSchema, key, params, edited,
    ⟨hprocess, _, _, hcrud⟩, ⟨hregister, _, _, hschema⟩, ⟨_, _, hkey⟩, ⟨hread, hoffending, hparams⟩,
    rfl, hctor, rfl, -⟩ := transform_steps h
  have hwrapper : isName r.conventions.ctorWrapper = true :=
    hc.names _ (by simp [Conventions.names])
  have hone : 1 < n + 1 := Nat.succ_lt_succ hn
  have hmore := hfile.mono (Nat.le_succ n)
  have hedited := hfile.setFunc index.read
    (readable_reboundRead hc (hfile.func hread) hoffending hparams)
  refine ((hedited.mono (Nat.le_succ n)).setFunc index.ctor
    (readable_wrappedCtor hwrapper (hedited.func hctor))).append (List.forall_mem_append.mpr
      ⟨List.forall_mem_map.mpr fun m hm => ?_, List.forall_mem_cons.mpr ⟨?_,
        List.forall_mem_singleton.mpr ?_⟩⟩)
  · exact readable_crud hc hone hhandler (hmore.func hprocess) hcrud m hm
  · exact readable_key hc hone hhandler hkey
  · exact readable_getSchema hc hhandler (hmore.func hregister) hschema

end HandlerSplit
