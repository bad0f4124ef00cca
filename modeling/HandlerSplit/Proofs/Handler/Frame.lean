import HandlerSplit.Proofs.Handler.Resolution
import Mathlib.Data.List.Forall2
/-!
# What a refactoring keeps and what it adds

A refactoring that succeeds keeps every declaration of the file but two: of the one `Read`
resolves to it changes parameters and body, of the one the constructor resolves to the body.
Behind the old declarations it appends five functions (`refactor_frame`). The two anchors may
resolve to one declaration, or to the one another anchor resolves to.

An index depends on names and receivers only, and no anchor admits the name of an appended
function, so the anchors of the new file resolve as those of the old one did.
-/

namespace HandlerSplit

/-! ## Appended functions -/

/-- The names of the appended functions, in order. -/
def methodNames : List String :=
  ["Create", "Update", "Delete", "Key", "GetSchema"]

/-- A function written for a handler: it follows an empty line, its receiver is a pointer to
the handler, and its body ends in a return. -/
def IsMethod (c : Conventions) (handler name : String) (d : Decl) : Prop :=
  ∃ f body s values,
    d = ⟨.func f, { blankBefore := true, newlineBefore := true }⟩ ∧ f.name = name ∧
      f.recv = some ⟨[⟨[c.receiverName], .star (.ident handler), none, {}⟩], {}⟩ ∧
      f.body = some body ∧ body.stmts.getLast? = some s ∧ s.kind = .returns values

variable {c : Conventions} {handler : String} {log log' : List LogEvent}

/-- No anchor admits the name of an appended function. -/
theorem not_admits_of_mem_methodNames {name : String} (h : name ∈ methodNames) (a : Anchor)
    (policy : AnchorPolicy) : ¬a.admits policy name := by
  have all : ∀ name ∈ methodNames, ¬a.admits policy name := by
    cases a <;> cases policy <;> decide
  exact all name h

/-- A derived body ends by returning `nil`. -/
theorem deriveBody_getLast? (c : Conventions) (loop : Block) :
    (deriveBody c loop).1.stmts.getLast? = some Stmt.returnNil :=
  List.getLast?_concat

/-- The body of a method ends by returning `nil`, whatever it was derived from. -/
theorem methodBody_getLast? {op : Operation} {loop : Option Block} {body : Block}
    {edits : Option BodyEdits} (h : (methodBody c op loop).run log = ((body, edits), log')) :
    body.stmts.getLast? = some Stmt.returnNil := by
  cases loop with
  | none =>
    cases h
    rfl
  | some loop =>
    cases h
    exact deriveBody_getLast? c loop

/-- A method that is derived has the receiver and the name of its operation. -/
theorem isMethod_crudMethod {op : Operation} {loop : Option Block} {m : CrudMethod}
    (h : (crudMethod c handler op loop).run log = (.ok m, log')) :
    IsMethod c handler op.method m.decl := by
  obtain ⟨⟨body, edits⟩, l, hbody, h⟩ := bind_ok h
  obtain ⟨params, _, -, h⟩ := bind_ok h
  obtain ⟨results, _, -, h⟩ := bind_ok h
  obtain ⟨rfl, -⟩ := pure_ok h
  have hlast := methodBody_getLast? (Attempt.lift_ok hbody)
  exact ⟨_, body, _, _, rfl, rfl, rfl, rfl, hlast, rfl⟩

/-- The methods that are derived are those for creating, updating and deleting, in this order. -/
theorem isMethod_synthesizeCrud {process : FuncDecl} {ms : List CrudMethod}
    (h : (synthesizeCrud c handler process).run log = (.ok ms, log')) :
    List.Forall₂ (IsMethod c handler) ["Create", "Update", "Delete"] (ms.map (·.decl)) := by
  obtain ⟨buckets, _, -, h⟩ := bind_ok h
  obtain ⟨create, _, hcreate, h⟩ := bind_ok h
  obtain ⟨update, _, hupdate, h⟩ := bind_ok h
  obtain ⟨delete, _, hdelete, h⟩ := bind_ok h
  obtain ⟨rfl, -⟩ := pure_ok h
  exact .cons (isMethod_crudMethod hcreate)
    (.cons (isMethod_crudMethod hupdate) (.cons (isMethod_crudMethod hdelete) .nil))

/-- What `GetSchema` is made of ends in a return. -/
theorem schemaBody?_getLast? {ss body : List Stmt} (h : schemaBody? c ss = some body) :
    ∃ s value, body.getLast? = some s ∧ s.kind = .returns [value] := by
  induction ss generalizing body with
  | nil => cases h
  | cons s ss ih =>
    rw [schemaBody?] at h
    cases hv : schemaValue? c s with
    | some value =>
      simp only [hv] at h
      cases h
      exact ⟨_, value, rfl, rfl⟩
    | none =>
      simp only [hv] at h
      obtain ⟨rest, hrest, rfl⟩ := Option.map_eq_some_iff.1 h
      obtain ⟨t, value, ht, hkind⟩ := ih hrest
      exact ⟨t, value, by rw [List.getLast?_cons, ht, Option.getD_some], hkind⟩

/-- `GetSchema` is made of the beginning of `Register`. -/
theorem synthesizeGetSchema_ok {register : FuncDecl} {d : Decl}
    (h : (synthesizeGetSchema c handler register).run log = (.ok d, log')) :
    ∃ stmts results, schemaBody? c register.stmts = some stmts ∧
      Conventions.result c.schemaType = .ok results ∧
      d = .appended ⟨some (c.receiver handler), "GetSchema", ⟨.of [], some results⟩,
        some (.of stmts)⟩ := by
  rw [synthesizeGetSchema] at h
  cases hb : schemaBody? c register.stmts with
  | none =>
    simp only [hb] at h
    cases h
  | some stmts =>
    simp only [hb] at h
    obtain ⟨_, _, -, h⟩ := bind_ok h
    obtain ⟨results, _, hresults, h⟩ := bind_ok h
    obtain ⟨rfl, -⟩ := pure_ok h
    exact ⟨stmts, results, rfl, Attempt.ofExcept_ok hresults, rfl⟩

/-- The method for the schema has the receiver and its name. -/
theorem isMethod_getSchema {register : FuncDecl} {d : Decl}
    (h : (synthesizeGetSchema c handler register).run log = (.ok d, log')) :
    IsMethod c handler "GetSchema" d := by
  obtain ⟨stmts, results, hstmts, -, rfl⟩ := synthesizeGetSchema_ok h
  obtain ⟨s, value, hlast, hkind⟩ := schemaBody?_getLast? hstmts
  exact ⟨_, .of stmts, s, _, rfl, rfl, rfl, rfl, hlast, hkind⟩

/-- The method for the key has the receiver and its name. -/
theorem isMethod_key {d : Decl} (h : (emitKey c handler).run log = (d, log')) :
    IsMethod c handler "Key" d := by
  cases h
  exact ⟨_, _, _, _, rfl, rfl, rfl, rfl, rfl, rfl⟩

/-- Appending answers the names of the functions that were appended. -/
theorem appendMethods_ok {names appended : List String} {ds : List Decl}
    {file file' : SourceFile} (hds : List.Forall₂ (IsMethod c handler) names ds)
    (h : ((Refactorer.appendMethods handler ds).apply file).run log =
      ((.ok appended, file'), log')) :
    appended = names ∧ file' = { file with decls := file.decls ++ ds } := by
  induction hds generalizing file file' log log' appended with
  | nil =>
    obtain ⟨rfl, rfl⟩ := FileEdit.pure_ok h
    exact ⟨rfl, by rw [List.append_nil]⟩
  | cons hd _ ih =>
    obtain ⟨f, body, s, values, rfl, rfl, -⟩ := hd
    obtain ⟨_, _, _, hreport, h₁⟩ := FileEdit.bind_ok h
    obtain ⟨-, rfl⟩ := FileEdit.traced_ok hreport
    obtain ⟨_, _, _, happend, h₂⟩ := FileEdit.bind_ok h₁
    obtain rfl := FileEdit.append_ok happend
    obtain ⟨_, _, _, hrest, h₃⟩ := FileEdit.bind_ok h₂
    obtain ⟨rfl, rfl⟩ := ih hrest
    obtain ⟨rfl, rfl⟩ := FileEdit.pure_ok h₃
    exact ⟨rfl, by rw [List.append_assoc, List.singleton_append]⟩

/-! ## Edited functions -/

/-- `Read` with the version bound in its body, and with other parameters. -/
def reboundRead (c : Conventions) (params : FieldList) (read : FuncDecl) : FuncDecl :=
  { read with
    signature := ⟨params, read.signature.results⟩
    body := (rewriteBody (versionBinder c) {} read.body).1 }

/-- The constructor with the values that it returns in calls of the wrapper. -/
def wrappedCtor (wrapper : String) (ctor : FuncDecl) : FuncDecl :=
  { ctor with body := (rewriteBody (returnWrapper wrapper) 0 ctor.body).1 }

/-- `Read` is rebound if no selector is in the way and the parameters are well-formed. -/
theorem rewriteRead_ok {read read' : FuncDecl} {n : Nat}
    (h : (rewriteRead c read).run log = (⟨read', .ok n⟩, log')) :
    (rewriteBody (versionBinder c) {} read.body).2.offending = none ∧
      ∃ params, c.handlerParams .blank = .ok params ∧ read' = reboundRead c params read := by
  simp only [rewriteRead] at h
  cases ho : (rewriteBody (versionBinder c) {} read.body).2.offending with
  | some x =>
    simp only [ho] at h
    cases h
  | none =>
    simp only [ho] at h
    cases hp : c.handlerParams .blank with
    | error kind =>
      simp only [hp] at h
      cases h
    | ok params =>
      simp only [hp] at h
      cases h
      exact ⟨rfl, params, rfl, rfl⟩

/-- The constructor is changed in its body only. -/
theorem wrapReturns_ok {wrapper : String} {ctor ctor' : FuncDecl} {n : Nat}
    (h : (do
      let (f, wrapped) ← wrapReturns wrapper ctor
      return (⟨f, .ok wrapped⟩ : Edited FuncDecl Nat) : Traced _).run log =
        (⟨ctor', .ok n⟩, log')) :
    ctor' = wrappedCtor wrapper ctor := by
  cases h
  rfl

/-! ## The frame -/

/-- A file in which the declarations at the positions of `Read` and the constructor were
edited: the one of `Read` in its parameters and body, the one of the constructor in its body.
Everything else is as it was. -/
structure EditedAt (index : DeclIndex) (file file' : SourceFile) : Prop where
  package : file'.package = file.package
  packageDecs : file'.packageDecs = file.packageDecs
  trailingComments : file'.trailingComments = file.trailingComments
  length : file'.decls.length = file.decls.length
  others : ∀ i, i ≠ index.read → i ≠ index.ctor → file'.decls[i]? = file.decls[i]?
  read : ∃ f decs params body, file.decls[index.read]? = some ⟨.func f, decs⟩ ∧
    file'.decls[index.read]? = some
      ⟨.func { f with signature := ⟨params, f.signature.results⟩, body := body }, decs⟩
  ctor : index.ctor ≠ index.read → ∃ f decs body,
    file.decls[index.ctor]? = some ⟨.func f, decs⟩ ∧
      file'.decls[index.ctor]? = some ⟨.func { f with body := body }, decs⟩

/-- Setting two functions of a file edits it at their places, also at one place twice. -/
theorem editedAt_setFunc {index : DeclIndex} {file : SourceFile} {f g : FuncDecl}
    {params : FieldList} {body body' : Option Block}
    (hread : file.func? index.read = some f)
    (hctor : (file.setFunc index.read
      { f with signature := ⟨params, f.signature.results⟩, body := body }).func? index.ctor =
        some g) :
    EditedAt index file
      ((file.setFunc index.read
        { f with signature := ⟨params, f.signature.results⟩, body := body }).setFunc index.ctor
          { g with body := body' }) := by
  obtain ⟨decs, hd⟩ := SourceFile.func?_eq_some_iff.1 hread
  refine ⟨rfl, rfl, rfl, ?_, fun i hr hc => ?_, ?_, fun hne => ?_⟩
  · simp [SourceFile.setFunc]
  · simp [SourceFile.setFunc, Ne.symm hr, Ne.symm hc]
  · rw [SourceFile.func?_setFunc] at hctor
    by_cases he : index.read = index.ctor
    · rw [if_pos he, ← he, hd] at hctor
      cases hctor
      refine ⟨f, decs, params, body', hd, ?_⟩
      simp [SourceFile.setFunc, ← he, hd]
    · refine ⟨f, decs, params, body, hd, ?_⟩
      simp [SourceFile.setFunc, Ne.symm he, hd]
  · rw [SourceFile.func?_setFunc, if_neg (Ne.symm hne)] at hctor
    obtain ⟨decs', hd'⟩ := SourceFile.func?_eq_some_iff.1 hctor
    refine ⟨g, decs', body', hd', ?_⟩
    simp [SourceFile.setFunc, Ne.symm hne, hd']

/-- An anchor that is found is the function at its position. -/
theorem DeclIndex.anchored_ok {index : DeclIndex} {file : SourceFile} {a : Anchor} {f : FuncDecl}
    (h : (index.anchored file a).run log = (.ok f, log')) :
    file.func? (index.position a) = some f := by
  rw [anchored] at h
  cases hf : file.func? (index.position a) with
  | none =>
    simp only [hf] at h
    cases h
  | some g =>
    simp only [hf] at h
    cases h
    rfl

/-- What a transformation that succeeds finds in a file, and what it makes of it: three methods of
`Process`, one of `Register`, and `Key`, behind the file with `Read` and then the constructor edited
in place. -/
theorem transform_steps {r : Refactorer} {index : DeclIndex} {file file' : SourceFile}
    {report : Report} (h : ((r.transform index).apply file).run log = ((.ok report, file'), log')) :
    ∃ process register read ctor crud getSchema key params edited,
      (file.func? index.process = some process ∧ ∃ l l',
        (synthesizeCrud r.conventions index.handler process).run l = (.ok crud, l')) ∧
      (file.func? index.register = some register ∧ ∃ l l',
        (synthesizeGetSchema r.conventions index.handler register).run l = (.ok getSchema, l')) ∧
      (∃ l l', (emitKey r.conventions index.handler).run l = (key, l')) ∧
      (file.func? index.read = some read ∧
        (rewriteBody (versionBinder r.conventions) {} read.body).2.offending = none ∧
        r.conventions.handlerParams .blank = .ok params) ∧
      edited = file.setFunc index.read (reboundRead r.conventions params read) ∧
      edited.func? index.ctor = some ctor ∧
      file' = { edited.setFunc index.ctor (wrappedCtor r.conventions.ctorWrapper ctor) with
        decls := (edited.setFunc index.ctor (wrappedCtor r.conventions.ctorWrapper ctor)).decls ++
          (crud.map (·.decl) ++ [key, getSchema]) } ∧
      List.Forall₂ (IsMethod r.conventions index.handler) methodNames
        (crud.map (·.decl) ++ [key, getSchema]) ∧
      report.emitted = methodNames := by
  obtain ⟨crud, _, _, runCrud, h₁⟩ := FileEdit.bind_ok h
  obtain ⟨hcrud, rfl⟩ := FileEdit.attempt_ok runCrud
  obtain ⟨getSchema, _, _, runSchema, h₂⟩ := FileEdit.bind_ok h₁
  obtain ⟨hschema, rfl⟩ := FileEdit.attempt_ok runSchema
  obtain ⟨key, _, _, runKey, h₃⟩ := FileEdit.bind_ok h₂
  obtain ⟨hkey, rfl⟩ := FileEdit.traced_ok runKey
  obtain ⟨readSelectors, _, _, runRead, h₄⟩ := FileEdit.bind_ok h₃
  obtain ⟨read, read', hread, hread', rfl⟩ := FileEdit.editFunc_ok runRead
  obtain ⟨hoffending, params, hparams, rfl⟩ := rewriteRead_ok hread'
  obtain ⟨ctorReturns, _, _, runCtor, h₅⟩ := FileEdit.bind_ok h₄
  obtain ⟨ctor, ctor', hctor, hctor', rfl⟩ := FileEdit.editFunc_ok runCtor
  obtain rfl := wrapReturns_ok hctor'
  obtain ⟨emitted, _, _, runAppend, h₆⟩ := FileEdit.bind_ok h₅
  obtain ⟨rfl, rfl⟩ := FileEdit.pure_ok h₆
  obtain ⟨process, _, hprocess, hcrud⟩ := bind_ok hcrud
  obtain ⟨register, _, hregister, hschema⟩ := bind_ok hschema
  have hnew : List.Forall₂ (IsMethod r.conventions index.handler) methodNames
      (crud.map (·.decl) ++ [key, getSchema]) :=
    List.rel_append (isMethod_synthesizeCrud hcrud)
      (.cons (isMethod_key hkey) (.cons (isMethod_getSchema hschema) .nil))
  obtain ⟨rfl, rfl⟩ := appendMethods_ok hnew runAppend
  exact ⟨process, register, read, ctor, crud, getSchema, key, params, _,
    ⟨DeclIndex.anchored_ok hprocess, _, _, hcrud⟩, ⟨DeclIndex.anchored_ok hregister, _, _, hschema⟩,
    ⟨_, _, hkey⟩, ⟨hread, hoffending, hparams⟩, rfl, hctor, rfl, hnew, rfl⟩

/-- A transformation that succeeds edits two declarations and appends five. -/
theorem transform_ok {r : Refactorer} {index : DeclIndex} {file file' : SourceFile}
    {report : Report} (h : ((r.transform index).apply file).run log = ((.ok report, file'), log')) :
    ∃ edited new, EditedAt index file edited ∧
      List.Forall₂ (IsMethod r.conventions index.handler) methodNames new ∧
      file' = { edited with decls := edited.decls ++ new } ∧ report.emitted = methodNames := by
  obtain ⟨_, _, _, _, _, _, _, _, _, -, -, -, ⟨hread, -, -⟩, rfl, hctor, rfl, hnew, hemitted⟩ :=
    transform_steps h
  exact ⟨_, _, editedAt_setFunc hread hctor, hnew, rfl, hemitted⟩

/-! ## Stability of the index -/

/-- An edited declaration that is a function was one, of the same name and receiver. -/
theorem EditedAt.map_func? {index : DeclIndex} {file edited : SourceFile}
    (h : EditedAt index file edited) (i : Nat) :
    ((edited.func? i).map fun f => (f.name, f.recv)) =
      (file.func? i).map fun f => (f.name, f.recv) := by
  by_cases hr : i = index.read
  · obtain ⟨f, decs, params, body, hd, hd'⟩ := h.read
    simp [SourceFile.func?, hr, hd, hd', Decl.func?]
  · by_cases hc : i = index.ctor
    · obtain ⟨f, decs, body, hd, hd'⟩ := h.ctor (hc ▸ hr)
      simp [SourceFile.func?, hc, hd, hd', Decl.func?]
    · simp only [SourceFile.func?, h.others i hr hc]

/-- Appending leaves the functions of a file where they are. -/
theorem func?_append_of_some {file : SourceFile} {i : Nat} {f : FuncDecl}
    (h : file.func? i = some f) (new : List Decl) :
    ({ file with decls := file.decls ++ new } : SourceFile).func? i = some f := by
  obtain ⟨decs, hd⟩ := SourceFile.func?_eq_some_iff.1 h
  refine SourceFile.func?_eq_some_iff.2 ⟨decs, ?_⟩
  rw [List.getElem?_append_left (List.getElem?_eq_some_iff.1 hd).1, hd]

/-- A function of a file after appending stood there before, or was appended. -/
theorem func?_append {file : SourceFile} {new : List Decl} {i : Nat} {f : FuncDecl}
    (h : ({ file with decls := file.decls ++ new } : SourceFile).func? i = some f) :
    file.func? i = some f ∨ ∃ decs, ⟨.func f, decs⟩ ∈ new := by
  obtain ⟨decs, hd⟩ := SourceFile.func?_eq_some_iff.1 h
  rw [List.getElem?_append] at hd
  split at hd
  · exact Or.inl (SourceFile.func?_eq_some_iff.2 ⟨decs, hd⟩)
  · exact Or.inr ⟨decs, List.mem_of_getElem? hd⟩

/-- Every function that is appended has the name of a method. -/
theorem name_mem_methodNames {names : List String} {new : List Decl}
    (h : List.Forall₂ (IsMethod c handler) names new) {f : FuncDecl} {decs : Decorations}
    (hf : ⟨.func f, decs⟩ ∈ new) : f.name ∈ names := by
  induction h with
  | nil => cases hf
  | cons hd _ ih =>
    rcases List.mem_cons.1 hf with rfl | hf
    · obtain ⟨g, _, _, _, heq, rfl, -⟩ := hd
      cases heq
      exact List.mem_cons_self
    · exact List.mem_cons_of_mem _ (ih hf)

/-- Anchors resolve in the new file as in the old one. -/
theorem EditedAt.position?_append {index : DeclIndex} {file edited : SourceFile}
    (h : EditedAt index file edited) {new : List Decl}
    (hnew : List.Forall₂ (IsMethod c handler) methodNames new) {a : Anchor}
    {policy : AnchorPolicy} {i : Nat} (hi : a.position? policy file = some i) :
    a.position? policy { edited with decls := edited.decls ++ new } = some i := by
  obtain ⟨⟨f, hf, hadm⟩, hmax⟩ := Anchor.position?_eq_some_iff.1 hi
  have same := h.map_func?
  refine Anchor.position?_eq_some_iff.2 ⟨?_, fun j g hij hg => ?_⟩
  · have hi := same i
    rw [hf] at hi
    obtain ⟨f', hf', heq⟩ := Option.map_eq_some_iff.1 hi
    have hname : f'.name = f.name := congrArg Prod.fst heq
    exact ⟨f', func?_append_of_some hf' new, by rwa [hname]⟩
  · rcases func?_append hg with hg | ⟨decs, hmem⟩
    · have hj := same j
      rw [hg] at hj
      obtain ⟨g', hg', heq⟩ := Option.map_eq_some_iff.1 hj.symm
      have hname : g'.name = g.name := congrArg Prod.fst heq
      rw [← hname]
      exact hmax j g' hij hg'
    · exact not_admits_of_mem_methodNames (name_mem_methodNames hnew hmem) a policy

/-- The index of the new file is the one of the old. -/
theorem EditedAt.build_append {index : DeclIndex} {file edited : SourceFile}
    (h : EditedAt index file edited) {new : List Decl}
    (hnew : List.Forall₂ (IsMethod c handler) methodNames new) {policy : AnchorPolicy}
    (hindex : ((DeclIndex.build policy file).run log).1 = .ok index) :
    ((DeclIndex.build policy { edited with decls := edited.decls ++ new }).run log').1 =
      .ok index := by
  obtain ⟨hpos, process, hprocess, hhandler⟩ := DeclIndex.build_ok_iff.1 hindex
  refine DeclIndex.build_ok_iff.2 ⟨fun a => h.position?_append hnew (hpos a), ?_⟩
  have same := h.map_func? index.process
  rw [hprocess] at same
  obtain ⟨process', hprocess', heq⟩ := Option.map_eq_some_iff.1 same
  have hrecv : process'.recv = process.recv := congrArg Prod.snd heq
  refine ⟨process', func?_append_of_some hprocess' new, ?_⟩
  rw [FuncDecl.handlerType_eq_ok_iff, FuncDecl.receiverType, hrecv]
  exact FuncDecl.handlerType_eq_ok_iff.1 hhandler

/-! ## The main statement -/

/-- What a refactoring makes of a file and reports: the declarations are those of the file, but
for parameters and body of `Read` and the body of the constructor, and behind them the five
functions of the handler type, whose names are reported. The anchors resolve as before. -/
def Framed (r : Refactorer) (file file' : SourceFile) (report : Report) : Prop :=
  ∃ index process edited new,
    (DeclIndex.build r.policy file).outcome.1 = .ok index ∧
    file.func? index.process = some process ∧
    process.receiverType = some (.star (.ident index.handler)) ∧
    EditedAt index file edited ∧
    file' = { edited with decls := edited.decls ++ new } ∧
    List.Forall₂ (IsMethod r.conventions index.handler) methodNames new ∧
    report.emitted = methodNames ∧
    (DeclIndex.build r.policy file').outcome.1 = .ok index

/-- A refactoring that succeeds changes nothing but what it is meant to change. -/
theorem refactor_frame {r : Refactorer} {file file' : SourceFile} {report : Report}
    (h : (r.refactor.apply file).run log = ((.ok report, file'), log')) :
    Framed r file file' report := by
  obtain ⟨index, _, l, runBuild, runTransform⟩ := FileEdit.bind_ok h
  obtain ⟨hbuild, rfl⟩ := FileEdit.attempt_ok runBuild
  obtain ⟨edited, new, hedited, hnew, rfl, hemitted⟩ := transform_ok runTransform
  obtain ⟨hpos, process, hprocess, hhandler⟩ :=
    DeclIndex.build_ok_iff.1 (congrArg Prod.fst hbuild)
  have hbuild' : (DeclIndex.build r.policy _).outcome.1 = .ok index :=
    DeclIndex.build_ok_iff.2 ⟨hpos, process, hprocess, hhandler⟩
  exact ⟨index, process, edited, new, hbuild', hprocess,
    FuncDecl.handlerType_eq_ok_iff.1 hhandler, hedited, rfl, hnew, hemitted,
    hedited.build_append hnew hbuild'⟩

/-- A file in which `Process`, `Read` and the constructor are one function. -/
def overlapping : SourceFile where
  package := "p"
  packageDecs := .ownLine
  decls :=
    [.appended
      { recv := some (.of [.of ["h"] (.star (.ident "H"))])
        name := "NewReadProcess"
        signature := ⟨.of [], none⟩
        body := some (.of [.returning [.selector (.selector (.ident "s") "ActiveVersion") "N"]]) },
      .appended
      { recv := none
        name := "Register"
        signature := ⟨.of [], none⟩
        body := some (.of [.plain (.assign
          [.index (.selector (.ident "s") "Schema") (.ident "k")] .assign [.ident "v"])]) }]
  trailingComments := []

/-- A file in which one function is both `Read` and constructor is framed. -/
theorem refactor_frame_overlapping :
    ∃ report file' log',
      (({} : Refactorer).refactor.apply overlapping).run [] = ((.ok report, file'), log') ∧
        Framed {} overlapping file' report := by
  have hok : ((({} : Refactorer).refactor.apply overlapping).run []).1.1.toOption.isSome := by
    decide +kernel
  rcases hrun : (({} : Refactorer).refactor.apply overlapping).run [] with
    ⟨⟨e | report, file'⟩, log'⟩
  · rw [hrun] at hok
    cases hok
  · exact ⟨report, file', log', rfl, refactor_frame hrun⟩

end HandlerSplit
