import HandlerSplit.Proofs.Handler.Runs
/-!
# Where anchors resolve to

An anchor resolves to the last function of the file whose name it admits. `position?` is that
position, read off the list of candidates; `position?_eq_some_iff` says it without the list, and
`build_ok_iff` says when an index is built and what it then holds. Both speak of the functions
at the positions of a file only, so they carry over to a file whose functions have the same
names there.
-/

namespace HandlerSplit

/-! ## Functions of a file -/

namespace SourceFile

/-- The function at a place is the declaration there, if it is one. -/
theorem func?_eq_some_iff {file : SourceFile} {i : Nat} {f : FuncDecl} :
    file.func? i = some f ↔ ∃ decs, file.decls[i]? = some ⟨.func f, decs⟩ := by
  rw [func?, Option.bind_eq_some_iff]
  constructor
  · rintro ⟨⟨g | g, decs⟩, hd, hf⟩
    · cases hf
      exact ⟨decs, hd⟩
    · cases hf
  · rintro ⟨decs, hd⟩
    exact ⟨_, hd, rfl⟩

/-- Editing a function changes the functions of a file at its position only. -/
theorem func?_setFunc (file : SourceFile) (i j : Nat) (f : FuncDecl) :
    (file.setFunc i f).func? j =
      if i = j then (file.decls[j]?).map fun _ => f else file.func? j := by
  simp only [func?, setFunc, List.getElem?_modify]
  by_cases h : i = j
  · subst h
    cases file.decls[i]? <;> simp [Decl.func?]
  · simp [h]

end SourceFile

/-! ## The last candidate -/

namespace Anchor

variable {a : Anchor} {policy : AnchorPolicy} {file : SourceFile}

/-- The position of the last function whose name an anchor admits. -/
def position? (a : Anchor) (policy : AnchorPolicy) (file : SourceFile) : Option Nat :=
  (a.candidates policy file).getLast?.map (·.1)

/-- An anchor is found at the position of its last candidate, whatever is reported. -/
theorem find_run (a : Anchor) (policy : AnchorPolicy) (file : SourceFile)
    (log : List LogEvent) :
    ((a.find policy file).run log).1 =
      match a.position? policy file with
      | some i => .ok i
      | none => .error { kind := .notFound a.fragment } := by
  rcases hlast : (a.candidates policy file).getLast? with _ | ⟨i, f⟩
  · simp only [find, position?, hlast]
    rfl
  · simp only [find, position?, hlast]
    split <;> rfl

theorem find_ok {i : Nat} {log log' : List LogEvent}
    (h : (a.find policy file).run log = (.ok i, log')) : a.position? policy file = some i := by
  have hfind := find_run a policy file log
  rw [h] at hfind
  rcases hpos : a.position? policy file with _ | j <;> rw [hpos] at hfind <;> cases hfind
  rfl

/-- A search goes on from the position of its anchor; it changes the log only. -/
theorem exists_find_bind_run {i : Nat} (h : a.position? policy file = some i) {α : Type}
    (k : Nat → Attempt α) (log : List LogEvent) :
    ∃ l, (a.find policy file >>= k).run log = (k i).run l := by
  have hfind := find_run a policy file log
  rw [h] at hfind
  rw [bind_run]
  rcases hrun : (a.find policy file).run log with ⟨r, l⟩
  rw [hrun] at hfind
  obtain rfl : r = _ := hfind
  exact ⟨l, rfl⟩

/-- The candidates of an anchor are the functions whose names it admits. -/
theorem mem_candidates {i : Nat} {f : FuncDecl} :
    (i, f) ∈ a.candidates policy file ↔ file.func? i = some f ∧ a.admits policy f.name := by
  simp only [candidates, List.mem_filter, SourceFile.funcs, List.mem_filterMap, Prod.exists,
    SourceFile.func?, Option.bind_eq_some_iff, Option.map_eq_some_iff, Prod.mk.injEq]
  refine and_congr_left fun _ => ⟨?_, ?_⟩
  · rintro ⟨d, j, hd, g, hg, rfl, rfl⟩
    exact ⟨d, List.mem_zipIdx_iff_getElem?.1 hd, hg⟩
  · rintro ⟨d, hd, hg⟩
    exact ⟨d, i, List.mem_zipIdx_iff_getElem?.2 hd, f, hg, rfl, rfl⟩

/-- Candidates stand in the order of their positions. -/
theorem pairwise_candidates (a : Anchor) (policy : AnchorPolicy) (file : SourceFile) :
    (a.candidates policy file).Pairwise fun c d => c.1 < d.1 := by
  refine List.Pairwise.filter _ ?_
  refine List.Pairwise.filterMap (R := fun c d => c.2 < d.2) _ ?_ ?_
  · rintro ⟨d, i⟩ ⟨d', i'⟩ hlt c hc c' hc'
    obtain ⟨f, -, rfl⟩ := Option.map_eq_some_iff.1 hc
    obtain ⟨f', -, rfl⟩ := Option.map_eq_some_iff.1 hc'
    exact hlt
  · rw [← List.pairwise_map, List.zipIdx_map_snd]
    exact List.pairwise_lt_range'

/-- No candidate stands behind the last. -/
theorem lt_or_eq_of_getLast? {i j : Nat} {f g : FuncDecl}
    (hlast : (a.candidates policy file).getLast? = some (i, f))
    (hmem : (j, g) ∈ a.candidates policy file) : j < i ∨ j = i := by
  have hpair := pairwise_candidates a policy file
  obtain ⟨before, happ⟩ := List.getLast?_eq_some_iff.1 hlast
  rw [happ] at hmem hpair
  rcases List.mem_append.1 hmem with hmem | hmem
  · exact .inl ((List.pairwise_append.1 hpair).2.2 _ hmem _ (List.mem_singleton_self _))
  · exact .inr (congrArg Prod.fst (List.mem_singleton.1 hmem))

/-- The position of an anchor is the greatest of a function it admits. -/
theorem position?_eq_some_iff {i : Nat} :
    a.position? policy file = some i ↔
      (∃ f, file.func? i = some f ∧ a.admits policy f.name) ∧
        ∀ j f, i < j → file.func? j = some f → ¬a.admits policy f.name := by
  unfold position?
  constructor
  · intro h
    obtain ⟨⟨_, f⟩, hlast, rfl⟩ := Option.map_eq_some_iff.1 h
    refine ⟨⟨f, mem_candidates.1 (List.mem_of_getLast? hlast)⟩, fun j g hij hg hadm => ?_⟩
    rcases lt_or_eq_of_getLast? hlast (mem_candidates.2 ⟨hg, hadm⟩) with hji | rfl
    · exact Nat.lt_asymm hij hji
    · exact Nat.lt_irrefl _ hij
  · rintro ⟨⟨f, hf, hadm⟩, hmax⟩
    have hmem : (i, f) ∈ a.candidates policy file := mem_candidates.2 ⟨hf, hadm⟩
    rcases hlast : (a.candidates policy file).getLast? with _ | ⟨j, g⟩
    · rw [List.getLast?_eq_none_iff.1 hlast] at hmem
      cases hmem
    obtain ⟨hg, hadm'⟩ := mem_candidates.1 (List.mem_of_getLast? hlast)
    rcases lt_or_eq_of_getLast? hlast hmem with hij | rfl
    · exact absurd hadm' (hmax j g hij hg)
    · rfl

end Anchor

/-! ## The index -/

/-- The handler is the type a receiver points to. -/
theorem FuncDecl.handlerType_eq_ok_iff {f : FuncDecl} {handler : String} :
    f.handlerType = .ok handler ↔ f.receiverType = some (.star (.ident handler)) := by
  unfold handlerType
  rcases f.receiverType with _ | type
  · simp
  · cases type with
    | star x => cases x <;> simp [Expr.pointee?, Expr.ident?]
    | _ => simp [Expr.pointee?]

namespace DeclIndex

/-- The index of a file whose anchors are found, given their positions. -/
theorem build_run_of_positions {policy : AnchorPolicy} {file : SourceFile} {index : DeclIndex}
    (h : ∀ a, Anchor.position? a policy file = some (index.position a))
    (log : List LogEvent) :
    ((build policy file).run log).1 =
      match file.func? index.process with
      | none => .error { kind := .notFound Anchor.process.fragment }
      | some f =>
        match f.handlerType with
        | .error kind => .error { kind := kind }
        | .ok handler => .ok { index with handler := handler } := by
  unfold build
  obtain ⟨_, hprocess⟩ := Anchor.exists_find_bind_run (h .process) _ log
  rw [hprocess]
  obtain ⟨_, hregister⟩ := Anchor.exists_find_bind_run (h .register) _ _
  rw [hregister]
  obtain ⟨_, hread⟩ := Anchor.exists_find_bind_run (h .read) _ _
  rw [hread]
  obtain ⟨_, hctor⟩ := Anchor.exists_find_bind_run (h .ctor) _ _
  rw [hctor]
  simp only [position]
  cases file.func? index.process with
  | none => rfl
  | some f =>
    simp only
    cases f.handlerType with
    | error kind => rfl
    | ok handler =>
      simp only
      cases (file.func? index.register).bind FuncDecl.receiverType with
      | none => rfl
      | some type =>
        simp only
        split <;> rfl

/-- An index is built when every anchor has a position and the receiver of `Process` is a
pointer to a named type; it holds these positions and that name. -/
theorem build_ok_iff {policy : AnchorPolicy} {file : SourceFile} {index : DeclIndex}
    {log : List LogEvent} :
    ((build policy file).run log).1 = .ok index ↔
      (∀ a, Anchor.position? a policy file = some (index.position a)) ∧
        ∃ f, file.func? index.process = some f ∧ f.handlerType = .ok index.handler := by
  constructor
  · intro h
    have hrun : (build policy file).run log = (.ok index, ((build policy file).run log).2) :=
      Prod.ext h rfl
    obtain ⟨process, _, hprocess, hrun⟩ := bind_ok hrun
    obtain ⟨register, _, hregister, hrun⟩ := bind_ok hrun
    obtain ⟨read, _, hread, hrun⟩ := bind_ok hrun
    obtain ⟨ctor, _, hctor, -⟩ := bind_ok hrun
    have hpos : ∀ a, Anchor.position? a policy file =
        some (position ⟨process, register, read, ctor, ""⟩ a) := by
      rintro (_ | _ | _ | _)
      · exact Anchor.find_ok hprocess
      · exact Anchor.find_ok hregister
      · exact Anchor.find_ok hread
      · exact Anchor.find_ok hctor
    rw [build_run_of_positions hpos] at h
    rcases hf : file.func? process with _ | f <;> simp only [hf] at h
    · cases h
    rcases hh : f.handlerType with kind | handler <;> simp only [hh] at h <;> cases h
    exact ⟨fun a => (hpos a).trans (by cases a <;> rfl), f, hf, hh⟩
  · rintro ⟨hpos, f, hf, hh⟩
    rw [build_run_of_positions hpos]
    simp only [hf, hh]

end DeclIndex

end HandlerSplit
