import HandlerSplit.Proofs.Tree.Traversal
/-!
# What renaming does

Renaming goes through a tree with a rewriter that counts; what it makes of the tree is a
substitution for names alone (`renamer_traversal`). Such substitutions compose as functions on names
do (`subst_names_traversal`), and the names of what they give are the old names mapped, in the same
order (`names_subst_traversal`). So a renamed tree has the new name wherever reading the old tree
meets the old name, is otherwise as it was, and a second renaming finds nothing (`rename_exact`).
-/

namespace HandlerSplit

open Event (names)

/-- The substitution of names. -/
def Substitution.ofNames (f : String → String) : Substitution where
  name := f

/-- What renaming makes of a name. -/
def renamed (old new n : String) : String :=
  if n = old then new else n

theorem renamed_renamed (old new n : String) :
    renamed old new (renamed old new n) = renamed old new n := by
  by_cases hn : n = old
  · by_cases hnew : new = old <;> simp [renamed, hn, hnew]
  · simp [renamed, hn]

theorem renamed_ne {old new : String} (h : old ≠ new) (n : String) : renamed old new n ≠ old := by
  rw [renamed]
  split
  case isTrue => exact h.symm
  case isFalse hn => exact hn

/-! ## Names are substituted and counted -/

variable {α : Type}

theorem renamer_run (old new n : String) (count : Nat) :
    ((renamer old new).onName n).run count = (renamed old new n, count + [n].count old) := by
  show (if n == old then _ else _ : StateM Nat String).run count = _
  by_cases hn : n = old
  · simp only [renamed, hn, beq_self_eq_true, if_true, List.count_singleton]
    rfl
  · simp only [renamed, hn, beq_iff_eq, if_false, List.count_singleton]
    rfl

/-- A renaming makes of a part what substitution makes of it, and counts the names it meets. -/
def Renames (old new : String) (A : Part α) (a : α) : Prop :=
  ∀ count, (A.rewrite (renamer old new) a).run count =
    (A.subst (.ofNames (renamed old new)) a, count + (names (A.events a)).count old)

theorem renamer_traversal (old new : String) : Traversal fun _ A a => Renames old new A a where
  still h count := by
    rw [h.rewrite, h.events, h.subst]
    rfl
  pair ha hb count := by
    rw [Part.run_pair (ha count) (hb _)]
    simp only [Part.pair, Event.names_append, List.count_append, Nat.add_assoc]
  make h ha count := by rw [h.run (ha count), h.events, h.subst]
  name n count := renamer_run old new n count
  expr {x} h count := by
    rw [Part.expr, Event.names_aroundExpr]
    exact h count
  stmt {k d} h count := by
    show _ = (_, count + (names (aroundStmt ⟨k, d⟩ k.inside)).count old)
    rw [Event.names_aroundStmt]
    exact congrArg (fun p : _ × Nat => (Stmt.mk p.1 d, p.2)) (h count)

/-! ## Names of what was substituted -/

theorem names_subst_traversal (f : String → String) :
    Traversal fun _ A a => names (A.events (A.subst (.ofNames f) a)) = (names (A.events a)).map f where
  still h := by rw [h.subst, h.events]; rfl
  pair ha hb := by simp only [Part.pair, Event.names_append, List.map_append, ha, hb]
  make h ha := by rw [h.subst, h.events, h.events, ha]
  name _ := rfl
  expr h := by
    rw [Part.expr, Event.names_aroundExpr, Event.names_aroundExpr]
    exact h
  stmt {k d} h := by
    show names (aroundStmt _ _) = (names (aroundStmt ⟨k, d⟩ k.inside)).map f
    rw [Event.names_aroundStmt, Event.names_aroundStmt]
    exact h

/-- Substitutions of names are carried out one after the other as one. -/
theorem subst_names_traversal (f g : String → String) :
    Traversal fun _ A a =>
      A.subst (.ofNames g) (A.subst (.ofNames f) a) = A.subst (.ofNames (g ∘ f)) a where
  still h := by rw [h.subst, h.subst, h.subst]
  pair ha hb := Prod.ext ha hb
  make h ha := by rw [h.subst, h.subst, ha, h.subst]
  name _ := rfl
  expr h := h
  stmt {_ d} h := congrArg (Stmt.mk · d) h

/-! ## The main statement -/

/-- The names of a block in order. -/
def Block.names (b : Block) : List String :=
  Event.names b.events

/-- Renaming a block substitutes the new name for the old, and counts where it does. -/
theorem Block.rename_eq (b : Block) (old new : String) :
    b.rename old new = (b.subst (.ofNames (renamed old new)), b.names.count old) := by
  rw [Block.rename, ← Nat.zero_add (b.names.count old)]
  exact b.traversed (renamer_traversal old new) 0

/-- A block of which everything is left but its names. -/
def Block.nameless (b : Block) : Block :=
  b.subst (.ofNames fun _ => "_")

/-- A source file of which everything is left but the names that reading meets. -/
def SourceFile.nameless (file : SourceFile) : SourceFile :=
  file.subst (.ofNames fun _ => "_")

/-- A way to rename that does it exactly: it replaces every occurrence of the old name, counts
these, changes nothing else, and leaves nothing to rename. -/
structure RenamesExactly (old new : String) (names : α → List String) (nameless : α → α)
    (rename : α → α × Nat) (a : α) : Prop where
  count : (rename a).2 = (names a).count old
  names : names (rename a).1 = (names a).map (renamed old new)
  rest : nameless (rename a).1 = nameless a
  again : old ≠ new → rename (rename a).1 = ((rename a).1, 0)

/-- Parts that are gone through are renamed exactly. -/
theorem Part.renamesExactly {A : Part α}
    (hA : ∀ {R : (α : Type) → Part α → α → Prop}, Traversal R → ∀ a, R α A a) (old new : String)
    (a : α) :
    RenamesExactly old new (fun a => names (A.events a)) (A.subst (.ofNames fun _ => "_"))
      (fun a => (A.rewrite (renamer old new) a).run 0) a := by
  have hrun : ∀ a, (A.rewrite (renamer old new) a).run 0 =
      (A.subst (.ofNames (renamed old new)) a, (names (A.events a)).count old) := fun a => by
    rw [hA (renamer_traversal old new) a 0, Nat.zero_add]
  have hnames := hA (names_subst_traversal (renamed old new)) a
  refine ⟨?_, ?_, ?_, fun hne => ?_⟩
  · rw [hrun]
  · rw [hrun]
    exact hnames
  · rw [hrun]
    exact hA (subst_names_traversal (renamed old new) fun _ => "_") a
  · have htwice : renamed old new ∘ renamed old new = renamed old new :=
      funext (renamed_renamed old new)
    have hnone : ((names (A.events a)).map (renamed old new)).count old = 0 :=
      List.count_eq_zero.mpr fun hmem => by
        obtain ⟨n, -, hn⟩ := List.mem_map.1 hmem
        exact renamed_ne hne n hn
    rw [hrun a, hrun]
    refine Prod.ext ?_ ?_
    · exact (hA (subst_names_traversal (renamed old new) (renamed old new)) a).trans
        (by rw [htwice])
    · exact (congrArg (List.count old) hnames).trans hnone

/-- Renaming is exact in source files and in blocks. -/
theorem rename_exact (old new : String) :
    (∀ file : SourceFile, RenamesExactly old new SourceFile.names SourceFile.nameless
      (·.rename old new) file) ∧
    ∀ b : Block, RenamesExactly old new Block.names Block.nameless (·.rename old new) b :=
  ⟨Part.renamesExactly (A := .file) SourceFile.traversed old new,
    Part.renamesExactly (A := .block) Block.traversed old new⟩

end HandlerSplit
