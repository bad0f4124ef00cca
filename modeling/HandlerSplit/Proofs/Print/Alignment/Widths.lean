import HandlerSplit.Proofs.Print.Columns
import Mathlib.Data.List.DropRight
/-!
# The widths of columns

Widths are found by cutting rows into blocks, and the blocks of a later column lie inside those of
an earlier one. What counts is a maximal run of adjacent rows that have a padded cell in the column:
all of them share one width, the one that their cells of this column need
(`Fitted.width_of_run`).
-/

namespace HandlerSplit.Print

/-! ## Maximal runs -/

section

variable {α β : Type}

/-- Neighbours that all satisfy `p`, while those right before and right behind them do not. -/
structure MaximalRun (p : α → Prop) (before run behind : List α) : Prop where
  inside : ∀ x ∈ run, p x
  before : ∀ x ∈ before.getLast?, ¬p x
  behind : ∀ x ∈ behind.head?, ¬p x

theorem maximalRun_map {p : β → Prop} (f : α → β) {before run behind : List α} :
    MaximalRun p (before.map f) (run.map f) (behind.map f) ↔
      MaximalRun (fun x => p (f x)) before run behind := by
  constructor
  · rintro ⟨hinside, hbefore, hbehind⟩
    refine ⟨fun x hx => hinside _ (List.mem_map_of_mem hx), fun x hx => hbefore _ ?_,
      fun x hx => hbehind _ ?_⟩
    · rw [List.getLast?_map]
      exact Option.mem_map_of_mem f hx
    · rw [List.head?_map]
      exact Option.mem_map_of_mem f hx
  · rintro ⟨hinside, hbefore, hbehind⟩
    refine ⟨List.forall_mem_map.mpr hinside, fun y hy => ?_, fun y hy => ?_⟩
    · rw [List.getLast?_map] at hy
      obtain ⟨x, hx, rfl⟩ := Option.map_eq_some_iff.mp hy
      exact hbefore x hx
    · rw [List.head?_map] at hy
      obtain ⟨x, hx, rfl⟩ := Option.map_eq_some_iff.mp hy
      exact hbehind x hx

theorem MaximalRun.congr {p q : α → Prop} {before run behind : List α}
    (h : MaximalRun p before run behind) (hpq : ∀ x, p x ↔ q x) : MaximalRun q before run behind :=
  ⟨fun x hx => (hpq x).mp (h.inside x hx), fun x hx => mt (hpq x).mpr (h.before x hx),
    fun x hx => mt (hpq x).mpr (h.behind x hx)⟩

/-- A run is still maximal when less of what stands around it is looked at. -/
theorem MaximalRun.narrow {p : α → Prop} {before before' run behind behind' : List α}
    (h : MaximalRun p (before ++ before') run (behind' ++ behind)) :
    MaximalRun p before' run behind' where
  inside := h.inside
  before x hx := h.before x (List.mem_getLast?_append_of_mem_getLast? hx)
  behind x hx := h.behind x (List.mem_head?_append_of_mem_head? hx)

/-- Neighbours that satisfy `p` belong to a maximal run. -/
theorem exists_maximalRun {p : α → Prop} [DecidablePred p] {run : List α} (h : ∀ x ∈ run, p x)
    (before behind : List α) :
    ∃ before₀ before₁ behind₁ behind₀, before = before₀ ++ before₁ ∧ behind = behind₁ ++ behind₀ ∧
      MaximalRun p before₀ (before₁ ++ run ++ behind₁) behind₀ := by
  refine ⟨before.rdropWhile p, before.rtakeWhile p, behind.takeWhile p, behind.dropWhile p,
    List.rdropWhile_append_rtakeWhile.symm, List.takeWhile_append_dropWhile.symm, ?_, ?_, ?_⟩
  · refine List.forall_mem_append.mpr ⟨List.forall_mem_append.mpr ⟨fun x hx => ?_, h⟩, fun x hx => ?_⟩
    · simpa using List.mem_rtakeWhile_imp hx
    · simpa using List.mem_takeWhile_imp hx
  · intro x hx
    obtain ⟨hne, rfl⟩ := List.mem_getLast?_eq_getLast hx
    simpa using List.rdropWhile_last_not _ _ hne
  · intro x hx
    have := List.head?_dropWhile_not p behind
    rw [hx] at this
    simpa using this

end

/-! ## The width of a column -/

theorem columnWidth_eq_zero {widths : List Nat} (h : ∀ w ∈ widths, w = 0) :
    columnWidth widths = 0 :=
  if_pos (List.all_eq_true.mpr fun w hw => beq_iff_eq.mpr (h w hw))

/-- A maximal run of rows with a padded cell makes up a block of its own. -/
theorem columnWidths_run (n : Nat) {before run behind : List (List Nat)} (hne : run ≠ [])
    (h : MaximalRun (· ≠ []) before run behind) :
    columnWidths (n + 1) (before ++ run ++ behind) =
      columnWidths (n + 1) before ++
        (columnWidths n (run.map List.tail)).map (columnWidth (run.map (·.headD 0)) :: ·) ++
          columnWidths (n + 1) behind := by
  have hfilled : ∀ row ∈ run, row.isEmpty = false := fun row hrow =>
    List.isEmpty_eq_false_iff.mpr (h.inside row hrow)
  have hbefore : ∀ x ∈ before.getLast?, ∀ y ∈ run.head?, (x.isEmpty == y.isEmpty) = false := by
    intro x hx y hy
    rw [hfilled y (List.mem_of_mem_head? hy), not_not.mp (h.before x hx)]
    rfl
  have hbehind : ∀ x ∈ (before ++ run).getLast?, ∀ y ∈ behind.head?,
      (x.isEmpty == y.isEmpty) = false := by
    intro x hx y hy
    rw [List.getLast?_append_of_ne_nil _ hne] at hx
    rw [hfilled x (List.mem_of_mem_getLast? hx), not_not.mp (h.behind y hy)]
    rfl
  have hchain : run.IsChain fun x y => (x.isEmpty == y.isEmpty) = true := by
    refine List.isChain_iff_forall_rel_of_append_cons_cons.mpr fun x y l l' heq => ?_
    rw [hfilled x (by simp [heq]), hfilled y (by simp [heq])]
    rfl
  have hblock : run.all List.isEmpty = false := by
    obtain ⟨row, hrow⟩ := List.exists_mem_of_ne_nil run hne
    exact List.all_eq_false.mpr ⟨row, hrow, by rw [hfilled row hrow]; exact Bool.false_ne_true⟩
  rw [columnWidths, columnWidths, columnWidths, List.splitBy_append hbehind,
    List.splitBy_append hbefore, List.splitBy_of_isChain hne hchain, List.flatMap_append,
    List.flatMap_append, List.flatMap_singleton, hblock]
  rfl

/-- Rows, given by the widths of their padded cells, with the column widths that are
found for them. -/
structure Fitted (n : Nat) (zs : List (List Nat × List Nat)) : Prop where
  short : ∀ z ∈ zs, z.1.length ≤ n
  widths : zs.map Prod.snd = columnWidths n (zs.map Prod.fst)

/-- A row and its columns without the first. -/
def laterColumns (z : List Nat × List Nat) : List Nat × List Nat :=
  (z.1.tail, z.2.tail)

namespace Fitted

variable {n : Nat} {before run behind : List (List Nat × List Nat)}

/-- The columns of a maximal run of rows with a padded cell. -/
theorem widths_run (hfitted : Fitted (n + 1) (before ++ run ++ behind)) (hne : run ≠ [])
    (h : MaximalRun (·.1 ≠ []) before run behind) :
    run.map Prod.snd = (columnWidths n (run.map (·.1.tail))).map
      (columnWidth (run.map (·.1.headD 0)) :: ·) := by
  obtain ⟨hshort, hwidths⟩ := hfitted
  have hlength {zs : List (List Nat × List Nat)} (hzs : ∀ z ∈ zs, z.1.length ≤ n + 1) :
      (zs.map Prod.snd).length = (columnWidths (n + 1) (zs.map Prod.fst)).length := by
    rw [List.length_map, ← (wide_columnWidths (n + 1) (List.forall_mem_map.mpr hzs)).length_eq,
      List.length_map]
  have hblock := columnWidths_run n (mt List.map_eq_nil_iff.mp hne) ((maximalRun_map Prod.fst).mpr h)
  simp only [List.map_append, List.map_map] at hwidths hblock
  rw [hblock, List.append_assoc, List.append_assoc] at hwidths
  simp only [List.forall_mem_append] at hshort
  obtain ⟨-, hrest⟩ := List.append_inj hwidths (hlength hshort.1.1)
  exact (List.append_inj' hrest (hlength hshort.2)).1

/-- The later columns of such a run are found in the same way. -/
theorem later (hfitted : Fitted (n + 1) (before ++ run ++ behind)) (hne : run ≠ [])
    (h : MaximalRun (·.1 ≠ []) before run behind) : Fitted n (run.map laterColumns) where
  short := by
    refine List.forall_mem_map.mpr fun z hz => ?_
    have := hfitted.short z (by simp [hz])
    rw [laterColumns, List.length_tail]
    omega
  widths := by
    have htails := congrArg (List.map List.tail) (hfitted.widths_run hne h)
    rw [List.map_map, List.map_map] at htails
    rw [List.map_map, List.map_map]
    exact htails.trans (List.map_id _)

/-- As many columns are looked for as there are. -/
theorem exists_eq_add_one {c : Nat} (hfitted : Fitted n (before ++ run ++ behind))
    (h : MaximalRun (c < ·.1.length) before run behind) {z : List Nat × List Nat} (hz : z ∈ run) :
    ∃ m, n = m + 1 := by
  have := hfitted.short z (by simp [hz])
  have := h.inside z hz
  exact ⟨n - 1, by omega⟩

/-- The rows of a maximal run that has a padded cell in a column share its width there: the width
that the cells of the run need. -/
theorem width_of_run (c : Nat) (hfitted : Fitted n (before ++ run ++ behind))
    (h : MaximalRun (c < ·.1.length) before run behind) :
    ∀ z ∈ run, z.2[c]? = some (columnWidth (run.map (·.1.getD c 0))) := by
  -- By induction on the column : the later ones are those of the rows without their first cell.
  induction c generalizing n before run behind with
  | zero =>
    intro z hz
    obtain ⟨n, rfl⟩ := exists_eq_add_one hfitted h hz
    have hfilled := h.congr (q := (·.1 ≠ [])) fun z => List.length_pos_iff
    have hmem : z.2 ∈ run.map Prod.snd := List.mem_map_of_mem hz
    rw [hfitted.widths_run (List.ne_nil_of_mem hz) hfilled] at hmem
    obtain ⟨columns, -, hcolumns⟩ := List.mem_map.mp hmem
    rw [← hcolumns]
    show some (columnWidth _) = some (columnWidth _)
    simp only [List.headD_eq_head?_getD, List.head?_eq_getElem?, List.getD_eq_getElem?_getD]
  | succ c ih =>
    intro z hz
    obtain ⟨n, rfl⟩ := exists_eq_add_one hfitted h hz
    obtain ⟨before₀, before₁, behind₁, behind₀, rfl, rfl, hwider⟩ :=
      exists_maximalRun (p := (·.1 ≠ [])) (fun z hz => List.ne_nil_of_length_pos
        (Nat.zero_lt_of_lt (h.inside z hz))) before behind
    have hparts : before₀ ++ before₁ ++ run ++ (behind₁ ++ behind₀) =
        before₀ ++ (before₁ ++ run ++ behind₁) ++ behind₀ := by
      simp only [List.append_assoc]
    have hlater := (hparts ▸ hfitted).later (List.ne_nil_of_mem (a := z) (by simp [hz])) hwider
    rw [List.map_append, List.map_append] at hlater
    have hrun : MaximalRun (c < ·.1.length) (before₁.map laterColumns) (run.map laterColumns)
        (behind₁.map laterColumns) :=
      (maximalRun_map laterColumns).mpr (h.narrow.congr fun y => by
        rw [laterColumns, List.length_tail]
        omega)
    have hcolumn := ih hlater hrun _ (List.mem_map_of_mem hz)
    have hcell : ((·.1.getD c 0) ∘ laterColumns : List Nat × List Nat → Nat) = (·.1.getD (c + 1) 0) := by
      funext y
      simp only [Function.comp_apply, laterColumns, List.getD_eq_getElem?_getD, List.getElem?_tail]
    rw [laterColumns, List.getElem?_tail, List.map_map, hcell] at hcolumn
    exact hcolumn

end Fitted

end HandlerSplit.Print
