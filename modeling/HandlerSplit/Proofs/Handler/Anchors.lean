import HandlerSplit.Proofs.Handler.Resolution
import Mathlib.Order.Bounds.Basic
/-!
# How the anchors of a file resolve

An anchor resolves to the last position at which it matches: at which a function is declared whose
name fits it (`Anchor.ResolvesTo`). `DeclIndex.Resolution` lists how the four anchors come out
together, and `build_resolves` says that an index is built, or refused, in just these ways. It also
compares the two policies: an exact match is a match by containment, so the looser policy resolves
to the same position or a later one.
-/

namespace HandlerSplit

/-! ## Names that fit -/

theorem occursIn_iff {part cs : List Char} : occursIn part cs = true ↔ part <:+: cs := by
  induction cs with
  | nil => simp [occursIn]
  | cons c cs ih => rw [occursIn, Bool.or_eq_true, List.isPrefixOf_iff_prefix, ih, List.infix_cons_iff]

namespace Anchor

variable {a b : Anchor} {policy : AnchorPolicy} {file : SourceFile} {i : Nat}

/-- Whether a name fits an anchor. Exactly it does if it is the fragment, or starts with it for the
constructor; otherwise it is enough to contain it. -/
def Fits (a : Anchor) : AnchorPolicy → String → Prop
  | .lastContaining, name => a.fragment.toList <:+: name.toList
  | .exact, name => if a = .ctor then a.fragment.toList <+: name.toList else name = a.fragment

theorem admits_iff {name : String} : a.admits policy name = true ↔ a.Fits policy name := by
  cases policy with
  | lastContaining => exact occursIn_iff
  | exact =>
    cases a with
    | ctor => exact List.isPrefixOf_iff_prefix
    | _ => exact beq_iff_eq

theorem fits_lastContaining {name : String} (h : a.Fits .exact name) :
    a.Fits .lastContaining name := by
  by_cases ha : a = .ctor
  · rw [Fits, if_pos ha] at h
    exact h.isInfix
  · rw [Fits, if_neg ha] at h
    rw [h]
    exact List.infix_rfl

/-- No name fits two anchors exactly: the fragments differ, and none starts with that of the
constructor. -/
theorem eq_of_fits_exact {name : String} (ha : a.Fits .exact name) (hb : b.Fits .exact name) :
    a = b := by
  have hctor : ∀ c : Anchor, c ≠ .ctor → ¬ctor.fragment.toList <+: c.fragment.toList := by
    intro c hc
    cases c <;> first | exact absurd rfl hc | decide
  have hinjective : ∀ c d : Anchor, c.fragment = d.fragment → c = d := by
    intro c d
    cases c <;> cases d <;> first | exact fun _ => rfl | exact fun h => absurd h (by decide)
  by_cases hac : a = .ctor <;> by_cases hbc : b = .ctor
  · rw [hac, hbc]
  · rw [Fits, if_pos hac] at ha
    rw [Fits, if_neg hbc] at hb
    subst hac hb
    exact absurd ha (hctor b hbc)
  · rw [Fits, if_neg hac] at ha
    rw [Fits, if_pos hbc] at hb
    subst hbc ha
    exact absurd hb (hctor a hac)
  · rw [Fits, if_neg hac] at ha
    rw [Fits, if_neg hbc] at hb
    exact hinjective a b (ha.symm.trans hb)

/-! ## Positions -/

/-- An anchor matches at a position if a function is declared there whose name fits it. -/
def MatchesAt (a : Anchor) (policy : AnchorPolicy) (file : SourceFile) (i : Nat) : Prop :=
  ∃ f, file.func? i = some f ∧ a.Fits policy f.name

/-- An anchor resolves to the greatest position at which it matches. -/
def ResolvesTo (a : Anchor) (policy : AnchorPolicy) (file : SourceFile) (i : Nat) : Prop :=
  IsGreatest {j | a.MatchesAt policy file j} i

theorem resolvesTo_iff : a.ResolvesTo policy file i ↔ a.position? policy file = some i := by
  simp only [position?_eq_some_iff, admits_iff]
  constructor
  · rintro ⟨hi, hmax⟩
    exact ⟨hi, fun j f hij hf hfits => Nat.not_le.mpr hij (hmax ⟨f, hf, hfits⟩)⟩
  · rintro ⟨hi, hmax⟩
    exact ⟨hi, fun j ⟨f, hf, hfits⟩ => Nat.not_lt.mp fun hij => hmax j f hij hf hfits⟩

theorem position?_eq_none_iff :
    a.position? policy file = none ↔ ∀ i, ¬a.MatchesAt policy file i := by
  constructor
  · rintro h i ⟨f, hf, hfits⟩
    have hmem : (i, f) ∈ a.candidates policy file := mem_candidates.mpr ⟨hf, admits_iff.mpr hfits⟩
    rw [position?, Option.map_eq_none_iff, List.getLast?_eq_none_iff] at h
    rw [h] at hmem
    cases hmem
  · intro h
    cases hpos : a.position? policy file with
    | none => rfl
    | some i => exact absurd (resolvesTo_iff.mpr hpos).1 (h i)

/-- An anchor that matches anywhere resolves. -/
theorem exists_resolvesTo (h : a.MatchesAt policy file i) :
    ∃ j, i ≤ j ∧ a.ResolvesTo policy file j := by
  cases hpos : a.position? policy file with
  | none => exact absurd h (position?_eq_none_iff.mp hpos i)
  | some j =>
    have hj := resolvesTo_iff.mpr hpos
    exact ⟨j, hj.2 h, hj⟩

theorem find_outcome_iff :
    (a.find policy file).outcome.1 = .ok i ↔ a.ResolvesTo policy file i := by
  rw [Attempt.outcome_eq, find_run, resolvesTo_iff]
  cases a.position? policy file <;> simp

end Anchor

/-! ## The four anchors together -/

/-- The function at a position is a method, and the type of its first receiver is `type`. -/
def SourceFile.ReceivesAt (file : SourceFile) (i : Nat) (type : Expr) : Prop :=
  ∃ f field fields enclosure, file.func? i = some f ∧
    f.recv = some ⟨field :: fields, enclosure⟩ ∧ field.type = type

/-- What an error says about the receiver of a function. -/
def FuncDecl.receiverText (f : FuncDecl) : String :=
  (f.receiverType.map Expr.print).getD "no receiver"

theorem FuncDecl.receiverType_eq_some_iff {f : FuncDecl} {type : Expr} :
    f.receiverType = some type ↔
      ∃ field fields enclosure, f.recv = some ⟨field :: fields, enclosure⟩ ∧ field.type = type := by
  obtain ⟨recv, name, sig, body⟩ := f
  obtain _ | ⟨_ | ⟨field, fields⟩, enclosure⟩ := recv <;> simp [receiverType]

/-- A receiver that is no pointer to a named type is refused with its text. -/
theorem FuncDecl.handlerType_of_refused {f : FuncDecl}
    (h : ∀ handler, f.receiverType ≠ some (.star (.ident handler))) :
    f.handlerType = .error (.invalidReceiver f.receiverText) := by
  cases hok : f.handlerType with
  | ok handler => exact absurd (handlerType_eq_ok_iff.mp hok) (h handler)
  | error kind =>
    rw [handlerType] at hok
    rw [receiverText]
    cases hrecv : f.receiverType with
    | none =>
      rw [hrecv] at hok
      exact hok.symm
    | some type =>
      simp only [hrecv] at hok
      split at hok
      · cases hok
      · exact hok.symm

namespace DeclIndex

/-- How the anchors of a file come out: all of them resolve, and `Process` is a method of a pointer
to a named type, or is not; or one of them is the first that matches nowhere. -/
inductive Resolution (policy : AnchorPolicy) (file : SourceFile) : Except Error DeclIndex → Prop
  | resolved (index : DeclIndex)
    (positions : ∀ a : Anchor, a.ResolvesTo policy file (index.position a))
    (receives : file.ReceivesAt index.process (.star (.ident index.handler))) :
    Resolution policy file (.ok index)
  | refused {i : Nat} {f : FuncDecl} (matched : ∀ a : Anchor, ∃ j, a.MatchesAt policy file j)
    (process : Anchor.process.ResolvesTo policy file i) (func : file.func? i = some f)
    (receives : ∀ handler, ¬file.ReceivesAt i (.star (.ident handler))) :
    Resolution policy file (.error { kind := .invalidReceiver f.receiverText })
  | missing {before after : List Anchor} {a : Anchor} (order : Anchor.all = before ++ a :: after)
    (matched : ∀ b ∈ before, ∃ i, b.MatchesAt policy file i)
    (unmatched : ∀ i, ¬a.MatchesAt policy file i) :
    Resolution policy file (.error { kind := .notFound a.fragment })

variable {policy : AnchorPolicy} {file : SourceFile}

theorem exists_find_bind_run_of_matches {a : Anchor} (h : ∃ i, a.MatchesAt policy file i)
    {α : Type} (k : Nat → Attempt α) (log : List LogEvent) :
    ∃ i log', (a.find policy file >>= k).run log = (k i).run log' := by
  obtain ⟨i, hi⟩ := h
  obtain ⟨j, -, hj⟩ := Anchor.exists_resolvesTo hi
  obtain ⟨log', hrun⟩ := Anchor.exists_find_bind_run (Anchor.resolvesTo_iff.mp hj) k log
  exact ⟨j, log', hrun⟩

theorem find_bind_run_of_unmatched {a : Anchor} (h : ∀ i, ¬a.MatchesAt policy file i) {α : Type}
    (k : Nat → Attempt α) (log : List LogEvent) :
    ((a.find policy file >>= k).run log).1 = .error { kind := .notFound a.fragment } := by
  have hfind := Anchor.find_run a policy file log
  rw [Anchor.position?_eq_none_iff.mpr h] at hfind
  rw [bind_run]
  rcases hrun : (a.find policy file).run log with ⟨r, l⟩
  rw [hrun] at hfind
  obtain rfl : r = _ := hfind
  rfl

/-- The first anchor that matches nowhere is reported. -/
theorem build_run_of_missing {before after : List Anchor} {a : Anchor}
    (order : Anchor.all = before ++ a :: after)
    (matched : ∀ b ∈ before, ∃ i, b.MatchesAt policy file i)
    (unmatched : ∀ i, ¬a.MatchesAt policy file i) (log : List LogEvent) :
    ((build policy file).run log).1 = .error { kind := .notFound a.fragment } := by
  unfold build
  obtain _ | ⟨p, before⟩ := before
  · obtain rfl : Anchor.process = a := (List.cons.inj order).1
    exact find_bind_run_of_unmatched unmatched _ _
  obtain ⟨rfl, order₁⟩ := List.cons.inj order
  obtain ⟨hprocess, matched⟩ := List.forall_mem_cons.mp matched
  obtain ⟨process, _, hrun⟩ := exists_find_bind_run_of_matches hprocess _ log
  rw [hrun]
  obtain _ | ⟨r, before⟩ := before
  · obtain rfl : Anchor.register = a := (List.cons.inj order₁).1
    exact find_bind_run_of_unmatched unmatched _ _
  obtain ⟨rfl, order₂⟩ := List.cons.inj order₁
  obtain ⟨hregister, matched⟩ := List.forall_mem_cons.mp matched
  obtain ⟨register, _, hrun⟩ := exists_find_bind_run_of_matches hregister _ _
  rw [hrun]
  obtain _ | ⟨d, before⟩ := before
  · obtain rfl : Anchor.read = a := (List.cons.inj order₂).1
    exact find_bind_run_of_unmatched unmatched _ _
  obtain ⟨rfl, order₃⟩ := List.cons.inj order₂
  obtain ⟨hread, matched⟩ := List.forall_mem_cons.mp matched
  obtain ⟨read, _, hrun⟩ := exists_find_bind_run_of_matches hread _ _
  rw [hrun]
  obtain _ | ⟨c, before⟩ := before
  · obtain rfl : Anchor.ctor = a := (List.cons.inj order₃).1
    exact find_bind_run_of_unmatched unmatched _ _
  · cases before <;> cases (List.cons.inj order₃).2

theorem receivesAt_iff {i : Nat} {f : FuncDecl} (hf : file.func? i = some f) {handler : String} :
    file.ReceivesAt i (.star (.ident handler)) ↔ f.handlerType = .ok handler := by
  rw [FuncDecl.handlerType_eq_ok_iff, FuncDecl.receiverType_eq_some_iff]
  constructor
  · rintro ⟨g, field, fields, enclosure, hg, hrecv⟩
    obtain rfl : f = g := Option.some.inj (hf.symm.trans hg)
    exact ⟨field, fields, enclosure, hrecv⟩
  · rintro ⟨field, fields, enclosure, hrecv⟩
    exact ⟨f, field, fields, enclosure, hf, hrecv⟩

theorem exists_position (h : ∀ a : Anchor, ∃ i, a.MatchesAt policy file i) (handler : String) :
    ∃ index : DeclIndex, index.handler = handler ∧
      ∀ a : Anchor, a.ResolvesTo policy file (index.position a) := by
  have hresolves (a : Anchor) : ∃ i, a.ResolvesTo policy file i := by
    obtain ⟨i, hi⟩ := h a
    obtain ⟨j, -, hj⟩ := Anchor.exists_resolvesTo hi
    exact ⟨j, hj⟩
  obtain ⟨process, hprocess⟩ := hresolves .process
  obtain ⟨register, hregister⟩ := hresolves .register
  obtain ⟨read, hread⟩ := hresolves .read
  obtain ⟨ctor, hctor⟩ := hresolves .ctor
  refine ⟨⟨process, register, read, ctor, handler⟩, rfl, fun a => ?_⟩
  cases a <;> assumption

theorem build_eq_of_resolution {r : Except Error DeclIndex} (h : Resolution policy file r) :
    (build policy file).outcome.1 = r := by
  rw [Attempt.outcome_eq]
  cases h with
  | resolved index positions receives =>
    obtain ⟨f, _, _, _, hf, -⟩ := id receives
    exact build_ok_iff.mpr ⟨fun a => Anchor.resolvesTo_iff.mp (positions a), f, hf,
      (receivesAt_iff hf).mp receives⟩
  | @refused i f matched process func receives =>
    obtain ⟨index, -, hindex⟩ := exists_position matched ""
    obtain rfl : index.process = i := IsGreatest.unique (hindex .process) process
    have herror := f.handlerType_of_refused fun handler heq =>
      receives handler ((receivesAt_iff func).mpr (FuncDecl.handlerType_eq_ok_iff.mpr heq))
    rw [build_run_of_positions fun a => Anchor.resolvesTo_iff.mp (hindex a)]
    simp only [func, herror]
  | missing order matched unmatched => exact build_run_of_missing order matched unmatched []

theorem exists_resolution (policy : AnchorPolicy) (file : SourceFile) :
    ∃ r, Resolution policy file r := by
  cases hfirst : Anchor.all.find? fun a => (a.position? policy file).isNone with
  | some a =>
    obtain ⟨hnone, before, after, order, hbefore⟩ := List.find?_eq_some_iff_append.mp hfirst
    refine ⟨_, .missing order (fun b hb => ?_)
      (Anchor.position?_eq_none_iff.mp (Option.isNone_iff_eq_none.mp hnone))⟩
    have hsome := hbefore b hb
    cases hpos : b.position? policy file with
    | none => simp [hpos] at hsome
    | some i => exact ⟨i, (Anchor.resolvesTo_iff.mpr hpos).1⟩
  | none =>
    have hmatched (a : Anchor) : ∃ i, a.MatchesAt policy file i := by
      have ha := List.find?_eq_none.mp hfirst a (by cases a <;> decide)
      cases hpos : a.position? policy file with
      | none => simp [hpos] at ha
      | some i => exact ⟨i, (Anchor.resolvesTo_iff.mpr hpos).1⟩
    obtain ⟨index, -, hindex⟩ := exists_position hmatched ""
    obtain ⟨f, hf, -⟩ := (hindex .process).1
    by_cases hreceives : ∃ handler, file.ReceivesAt index.process (.star (.ident handler))
    · obtain ⟨handler, hreceives⟩ := hreceives
      exact ⟨_, .resolved { index with handler } (fun a => by cases a <;> exact hindex _) hreceives⟩
    · exact ⟨_, .refused hmatched (hindex .process) hf (not_exists.mp hreceives)⟩

/-- The ways in which an index comes out are those that are listed. -/
theorem build_eq_iff {r : Except Error DeclIndex} :
    (build policy file).outcome.1 = r ↔ Resolution policy file r := by
  refine ⟨?_, build_eq_of_resolution⟩
  rintro rfl
  obtain ⟨r, hr⟩ := exists_resolution policy file
  rwa [build_eq_of_resolution hr]

/-- An index is built if and only if all anchors match and the last match of `Process` is a method
of a pointer to a named type; what comes out in this and every other case is told by `Resolution`.
An anchor that is found exactly is found by containment at the same position or a later one, and no
two anchors are found exactly at one position. -/
theorem build_resolves (policy : AnchorPolicy) (file : SourceFile) :
    ((∃ index, (build policy file).outcome.1 = .ok index) ↔
        (∀ a : Anchor, ∃ i, a.MatchesAt policy file i) ∧
          ∃ i handler, Anchor.process.ResolvesTo policy file i ∧
            file.ReceivesAt i (.star (.ident handler))) ∧
      (∀ r, (build policy file).outcome.1 = r ↔ Resolution policy file r) ∧
      (∀ (a : Anchor) (i : Nat), (a.find .exact file).outcome.1 = .ok i →
        ∃ j, i ≤ j ∧ (a.find .lastContaining file).outcome.1 = .ok j) ∧
      ∀ (a b : Anchor) (i : Nat), (a.find .exact file).outcome.1 = .ok i →
        (b.find .exact file).outcome.1 = .ok i → a = b := by
  refine ⟨⟨?_, ?_⟩, fun r => build_eq_iff, fun a i h => ?_, fun a b i ha hb => ?_⟩
  · rintro ⟨index, h⟩
    cases build_eq_iff.mp h with
    | resolved _ positions receives =>
      exact ⟨fun a => ⟨_, (positions a).1⟩, _, _, positions .process, receives⟩
  · rintro ⟨hmatched, i, handler, hprocess, hreceives⟩
    obtain ⟨index, rfl, hindex⟩ := exists_position hmatched handler
    obtain rfl : index.process = i := IsGreatest.unique (hindex .process) hprocess
    exact ⟨index, build_eq_of_resolution (.resolved index hindex hreceives)⟩
  · obtain ⟨f, hf, hfits⟩ := (Anchor.find_outcome_iff.mp h).1
    obtain ⟨j, hij, hj⟩ :=
      Anchor.exists_resolvesTo (a := a) ⟨f, hf, Anchor.fits_lastContaining hfits⟩
    exact ⟨j, hij, Anchor.find_outcome_iff.mpr hj⟩
  · obtain ⟨f, hf, hfits⟩ := (Anchor.find_outcome_iff.mp ha).1
    obtain ⟨g, hg, hfits'⟩ := (Anchor.find_outcome_iff.mp hb).1
    obtain rfl : f = g := Option.some.inj (hf.symm.trans hg)
    exact Anchor.eq_of_fits_exact hfits hfits'

end DeclIndex

end HandlerSplit
