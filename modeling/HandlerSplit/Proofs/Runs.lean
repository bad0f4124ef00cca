/-!
# Computations that may fail, taken apart

Parsers and attempts run on a state and may fail. What a composed computation answers is read
off its steps: a run that succeeds is made of runs of its steps that succeed, with the state
between them.
-/

namespace HandlerSplit

variable {ε σ α β : Type}

/-- The answer of a computation and the state afterwards. -/
theorem bind_run (p : ExceptT ε (StateM σ) α) (k : α → ExceptT ε (StateM σ) β) (s : σ) :
    (p >>= k).run s =
      match p.run s with
      | (.ok a, t) => (k a).run t
      | (.error e, t) => (.error e, t) := by
  have h : (p >>= k).run s =
      (fun r : Except ε α × σ => (ExceptT.bindCont k r.1 : StateM _ _) r.2) (p.run s) := rfl
  rw [h]
  rcases p.run s with ⟨r | r, t⟩ <;> rfl

/-- A sequence that answers has answered in both parts. -/
theorem bind_ok {p : ExceptT ε (StateM σ) α} {k : α → ExceptT ε (StateM σ) β} {s s' : σ} {b : β}
    (h : (p >>= k).run s = (.ok b, s')) :
    ∃ a t, p.run s = (.ok a, t) ∧ (k a).run t = (.ok b, s') := by
  rw [bind_run] at h
  rcases hp : p.run s with ⟨e | a, t⟩ <;> rw [hp] at h
  · cases h
  · exact ⟨a, t, rfl, h⟩

/-- A run that fails does so in its first step, or after it. -/
theorem bind_error {p : ExceptT ε (StateM σ) α} {k : α → ExceptT ε (StateM σ) β} {s s' : σ}
    {e : ε} (h : (p >>= k).run s = (.error e, s')) :
    p.run s = (.error e, s') ∨
      ∃ a t, p.run s = (.ok a, t) ∧ (k a).run t = (.error e, s') := by
  rw [bind_run] at h
  rcases hp : p.run s with ⟨e | a, t⟩ <;> rw [hp] at h
  · cases h
    exact .inl rfl
  · exact .inr ⟨a, t, rfl, h⟩

/-- A failure is handled in the state it left. -/
theorem tryCatch_run (p : ExceptT ε (StateM σ) α) (handle : ε → ExceptT ε (StateM σ) α) (s : σ) :
    (tryCatch p handle).run s =
      match p.run s with
      | (.ok a, t) => (.ok a, t)
      | (.error e, t) => (handle e).run t := by
  have h : (tryCatch p handle).run s =
      (fun r : Except ε α × σ => ((match r.1 with
        | .ok a => pure (.ok a)
        | .error e => (handle e).run) : StateM σ (Except ε α)).run r.2) (p.run s) := rfl
  rw [h]
  rcases p.run s with ⟨r | r, t⟩ <;> rfl

theorem pure_ok {a b : α} {s s' : σ}
    (h : (pure a : ExceptT ε (StateM σ) α).run s = (.ok b, s')) : b = a ∧ s' = s := by
  cases h
  exact ⟨rfl, rfl⟩

/-! ## Whether there is an answer -/

section

variable {x : Except ε α}

theorem exists_ok_of_isSome (h : x.toOption.isSome) : ∃ a, x = .ok a := by
  cases x with
  | ok a => exact ⟨a, rfl⟩
  | error => cases h

theorem exists_error_of_isNone (h : x.toOption.isNone) : ∃ e, x = .error e := by
  cases x with
  | ok => cases h
  | error e => exact ⟨e, rfl⟩

/-- What is mapped to an answer is an answer. -/
theorem exists_ok_of_map {f : α → β} {b : β} (h : x.toOption.map f = some b) :
    ∃ a, x = .ok a ∧ f a = b := by
  cases x with
  | ok a => exact ⟨a, rfl, Option.some.inj h⟩
  | error => cases h

end

end HandlerSplit
