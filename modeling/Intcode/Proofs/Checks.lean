/-!
# Checks

A computation that may fail makes one check after the other and stops at the first that finds an
error. In a sequence of two parts the checks of the second part come after those of the first, and
they may rely on the result of the first.
-/

namespace Intcode

variable {ε α β : Type}

theorem except_ok_bind (a : α) (f : α → Except ε β) : Except.ok a >>= f = f a := rfl

theorem except_error_bind (e : ε) (f : α → Except ε β) :
    Except.error e >>= f = .error e := rfl

theorem except_bind_eq_ok {x : Except ε α} {f : α → Except ε β} {b : β} :
    x >>= f = .ok b ↔ ∃ a, x = .ok a ∧ f a = .ok b := by
  cases x <;> simp [except_ok_bind, except_error_bind]

theorem except_bind_eq_error {x : Except ε α} {f : α → Except ε β} {e : ε} :
    x >>= f = .error e ↔ x = .error e ∨ ∃ a, x = .ok a ∧ f a = .error e := by
  cases x <;> simp [except_ok_bind, except_error_bind]

/-- What the first check that finds something finds. -/
def firstFinding (checks : List (Option ε)) : Option ε := checks.findSome? id

/-- A computation fails with the first finding of its checks, and has the given result if they find
nothing. -/
def Passes (checks : List (Option ε)) (a : α) (r : Except ε α) : Prop :=
  r = match firstFinding checks with
    | some e => .error e
    | none => .ok a

theorem firstFinding_singleton (c : Option ε) : firstFinding [c] = c := by
  cases c <;> rfl

theorem firstFinding_append (checks more : List (Option ε)) :
    firstFinding (checks ++ more) = (firstFinding checks).or (firstFinding more) :=
  List.findSome?_append

theorem firstFinding_map (f : α → β) (checks : List (Option α)) :
    firstFinding (checks.map (Option.map f)) = (firstFinding checks).map f := by
  induction checks with
  | nil => rfl
  | cons c rest ih =>
      cases c with
      | none => exact ih
      | some a => rfl

variable {checks more : List (Option ε)} {a : α} {b : β} {r : Except ε α}

theorem passes_ok (a : α) : Passes ([] : List (Option ε)) a (.ok a) := rfl

theorem Passes.eq_ok (h : Passes checks a r) (hnone : firstFinding checks = none) : r = .ok a := by
  rw [Passes, hnone] at h
  exact h

theorem Passes.eq_error {e : ε} (h : Passes checks a r) (hsome : firstFinding checks = some e) :
    r = .error e := by
  rw [Passes, hsome] at h
  exact h

/-- A check that finds nothing may be added at the end. -/
theorem Passes.append_none (h : Passes checks a r) : Passes (checks ++ [none]) a r := by
  unfold Passes
  rw [firstFinding_append, firstFinding_singleton, Option.or_none]
  exact h

/-- What follows is checked after what comes first, and only if nothing was found there. -/
theorem Passes.bind {f : α → Except ε β} (h : Passes checks a r)
    (hf : firstFinding checks = none → Passes more b (f a)) :
    Passes (checks ++ more) b (r >>= f) := by
  unfold Passes
  rw [firstFinding_append]
  cases hchecks : firstFinding checks with
  | some e =>
      rw [h.eq_error hchecks]
      rfl
  | none =>
      rw [h.eq_ok hchecks, except_ok_bind]
      exact hf hchecks

end Intcode
