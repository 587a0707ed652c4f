/-!
# One computation after the other

Readers and evaluations both keep a state, also when they fail. What `>>=` does with it:

* `bind_apply`, `bind_eq_of_ok`, `bind_eq_of_error`: forward, from the first computation.
* `bind_ok`, `bind_error`: backward, from the outcome of both.
-/

namespace RobotScript

variable {ε σ α β : Type} {x : EStateM ε σ α} {f : α → EStateM ε σ β} {s t : σ}

/-- The second computation starts in the state in which the first one ends, if that has a value. -/
theorem bind_apply (x : EStateM ε σ α) (f : α → EStateM ε σ β) (s : σ) :
    (x >>= f) s = match x s with
      | .ok a t => f a t
      | .error e t => .error e t := by
  show EStateM.bind x f s = _
  unfold EStateM.bind
  cases x s <;> rfl

theorem bind_eq_of_ok {a : α} (h : x s = .ok a t) : (x >>= f) s = f a t := by
  rw [bind_apply, h]

theorem bind_eq_of_error {e : ε} (h : x s = .error e t) : (x >>= f) s = .error e t := by
  rw [bind_apply, h]

/-- Both computations have a value if they have one together. -/
theorem bind_ok {b : β} (h : (x >>= f) s = .ok b t) : ∃ a r, x s = .ok a r ∧ f a r = .ok b t := by
  cases hx : x s with
  | ok a r => rw [bind_eq_of_ok hx] at h; exact ⟨a, r, rfl, h⟩
  | error e r => rw [bind_eq_of_error hx] at h; cases h

/-- What fails together fails in the first computation or, after its value, in the second. -/
theorem bind_error {e : ε} (h : (x >>= f) s = .error e t) :
    x s = .error e t ∨ ∃ a r, x s = .ok a r ∧ f a r = .error e t := by
  cases hx : x s with
  | ok a r => rw [bind_eq_of_ok hx] at h; exact .inr ⟨a, r, rfl, h⟩
  | error e' r => rw [bind_eq_of_error hx] at h; cases h; exact .inl rfl

end RobotScript
