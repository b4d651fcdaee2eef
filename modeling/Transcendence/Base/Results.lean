import Mathlib.Tactic.Basic

/-!
# Results that may be errors

When a sequence of calls returns, and when it fails: with the error of the first that does. Each lemma
takes one call off the front.
-/

namespace Results

universe u v

variable {ε ε' : Type u} {α β : Type v}

theorem bind_eq_ok {x : Except ε α} {f : α → Except ε β} {b : β} : (x >>= f) = .ok b ↔ ∃ a, x = .ok a ∧ f a = .ok b := by
  cases x with
  | error e =>
      constructor
      · intro h
        cases h
      · intro h
        obtain ⟨_, h, _⟩ := h
        cases h
  | ok a =>
      constructor
      · intro h
        exact ⟨a, rfl, h⟩
      · intro h
        obtain ⟨_, h, h'⟩ := h
        cases h
        exact h'

theorem bind_eq_error {x : Except ε α} {f : α → Except ε β} {e : ε} :
    (x >>= f) = .error e ↔ x = .error e ∨ ∃ a, x = .ok a ∧ f a = .error e := by
  cases x with
  | error e' =>
      constructor
      · intro h
        cases h
        exact .inl rfl
      · intro h
        rcases h with h | ⟨_, h, _⟩
        · cases h
          rfl
        · cases h
  | ok a =>
      constructor
      · intro h
        exact .inr ⟨a, rfl, h⟩
      · intro h
        rcases h with h | ⟨_, h, h'⟩
        · cases h
        · cases h
          exact h'

theorem mapError_eq_ok {f : ε → ε'} {x : Except ε α} {a : α} : x.mapError f = .ok a ↔ x = .ok a := by
  cases x with
  | error e =>
      constructor
      · intro h
        cases h
      · intro h
        cases h
  | ok b =>
      constructor
      · intro h
        cases h
        rfl
      · intro h
        cases h
        rfl

theorem mapError_eq_error {f : ε → ε'} {x : Except ε α} {e' : ε'} :
    x.mapError f = .error e' ↔ ∃ e, x = .error e ∧ f e = e' := by
  cases x with
  | error e =>
      constructor
      · intro h
        cases h
        exact ⟨e, rfl, rfl⟩
      · intro h
        obtain ⟨_, h, h'⟩ := h
        cases h
        rw [← h']
        rfl
  | ok b =>
      constructor
      · intro h
        cases h
      · intro h
        obtain ⟨_, h, _⟩ := h
        cases h

end Results
