import Mathlib.Logic.Function.Basic

/-!
# Timers

The timers of an event loop. `setTimeout` arms a callback under an identifier that was never given
out before, `clearTimeout` disarms the timer with an identifier, whichever it is, and a timer that
fires is no longer armed.
-/

/-- No identifier from `next` on has been given out. -/
structure Timers (κ : Type*) where
  armed : Nat → Option κ
  next : Nat
  fresh : ∀ id, next ≤ id → armed id = none

namespace Timers

variable {κ : Type*}

def initial : Timers κ where
  armed _ := none
  next := 0
  fresh _ _ := rfl

/-- Arms the timer `next`. -/
def setTimeout (timers : Timers κ) (callback : κ) : Timers κ where
  armed := Function.update timers.armed timers.next (some callback)
  next := timers.next + 1
  fresh id hid := by
    rw [Function.update_of_ne (by omega)]
    exact timers.fresh id (by omega)

def clearTimeout (timers : Timers κ) (id : Nat) : Timers κ where
  armed := Function.update timers.armed id none
  next := timers.next
  fresh other hother := by
    by_cases heq : other = id
    · rw [heq, Function.update_self]
    · rw [Function.update_of_ne heq]
      exact timers.fresh other hother

variable {timers : Timers κ} {callback : κ} {id other : Nat}

@[simp] theorem armed_initial (id : Nat) : (initial : Timers κ).armed id = none := rfl

@[simp] theorem armed_next (timers : Timers κ) : timers.armed timers.next = none := timers.fresh _ (Nat.le_refl _)

theorem armed_setTimeout (timers : Timers κ) (callback : κ) (id : Nat) :
    (timers.setTimeout callback).armed id = if id = timers.next then some callback else timers.armed id :=
  Function.update_apply ..

theorem armed_setTimeout_of_lt (h : id < timers.next) : (timers.setTimeout callback).armed id = timers.armed id := by
  rw [armed_setTimeout, if_neg (Nat.ne_of_lt h)]

theorem armed_clearTimeout (timers : Timers κ) (id other : Nat) :
    (timers.clearTimeout id).armed other = if other = id then none else timers.armed other :=
  Function.update_apply ..

theorem armed_of_clearTimeout (h : (timers.clearTimeout id).armed other = some callback) :
    timers.armed other = some callback := by
  rw [armed_clearTimeout, Option.ite_none_left_eq_some] at h
  exact h.2

theorem clearTimeout_clearTimeout (timers : Timers κ) (id : Nat) :
    (timers.clearTimeout id).clearTimeout id = timers.clearTimeout id := by
  simp only [clearTimeout, Function.update_idem]

end Timers
