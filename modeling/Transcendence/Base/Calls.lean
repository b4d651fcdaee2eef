import Mathlib.Logic.Function.Basic

/-!
# Calls that interleave

Calls of any number of clients, each with its request and the phase it has reached. A step of the
system begins a call, takes one from a phase to another, or leaves them all (`Moves`), so that a
fact about the call in a later state is read off where that call comes from (`Moves.origin`), and
what tells the requests begun apart tells the calls apart (`Distinct.step`).
-/

namespace Calls

structure Call (ρ φ : Type*) where
  request : ρ
  phase : φ
  deriving DecidableEq

variable {ρ φ : Type*}

/-- What is there after an update is new, or was there before. -/
theorem update_eq_some {ι α : Type*} [DecidableEq ι] {entries : ι → Option α} {id i : ι} {new found : α}
    (h : Function.update entries id (some new) i = some found) :
    (i = id ∧ new = found) ∨ (i ≠ id ∧ entries i = some found) := by
  by_cases hid : i = id
  · rw [hid, Function.update_self] at h
    exact .inl ⟨hid, Option.some.inj h⟩
  · rw [Function.update_of_ne hid] at h
    exact .inr ⟨hid, h⟩

/-- A call whose phase changes keeps its request. -/
theorem request_of_update {calls : Nat → Option (Call ρ φ)} {id i : Nat} {request request' : ρ} {before after phase : φ}
    (hcall : calls id = some ⟨request, before⟩)
    (h : Function.update calls id (some ⟨request, after⟩) i = some ⟨request', phase⟩) :
    ∃ old, calls i = some ⟨request', old⟩ := by
  rcases update_eq_some h with ⟨rfl, hsame⟩ | ⟨-, hold⟩
  · cases hsame
    exact ⟨before, hcall⟩
  · exact ⟨phase, hold⟩

/-- What a step does to the calls, where `first` are the phases in which a request begins and `change`
says from which phase to which it goes. -/
inductive Moves (first : ρ → φ → Prop) (change : ρ → φ → φ → Prop) (calls later : Nat → Option (Call ρ φ)) : Prop where
  | rests (heq : later = calls)
  | begins {id : Nat} {request : ρ} {phase : φ} (hnew : calls id = none) (hfirst : first request phase)
      (heq : later = Function.update calls id (some ⟨request, phase⟩))
  | proceeds {id : Nat} {request : ρ} {before after : φ} (hcall : calls id = some ⟨request, before⟩)
      (hchange : change request before after) (heq : later = Function.update calls id (some ⟨request, after⟩))

/-- Where a call comes from. -/
inductive Origin (first : ρ → φ → Prop) (change : ρ → φ → φ → Prop) (calls : Nat → Option (Call ρ φ)) (id : Nat)
    (request : ρ) (phase : φ) : Prop where
  | stays (hcall : calls id = some ⟨request, phase⟩)
  | begins (hnew : calls id = none) (hfirst : first request phase)
  | proceeds {before : φ} (hcall : calls id = some ⟨request, before⟩) (hchange : change request before phase)

variable {first : ρ → φ → Prop} {change : ρ → φ → φ → Prop} {calls later : Nat → Option (Call ρ φ)}

theorem Moves.origin (h : Moves first change calls later) {id : Nat} {request : ρ} {phase : φ}
    (hcall : later id = some ⟨request, phase⟩) : Origin first change calls id request phase := by
  cases h with
  | rests heq =>
      rw [heq] at hcall
      exact .stays hcall
  | begins hnew hfirst heq =>
      rw [heq] at hcall
      rcases update_eq_some hcall with ⟨rfl, hsame⟩ | ⟨-, hold⟩
      · cases hsame
        exact .begins hnew hfirst
      · exact .stays hold
  | proceeds hbefore hchange heq =>
      rw [heq] at hcall
      rcases update_eq_some hcall with ⟨rfl, hsame⟩ | ⟨-, hold⟩
      · cases hsame
        exact .proceeds hbefore hchange
      · exact .stays hold

/-- A call keeps its request. -/
theorem Moves.request (h : Moves first change calls later) {id : Nat} {request : ρ} {phase : φ}
    (hcall : later id = some ⟨request, phase⟩) :
    (∃ before, calls id = some ⟨request, before⟩) ∨ (calls id = none ∧ first request phase) := by
  cases h.origin hcall with
  | stays hcall => exact .inl ⟨phase, hcall⟩
  | begins hnew hfirst => exact .inr ⟨hnew, hfirst⟩
  | proceeds hcall => exact .inl ⟨_, hcall⟩

/-- No call disappears. -/
theorem Moves.exists_after (h : Moves first change calls later) {id : Nat} {request : ρ} {phase : φ}
    (hcall : calls id = some ⟨request, phase⟩) : ∃ after, later id = some ⟨request, after⟩ := by
  cases h with
  | rests heq => exact ⟨phase, by rw [heq, hcall]⟩
  | begins hnew _ heq =>
      refine ⟨phase, ?_⟩
      rw [heq, Function.update_of_ne, hcall]
      rintro rfl
      cases hnew.symm.trans hcall
  | @proceeds i _ _ after hbefore _ heq =>
      by_cases hi : id = i
      · subst hi
        cases hbefore.symm.trans hcall
        exact ⟨after, by rw [heq, Function.update_self]⟩
      · exact ⟨phase, by rw [heq, Function.update_of_ne hi, hcall]⟩

/-- A call that can go nowhere stays. -/
theorem Moves.of_ended (h : Moves first change calls later) {id : Nat} {request : ρ} {phase : φ}
    (hcall : calls id = some ⟨request, phase⟩) (hended : ∀ after, ¬change request phase after) :
    later id = some ⟨request, phase⟩ := by
  cases h with
  | rests heq => rw [heq, hcall]
  | begins hnew _ heq =>
      rw [heq, Function.update_of_ne, hcall]
      rintro rfl
      cases hnew.symm.trans hcall
  | proceeds hbefore hchange heq =>
      rw [heq, Function.update_of_ne, hcall]
      rintro rfl
      cases hbefore.symm.trans hcall
      exact hended _ hchange

/-- A step moves one call. -/
theorem Moves.eq_of_ne (h : Moves first change calls later) {i j : Nat} (hi : later i ≠ calls i) (hj : later j ≠ calls j) :
    i = j := by
  have hupdated : ∀ id value, later = Function.update calls id value → ∀ k, later k ≠ calls k → k = id := by
    intro id value heq k hne
    by_contra hk
    rw [heq, Function.update_of_ne hk] at hne
    exact hne rfl
  cases h with
  | rests heq => exact absurd (congrFun heq i) hi
  | begins _ _ heq => rw [hupdated _ _ heq i hi, hupdated _ _ heq j hj]
  | proceeds _ _ heq => rw [hupdated _ _ heq i hi, hupdated _ _ heq j hj]

/-- Two calls whose requests clash are one. -/
def Distinct (clash : ρ → ρ → Prop) (calls : Nat → Option (Call ρ φ)) : Prop :=
  ∀ i j request request' phase phase', calls i = some ⟨request, phase⟩ → calls j = some ⟨request', phase'⟩ →
    clash request request' → i = j

/-- Requests that clash with none made before keep the calls apart. -/
theorem Distinct.step {clash : ρ → ρ → Prop} (hsymm : ∀ a b, clash a b → clash b a) (h : Distinct clash calls)
    (hmoves : Moves first change calls later)
    (hfresh : ∀ id request phase, calls id = none → first request phase → later id = some ⟨request, phase⟩ →
      ∀ j request' phase', calls j = some ⟨request', phase'⟩ → ¬clash request' request) : Distinct clash later := by
  intro i j request request' phase phase' hi hj hclash
  rcases hmoves.request hi with ⟨before, hi'⟩ | ⟨hnew, hfirst⟩
  · rcases hmoves.request hj with ⟨before', hj'⟩ | ⟨hnew', hfirst'⟩
    · exact h i j request request' before before' hi' hj' hclash
    · exact absurd hclash (hfresh j request' phase' hnew' hfirst' hj i request before hi')
  · rcases hmoves.request hj with ⟨before', hj'⟩ | ⟨hnew', hfirst'⟩
    · exact absurd (hsymm _ _ hclash) (hfresh i request phase hnew hfirst hi j request' before' hj')
    · exact hmoves.eq_of_ne (by rw [hi, hnew]; nofun) (by rw [hj, hnew']; nofun)

end Calls
