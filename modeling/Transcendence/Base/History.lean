import Mathlib.Data.List.Basic

/-!
# Histories

A history is a list of events, newest first. `Since start stop` says that `start` has happened and
`stop` not after it; `Throughout P` says that each event, when it happened, stood in the relation
`P` to what had happened before. `After late early` says that an event of the one kind has happened
after one of the other kind. All are computed event by event (`since_cons`, `throughout_cons`,
`after_cons`), so an invariant about them is kept by a step as soon as the step's own events keep it.
-/

namespace History

variable {ε : Type*} {start stop event : ε} {events : List ε} {P : ε → List ε → Prop}

def Since (start stop : ε) (events : List ε) : Prop :=
  ∃ after before, events = after ++ start :: before ∧ stop ∉ after

def Throughout (P : ε → List ε → Prop) (events : List ε) : Prop :=
  ∀ after event before, events = after ++ event :: before → P event before

def After (late early : ε → Prop) (events : List ε) : Prop :=
  ∃ after event before, events = after ++ event :: before ∧ late event ∧ ∃ old ∈ before, early old

theorem not_since_nil : ¬Since start stop [] := by
  rintro ⟨after, before, h, -⟩
  simp at h

theorem since_cons : Since start stop (event :: events) ↔ event = start ∨ (event ≠ stop ∧ Since start stop events) := by
  constructor
  · rintro ⟨_ | ⟨newest, after⟩, before, h, hstop⟩
    · exact Or.inl (List.cons.inj h).1
    · obtain ⟨rfl, rfl⟩ := List.cons.inj h
      rw [List.mem_cons, not_or] at hstop
      exact Or.inr ⟨Ne.symm hstop.1, after, before, rfl, hstop.2⟩
  · rintro (rfl | ⟨hne, after, before, rfl, hstop⟩)
    · exact ⟨[], events, rfl, List.not_mem_nil⟩
    · exact ⟨event :: after, before, rfl, by simp [hstop, Ne.symm hne]⟩

theorem throughout_nil : Throughout P [] := by
  intro after event before h
  simp at h

theorem throughout_cons : Throughout P (event :: events) ↔ P event events ∧ Throughout P events := by
  constructor
  · intro h
    refine ⟨h [] event events rfl, fun after older before heq => h (event :: after) older before ?_⟩
    rw [heq, List.cons_append]
  · rintro ⟨hevent, hevents⟩ (_ | ⟨newest, after⟩) older before heq
    · obtain ⟨rfl, rfl⟩ := List.cons.inj heq
      exact hevent
    · obtain ⟨rfl, rfl⟩ := List.cons.inj heq
      exact hevents after older before rfl

section After

variable {late early : ε → Prop}

theorem not_after_nil : ¬ After late early [] := by
  intro h
  obtain ⟨after, event, before, heq, _⟩ := h
  simp at heq

theorem after_cons :
    After late early (event :: events) ↔ (late event ∧ ∃ old ∈ events, early old) ∨ After late early events := by
  constructor
  · intro h
    obtain ⟨after, newer, before, heq, hlate, hearly⟩ := h
    cases after with
    | nil =>
        obtain ⟨rfl, rfl⟩ := List.cons.inj heq
        exact .inl ⟨hlate, hearly⟩
    | cons newest after =>
        obtain ⟨rfl, rfl⟩ := List.cons.inj heq
        exact .inr ⟨after, newer, before, rfl, hlate, hearly⟩
  · intro h
    cases h with
    | inl h => exact ⟨[], event, events, rfl, h⟩
    | inr h =>
        obtain ⟨after, newer, before, rfl, hlate, hearly⟩ := h
        exact ⟨event :: after, newer, before, rfl, hlate, hearly⟩

/-- It stays so whatever happens. -/
theorem After.cons (h : After late early events) (event : ε) : After late early (event :: events) :=
  after_cons.mpr (.inr h)

theorem After.append (h : After late early events) (newer : List ε) : After late early (newer ++ events) := by
  induction newer with
  | nil => exact h
  | cons event newer ih => exact ih.cons event

theorem After.exists_early (h : After late early events) : ∃ old ∈ events, early old := by
  obtain ⟨after, event, before, rfl, _, old, hold, hearly⟩ := h
  exact ⟨old, List.mem_append_right _ (List.mem_cons_of_mem _ hold), hearly⟩

theorem After.mono {late' early' : ε → Prop} (h : After late early events) (hlate : ∀ event, late event → late' event)
    (hearly : ∀ event, early event → early' event) : After late' early' events := by
  obtain ⟨after, event, before, heq, hl, old, hold, he⟩ := h
  exact ⟨after, event, before, heq, hlate event hl, old, hold, hearly old he⟩

/-- What comes after events that each come after an earlier one comes after that one. -/
theorem After.trans {earlier : ε → Prop} (h : After late early events)
    (hbefore : Throughout (fun event before => early event → ∃ old ∈ before, earlier old) events) :
    After late earlier events := by
  obtain ⟨after, event, before, rfl, hlate, old, hold, hearly⟩ := h
  obtain ⟨newer, older, rfl⟩ := List.append_of_mem hold
  obtain ⟨first, hfirst, hearlier⟩ := hbefore (after ++ event :: newer) old older (by simp) hearly
  exact ⟨after, event, _, rfl, hlate, first, List.mem_append_right _ (List.mem_cons_of_mem _ hfirst), hearlier⟩

end After

end History
