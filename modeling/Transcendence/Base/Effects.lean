import Mathlib.Data.List.Basic

/-!
# Effects that can fail

An action changes a state and says whether it has returned. One that throws leaves what it has changed
until then, and what was to follow is not done. What an action does not touch is given by `Frames`,
and whether it returns, where that does not depend on the state, by `ReturnsIff`.
-/

namespace Effects

variable {σ α : Type*}

/-- The state that is left, and whether the action has returned. -/
abbrev Action (σ : Type*) :=
  σ → σ × Bool

def effect (fails : Bool) (f : σ → σ) : Action σ :=
  fun s => if fails then (s, false) else (f s, true)

def andThen (a b : Action σ) : Action σ :=
  fun s => if (a s).2 then b (a s).1 else a s

/-- One after the other, until one of them throws. -/
def inTurn : List (Action σ) → Action σ
  | [] => fun s => (s, true)
  | a :: as => andThen a (inTurn as)

/-- All of them, also when one throws. Then this throws too. -/
def all : List (Action σ) → Action σ
  | [] => fun s => (s, true)
  | a :: as => fun s => ((all as (a s).1).1, (a s).2 && (all as (a s).1).2)

/-- The action leaves this part of the state as it is. -/
def Frames (f : σ → α) (a : Action σ) : Prop :=
  ∀ s, f (a s).1 = f s

/-- The action returns in the states of a kind if and only if this holds. -/
def ReturnsIff (a : Action σ) (p : Prop) : Prop :=
  ∀ s, (a s).2 = true ↔ p

theorem effect_of_fails (f : σ → σ) (s : σ) : effect true f s = (s, false) := rfl

theorem effect_of_not_fails (f : σ → σ) (s : σ) : effect false f s = (f s, true) := rfl

theorem effect_fst (fails : Bool) (f : σ → σ) (s : σ) : (effect fails f s).1 = if fails then s else f s := by
  cases fails <;> rfl

theorem effect_returnsIff (fails : Bool) (f : σ → σ) : ReturnsIff (effect fails f) (fails = false) := by
  intro s
  cases fails <;> simp [effect]

theorem Frames.effect {f : σ → α} {g : σ → σ} (hframe : ∀ s, f (g s) = f s) (fails : Bool) :
    Frames f (Effects.effect fails g) := by
  intro s
  rw [effect_fst]
  split
  · rfl
  · exact hframe s

theorem andThen_of_returns {a : Action σ} {s : σ} (h : (a s).2 = true) (b : Action σ) : andThen a b s = b (a s).1 :=
  if_pos h

theorem andThen_of_throws {a : Action σ} {s : σ} (h : ¬ (a s).2 = true) (b : Action σ) : andThen a b s = a s :=
  if_neg h

theorem andThen_returns_iff (a b : Action σ) (s : σ) :
    (andThen a b s).2 = true ↔ (a s).2 = true ∧ (b (a s).1).2 = true := by
  by_cases h : (a s).2 = true
  · rw [andThen_of_returns h]
    exact (and_iff_right h).symm
  · rw [andThen_of_throws h]
    exact ⟨fun h' => absurd h' h, fun h' => h'.1⟩

theorem ReturnsIff.andThen {a b : Action σ} {p q : Prop} (ha : ReturnsIff a p) (hb : ReturnsIff b q) :
    ReturnsIff (Effects.andThen a b) (p ∧ q) := by
  intro s
  rw [andThen_returns_iff, ha, hb]

/-- What the second action leaves alone is as the first one leaves it. -/
theorem Frames.andThen_right {f : σ → α} {b : Action σ} (hb : Frames f b) (a : Action σ) (s : σ) :
    f (Effects.andThen a b s).1 = f (a s).1 := by
  by_cases h : (a s).2 = true
  · rw [andThen_of_returns h, hb]
  · rw [andThen_of_throws h]

theorem Frames.andThen {f : σ → α} {a b : Action σ} (ha : Frames f a) (hb : Frames f b) :
    Frames f (Effects.andThen a b) :=
  fun s => (hb.andThen_right a s).trans (ha s)

theorem Frames.inTurn {f : σ → α} {as : List (Action σ)} (has : ∀ a ∈ as, Frames f a) : Frames f (Effects.inTurn as) := by
  induction as with
  | nil => exact fun _ => rfl
  | cons a as ih =>
      exact (has a List.mem_cons_self).andThen (ih fun b hb => has b (List.mem_cons_of_mem a hb))

theorem Frames.all {f : σ → α} {as : List (Action σ)} (has : ∀ a ∈ as, Frames f a) : Frames f (Effects.all as) := by
  induction as with
  | nil => exact fun _ => rfl
  | cons a as ih =>
      intro s
      have hrest := ih fun b hb => has b (List.mem_cons_of_mem a hb)
      exact (hrest (a s).1).trans (has a List.mem_cons_self s)

theorem ReturnsIff.all {ι : Type*} {xs : List ι} {action : ι → Action σ} {p : ι → Prop}
    (h : ∀ x ∈ xs, ReturnsIff (action x) (p x)) : ReturnsIff (Effects.all (xs.map action)) (∀ x ∈ xs, p x) := by
  induction xs with
  | nil =>
      intro s
      simp [Effects.all]
  | cons x xs ih =>
      intro s
      have hrest := ih fun y hy => h y (List.mem_cons_of_mem x hy)
      rw [List.map_cons, Effects.all, Bool.and_eq_true, h x List.mem_cons_self, hrest, List.forall_mem_cons]

end Effects
