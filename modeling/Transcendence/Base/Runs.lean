import Mathlib.Data.List.Induction

/-!
# Runs of a labelled transition system

A system is a partial step function `step : σ → ℓ → Option σ`: `none` says that the label is not
enabled. A run is the fold of the step function over a list of labels, so a concrete run is
evaluated and a property of every run is an induction over the list. The two induction rules are
`Preserved.run`, for a predicate every step keeps, and `Along.run`, for a predicate that only the
steps meeting a side condition keep.
-/

namespace Runs

variable {σ ℓ : Type*} {step : σ → ℓ → Option σ}

/-- The state a list of labels leads to, or nothing if one of them is not enabled when its turn
comes. -/
def run (step : σ → ℓ → Option σ) (s : σ) (labels : List ℓ) : Option σ := labels.foldlM step s

@[simp] theorem run_nil (s : σ) : run step s [] = some s := rfl

@[simp] theorem run_cons (s : σ) (l : ℓ) (ls : List ℓ) :
    run step s (l :: ls) = (step s l).bind fun t => run step t ls := rfl

theorem run_append (s : σ) (ls ms : List ℓ) :
    run step s (ls ++ ms) = (run step s ls).bind fun t => run step t ms := by
  induction ls generalizing s with
  | nil => rfl
  | cons l ls ih =>
      rw [List.cons_append, run_cons, run_cons, Option.bind_assoc]
      exact congrArg _ (funext fun t => ih t)

theorem run_cons_eq_some {s t : σ} {l : ℓ} {ls : List ℓ} :
    run step s (l :: ls) = some t ↔ ∃ m, step s l = some m ∧ run step m ls = some t := by
  rw [run_cons, Option.bind_eq_some_iff]

theorem run_append_eq_some {s t : σ} {ls ms : List ℓ} :
    run step s (ls ++ ms) = some t ↔ ∃ m, run step s ls = some m ∧ run step m ms = some t := by
  rw [run_append, Option.bind_eq_some_iff]

/-- A run over some of the labels is a run of the steps they name. -/
theorem run_map {κ : Type*} (f : κ → ℓ) (s : σ) (ks : List κ) :
    run step s (ks.map f) = run (fun s k => step s (f k)) s ks := List.foldlM_map ..

/-- A predicate that every enabled step keeps. -/
def Preserved (step : σ → ℓ → Option σ) (P : σ → Prop) : Prop :=
  ∀ ⦃s l t⦄, P s → step s l = some t → P t

theorem Preserved.run {P : σ → Prop} (hP : Preserved step P) {s t : σ} {ls : List ℓ}
    (hs : P s) (hrun : run step s ls = some t) : P t := by
  induction ls generalizing s with
  | nil =>
      cases hrun
      exact hs
  | cons l ls ih =>
      obtain ⟨m, hstep, hrest⟩ := run_cons_eq_some.mp hrun
      exact ih (hP hs hstep) hrest

/-- Induction over the runs from one state, on their last label: for facts that relate the labels
run so far to the state reached. -/
theorem run_induction {P : List ℓ → σ → Prop} {s₀ : σ} (hnil : P [] s₀)
    (hstep : ∀ ls s l t, run step s₀ ls = some s → P ls s → step s l = some t → P (ls ++ [l]) t)
    {ls : List ℓ} {t : σ} (hrun : run step s₀ ls = some t) : P ls t := by
  induction ls using List.reverseRec generalizing t with
  | nil =>
      cases hrun
      exact hnil
  | append_singleton ls l ih =>
      obtain ⟨m, hm, hlast⟩ := run_append_eq_some.mp hrun
      obtain ⟨n, hn, hend⟩ := run_cons_eq_some.mp hlast
      cases hend
      exact hstep ls m l t hm (ih hm) hn

/-- Every step of the run meets the condition `C` in the state it starts from. -/
def Along (step : σ → ℓ → Option σ) (C : σ → ℓ → Prop) : σ → List ℓ → Prop
  | _, [] => True
  | s, l :: ls => C s l ∧ ∀ t, step s l = some t → Along step C t ls

theorem Along.run {C : σ → ℓ → Prop} {P : σ → Prop}
    (hP : ∀ ⦃s l t⦄, P s → C s l → step s l = some t → P t) {s t : σ} {ls : List ℓ}
    (hs : P s) (hC : Along step C s ls) (hrun : Runs.run step s ls = some t) : P t := by
  induction ls generalizing s with
  | nil =>
      cases hrun
      exact hs
  | cons l ls ih =>
      obtain ⟨m, hstep, hrest⟩ := run_cons_eq_some.mp hrun
      exact ih (hP hs hC.1 hstep) (hC.2 m hstep) hrest

theorem Along.of_forall {C : σ → ℓ → Prop} {ls : List ℓ} (h : ∀ l ∈ ls, ∀ s, C s l) (s : σ) : Along step C s ls := by
  induction ls generalizing s with
  | nil => trivial
  | cons l ls ih =>
      exact ⟨h l List.mem_cons_self s, fun t _ => ih (fun l hl => h l (List.mem_cons_of_mem _ hl)) t⟩

theorem Along.and {C D : σ → ℓ → Prop} {s : σ} {ls : List ℓ} (hC : Along step C s ls) (hD : Along step D s ls) :
    Along step (fun s l => C s l ∧ D s l) s ls := by
  induction ls generalizing s with
  | nil => trivial
  | cons l ls ih => exact ⟨⟨hC.1, hD.1⟩, fun t hstep => ih (hC.2 t hstep) (hD.2 t hstep)⟩

theorem Along.of_append {C : σ → ℓ → Prop} {s : σ} {ls ms : List ℓ} (h : Along step C s (ls ++ ms)) :
    Along step C s ls := by
  induction ls generalizing s with
  | nil => trivial
  | cons l ls ih => exact ⟨h.1, fun t hstep => ih (h.2 t hstep)⟩

theorem Along.after {C : σ → ℓ → Prop} {s t : σ} {ls ms : List ℓ} (h : Along step C s (ls ++ ms))
    (hrun : Runs.run step s ls = some t) : Along step C t ms := by
  induction ls generalizing s with
  | nil =>
      cases hrun
      exact h
  | cons l ls ih =>
      obtain ⟨m, hstep, hrest⟩ := run_cons_eq_some.mp hrun
      exact ih (h.2 m hstep) hrest

theorem Along.concat {C : σ → ℓ → Prop} {s : σ} {ls : List ℓ} {l : ℓ} (h : Along step C s ls)
    (hlast : ∀ t, Runs.run step s ls = some t → C t l) : Along step C s (ls ++ [l]) := by
  induction ls generalizing s with
  | nil => exact ⟨hlast s rfl, fun _ _ => trivial⟩
  | cons m ls ih =>
      exact ⟨h.1, fun t hstep => ih (h.2 t hstep) fun u hu => hlast u (run_cons_eq_some.mpr ⟨t, hstep, hu⟩)⟩

/-- The condition along a run, label by label. -/
theorem Along.iff_forall_label {C : σ → ℓ → Prop} {s : σ} {ls : List ℓ} :
    Along step C s ls ↔
      ∀ earlier l later t, ls = earlier ++ l :: later → Runs.run step s earlier = some t → C t l := by
  induction ls generalizing s with
  | nil =>
      refine ⟨fun _ earlier l later t heq => ?_, fun _ => trivial⟩
      cases earlier <;> cases heq
  | cons l ls ih =>
      constructor
      · rintro ⟨hC, hCs⟩ earlier l' later t heq hrun
        cases earlier with
        | nil =>
            cases heq
            cases hrun
            exact hC
        | cons _ earlier =>
            obtain ⟨rfl, hls⟩ := List.cons.inj heq
            obtain ⟨m, hstep, hrest⟩ := run_cons_eq_some.mp hrun
            exact ih.mp (hCs m hstep) earlier l' later t hls hrest
      · intro h
        refine ⟨h [] l ls s rfl rfl, fun m hstep => ih.mpr fun earlier l' later t heq hrun => ?_⟩
        exact h (l :: earlier) l' later t (heq ▸ rfl) (run_cons_eq_some.mpr ⟨m, hstep, hrun⟩)

/-- Where the steps that keep `P` are exactly those that meet `C`, the runs whose every state has
`P` are exactly those whose every step meets `C`. -/
theorem Along.iff_forall_prefix {I P : σ → Prop} {C : σ → ℓ → Prop} (hI : Preserved step I)
    (hP : ∀ ⦃s l t⦄, I s → P s → step s l = some t → (P t ↔ C s l)) {s t : σ} {ls : List ℓ} (hs : I s) (hPs : P s)
    (hrun : Runs.run step s ls = some t) :
    Along step C s ls ↔ ∀ ms, ms <+: ls → ∀ u, Runs.run step s ms = some u → P u := by
  induction ls generalizing s with
  | nil =>
      refine ⟨fun _ ms hms u hu => ?_, fun _ => trivial⟩
      obtain rfl := List.prefix_nil.mp hms
      cases hu
      exact hPs
  | cons l ls ih =>
      obtain ⟨m, hstep, hrest⟩ := run_cons_eq_some.mp hrun
      have htail : P m → (Along step C m ls ↔ ∀ ms, ms <+: ls → ∀ u, Runs.run step m ms = some u → P u) :=
        fun hPm => ih (hI hs hstep) hPm hrest
      constructor
      · rintro ⟨hC, hCs⟩ ms hms u hu
        cases ms with
        | nil =>
            cases hu
            exact hPs
        | cons l' ms =>
            obtain ⟨rfl, hinitial⟩ := List.cons_prefix_cons.mp hms
            rw [run_cons, hstep] at hu
            exact (htail ((hP hs hPs hstep).mpr hC)).mp (hCs m hstep) ms hinitial u hu
      · intro h
        have hPm : P m := h [l] (List.cons_prefix_cons.mpr ⟨rfl, List.nil_prefix⟩) m (by rw [run_cons, hstep]; rfl)
        refine ⟨(hP hs hPs hstep).mp hPm, fun m' hm' => ?_⟩
        obtain rfl := Option.some.inj (hstep.symm.trans hm')
        refine (htail hPm).mpr fun ms hms u hu => h (l :: ms) (List.cons_prefix_cons.mpr ⟨rfl, hms⟩) u ?_
        rw [run_cons, hstep]
        exact hu

/-- Where a step of the system is one of a component or leaves it as it is, a run of the system has a run of the
component in it, whose steps meet what the steps of the system imply of them. -/
theorem Along.project {τ κ : Type*} {part : τ → κ → Option τ} {C : σ → ℓ → Prop} {D : τ → κ → Prop} {π : σ → τ}
    (hproject : ∀ ⦃s l t⦄, C s l → step s l = some t → π t = π s ∨ ∃ k, D (π s) k ∧ part (π s) k = some (π t))
    {s t : σ} {ls : List ℓ} (hC : Along step C s ls) (hrun : Runs.run step s ls = some t) :
    ∃ ks, Along part D (π s) ks ∧ Runs.run part (π s) ks = some (π t) := by
  induction ls generalizing s with
  | nil =>
      cases hrun
      exact ⟨[], trivial, rfl⟩
  | cons l ls ih =>
      obtain ⟨m, hstep, hrest⟩ := run_cons_eq_some.mp hrun
      obtain ⟨ks, hks, hpart⟩ := ih (hC.2 m hstep) hrest
      rcases hproject hC.1 hstep with hstays | ⟨k, hk, hgoes⟩
      · rw [hstays] at hks hpart
        exact ⟨ks, hks, hpart⟩
      · refine ⟨k :: ks, ⟨hk, fun u hu => ?_⟩, run_cons_eq_some.mpr ⟨π m, hgoes, hpart⟩⟩
        rw [hgoes] at hu
        cases hu
        exact hks

/-- The run has been in a state that meets `P`. -/
def Once (step : σ → ℓ → Option σ) (s₀ : σ) (P : σ → Prop) (ls : List ℓ) : Prop :=
  ∃ earlier later t, ls = earlier ++ later ∧ Runs.run step s₀ earlier = some t ∧ P t

theorem Once.of_run {P : σ → Prop} {s₀ t : σ} {ls : List ℓ} (hrun : Runs.run step s₀ ls = some t) (hP : P t) :
    Once step s₀ P ls :=
  ⟨ls, [], t, (List.append_nil ls).symm, hrun, hP⟩

theorem Once.append {P : σ → Prop} {s₀ : σ} {ls : List ℓ} (h : Once step s₀ P ls) (ms : List ℓ) :
    Once step s₀ P (ls ++ ms) := by
  obtain ⟨earlier, later, t, rfl, hrun, hP⟩ := h
  exact ⟨earlier, later ++ ms, t, List.append_assoc .., hrun, hP⟩

/-- Evaluates a check in every state of the run. -/
def checkAlong (step : σ → ℓ → Option σ) (check : σ → ℓ → Bool) : σ → List ℓ → Bool
  | _, [] => true
  | s, l :: ls => check s l && (step s l).all fun t => checkAlong step check t ls

theorem Along.of_check {C : σ → ℓ → Prop} {check : σ → ℓ → Bool} (hcheck : ∀ s l, check s l → C s l) {s : σ}
    {ls : List ℓ} (h : checkAlong step check s ls) : Along step C s ls := by
  induction ls generalizing s with
  | nil => trivial
  | cons l ls ih =>
      rw [checkAlong, Bool.and_eq_true] at h
      refine ⟨hcheck s l h.1, fun t hstep => ih ?_⟩
      rw [hstep] at h
      exact h.2

end Runs
