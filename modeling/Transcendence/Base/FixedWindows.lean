import Mathlib.Data.List.Count
import Mathlib.Tactic

/-!
# Fixed windows

Admissions that are counted in windows: each belongs to a window of its key, which it names by the time
the window began. Where the windows of a key follow one another and each admits a bounded number, an
interval as long as a window meets at most two of them, so it sees at most twice that number.
-/

namespace FixedWindows

variable {κ : Type*} [DecidableEq κ]

structure Admission (κ : Type*) where
  key : κ
  start : Int
  time : Int
  deriving DecidableEq

/-- The admissions of the key in the window that began at `start`. -/
def inWindow (admissions : List (Admission κ)) (key : κ) (start : Int) : Nat :=
  admissions.countP fun a => a.key = key ∧ a.start = start

/-- The admissions of the key from `first` to `last`. -/
def between (admissions : List (Admission κ)) (key : κ) (first last : Int) : Nat :=
  admissions.countP fun a => a.key = key ∧ first ≤ a.time ∧ a.time ≤ last

/-- The windows of each key are apart, and none has more than `limit` admissions. -/
structure Windowed (limit : Nat) (window : Int) (admissions : List (Admission κ)) : Prop where
  inside : ∀ a ∈ admissions, a.start ≤ a.time ∧ a.time < a.start + window
  apart : ∀ a ∈ admissions, ∀ b ∈ admissions, a.key = b.key → a.start < b.start → a.start + window ≤ b.start
  capped : ∀ key start, inWindow admissions key start ≤ limit

variable {limit : Nat} {window : Int} {admissions : List (Admission κ)} {key : κ} {start : Int} {a : Admission κ}

theorem windowed_nil : Windowed limit window ([] : List (Admission κ)) where
  inside := by simp
  apart := by simp
  capped _ _ := Nat.zero_le _

theorem inWindow_cons :
    inWindow (a :: admissions) key start = inWindow admissions key start + if a.key = key ∧ a.start = start then 1 else 0 := by
  rw [inWindow, List.countP_cons, inWindow]
  simp only [decide_eq_true_eq]

theorem inWindow_eq_zero (h : ∀ a ∈ admissions, a.key = key → a.start ≠ start) : inWindow admissions key start = 0 := by
  rw [inWindow, List.countP_eq_zero]
  intro a ha
  simpa using h a ha

/-- One more admission, in the last window of its key or in one that begins after it. -/
theorem Windowed.cons (h : Windowed limit window admissions) (hinside : a.start ≤ a.time ∧ a.time < a.start + window)
    (hlast : ∀ b ∈ admissions, b.key = a.key → b.start = a.start ∨ b.start + window ≤ a.start)
    (hcapped : inWindow admissions a.key a.start < limit) : Windowed limit window (a :: admissions) where
  inside := List.forall_mem_cons.mpr ⟨hinside, h.inside⟩
  apart := by
    intro b hb c hc hkey hlt
    rcases List.mem_cons.mp hb with rfl | hbold
    · rcases List.mem_cons.mp hc with rfl | hcold
      · omega
      · have := hlast c hcold hkey.symm
        omega
    · rcases List.mem_cons.mp hc with rfl | hcold
      · have := hlast b hbold hkey
        omega
      · exact h.apart b hbold c hcold hkey hlt
  capped := by
    intro key start
    rw [inWindow_cons]
    split
    · rename_i hsame
      rw [← hsame.1, ← hsame.2]
      exact hcapped
    · exact h.capped key start

/-- Of three windows of a key, no interval as long as a window meets all. -/
theorem Windowed.start_eq (h : Windowed limit window admissions) {first : Int} {a b c : Admission κ} (ha : a ∈ admissions)
    (hb : b ∈ admissions) (hc : c ∈ admissions) (hab : a.key = b.key) (hac : a.key = c.key)
    (hatime : first ≤ a.time ∧ a.time ≤ first + window) (hbtime : first ≤ b.time ∧ b.time ≤ first + window)
    (hctime : first ≤ c.time ∧ c.time ≤ first + window) (hne : a.start ≠ b.start) :
    c.start = a.start ∨ c.start = b.start := by
  have hainside := h.inside a ha
  have hbinside := h.inside b hb
  have hcinside := h.inside c hc
  have hbc := hab.symm.trans hac
  have habApart := h.apart a ha b hb hab
  have hbaApart := h.apart b hb a ha hab.symm
  have hacApart := h.apart a ha c hc hac
  have hcaApart := h.apart c hc a ha hac.symm
  have hbcApart := h.apart b hb c hc hbc
  have hcbApart := h.apart c hc b hb hbc.symm
  by_contra hother
  omega

/-- Any interval as long as a window sees at most two windows' worth of admissions. -/
theorem Windowed.between_le (h : Windowed limit window admissions) (key : κ) (first : Int) :
    between admissions key first (first + window) ≤ 2 * limit := by
  let seen := admissions.filter fun a => a.key = key ∧ first ≤ a.time ∧ a.time ≤ first + window
  have hseen : ∀ a ∈ seen, a ∈ admissions ∧ a.key = key ∧ first ≤ a.time ∧ a.time ≤ first + window := by
    intro a ha
    simpa [seen] using ha
  have hwindow : ∀ start, seen.countP (fun a => a.start = start) ≤ limit := by
    intro start
    refine le_trans ?_ (h.capped key start)
    rw [List.countP_filter]
    refine List.countP_mono_left fun a _ ha => ?_
    simp only [Bool.and_eq_true, decide_eq_true_eq] at ha ⊢
    exact ⟨ha.2.1, ha.1⟩
  rw [between, List.countP_eq_length_filter]
  change seen.length ≤ 2 * limit
  by_cases hone : ∃ a ∈ seen, ∃ b ∈ seen, a.start ≠ b.start
  · obtain ⟨a, ha, b, hb, hne⟩ := hone
    have htwo : ∀ c ∈ seen, c.start = a.start ∨ c.start = b.start := by
      intro c hc
      obtain ⟨hamem, hakey, hatime⟩ := hseen a ha
      obtain ⟨hbmem, hbkey, hbtime⟩ := hseen b hb
      obtain ⟨hcmem, hckey, hctime⟩ := hseen c hc
      exact h.start_eq hamem hbmem hcmem (hakey.trans hbkey.symm) (hakey.trans hckey.symm) hatime hbtime hctime hne
    have hsplit : seen.length ≤ seen.countP (fun a' => a'.start = a.start) + seen.countP (fun a' => a'.start = b.start) := by
      rw [List.length_eq_countP_add_countP (fun c => c.start = a.start)]
      refine Nat.add_le_add_left (List.countP_mono_left fun c hc hnot => ?_) _
      have := htwo c hc
      simp only [decide_eq_true_eq] at hnot ⊢
      tauto
    have hfirst := hwindow a.start
    have hsecond := hwindow b.start
    omega
  · cases hempty : seen with
    | nil => exact Nat.zero_le _
    | cons a rest =>
        have hall : seen.countP (fun b => b.start = a.start) = seen.length := by
          rw [List.countP_eq_length]
          intro b hb
          by_contra hne
          refine hone ⟨b, hb, a, ?_, by simpa using hne⟩
          rw [hempty]
          exact List.mem_cons_self
        have hfirst := hwindow a.start
        rw [hall, hempty] at hfirst
        omega

end FixedWindows
