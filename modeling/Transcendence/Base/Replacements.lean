import Mathlib.Data.List.Infix

/-!
# Replacing runs, and the last segment

Two operations of text processing over any alphabet. `replaceRuns` puts one character for each run of
two or more of another, so that the result repeats it nowhere (`not_repeats_replaceRuns`), and
`lastSegment` is what stands behind the last separator.
-/

namespace Replacements

variable {α : Type*} {repeated replacement c : α} {text rest : List α}

/-! ### Repetitions -/

/-- The character stands twice in a row. -/
def Repeats (repeated : α) (text : List α) : Prop :=
  [repeated, repeated] <:+: text

instance [DecidableEq α] (repeated : α) (text : List α) : Decidable (Repeats repeated text) :=
  inferInstanceAs (Decidable (_ <:+: _))

theorem not_repeats_nil : ¬ Repeats repeated [] := by
  simp [Repeats]

theorem repeats_cons : Repeats repeated (c :: rest) ↔ (c = repeated ∧ rest.head? = some repeated) ∨ Repeats repeated rest := by
  rw [Repeats, List.infix_cons_iff, List.cons_prefix_cons, eq_comm, ← Repeats]
  cases rest with
  | nil => simp
  | cons d rest => simp [eq_comm]

theorem repeats_cons_of_ne (hne : c ≠ repeated) : Repeats repeated (c :: rest) ↔ Repeats repeated rest := by
  rw [repeats_cons, or_iff_right fun h => hne h.1]

/-- What is put before a text without the character repeats nothing. -/
theorem not_repeats_append {before : List α} (habsent : repeated ∉ before) (htext : ¬ Repeats repeated text) :
    ¬ Repeats repeated (before ++ text) := by
  induction before with
  | nil => exact htext
  | cons c before ih =>
      rw [List.mem_cons, not_or] at habsent
      rw [List.cons_append, repeats_cons_of_ne (Ne.symm habsent.1)]
      exact ih habsent.2

/-! ### Runs -/

/-- What is put for a run of the length. -/
def flush (repeated replacement : α) : Nat → List α
  | 0 => []
  | 1 => [repeated]
  | _ + 2 => [replacement]

theorem mem_flush {pending : Nat} (hc : c ∈ flush repeated replacement pending) : c = repeated ∨ c = replacement := by
  match pending with
  | 0 => cases hc
  | 1 => exact .inl (List.mem_singleton.mp hc)
  | _ + 2 => exact .inr (List.mem_singleton.mp hc)

/-- What is put for a run ends with it. -/
theorem not_repeats_flush_append (hne : replacement ≠ repeated) (hhead : text.head? ≠ some repeated)
    (htext : ¬ Repeats repeated text) (pending : Nat) : ¬ Repeats repeated (flush repeated replacement pending ++ text) := by
  match pending with
  | 0 => exact htext
  | 1 =>
      show ¬ Repeats repeated (repeated :: text)
      rw [repeats_cons]
      exact fun h => h.elim (fun h => hhead h.2) htext
  | _ + 2 =>
      show ¬ Repeats repeated (replacement :: text)
      rwa [repeats_cons_of_ne hne]

variable [DecidableEq α]

/-- Replaces every run of two or more; of the first run, `pending` characters have been read. -/
def replaceRuns (repeated replacement : α) : Nat → List α → List α
  | pending, [] => flush repeated replacement pending
  | pending, c :: rest =>
      if c = repeated then replaceRuns repeated replacement (pending + 1) rest
      else flush repeated replacement pending ++ c :: replaceRuns repeated replacement 0 rest

theorem mem_replaceRuns {pending : Nat} (hc : c ∈ replaceRuns repeated replacement pending text) :
    c = repeated ∨ c = replacement ∨ c ∈ text := by
  induction text generalizing pending with
  | nil => exact (mem_flush hc).imp_right .inl
  | cons d rest ih =>
      rw [replaceRuns] at hc
      split at hc
      · have := ih hc
        rw [List.mem_cons]
        tauto
      · rw [List.mem_append, List.mem_cons] at hc
        rw [List.mem_cons]
        rcases hc with hflush | hhead | hrest
        · exact (mem_flush hflush).imp_right .inl
        · exact .inr (.inr (.inl hhead))
        · have := ih hrest
          tauto

theorem not_repeats_replaceRuns (hne : replacement ≠ repeated) (pending : Nat) (text : List α) :
    ¬ Repeats repeated (replaceRuns repeated replacement pending text) := by
  induction text generalizing pending with
  | nil =>
      rw [replaceRuns, ← List.append_nil (flush _ _ _)]
      exact not_repeats_flush_append hne (by simp) not_repeats_nil pending
  | cons c rest ih =>
      rw [replaceRuns]
      split
      · exact ih _
      · next hc =>
          apply not_repeats_flush_append hne
          · exact fun h => hc (Option.some.inj h)
          · rw [repeats_cons_of_ne hc]
            exact ih 0

/-! ### Segments -/

/-- The segment behind the last separator, or the whole text. -/
def lastSegment (separator : α) (text : List α) : List α :=
  (text.splitOn separator).getLastD []

theorem lastSegment_append (separator : α) (path : List α) {segment : List α} (habsent : separator ∉ segment) :
    lastSegment separator (path ++ separator :: segment) = segment := by
  have hsegment : segment.splitOnP (· == separator) = [segment] := by
    refine List.splitOnP_eq_singleton fun c hc => ?_
    rw [beq_eq_false_iff_ne]
    exact fun heq => habsent (heq ▸ hc)
  have hsplit := List.splitOnP_append_cons (p := (· == separator)) path segment (beq_self_eq_true separator)
  rw [lastSegment, List.splitOn_eq_splitOnP, hsplit, hsegment]
  exact List.getLastD_concat

end Replacements
