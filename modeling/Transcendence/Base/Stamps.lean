import Mathlib.Data.List.Basic

/-!
# Versions named by stamps

A cell is written again and again, and each version has a stamp, as a clock reading, and an epoch,
which counts the writes that a reader must not miss. Readers compare stamps only, which is right as
long as a stamp tells the epoch (`StampsTell`): a new version keeps that if no version of another
epoch has had its stamp.
-/

namespace Stamps

structure Version (τ : Type*) where
  stamp : τ
  epoch : Nat
  deriving DecidableEq, Repr

variable {τ : Type*} {versions : List (Version τ)} {new : Version τ}

def StampsTell (versions : List (Version τ)) : Prop :=
  ∀ v ∈ versions, ∀ w ∈ versions, v.stamp = w.stamp → v.epoch = w.epoch

theorem stampsTell_singleton (version : Version τ) : StampsTell [version] := by
  intro v hv w hw _
  rw [List.mem_singleton.mp hv, List.mem_singleton.mp hw]

theorem stampsTell_concat_iff (h : StampsTell versions) :
    StampsTell (versions ++ [new]) ↔ ∀ v ∈ versions, v.stamp = new.stamp → v.epoch = new.epoch := by
  constructor
  · intro hall v hv
    exact hall v (List.mem_append_left _ hv) new List.mem_concat_self
  · intro hnew v hv w hw hsame
    rw [List.mem_append, List.mem_singleton] at hv hw
    rcases hv with hv | rfl <;> rcases hw with hw | rfl
    · exact h v hv w hw hsame
    · exact hnew v hv hsame
    · exact (hnew w hw hsame.symm).symm
    · rfl

/-- A version of a new epoch needs a new stamp. -/
theorem stampsTell_concat_iff_of_lt (h : StampsTell versions) (hlt : ∀ v ∈ versions, v.epoch < new.epoch) :
    StampsTell (versions ++ [new]) ↔ ∀ v ∈ versions, v.stamp ≠ new.stamp := by
  rw [stampsTell_concat_iff h]
  refine forall₂_congr fun v hv => imp_congr_right fun _ => ?_
  exact iff_of_false (Nat.ne_of_lt (hlt v hv)) id

end Stamps
