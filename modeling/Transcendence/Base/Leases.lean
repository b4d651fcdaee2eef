import Mathlib.Logic.Function.Basic
import Mathlib.Order.Lattice

/-!
# Leases under tokens

A server grants tokens until some time, and leases under a token. A lease is live while neither it nor its
token has ended. What `Grows` says of a server that shortens nothing is enough for a lease to live on
(`LivesUntil.grows`).
-/

structure Lease (κ τ : Type*) where
  token : κ
  expiresAt : τ
  deriving DecidableEq

/-- The ends of the tokens and the leases that have been granted. -/
structure Leases (κ ι τ : Type*) where
  tokens : κ → Option τ
  leases : ι → Option (Lease κ τ)

namespace Leases

variable {κ ι τ : Type*} [LinearOrder τ] {granted next : Leases κ ι τ} {token : κ} {id : ι} {now time later : τ}

def tokenIsLive (granted : Leases κ ι τ) (now : τ) (token : κ) : Bool :=
  (granted.tokens token).any (now < ·)

def isLive (granted : Leases κ ι τ) (now : τ) (id : ι) : Bool :=
  (granted.leases id).any fun lease => now < lease.expiresAt && granted.tokenIsLive now lease.token

/-- The token does not end before. -/
def TokenLasts (granted : Leases κ ι τ) (token : κ) (time : τ) : Prop :=
  ∃ expiresAt, granted.tokens token = some expiresAt ∧ time ≤ expiresAt

/-- The lease is one under the token and does not itself end before. -/
def LeaseLasts (granted : Leases κ ι τ) (token : κ) (id : ι) (time : τ) : Prop :=
  ∃ expiresAt, granted.leases id = some ⟨token, expiresAt⟩ ∧ time ≤ expiresAt

/-- The lease is not ended before. -/
def LivesUntil (granted : Leases κ ι τ) (id : ι) (time : τ) : Prop :=
  ∃ token, granted.LeaseLasts token id time ∧ granted.TokenLasts token time

theorem TokenLasts.mono (h : granted.TokenLasts token later) (hle : time ≤ later) : granted.TokenLasts token time := by
  obtain ⟨expiresAt, htoken, hlater⟩ := h
  exact ⟨expiresAt, htoken, hle.trans hlater⟩

theorem LeaseLasts.mono (h : granted.LeaseLasts token id later) (hle : time ≤ later) : granted.LeaseLasts token id time := by
  obtain ⟨expiresAt, hlease, hlater⟩ := h
  exact ⟨expiresAt, hlease, hle.trans hlater⟩

theorem LivesUntil.mono (h : granted.LivesUntil id later) (hle : time ≤ later) : granted.LivesUntil id time := by
  obtain ⟨token, hlease, htoken⟩ := h
  exact ⟨token, hlease.mono hle, htoken.mono hle⟩

theorem isLive_of_livesUntil (h : granted.LivesUntil id time) (hnow : now < time) : granted.isLive now id := by
  obtain ⟨token, ⟨leaseEnd, hlease, hle⟩, tokenEnd, htoken, hle'⟩ := h
  simp only [isLive, tokenIsLive, hlease, htoken, Option.any_some, Bool.and_eq_true, decide_eq_true_eq]
  exact ⟨hnow.trans_le hle, hnow.trans_le hle'⟩

/-! ### Granting -/

/-- Nothing that was granted is shortened. -/
structure Grows (granted next : Leases κ ι τ) : Prop where
  tokens : ∀ token time, granted.TokenLasts token time → next.TokenLasts token time
  leases : ∀ token id time, granted.LeaseLasts token id time → next.LeaseLasts token id time

theorem LivesUntil.grows (h : granted.LivesUntil id time) (hgrows : Grows granted next) : next.LivesUntil id time := by
  obtain ⟨token, hlease, htoken⟩ := h
  exact ⟨token, hgrows.leases token id time hlease, hgrows.tokens token time htoken⟩

/-- Grants the token, or extends it. -/
def setToken [DecidableEq κ] (granted : Leases κ ι τ) (token : κ) (expiresAt : τ) : Leases κ ι τ :=
  { granted with tokens := Function.update granted.tokens token (some expiresAt) }

/-- Grants the lease, or extends it. -/
def setLease [DecidableEq ι] (granted : Leases κ ι τ) (id : ι) (lease : Lease κ τ) : Leases κ ι τ :=
  { granted with leases := Function.update granted.leases id (some lease) }

theorem tokenLasts_setToken [DecidableEq κ] (granted : Leases κ ι τ) (token : κ) (expiresAt : τ) :
    (granted.setToken token expiresAt).TokenLasts token expiresAt :=
  ⟨expiresAt, Function.update_self .., le_refl _⟩

theorem leaseLasts_setLease [DecidableEq ι] (granted : Leases κ ι τ) (token : κ) (id : ι) (expiresAt : τ) :
    (granted.setLease id ⟨token, expiresAt⟩).LeaseLasts token id expiresAt :=
  ⟨expiresAt, Function.update_self .., le_refl _⟩

theorem grows_setToken [DecidableEq κ] {expiresAt : τ} (h : ∀ old, granted.tokens token = some old → old ≤ expiresAt) :
    Grows granted (granted.setToken token expiresAt) := by
  refine ⟨fun other time hlasts => ?_, fun _ _ _ hlasts => hlasts⟩
  by_cases heq : other = token
  · subst heq
    obtain ⟨old, hold, hle⟩ := hlasts
    exact (granted.tokenLasts_setToken other expiresAt).mono (hle.trans (h old hold))
  · obtain ⟨old, hold, hle⟩ := hlasts
    exact ⟨old, (Function.update_of_ne heq ..).trans hold, hle⟩

theorem grows_setLease [DecidableEq ι] {expiresAt : τ}
    (h : ∀ old, granted.leases id = some old → old.token = token ∧ old.expiresAt ≤ expiresAt) :
    Grows granted (granted.setLease id ⟨token, expiresAt⟩) := by
  refine ⟨fun _ _ hlasts => hlasts, fun other otherId time hlasts => ?_⟩
  by_cases heq : otherId = id
  · subst heq
    obtain ⟨old, hold, hle⟩ := hlasts
    obtain ⟨htoken, hlater⟩ := h _ hold
    subst htoken
    exact (granted.leaseLasts_setLease other otherId expiresAt).mono (hle.trans hlater)
  · obtain ⟨old, hold, hle⟩ := hlasts
    exact ⟨old, (Function.update_of_ne heq ..).trans hold, hle⟩

end Leases
