import Transcendence.Auth.IdentityResolution

/-!
# Whom a login binds a subject to

The user to whom a login binds its subject has the local identity of the profile's email, or is
created by the login (`IdentityInv.binds`).
-/

namespace Transcendence.Auth

/-- The user has the local identity of the email. -/
def IdentityTables.HasEmail (db : IdentityTables) (email userId : String) : Prop := ((.LOCAL, email), userId) ∈ db.bindings

namespace FortyTwoIdentities

open IdentityTables

/-- The user whom a login is about to end with. -/
def Point.aim : Point → Option String
  | .known userId => some userId
  | .enriched user => some user.id
  | .chosen userId _ => some userId
  | .inserted userId _ => some userId
  | .ready (.resolved resolution) => some resolution.user.id
  | _ => none

/-- A login that has inserted no user aims at one who has the subject, or the email. -/
def Matched (db : IdentityTables) (profile : FortyTwoProfile) (point : Point) (writes : List Write) : Prop :=
  ∀ userId, point.aim = some userId → (∀ user, Write.user user ∉ writes) →
    db.Bound profile.subject userId ∨ db.HasEmail profile.email userId

variable {s t : State} {id : Nat} {request : Request} {profile : FortyTwoProfile} {db : IdentityTables} {label : Label}

theorem Matched.keep {point next : Point} {writes added : List Write} (h : Matched db profile point writes)
    (haim : next.aim = point.aim) : Matched db profile next (writes ++ added) := by
  intro userId hnext hnone
  exact h userId (haim.symm.trans hnext) fun user hmem => hnone user (List.mem_append_left _ hmem)

theorem Matched.mono {db' : IdentityTables} {point : Point} {writes : List Write} (h : Matched db profile point writes)
    (hmono : ∀ binding ∈ db.bindings, binding ∈ db'.bindings) : Matched db' profile point writes := by
  intro userId haim hnone
  exact (h userId haim hnone).imp (hmono _) (hmono _)

theorem Matched.advance {point next : Point} {writes added : List Write} {locks : List Lock}
    (h : Matched s.db profile point writes) (hadvance : Advance s id (.resolve profile) writes point next added locks) :
    Matched s.db profile next (writes ++ added) := by
  cases hadvance with
  | misses => exact h.keep rfl
  | aims hrequest => cases hrequest
  | finds hfound =>
      intro userId haim _
      cases haim
      exact .inl (bound_of_found hfound)
  | startsCreating => exact h.keep rfl
  | links hfound =>
      intro userId haim _
      cases haim
      exact .inr (binding_of_found hfound)
  | retries => exact h.keep rfl
  | creates =>
      intro userId _ hnone
      exact absurd (List.mem_append_right _ List.mem_cons_self) (hnone _)
  | inserts => exact h.keep rfl
  | enrichesKnown huser => exact h.keep (congrArg some (mem_userIds_of_find huser).1)
  | enrichesInserted huser => exact h.keep (congrArg some (mem_userIds_of_find huser).1)
  | touches => exact h.keep rfl

def LoginsMatched (s : State) : Prop :=
  ∀ i profile point writes, s.calls i = some ⟨.resolve profile, .running point writes⟩ → Matched s.db profile point writes

section Invariant

variable {db₀ : IdentityTables}

theorem LoginsMatched.step (h : LoginsMatched s) (hinv : IdentityInv db₀ s) (hstep : Steps s t label) : LoginsMatched t := by
  intro i profile point writes hcall
  have hmono : ∀ binding ∈ s.db.bindings, binding ∈ t.db.bindings := fun _ hmem => hinv.binding_step hstep hmem
  cases hstep with
  | begins _ _ hcalls =>
      rw [hcalls] at hcall
      rcases Calls.update_eq_some hcall with ⟨-, hnew⟩ | ⟨-, hold⟩
      · cases hnew
        intro userId haim
        cases haim
      · exact (h i profile point writes hold).mono hmono
  | proceeds hbefore hadvance _ hcalls =>
      rw [hcalls] at hcall
      rcases Calls.update_eq_some hcall with ⟨rfl, hnew⟩ | ⟨-, hold⟩
      · cases hnew
        exact ((h i profile _ _ hbefore).advance hadvance).mono hmono
      · exact (h i profile point writes hold).mono hmono
  | commits _ hcalls =>
      rw [hcalls] at hcall
      rcases Calls.update_eq_some hcall with ⟨-, hnew⟩ | ⟨-, hold⟩
      · cases hnew
      · exact (h i profile point writes hold).mono hmono
  | givesUp _ _ hafter hcalls =>
      rw [hcalls] at hcall
      rcases Calls.update_eq_some hcall with ⟨-, hnew⟩ | ⟨-, hold⟩
      · cases hnew
        cases hafter
      · exact (h i profile point writes hold).mono hmono
  | recovers _ _ hcalls =>
      rw [hcalls] at hcall
      rcases Calls.update_eq_some hcall with ⟨-, hnew⟩ | ⟨-, hold⟩
      · cases hnew
      · exact (h i profile point writes hold).mono hmono

/-- The user of a login that commits. -/
theorem Placed.matched {resolution : FortyTwoLoginResolution} {writes : List Write}
    (h : Placed s id (.resolve profile) (.ready (.resolved resolution)) writes)
    (hmatched : Matched s.db profile (.ready (.resolved resolution)) writes) :
    s.db.Bound profile.subject resolution.user.id ∨ s.db.HasEmail profile.email resolution.user.id ∨
      resolution.user.id ∉ s.db.userIds := by
  generalize hpoint : Point.ready (.resolved resolution) = point at h
  cases h with
  | @readyKnown user hbound =>
      obtain rfl : resolution = ⟨user, false⟩ := Response.resolved.inj (Point.ready.inj hpoint)
      exact .inl hbound
  | @readyNew userId autoLinked writes user hid hprovisional =>
      obtain rfl : resolution = ⟨user, autoLinked⟩ := Response.resolved.inj (Point.ready.inj hpoint)
      cases hprovisional with
      | existing => exact (hmatched user.id rfl fun row => by simp).imp_right .inl
      | new _ _ _ hnew =>
          rw [hid]
          exact .inr (.inr hnew)
  | _ => cases hpoint

end Invariant

end FortyTwoIdentities

end Transcendence.Auth
