import Transcendence.Realtime.ServerInvariant

/-!
# What a turn does to the rooms

Three turns put sockets into project rooms or take them out: the join of one membership while a
socket is admitted, and the last turns of `addMember` and `removeMember`. None of them changes
whether a socket is connected.
-/

namespace Transcendence.Realtime

inductive RoomTurn (w : World) : Request → Progress → (SocketId → Option Connection) → Prop where
  | same {request : Request} {progress : Progress} : RoomTurn w request progress w.connections
  | joins (client : Socket) (projectId : ProjectId) (role : Role) (hconnected : w.connected client) :
      RoomTurn w (.joinRoom client projectId) (.membershipRead (some role))
        (w.updateConnections (·.client.id == client.id) (World.join projectId)).connections
  | joinsUser (projectId : ProjectId) (username : String) (requestingUserId userId : UserId) :
      RoomTurn w (.addMember projectId username requestingUserId) (.written userId)
        (w.joinProjectRoom userId projectId).connections
  | leavesUser (projectId : ProjectId) (userId requestingUserId target : UserId) :
      RoomTurn w (.removeMember projectId userId requestingUserId) (.written target)
        (w.leaveProjectRoom userId projectId).connections

namespace RoomTurn

variable {w w' : World} {request : Request} {progress progress' : Progress} {input : Input}

theorem of_eq (h : w = w') : RoomTurn w request progress w'.connections := by
  subst h
  exact .same

theorem of_shared (hshared : request.resourceKey.isSome) (h : World.Effect w request progress w') :
    RoomTurn w request progress w'.connections := by
  cases h with
  | rooms connections hexclusive => simp [hexclusive] at hshared
  | memberAdded hexclusive => simp [hexclusive] at hshared
  | roleChanged hexclusive => simp [hexclusive] at hshared
  | memberRemoved => cases hshared
  | removalCompleted => cases hshared
  | acquired client projectId key randomUUID hfresh =>
      have hsame : ∀ result, (w.afterAcquire randomUUID (World.lockInput client projectId key) result).connections =
          w.connections := by
        intro result
        simp only [World.afterAcquire]
        split <;> split <;> rfl
      rw [hsame]
      exact .same
  | _ => exact .same

theorem of_joinRooms {client : Socket} {projectId : ProjectId}
    (h : w.joinRooms input client projectId progress = some (w', progress')) :
    RoomTurn w (.joinRoom client projectId) progress w'.connections := by
  cases progress with
  | begun =>
      simp only [World.joinRooms] at h
      split at h
      · cases h
        exact .same
      · exact of_eq (World.returned_eq_some.mp h).1
  | readingMembership => exact of_eq (World.await_eq_some.mp h).1
  | membershipRead member =>
      simp only [World.joinRooms] at h
      split at h
      · rename_i hmay
        obtain ⟨hmember, hconnected⟩ := Bool.and_eq_true _ _ ▸ hmay
        obtain ⟨role, rfl⟩ := Option.isSome_iff_exists.mp hmember
        obtain ⟨rfl, -⟩ := World.returned_eq_some.mp h
        exact .joins client projectId role hconnected
      · exact of_eq (World.returned_eq_some.mp h).1
  | _ => cases h

theorem of_addMember {projectId : ProjectId} {username : String} {requestingUserId : UserId}
    (h : w.addMember input projectId username requestingUserId progress = some (w', progress')) :
    RoomTurn w (.addMember projectId username requestingUserId) progress w'.connections := by
  cases progress with
  | written userId =>
      simp only [World.addMember] at h
      split at h
      · obtain ⟨rfl, -⟩ := World.returned_eq_some.mp h
        exact .joinsUser projectId username requestingUserId userId
      · exact of_eq (World.threw_eq_some.mp h).1
  | operating userId =>
      simp only [World.addMember] at h
      split at h
      · cases h
        exact .same
      · exact of_eq (World.threw_eq_some.mp h).1
  | membershipRead member =>
      cases member <;> simp only [World.addMember] at h
      · exact of_eq (World.threw_eq_some.mp h).1
      · split at h
        · cases h
          exact .same
        · exact of_eq (World.threw_eq_some.mp h).1
  | userRead role user =>
      cases user <;> simp only [World.addMember] at h
      · exact of_eq (World.threw_eq_some.mp h).1
      · cases h
        exact .same
  | targetRead role userId target =>
      simp only [World.addMember] at h
      split at h
      · exact of_eq (World.threw_eq_some.mp h).1
      · cases h
        exact .same
  | begun =>
      cases h
      exact .same
  | readingMembership | readingUser role | readingTarget role userId => exact of_eq (World.await_eq_some.mp h).1
  | _ => cases h

theorem of_removeMember {projectId : ProjectId} {userId requestingUserId : UserId}
    (h : w.removeMember input projectId userId requestingUserId progress = some (w', progress')) :
    RoomTurn w (.removeMember projectId userId requestingUserId) progress w'.connections := by
  cases progress with
  | written target =>
      simp only [World.removeMember] at h
      split at h
      · obtain ⟨rfl, -⟩ := World.returned_eq_some.mp h
        exact .leavesUser projectId userId requestingUserId target
      · exact of_eq (World.threw_eq_some.mp h).1
  | operating target =>
      simp only [World.removeMember] at h
      split at h
      · cases h
        exact .same
      · exact of_eq (World.threw_eq_some.mp h).1
  | membershipRead member =>
      cases member <;> simp only [World.removeMember] at h
      · exact of_eq (World.threw_eq_some.mp h).1
      · split_ifs at h
        all_goals first | exact of_eq (World.threw_eq_some.mp h).1 | (cases h; exact .same)
  | targetRead role target member =>
      cases member <;> simp only [World.removeMember] at h
      · exact of_eq (World.threw_eq_some.mp h).1
      · split at h
        · cases h
          exact .same
        · exact of_eq (World.threw_eq_some.mp h).1
  | begun =>
      cases h
      exact .same
  | readingMembership | readingTarget role target => exact of_eq (World.await_eq_some.mp h).1
  | _ => cases h

theorem of_updateMemberRole {projectId : ProjectId} {userId requestingUserId : UserId} {newRole : AssignableRole}
    (h : w.updateMemberRole input projectId userId newRole requestingUserId progress = some (w', progress')) :
    RoomTurn w request progress w'.connections := by
  cases progress with
  | operating target =>
      simp only [World.updateMemberRole] at h
      split at h
      · cases h
        exact .same
      · exact of_eq (World.threw_eq_some.mp h).1
  | written target =>
      simp only [World.updateMemberRole] at h
      split at h
      · exact of_eq (World.returned_eq_some.mp h).1
      · exact of_eq (World.threw_eq_some.mp h).1
  | membershipRead member | targetRead role target member =>
      cases member <;> simp only [World.updateMemberRole] at h
      · exact of_eq (World.threw_eq_some.mp h).1
      · split at h
        · cases h
          exact .same
        · exact of_eq (World.threw_eq_some.mp h).1
  | begun =>
      cases h
      exact .same
  | readingMembership | readingTarget role target => exact of_eq (World.await_eq_some.mp h).1
  | _ => cases h

theorem of_body (h : w.body input progress request = some (w', progress')) :
    RoomTurn w request progress w'.connections := by
  have heffect := World.body_effect h
  cases request with
  | joinRoom client projectId => exact of_joinRooms h
  | addMember projectId username requestingUserId => exact of_addMember h
  | removeMember projectId userId requestingUserId => exact of_removeMember h
  | updateMemberRole projectId userId newRole requestingUserId => exact of_updateMemberRole h
  | _ => exact of_shared rfl heffect

/-- A disconnected socket stays disconnected. -/
theorem disconnected (h : RoomTurn w request progress w'.connections) {socketId : SocketId} {connection : Connection}
    (hconnection : w.connections socketId = some connection) (hdisconnected : connection.connected = false) :
    ∃ next, w'.connections socketId = some next ∧ next.connected = false := by
  have hupdate : ∀ (among : Connection → Bool) (f : Connection → Connection),
      (∀ c, (f c).connected = c.connected) →
      ∃ next, (w.updateConnections among f).connections socketId = some next ∧ next.connected = false := by
    intro among f hf
    refine ⟨if among connection then f connection else connection, ?_, ?_⟩
    · simp only [World.updateConnections, hconnection, Option.map_some]
    · split
      · rw [hf, hdisconnected]
      · exact hdisconnected
  generalize w'.connections = connections at h
  cases h with
  | same => exact ⟨connection, hconnection, hdisconnected⟩
  | joins => exact hupdate _ _ fun _ => rfl
  | joinsUser => exact hupdate _ _ fun _ => rfl
  | leavesUser => exact hupdate _ _ fun _ => rfl

end RoomTurn

end Transcendence.Realtime
