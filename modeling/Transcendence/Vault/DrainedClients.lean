import Mathlib.Data.List.InsertIdx
import Mathlib.Data.List.Nodup
import Transcendence.Vault.DatabaseClients

/-!
# Replaced clients

The clients that are connected are the current one and those whose drain timers have not fired. So a transaction
runs over a connected client for at least as long as a replaced client is drained (`Kept`).
-/

namespace Transcendence.Vault

/-! ### The clients and their timers -/

namespace PrismaService

/-- The connected clients are the current one and those that have a timer, each with an id of its own. -/
structure Sound (prisma : PrismaService) : Prop where
  connected : prisma.connected = prisma.client :: prisma.drainTimers.map (·.previousClient)
  ids : (prisma.connected.map (·.id)).Nodup
  fresh : ∀ client ∈ prisma.connected, client.id < prisma.next

/-- The client is connected, and is not disconnected before. -/
def KeepsUntil (prisma : PrismaService) (client : PrismaClient) (time : Int) : Prop :=
  client = prisma.client ∨ ∃ timer ∈ prisma.drainTimers, timer.previousClient = client ∧ time ≤ timer.timeout.due

variable {prisma prisma' : PrismaService} {client : PrismaClient} {now time : Int} {index : Nat}

theorem Sound.replaceClient (h : prisma.Sound) (now : Int) (credentials : VaultDatabaseCredentials) :
    (prisma.replaceClient now credentials).Sound := by
  constructor
  · exact congrArg _ h.connected
  · refine List.nodup_cons.mpr ⟨fun hmem => ?_, h.ids⟩
    obtain ⟨client, hclient, hid⟩ := List.mem_map.mp hmem
    exact absurd hid (Nat.ne_of_lt (h.fresh client hclient))
  · intro client hclient
    rcases List.mem_cons.mp hclient with heq | hmem
    · subst heq
      exact Nat.lt_succ_self _
    · exact Nat.lt_succ_of_lt (h.fresh client hmem)

theorem drain_eq_some (h : prisma.drain now index = some prisma') : ∃ hindex : index < prisma.drainTimers.length,
    (prisma.drainTimers.get ⟨index, hindex⟩).timeout.due ≤ now ∧
      prisma' = { prisma with
        drainTimers := prisma.drainTimers.eraseIdx index
        connected := prisma.connected.erase (prisma.drainTimers.get ⟨index, hindex⟩).previousClient } := by
  rw [drain] at h
  split at h
  · cases h
  · next timer htimer =>
      obtain ⟨hindex, hget⟩ := List.getElem?_eq_some_iff.mp htimer
      split_ifs at h with hdue
      cases h
      subst hget
      exact ⟨hindex, hdue, rfl⟩

theorem Sound.drain (h : prisma.Sound) (hdrain : prisma.drain now index = some prisma') : prisma'.Sound := by
  obtain ⟨hindex, -, rfl⟩ := drain_eq_some hdrain
  have hnodup : prisma.connected.Nodup := List.Nodup.of_map _ h.ids
  constructor
  · show prisma.connected.erase _ = prisma.client :: (prisma.drainTimers.eraseIdx index).map (·.previousClient)
    rw [h.connected] at hnodup ⊢
    have hne : prisma.client ≠ (prisma.drainTimers.get ⟨index, hindex⟩).previousClient := by
      intro heq
      apply (List.nodup_cons.mp hnodup).1
      rw [heq]
      exact List.mem_map_of_mem (List.get_mem _ _)
    rw [List.erase_cons_tail (by simpa using hne), ← List.eraseIdx_map]
    have hget := (List.nodup_cons.mp hnodup).2.erase_getElem index (by rw [List.length_map]; exact hindex)
    rw [List.getElem_map] at hget
    exact congrArg _ hget
  · exact h.ids.sublist (List.Sublist.map _ List.erase_sublist)
  · intro client hclient
    exact h.fresh client (List.mem_of_mem_erase hclient)

theorem KeepsUntil.replaceClient (h : prisma.KeepsUntil client time) (htime : time ≤ now + poolDrainTimeoutMs)
    (credentials : VaultDatabaseCredentials) : (prisma.replaceClient now credentials).KeepsUntil client time := by
  rcases h with heq | ⟨timer, htimer, hclient, hdue⟩
  · exact .inr ⟨_, List.mem_cons_self, heq.symm, htime⟩
  · exact .inr ⟨timer, List.mem_cons_of_mem _ htimer, hclient, hdue⟩

/-- A timer that fires does so at the end of the time its client was kept for. -/
theorem KeepsUntil.drain (h : prisma.KeepsUntil client time) (hdrain : prisma.drain now index = some prisma') :
    prisma'.KeepsUntil client time ∨ time ≤ now := by
  obtain ⟨hindex, hnow, rfl⟩ := drain_eq_some hdrain
  rcases h with heq | ⟨timer, htimer, hclient, hdue⟩
  · exact .inl (.inl heq)
  · by_cases hsame : timer = prisma.drainTimers.get ⟨index, hindex⟩
    · subst hsame
      exact .inr (hdue.trans hnow)
    · refine .inl (.inr ⟨timer, ?_, hclient, hdue⟩)
      rw [List.mem_eraseIdx_iff_getElem]
      obtain ⟨other, hother, hget⟩ := List.getElem_of_mem htimer
      refine ⟨other, hother, fun heq => hsame ?_, hget⟩
      subst heq
      exact hget.symm

theorem KeepsUntil.mem_connected (h : prisma.KeepsUntil client time) (hsound : prisma.Sound) :
    client ∈ prisma.connected := by
  rw [hsound.connected]
  rcases h with heq | ⟨timer, htimer, hclient, -⟩
  · exact heq ▸ List.mem_cons_self
  · exact List.mem_cons_of_mem _ (hclient ▸ List.mem_map_of_mem htimer)

end PrismaService

/-! ### Transactions -/

namespace Backend

/-- A client is kept for the transactions that run over it. -/
structure Kept (s : Backend) : Prop where
  prisma : s.prisma.Sound
  startedAt : ∀ transaction ∈ s.transactions, transaction.startedAt ≤ s.now
  keepsUntil : ∀ transaction ∈ s.transactions,
    s.prisma.KeepsUntil transaction.client (transaction.startedAt + poolDrainTimeoutMs) ∨
      transaction.startedAt + poolDrainTimeoutMs ≤ s.now

/-- What a step does to the clients and the transactions. -/
inductive Turn (s t : Backend) : Prop where
  | other (prisma : t.prisma = s.prisma) (transactions : t.transactions = s.transactions) (now : s.now ≤ t.now)
  | connected (credentials : VaultDatabaseCredentials) (prisma : t.prisma = s.prisma.replaceClient s.now credentials)
      (transactions : t.transactions = s.transactions) (now : t.now = s.now)
  | drained (index : Nat) (prisma : s.prisma.drain s.now index = some t.prisma)
      (transactions : t.transactions = s.transactions) (now : t.now = s.now)
  | transaction (prisma : t.prisma = s.prisma) (transactions : t.transactions = ⟨s.prisma.client, s.now⟩ :: s.transactions)
      (now : t.now = s.now)

variable {s t : Backend} {event : Event} {renewal : Renewal} {error : RequestError}

theorem now_fail (p : ServiceProcess) (error : RequestError) : (p.fail error).now = p.now := by
  unfold ServiceProcess.fail
  split <;> rfl

theorem now_renewalFailed (s : Backend) (error : RequestError) : (s.renewalFailed error).now = s.now := by
  show ServiceProcess.now (if _ then _ else _) = _
  split
  · exact now_fail s.process error
  · rfl

theorem turn_renewalFailed (s : Backend) (error : RequestError) : Turn s (s.renewalFailed error) :=
  .other rfl rfl (s.now_renewalFailed error).ge

theorem turn_answered (h : s.answered renewal = some t) : Turn s t := by
  unfold answered at h
  split at h
  · dsimp only at h
    split at h
    · cases h
      exact .other rfl rfl (now_renewalFailed _ _).ge
    · cases h
      exact .other rfl rfl (le_refl _)
  all_goals first | cases h; exact .other rfl rfl (le_refl _) | cases h

theorem turn_failed (s : Backend) (renewal : Renewal) (error : RequestError) : Turn s (s.failed renewal error) := by
  rcases s.failed_cases renewal error with ⟨-, -, heq⟩ | ⟨-, -, heq⟩ | ⟨thrown, heq, -⟩
  · rw [heq]
    exact .other rfl rfl (le_refl _)
  · rw [heq]
    exact .other rfl rfl (le_refl _)
  · rw [heq]
    exact s.turn_renewalFailed thrown

theorem turn_connected (h : s.connected renewal = some t) : Turn s t := by
  unfold connected at h
  split at h
  · next credentials _ =>
      cases h
      exact .connected credentials rfl rfl (ServiceProcess.now_scheduleRenewal _)
  · next token credentials _ =>
      cases h
      exact .connected credentials rfl rfl (ServiceProcess.now_scheduleRenewal _)
  · cases h

theorem turn_step (h : s.step event = some t) : Turn s t := by
  cases event with
  | pass elapsed =>
      cases h
      exact .other rfl rfl (s.process.now_le_pass elapsed)
  | fired =>
      have hfired : s.fired = some t := h
      unfold fired at hfired
      split at hfired
      · split_ifs at hfired
        cases hfired
        exact .other rfl rfl (le_refl _)
      · cases hfired
  | granted grant =>
      obtain ⟨renewal, -, hhandled⟩ := Option.bind_eq_some_iff.mp h
      obtain ⟨handled, -, rfl⟩ := Option.map_eq_some_iff.mp hhandled
      exact .other rfl rfl (le_refl _)
  | answered =>
      obtain ⟨renewal, -, hanswered⟩ := Option.bind_eq_some_iff.mp h
      exact turn_answered hanswered
  | failed error =>
      obtain ⟨renewal, -, rfl⟩ := Option.map_eq_some_iff.mp h
      exact s.turn_failed renewal error
  | connected =>
      obtain ⟨renewal, -, hconnected⟩ := Option.bind_eq_some_iff.mp h
      exact turn_connected hconnected
  | drained index =>
      obtain ⟨prisma, hdrain, rfl⟩ := Option.map_eq_some_iff.mp h
      exact .drained index hdrain rfl rfl
  | transaction =>
      cases h
      exact .transaction rfl rfl rfl

theorem Kept.turn (h : s.Kept) (hturn : Turn s t) : t.Kept := by
  cases hturn with
  | other hprisma htransactions hnow =>
      constructor
      · rw [hprisma]
        exact h.prisma
      · intro transaction hmem
        rw [htransactions] at hmem
        exact (h.startedAt transaction hmem).trans hnow
      · intro transaction hmem
        rw [htransactions] at hmem
        rw [hprisma]
        exact (h.keepsUntil transaction hmem).imp id hnow.trans'
  | connected credentials hprisma htransactions hnow =>
      constructor
      · rw [hprisma]
        exact h.prisma.replaceClient s.now credentials
      · intro transaction hmem
        rw [htransactions] at hmem
        rw [hnow]
        exact h.startedAt transaction hmem
      · intro transaction hmem
        rw [htransactions] at hmem
        have hstarted := h.startedAt transaction hmem
        rw [hprisma, hnow]
        exact (h.keepsUntil transaction hmem).imp (·.replaceClient (by omega) credentials) id
  | drained index hdrain htransactions hnow =>
      constructor
      · exact h.prisma.drain hdrain
      · intro transaction hmem
        rw [htransactions] at hmem
        rw [hnow]
        exact h.startedAt transaction hmem
      · intro transaction hmem
        rw [htransactions] at hmem
        rw [hnow]
        rcases h.keepsUntil transaction hmem with hkeeps | hended
        · exact hkeeps.drain hdrain
        · exact .inr hended
  | transaction hprisma htransactions hnow =>
      constructor
      · rw [hprisma]
        exact h.prisma
      · intro transaction hmem
        rw [htransactions] at hmem
        rw [hnow]
        rcases List.mem_cons.mp hmem with rfl | hmem
        · exact le_refl _
        · exact h.startedAt transaction hmem
      · intro transaction hmem
        rw [htransactions] at hmem
        rw [hprisma, hnow]
        rcases List.mem_cons.mp hmem with rfl | hmem
        · exact .inl (.inl rfl)
        · exact h.keepsUntil transaction hmem

theorem Kept.step : Runs.Preserved Backend.step Kept :=
  fun _ _ _ h hstep => h.turn (turn_step hstep)

end Backend

end Transcendence.Vault
