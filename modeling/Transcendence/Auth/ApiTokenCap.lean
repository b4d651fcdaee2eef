import Transcendence.Auth.ProjectApiTokens

/-!
# The cap of active API tokens

A call of `create` that has counted fewer tokens than the cap has the advisory lock of its project,
and until it gives the lock back nobody else inserts a token there. The instant it counts at lies
before the lock, so it may count tokens that have expired since, but never too few. Other projects
may share the lock, which only makes more calls wait.
-/

namespace Transcendence.Auth.ProjectApiTokens

/-! ### Counting -/

section Counting

variable {tokens : List ProjectApiTokenRow} {projectId : String} {now later : Nat}

theorem IsActive.of_later {row : ProjectApiTokenRow} (h : IsActive later row) (hle : now ≤ later) : IsActive now row :=
  ⟨h.1, hle.trans_lt h.2⟩

theorem activeCount_antitone (hle : now ≤ later) : activeCount tokens projectId later ≤ activeCount tokens projectId now := by
  apply List.countP_mono_left
  intro row _ hactive
  rw [decide_eq_true_eq] at hactive ⊢
  exact ⟨hactive.1, hactive.2.of_later hle⟩

/-- An update that neither moves nor revives a row. -/
theorem activeCount_update {p : ProjectApiTokenRow → Bool} {f : ProjectApiTokenRow → ProjectApiTokenRow}
    (hproject : ∀ row, (f row).projectId = row.projectId) (hactive : ∀ row, IsActive now (f row) → IsActive now row) :
    activeCount (Table.update p f tokens) projectId now ≤ activeCount tokens projectId now := by
  rw [activeCount, Table.update, List.countP_map]
  apply List.countP_mono_left
  intro row _ hrow
  rw [Function.comp_apply, decide_eq_true_eq] at hrow
  rw [decide_eq_true_eq]
  split at hrow
  · rw [hproject] at hrow
    exact ⟨hrow.1, hactive row hrow.2⟩
  · exact hrow

theorem activeCount_filter (keep : ProjectApiTokenRow → Bool) :
    activeCount (tokens.filter keep) projectId now ≤ activeCount tokens projectId now :=
  List.filter_sublist.countP_le

theorem activeCount_concat (row : ProjectApiTokenRow) :
    activeCount (tokens ++ [row]) projectId now ≤
      activeCount tokens projectId now + if row.projectId = projectId then 1 else 0 := by
  rw [activeCount, List.countP_append, List.countP_singleton]
  apply Nat.add_le_add_left
  split
  · next hcounted =>
      rw [if_pos (of_decide_eq_true hcounted).1]
  · exact Nat.zero_le _

end Counting

/-! ### The invariant -/

def Phase.startedAt : Phase → Nat
  | .begun startedAt => startedAt
  | .locked startedAt => startedAt
  | .counted startedAt => startedAt
  | .verified startedAt _ => startedAt
  | .unchanged startedAt => startedAt
  | .ended _ => 0

def Phase.hasAdvisoryLock : Phase → Bool
  | .locked _ => true
  | .counted _ => true
  | _ => false

variable {store : ProjectAPITokenStore} {s t : State} {id : Nat} {call : Call}

structure CapInv (store : ProjectAPITokenStore) (s : State) : Prop where
  cap : ∀ projectId, activeCount s.tokens projectId s.clock ≤ MaxProjectAPITokens
  started : ∀ id call, s.calls id = some call → call.phase.startedAt ≤ s.clock
  holds : ∀ id call r, s.calls id = some call → call.request = .create r → call.phase.hasAdvisoryLock →
    s.advisoryLocks (store.hashtext r.projectId) = some id
  room : ∀ id call r startedAt, s.calls id = some call → call.request = .create r → call.phase = .counted startedAt →
    activeCount s.tokens r.projectId s.clock < MaxProjectAPITokens

theorem capInv_initial (projects : List String) (clock : Nat) : CapInv store (initial projects clock) where
  cap _ := Nat.zero_le _
  started _ _ hcall := by cases hcall
  holds _ _ _ hcall := by cases hcall
  room _ _ _ _ hcall := by cases hcall

/-- A step of one call that adds no token and takes no lock from another one. -/
theorem CapInv.move (h : CapInv store s) (call : Call) (hcalls : t.calls = Function.update s.calls id (some call))
    (hclock : t.clock = s.clock)
    (htokens : ∀ projectId, activeCount t.tokens projectId s.clock ≤ activeCount s.tokens projectId s.clock)
    (hlocks : ∀ key other, other ≠ id → s.advisoryLocks key = some other → t.advisoryLocks key = some other)
    (hstarted : call.phase.startedAt ≤ s.clock)
    (hholds : ∀ r, call.request = .create r → call.phase.hasAdvisoryLock →
      t.advisoryLocks (store.hashtext r.projectId) = some id)
    (hroom : ∀ r startedAt, call.request = .create r → call.phase = .counted startedAt →
      activeCount s.tokens r.projectId s.clock < MaxProjectAPITokens) : CapInv store t where
  cap projectId := by
    rw [hclock]
    exact (htokens projectId).trans (h.cap projectId)
  started other found hfound := by
    rw [hclock]
    rw [hcalls, Function.update_apply] at hfound
    split at hfound
    · cases hfound
      exact hstarted
    · exact h.started other found hfound
  holds other found r hfound hrequest hlocked := by
    rw [hcalls, Function.update_apply] at hfound
    split at hfound
    · next heq =>
        cases hfound
        rw [heq]
        exact hholds r hrequest hlocked
    · next hne => exact hlocks _ _ hne (h.holds other found r hfound hrequest hlocked)
  room other found r startedAt hfound hrequest hcounted := by
    rw [hclock]
    rw [hcalls, Function.update_apply] at hfound
    refine (htokens r.projectId).trans_lt ?_
    split at hfound
    · cases hfound
      exact hroom r startedAt hrequest hcounted
    · exact h.room other found r startedAt hfound hrequest hcounted

/-- The end of a call that adds no token. -/
theorem CapInv.finish (h : CapInv store s) (result : Except Error Response) {tokens : List ProjectApiTokenRow}
    {events : List ProjectApiTokenEventRow}
    (htokens : ∀ projectId, activeCount tokens projectId s.clock ≤ activeCount s.tokens projectId s.clock) :
    CapInv store { s.finish id call result with tokens, events } := by
  refine h.move { call with phase := .ended result } rfl rfl htokens (fun key other hne hheld => ?_) (Nat.zero_le _)
    nofun nofun
  show (if s.advisoryLocks key = some id then none else s.advisoryLocks key) = some other
  rw [hheld, if_neg fun heq => hne (Option.some.inj heq)]

theorem CapInv.finish_same (h : CapInv store s) (result : Except Error Response) : CapInv store (s.finish id call result) :=
  h.finish result fun _ => le_rfl

theorem CapInv.setPhase (h : CapInv store s) (hcall : s.calls id = some call) {phase : Phase}
    (hstarted : phase.startedAt = call.phase.startedAt) (hlock : phase.hasAdvisoryLock → call.phase.hasAdvisoryLock)
    (hroom : ∀ r startedAt, call.request = .create r → phase = .counted startedAt →
      activeCount s.tokens r.projectId s.clock < MaxProjectAPITokens) : CapInv store (s.setPhase id call phase) := by
  refine h.move { call with phase } rfl rfl (fun _ => le_rfl) (fun _ _ _ hheld => hheld) ?_ ?_ hroom
  · exact hstarted.trans_le (h.started id call hcall)
  · exact fun r hrequest hlocked => h.holds id call r hcall hrequest (hlock hlocked)

/-! ### Steps -/

theorem firstPhase_eq (clock : Nat) (request : Request) :
    State.firstPhase clock request = .begun clock ∨ State.firstPhase clock request = .ended (.error .notFound) := by
  cases request with
  | introspect value =>
      rw [State.firstPhase]
      split
      · exact .inr rfl
      · exact .inl rfl
  | _ => exact .inl rfl

theorem CapInv.begin (h : CapInv store s) {request : Request} (hstep : s.begin id request = some t) : CapInv store t := by
  rw [State.begin, Option.ite_none_left_eq_some] at hstep
  obtain ⟨-, hstep⟩ := hstep
  cases hstep
  refine h.move _ rfl rfl (fun _ => le_rfl) (fun _ _ _ hheld => hheld) ?_ (fun r _ hlocked => ?_) fun r startedAt _ hcounted => ?_
  · rcases firstPhase_eq s.clock request with hphase | hphase <;> rw [hphase]
    · exact le_rfl
    · exact Nat.zero_le _
  · rcases firstPhase_eq s.clock request with hphase | hphase <;> rw [hphase] at hlocked <;> cases hlocked
  · rcases firstPhase_eq s.clock request with hphase | hphase <;> cases hphase.symm.trans hcounted

theorem CapInv.lock (h : CapInv store s) (hstep : s.lock store id = some t) : CapInv store t := by
  rw [State.lock, Option.bind_eq_some_iff] at hstep
  obtain ⟨call, hcall, hstep⟩ := hstep
  split at hstep
  · next r startedAt hrequest hbegun =>
      rw [Option.ite_none_left_eq_some] at hstep
      obtain ⟨hfree, hstep⟩ := hstep
      cases hstep
      have hstarted := h.started id call hcall
      rw [hbegun] at hstarted
      refine h.move { call with phase := .locked startedAt } rfl rfl (fun _ => le_rfl) (fun key other hne hheld => ?_)
        hstarted (fun r' hrequest' _ => ?_) nofun
      · have hkey : key ≠ store.hashtext r.projectId := by
          rintro rfl
          rw [hheld] at hfree
          exact hfree rfl
        exact (Function.update_of_ne hkey ..).trans hheld
      · obtain rfl := Request.create.inj (hrequest.symm.trans hrequest')
        exact Function.update_self ..
  · cases hstep

theorem CapInv.count (h : CapInv store s) {now : Nat} (hstep : s.count id now = some t) : CapInv store t := by
  rw [State.count, Option.bind_eq_some_iff] at hstep
  obtain ⟨call, hcall, hstep⟩ := hstep
  split at hstep
  · next r startedAt hrequest hlocked =>
      split at hstep
      · cases hstep
        exact h.finish_same _
      · split at hstep
        · cases hstep
          exact h.finish_same _
        · next hroom =>
            cases hstep
            have hstarted := h.started id call hcall
            rw [hlocked] at hstarted
            refine h.setPhase hcall (by rw [hlocked]; rfl) (fun _ => by rw [hlocked]; rfl) fun r' at' hrequest' _ => ?_
            obtain rfl := Request.create.inj (hrequest.symm.trans hrequest')
            exact (activeCount_antitone hstarted).trans_lt (Nat.lt_of_not_le hroom)
  · cases hstep

/-- Whoever inserts a token has counted, and nobody else has counted for the project. -/
theorem CapInv.insert (h : CapInv store s) (hstep : s.insert store id = some t) : CapInv store t := by
  rw [State.insert, Option.bind_eq_some_iff] at hstep
  obtain ⟨call, hcall, hstep⟩ := hstep
  split at hstep
  · next r startedAt hrequest hcounted =>
      dsimp only at hstep
      split at hstep
      · cases hstep
        exact h.finish_same _
      · split at hstep
        · cases hstep
          exact h.finish_same _
        · split at hstep
          · cases hstep
            exact h.finish_same _
          · cases hstep
            have hended : CapInv store (s.finish id call (.ok (.created (State.createdRow store r) r.token))) := h.finish_same _
            have hroom := h.room id call r startedAt hcall hrequest hcounted
            have hheld := h.holds id call r hcall hrequest (by rw [hcounted]; rfl)
            refine ⟨fun projectId => ?_, hended.started, hended.holds, fun other found r' at' hfound hrequest' hcounted' => ?_⟩
            · refine (activeCount_concat _).trans ?_
              split
              · next hproject =>
                  rw [← hproject]
                  exact hroom
              · exact h.cap projectId
            · have hstill := hended.holds other found r' hfound hrequest' (by rw [hcounted']; rfl)
              have hne : (State.newRow store r).projectId ≠ r'.projectId := by
                intro heq
                rw [← heq] at hstill
                have hgone : (s.finish id call (.ok (.created (State.createdRow store r) r.token))).advisoryLocks
                    (store.hashtext r.projectId) = none := if_pos hheld
                cases hgone.symm.trans hstill
              refine (activeCount_concat _).trans_lt ?_
              rw [if_neg hne]
              exact hended.room other found r' at' hfound hrequest' hcounted'
  · cases hstep

theorem CapInv.select (h : CapInv store s) (hstep : s.select store id = some t) : CapInv store t := by
  rw [State.select, Option.bind_eq_some_iff] at hstep
  obtain ⟨call, hcall, hstep⟩ := hstep
  split at hstep
  · next value startedAt hrequest hbegun =>
      obtain ⟨parsed, -, hstep⟩ := Option.bind_eq_some_iff.mp hstep
      split at hstep
      · cases hstep
        exact h.finish_same _
      · next row hfound =>
          rw [Option.ite_none_left_eq_some] at hstep
          obtain ⟨-, hstep⟩ := hstep
          split at hstep
          · cases hstep
            exact h.finish_same _
          · cases hstep
            have hverified : CapInv store (s.setPhase id call (.verified startedAt row)) :=
              h.setPhase hcall (by rw [hbegun]; rfl) nofun nofun
            exact ⟨hverified.cap, hverified.started, hverified.holds, hverified.room⟩
  · cases hstep

theorem CapInv.touch (h : CapInv store s) (hstep : s.touch id = some t) : CapInv store t := by
  rw [State.touch, Option.bind_eq_some_iff] at hstep
  obtain ⟨call, hcall, hstep⟩ := hstep
  split at hstep
  · cases hstep
    exact h.finish _ fun _ => activeCount_update (fun _ => rfl) fun _ hactive => hactive
  · cases hstep

theorem CapInv.revoke (h : CapInv store s) (hstep : s.revoke id = some t) : CapInv store t := by
  rw [State.revoke, Option.bind_eq_some_iff] at hstep
  obtain ⟨call, hcall, hstep⟩ := hstep
  split at hstep
  · next projectId tokenId actorUserId startedAt hrequest hbegun =>
      split at hstep
      · cases hstep
        exact h.setPhase hcall (by rw [hbegun]; rfl) nofun nofun
      · rw [Option.ite_none_left_eq_some] at hstep
        obtain ⟨-, hstep⟩ := hstep
        cases hstep
        exact h.finish _ fun _ => activeCount_update (fun _ => rfl) fun _ hactive => absurd hactive.1 nofun
  · cases hstep

theorem CapInv.load (h : CapInv store s) (hstep : s.load id = some t) : CapInv store t := by
  rw [State.load, Option.bind_eq_some_iff] at hstep
  obtain ⟨call, hcall, hstep⟩ := hstep
  split at hstep
  · split at hstep <;> cases hstep <;> exact h.finish_same _
  · cases hstep

theorem CapInv.delete (h : CapInv store s) (hstep : s.delete id = some t) : CapInv store t := by
  rw [State.delete, Option.bind_eq_some_iff] at hstep
  obtain ⟨call, hcall, hstep⟩ := hstep
  split at hstep
  · split at hstep
    · cases hstep
      exact h.finish_same _
    · rw [Option.ite_none_left_eq_some] at hstep
      obtain ⟨-, hstep⟩ := hstep
      cases hstep
      exact h.finish _ fun _ => activeCount_filter _
  · cases hstep

theorem CapInv.fail (h : CapInv store s) (hstep : s.fail id = some t) : CapInv store t := by
  obtain ⟨call, -, rfl⟩ := Option.map_eq_some_iff.mp hstep
  exact h.finish_same _

/-- Time only takes tokens away. -/
theorem CapInv.tick (h : CapInv store s) (elapsed : Nat) : CapInv store { s with clock := s.clock + elapsed } where
  cap projectId := (activeCount_antitone (Nat.le_add_right ..)).trans (h.cap projectId)
  started id call hcall := (h.started id call hcall).trans (Nat.le_add_right ..)
  holds := h.holds
  room id call r startedAt hcall hrequest hcounted :=
    (activeCount_antitone (Nat.le_add_right ..)).trans_lt (h.room id call r startedAt hcall hrequest hcounted)

/-! ### Over whole runs -/

theorem capInv_preserved (store : ProjectAPITokenStore) : Runs.Preserved (State.step store) (CapInv store) := by
  intro s label t h hstep
  cases label with
  | begin id request => exact h.begin hstep
  | lock id => exact h.lock hstep
  | count id now => exact h.count hstep
  | insert id => exact h.insert hstep
  | select id => exact h.select hstep
  | touch id => exact h.touch hstep
  | revoke id => exact h.revoke hstep
  | load id => exact h.load hstep
  | delete id => exact h.delete hstep
  | fail id => exact h.fail hstep
  | tick elapsed =>
      cases hstep
      exact h.tick elapsed

/-- In every run of any number of calls on any projects. -/
theorem activeCount_le (store : ProjectAPITokenStore) (projects : List String) (clock : Nat) (labels : List Label)
    (s : State) (hrun : Runs.run (State.step store) (initial projects clock) labels = some s) (projectId : String) :
    activeCount s.tokens projectId s.clock ≤ MaxProjectAPITokens :=
  ((capInv_preserved store).run (capInv_initial projects clock) hrun).cap projectId

/-! Ten tokens, and an eleventh that is refused. -/

def numbered (n : Nat) : CreateProjectAPITokenRequest :=
  { exampleRequest with
    id := String.ofList (List.replicate n 'a')
    selectorBytes := UInt8.ofNat n :: List.replicate 15 7
    selectorBytes_length := rfl }

def elevenCreates : List Label :=
  (List.range 10).flatMap (fun n => [.begin n (.create (numbered n)), .lock n, .count n second, .insert n]) ++
    [.begin 10 (.create (numbered 10)), .lock 10, .count 10 second]

theorem activeCount_le_of_elevenCreates :
    ∃ s, Runs.run (State.step plainStore) (initial ["project"] second) elevenCreates = some s ∧
      activeCount s.tokens "project" s.clock = MaxProjectAPITokens ∧
      (s.calls 10).map (·.phase) = some (.ended (.error .conflict)) ∧
      activeCount s.tokens "project" s.clock ≤ MaxProjectAPITokens := by
  have hends : (Runs.run (State.step plainStore) (initial ["project"] second) elevenCreates).map
      (fun s => (activeCount s.tokens "project" s.clock, (s.calls 10).map (·.phase))) =
        some (10, some (.ended (.error .conflict))) := by decide +kernel
  obtain ⟨s, hrun, hends⟩ := Option.map_eq_some_iff.mp hends
  obtain ⟨hcount, hrefused⟩ := Prod.mk.inj hends
  exact ⟨s, hrun, hcount, hrefused, activeCount_le plainStore ["project"] second elevenCreates s hrun "project"⟩

end Transcendence.Auth.ProjectApiTokens
