import Transcendence.Vault.PublicKeys

/-!
# Unknown keys and outages

A key id that is ahead of the cached versions is answered to be unknown only after a set of keys
without it has been fetched, as long as two things do not happen. A call must not be answered from the
check that another call remembered before its fetch failed or ended: that check looks like one that
found nothing. And a set must not have so many newer keys that the one asked for is not kept.
-/

namespace Transcendence.Vault.Keys

open Auth (keyVersion)
open History (After Throughout after_cons throughout_cons throughout_nil)

/-! ### What is kept of a set of keys -/

/-- In a descending list, what has few entries above it is near the front. -/
theorem mem_take_of_few {n x : Nat} {xs : List Nat} (hsorted : xs.Pairwise (· ≥ ·)) (hmem : x ∈ xs)
    (hfew : (xs.filter (x < ·)).length < n) : x ∈ xs.take n := by
  induction xs generalizing n with
  | nil => cases hmem
  | cons y ys ih =>
      obtain ⟨hhead, htail⟩ := List.pairwise_cons.mp hsorted
      cases n with
      | zero => omega
      | succ n =>
          rw [List.take_succ_cons]
          by_cases hxy : x = y
          · rw [hxy]
            exact List.mem_cons_self
          · have hys : x ∈ ys := (List.mem_cons.mp hmem).resolve_left hxy
            have hlt : x < y := by
              have hle := hhead x hys
              omega
            have hfilter : (y :: ys).filter (x < ·) = y :: ys.filter (x < ·) :=
              List.filter_cons_of_pos (decide_eq_true hlt)
            rw [hfilter, List.length_cons] at hfew
            exact List.mem_cons_of_mem y (ih htail hys (by omega))

namespace TransitKeyInfo

variable {info : TransitKeyInfo}

/-- The versions of the set above this one. -/
def above (info : TransitKeyInfo) (version : Nat) : Nat :=
  ((info.publicKeys.map (·.1)).filter (version < ·)).length

theorem mem_kept {version : Nat} (hmem : version ∈ info.publicKeys.map (·.1))
    (hfew : info.above version < maxCachedPublicKeys) : version ∈ info.kept := by
  have hperm := List.perm_insertionSort (· ≥ ·) (info.publicKeys.map (·.1))
  apply mem_take_of_few (List.pairwise_insertionSort _ _) (hperm.mem_iff.mpr hmem)
  rw [(hperm.filter _).length_eq]
  exact hfew

theorem le_latest_of_mem_kept {version : Nat} (hmem : version ∈ info.kept) : version ≤ info.latestVersion := by
  have hversion := (List.mem_insertionSort (· ≥ ·)).mp (List.mem_of_mem_take hmem)
  obtain ⟨entry, hentry, rfl⟩ := List.mem_map.mp hversion
  exact info.le_latest entry hentry

end TransitKeyInfo

theorem keyVersion_injective {version version' : Nat} (h : keyVersion version = keyVersion version') :
    version = version' := by
  have hdecimal := (List.cons.inj h).2
  rw [← GoString.numberOf_decimal version, hdecimal, GoString.numberOf_decimal]

theorem eq_keyVersion {keyID : KeyID} {version : Nat} (h : transitKeyVersion keyID = some version) :
    keyID = keyVersion version := by
  unfold transitKeyVersion at h
  split at h
  · split at h
    · cases h
    · rw [Option.ite_none_left_eq_some, not_or, not_not] at h
      obtain ⟨⟨_, hkeyID⟩, hversion⟩ := h
      rw [← Option.some.inj hversion, hkeyID]
  · cases h

theorem version_le_of_installed {info : TransitKeyInfo} {keyID : KeyID} {version : Nat}
    (hversion : transitKeyVersion keyID = some version) (hinstalled : (info.installed keyID).isSome) :
    version ≤ info.latestVersion := by
  have hmem : keyID ∈ info.kept.map keyVersion := by
    by_contra hnot
    rw [TransitKeyInfo.installed, if_neg hnot] at hinstalled
    cases hinstalled
  obtain ⟨version', hkept, heq⟩ := List.mem_map.mp hmem
  rw [eq_keyVersion hversion] at heq
  rw [← keyVersion_injective heq]
  exact TransitKeyInfo.le_latest_of_mem_kept hkept

theorem installed_of_few {info : TransitKeyInfo} {keyID : KeyID} {version : Nat}
    (hversion : transitKeyVersion keyID = some version) (hfind : (info.find keyID).isSome)
    (hfew : info.above version < maxCachedPublicKeys) : (info.installed keyID).isSome := by
  obtain ⟨key, hkey⟩ := Option.isSome_iff_exists.mp hfind
  obtain ⟨entry, hentry, _⟩ := Option.map_eq_some_iff.mp hkey
  have heq := List.find?_some hentry
  rw [decide_eq_true_eq] at heq
  have hmem : version ∈ info.publicKeys.map (·.1) := by
    rw [← keyVersion_injective (heq.trans (eq_keyVersion hversion))]
    exact List.mem_map_of_mem (List.mem_of_find?_eq_some hentry)
  have hkept : keyID ∈ info.kept.map keyVersion := by
    rw [eq_keyVersion hversion]
    exact List.mem_map_of_mem (TransitKeyInfo.mem_kept hmem hfew)
  rw [TransitKeyInfo.installed, if_pos hkept]
  exact hfind

/-! ### What is remembered -/

theorem mem_remember {outdated : Int → Bool} {entries after : OrderedMap KeyID Int} {keyID oldest : KeyID} {time : Int}
    (h : remember outdated entries keyID time oldest = some after) {entry : KeyID × Int} (hentry : entry ∈ after) :
    entry.1 = keyID ∨ entry ∈ entries := by
  unfold remember at h
  dsimp only at h
  split at h
  · obtain rfl := Option.some.inj h
    cases OrderedMap.mem_of_mem_set hentry with
    | inl hold => exact .inr (List.mem_of_mem_filter hold)
    | inr hnew => exact .inl (congrArg Prod.fst hnew)
  · split at h
    · obtain rfl := Option.some.inj h
      cases OrderedMap.mem_of_mem_set hentry with
      | inl hold => exact .inr (List.mem_of_mem_filter (OrderedMap.mem_of_mem_delete hold))
      | inr hnew => exact .inl (congrArg Prod.fst hnew)
    · cases h

/-! ### What an answer has to rest on -/

/-- A set of keys has been fetched since the id was first asked for. -/
def FetchedSince (history : List Event) (keyID : KeyID) : Prop :=
  After (fun event => ∃ info, event = .fetched info) (· = .asked keyID) history

/-- And it did not contain the id. -/
def FetchedWithout (history : List Event) (keyID : KeyID) : Prop :=
  After (fun event => ∃ info, event = .fetched info ∧ info.find keyID = none) (· = .asked keyID) history

/-- The version of the id is above this one, and not too far. -/
def Ahead (latest : Nat) (keyID : KeyID) : Prop :=
  ∃ version, transitKeyVersion keyID = some version ∧ latest < version ∧ version ≤ latest + maxKeyCatchUp

/-- If the id was ahead of the cached versions, it is only unknown if a set without it has been fetched, and
unless a set has been fetched the answer is an error of the provider's, which does not make the token
invalid. -/
def Honest (event : Event) (earlier : List Event) : Prop :=
  match event with
  | .answered keyID latest answer =>
      Ahead latest keyID →
        (answer = .notFound → FetchedWithout earlier keyID) ∧
          (FetchedSince earlier keyID ∨ ∃ cause, answer.validate = .error (.dependency cause))
  | _ => True

theorem FetchedWithout.since {history : List Event} {keyID : KeyID} (h : FetchedWithout history keyID) :
    FetchedSince history keyID := by
  apply After.mono h
  · intro event hevent
    obtain ⟨info, hinfo, _⟩ := hevent
    exact ⟨info, hinfo⟩
  · exact fun _ hasked => hasked

theorem fetchedSince_cons {event : Event} {history : List Event} {keyID : KeyID} (hevent : ∀ info, event ≠ .fetched info) :
    FetchedSince (event :: history) keyID ↔ FetchedSince history keyID := by
  rw [FetchedSince, after_cons]
  constructor
  · intro h
    exact h.resolve_left fun hnew => hnew.1.elim hevent
  · exact .inr

theorem FetchedSince.asked {history : List Event} {keyID : KeyID} (h : FetchedSince history keyID) :
    Event.asked keyID ∈ history := by
  obtain ⟨old, hold, rfl⟩ := After.exists_early h
  exact hold

/-- A set fetched after the id was asked for. -/
theorem FetchedSince.of_fetched {history : List Event} {keyID : KeyID} (hasked : Event.asked keyID ∈ history)
    (info : TransitKeyInfo) : FetchedSince (.fetched info :: history) keyID :=
  after_cons.mpr (.inl ⟨⟨info, rfl⟩, _, hasked, rfl⟩)

theorem FetchedWithout.of_fetched {history : List Event} {keyID : KeyID} (hasked : Event.asked keyID ∈ history)
    {info : TransitKeyInfo} (hfind : info.find keyID = none) : FetchedWithout (.fetched info :: history) keyID :=
  after_cons.mpr (.inl ⟨⟨info, rfl, hfind⟩, _, hasked, rfl⟩)

/-! ### The invariant -/

/-- What is known about a call by its phase. -/
def PhaseOk (cache : KeyCache) (history : List Event) : Request → Phase → Prop
  | .publicKey keyID, .remembering latest _ =>
      (FetchedWithout history keyID ∨ ¬ Ahead latest keyID) ∧
        (FetchedWithout history keyID ∨ ¬ Ahead cache.latestKeyVersion keyID)
  | .publicKey keyID, .waiting _ done =>
      cache.keyRefreshDone = some done ∨ cache.keyRefreshErr.isSome ∨ FetchedSince history keyID
  | .publicKey keyID, .looking _ => FetchedSince history keyID
  | _, _ => True

structure CacheOk (cache : KeyCache) (history : List Event) : Prop where
  versions : ∀ keyID version, transitKeyVersion keyID = some version → (cache.publicKeys keyID).isSome →
    version ≤ cache.latestKeyVersion
  current : ∀ keyID version, transitKeyVersion keyID = some version → FetchedSince history keyID →
    FetchedWithout history keyID ∨ (cache.publicKeys keyID).isSome
  negative : ∀ entry ∈ cache.negativeKeyIDs, FetchedWithout history entry.1 ∨ ¬ Ahead cache.latestKeyVersion entry.1

structure Inv (s : State) : Prop where
  asked : ∀ id keyID phase, s.calls id = some ⟨.publicKey keyID, phase⟩ → .asked keyID ∈ s.history
  phase : ∀ id request phase, s.calls id = some ⟨request, phase⟩ → PhaseOk s.cache s.history request phase
  cache : CacheOk s.cache s.history
  checked : Throughout (fun event earlier => ∀ keyID, event = .checked keyID → .asked keyID ∈ earlier) s.history
  honest : Throughout Honest s.history

/-- What is known about a call is still known after some events, if what a check or a fetch leaves to be
known of its id is. -/
theorem PhaseOk.imp {cache after : KeyCache} {history : List Event} {request : Request} {phase : Phase}
    (h : PhaseOk cache history request phase) (newer : List Event)
    (hremembering : ∀ keyID, request = .publicKey keyID →
      FetchedWithout history keyID ∨ ¬ Ahead cache.latestKeyVersion keyID →
        FetchedWithout (newer ++ history) keyID ∨ ¬ Ahead after.latestKeyVersion keyID)
    (hwaiting : ∀ keyID done, request = .publicKey keyID →
      cache.keyRefreshDone = some done ∨ cache.keyRefreshErr.isSome ∨ FetchedSince history keyID →
        after.keyRefreshDone = some done ∨ after.keyRefreshErr.isSome ∨ FetchedSince (newer ++ history) keyID) :
    PhaseOk after (newer ++ history) request phase := by
  cases request with
  | signingKeyID => trivial
  | publicKey keyID =>
      cases phase with
      | remembering latest now => exact ⟨h.1.imp_left (After.append · newer), hremembering keyID rfl h.2⟩
      | waiting latest done => exact hwaiting keyID done rfl h
      | looking latest => exact After.append h newer
      | begun => trivial
      | refreshing => trivial
      | fetching => trivial
      | ended => trivial

theorem PhaseOk.record {cache : KeyCache} {history : List Event} {request : Request} {phase : Phase}
    (h : PhaseOk cache history request phase) (event : Event) : PhaseOk cache (event :: history) request phase := by
  apply h.imp [event]
  · exact fun _ _ hknown => hknown.imp_left (After.cons · event)
  · exact fun _ _ _ hwaiting => hwaiting.imp_right (Or.imp_right (After.cons · event))

variable {s : State}

/-- An event that is no fetch. -/
theorem Inv.record (h : Inv s) {event : Event} (hevent : ∀ info, event ≠ .fetched info)
    (hchecked : ∀ keyID, event = .checked keyID → .asked keyID ∈ s.history) (hhonest : Honest event s.history) :
    Inv (s.record event) where
  asked id keyID phase hcall := List.mem_cons_of_mem _ (h.asked id keyID phase hcall)
  phase id request phase hcall := (h.phase id request phase hcall).record event
  cache :=
    { versions := h.cache.versions
      current := by
        intro keyID version hversion hsince
        rw [State.record, fetchedSince_cons hevent] at hsince
        exact (h.cache.current keyID version hversion hsince).imp_left (After.cons · event)
      negative := fun entry hentry => (h.cache.negative entry hentry).imp_left (After.cons · event) }
  checked := throughout_cons.mpr ⟨hchecked, h.checked⟩
  honest := throughout_cons.mpr ⟨hhonest, h.honest⟩

/-- A call goes on, or begins. -/
theorem Inv.put (h : Inv s) {id : Nat} {request : Request} {phase : Phase}
    (hasked : ∀ keyID, request = .publicKey keyID → .asked keyID ∈ s.history)
    (hphase : PhaseOk s.cache s.history request phase) : Inv (s.put id request phase) where
  asked i keyID phase' hcall := by
    rcases Calls.update_eq_some hcall with ⟨_, hnew⟩ | ⟨_, hold⟩
    · exact hasked keyID (congrArg Calls.Call.request hnew)
    · exact h.asked i keyID phase' hold
  phase i request' phase' hcall := by
    rcases Calls.update_eq_some hcall with ⟨_, hnew⟩ | ⟨_, hold⟩
    · cases hnew
      exact hphase
    · exact h.phase i request' phase' hold
  cache := h.cache
  checked := h.checked
  honest := h.honest

/-- The cache changes, but not because of a fetch. -/
theorem Inv.withCache (h : Inv s) {cache : KeyCache} (hcache : CacheOk cache s.history)
    (hphase : ∀ request phase, PhaseOk s.cache s.history request phase → PhaseOk cache s.history request phase) :
    Inv (s.withCache cache) where
  asked := h.asked
  phase id request phase hcall := hphase request phase (h.phase id request phase hcall)
  cache := hcache
  checked := h.checked
  honest := h.honest

variable {id : Nat} {keyID : KeyID} {latest : Nat}

theorem Inv.answer (h : Inv s) (hasked : .asked keyID ∈ s.history) {answer : Answer}
    (hhonest : Honest (.answered keyID latest answer) s.history) : Inv (s.answer id keyID latest answer) := by
  have hput : Inv (s.put id (.publicKey keyID) .ended) := by
    refine h.put ?_ trivial
    intro keyID' hrequest
    cases hrequest
    exact hasked
  exact hput.record nofun nofun hhonest

theorem Inv.sign (h : Inv s) (result : Except String KeyID) : Inv (s.sign id result) := by
  have hput : Inv (s.put id .signingKeyID .ended) := h.put (fun _ hrequest => nomatch hrequest) trivial
  exact hput.record nofun nofun trivial

theorem honest_of_failed (error : String) (history : List Event) :
    Honest (.answered keyID latest (.failed error)) history :=
  fun _ => ⟨nofun, .inr ⟨_, rfl⟩⟩

theorem honest_of_notFound {history : List Event} (h : FetchedWithout history keyID ∨ ¬ Ahead latest keyID) :
    Honest (.answered keyID latest .notFound) history := by
  intro hahead
  have hwithout := h.resolve_right (not_not.mpr hahead)
  exact ⟨fun _ => hwithout, .inl hwithout.since⟩

theorem honest_of_found {history : List Event} {key : PublicKey} (h : FetchedSince history keyID ∨ ¬ Ahead latest keyID) :
    Honest (.answered keyID latest (.found key)) history := by
  intro hahead
  exact ⟨nofun, .inl (h.resolve_right (not_not.mpr hahead))⟩

theorem Inv.fail (h : Inv s) {request : Request} (hasked : ∀ keyID, request = .publicKey keyID → .asked keyID ∈ s.history)
    (error : String) : Inv (s.fail id request latest error) := by
  cases request with
  | publicKey keyID => exact h.answer (hasked keyID rfl) (honest_of_failed error s.history)
  | signingKeyID => exact h.sign _

/-! ### The steps -/

/-- The call is answered from the check that was remembered for a fetch. -/
structure AnswersFromCheck (s : State) (keyID : KeyID) (now : Int) : Prop where
  ready : s.ready = true
  missing : s.cache.publicKeys keyID = none
  notNegative : s.cache.isNegative keyID now = false
  ahead : Ahead s.cache.latestKeyVersion keyID
  isChecked : s.cache.isChecked keyID now = true

/-- No call is answered from a check before a fetch has succeeded since, and no set has so many versions
that one asked for is not kept. -/
def Clean (s : State) : Label → Prop
  | .lookup id now => ∀ keyID, s.calls id = some ⟨.publicKey keyID, .begun⟩ → AnswersFromCheck s keyID now →
      After (fun event => ∃ info, event = .fetched info) (· = .checked keyID) s.history
  | .fetched _ (.ok info) _ _ => ∀ keyID version, .asked keyID ∈ s.history → transitKeyVersion keyID = some version →
      (info.find keyID).isSome → info.above version < maxCachedPublicKeys
  | _ => True

/-- A key that is not cached after a fetch was not in the set. -/
theorem Inv.known_of_missing (h : Inv s) (hsince : FetchedSince s.history keyID)
    (hmissing : (s.cache.publicKeys keyID).isSome = false) (latest : Nat) :
    FetchedWithout s.history keyID ∨ ¬ Ahead latest keyID := by
  by_cases hahead : Ahead latest keyID
  · obtain ⟨version, hversion, _⟩ := hahead
    have hcurrent := h.cache.current keyID version hversion hsince
    rw [hmissing] at hcurrent
    exact .inl (hcurrent.resolve_right Bool.false_ne_true)
  · exact .inr hahead

theorem Inv.known_of_check (h : Inv s) {now : Int} (hcheck : AnswersFromCheck s keyID now)
    (hfetched : After (fun event => ∃ info, event = .fetched info) (· = .checked keyID) s.history) :
    FetchedWithout s.history keyID := by
  have hsince : FetchedSince s.history keyID := by
    apply After.trans hfetched
    intro after event before heq hchecked
    exact ⟨_, h.checked after event before heq keyID hchecked, rfl⟩
  have hmissing : (s.cache.publicKeys keyID).isSome = false := by rw [hcheck.missing]; rfl
  exact (h.known_of_missing hsince hmissing _).resolve_right (not_not.mpr hcheck.ahead)

theorem not_ahead_of_le {version : Nat} (hversion : transitKeyVersion keyID = some version)
    (hfar : version ≤ latest ∨ latest + maxKeyCatchUp < version) : ¬ Ahead latest keyID := by
  intro hahead
  obtain ⟨version', hversion', hlt, hle⟩ := hahead
  obtain rfl := Option.some.inj (hversion.symm.trans hversion')
  omega

theorem Inv.lookup (h : Inv s) (hcall : s.calls id = some ⟨.publicKey keyID, .begun⟩) {now : Int}
    (hclean : AnswersFromCheck s keyID now →
      After (fun event => ∃ info, event = .fetched info) (· = .checked keyID) s.history) :
    Inv (s.lookup id keyID now) := by
  have hasked := h.asked id keyID .begun hcall
  have hput : ∀ phase, PhaseOk s.cache s.history (.publicKey keyID) phase → Inv (s.put id (.publicKey keyID) phase) := by
    intro phase hphase
    refine h.put ?_ hphase
    intro keyID' hrequest
    cases hrequest
    exact hasked
  unfold State.lookup
  dsimp only
  split
  · exact h.answer hasked (honest_of_failed _ _)
  · case isFalse hready =>
      split
      · case h_1 hversion =>
          apply h.answer hasked
          apply honest_of_notFound
          refine .inr fun hahead => ?_
          obtain ⟨version, hsome, _⟩ := hahead
          rw [hversion] at hsome
          cases hsome
      · case h_2 version hversion =>
          split
          · case h_1 key hkey =>
              apply h.answer hasked
              apply honest_of_found
              exact .inr (not_ahead_of_le hversion
                (.inl (h.cache.versions keyID version hversion (Option.isSome_of_eq_some hkey))))
          · case h_2 hmissing =>
              split
              · case isTrue hnegative =>
                  apply h.answer hasked
                  apply honest_of_notFound
                  obtain ⟨expiry, hexpiry, _⟩ := (Option.any_eq_true _ _).mp hnegative
                  exact h.cache.negative _ (OrderedMap.mem_of_get hexpiry)
              · case isFalse hnegative =>
                  split
                  · case isTrue hfar =>
                      have hnot := not_ahead_of_le hversion hfar.2
                      exact hput _ ⟨.inr hnot, .inr hnot⟩
                  · split
                    · case isTrue hchecked =>
                        have hknown : FetchedWithout s.history keyID ∨ ¬ Ahead s.cache.latestKeyVersion keyID := by
                          by_cases hahead : Ahead s.cache.latestKeyVersion keyID
                          · have hcheck : AnswersFromCheck s keyID now :=
                              ⟨by simpa using hready, hmissing, by simpa using hnegative, hahead, hchecked⟩
                            exact .inl (h.known_of_check hcheck (hclean hcheck))
                          · exact .inr hahead
                        exact hput _ ⟨hknown, hknown⟩
                    · exact hput _ trivial

/-- An id is added to the unknown ones. -/
theorem Inv.rememberUnknownKey (h : Inv s) {now : Int} {oldest : KeyID} {cache : KeyCache}
    (hremember : s.cache.rememberUnknownKey keyID now oldest = some cache)
    (hknown : FetchedWithout s.history keyID ∨ ¬ Ahead s.cache.latestKeyVersion keyID) : Inv (s.withCache cache) := by
  obtain ⟨entries, hentries, rfl⟩ := Option.map_eq_some_iff.mp hremember
  refine h.withCache ⟨h.cache.versions, h.cache.current, ?_⟩ ?_
  · intro entry hentry
    cases mem_remember hentries hentry with
    | inl hnew =>
        rw [hnew]
        exact hknown
    | inr hold => exact h.cache.negative entry hold
  · intro request phase hphase
    exact hphase

/-- A fetch is started. -/
theorem Inv.startRefresh (h : Inv s) (hnone : s.cache.keyRefreshDone = none) (id : Nat)
    (checks : OrderedMap KeyID Int) :
    Inv (s.withCache { s.cache with keyRefreshDone := some id, unknownKeyChecks := checks }) := by
  refine h.withCache ⟨h.cache.versions, h.cache.current, h.cache.negative⟩ ?_
  intro request phase hphase
  apply hphase.imp []
  · exact fun _ _ hknown => hknown
  · exact fun _ _ _ hwaiting => .inr (hwaiting.resolve_left fun heq => nomatch hnone.symm.trans heq)

theorem Inv.asked_of_call (h : Inv s) {request : Request} {phase : Phase} (hcall : s.calls id = some ⟨request, phase⟩)
    (keyID : KeyID) (hrequest : request = .publicKey keyID) : .asked keyID ∈ s.history := by
  subst hrequest
  exact h.asked id keyID phase hcall

theorem Inv.refresh (h : Inv s) {request : Request} (hcall : s.calls id = some ⟨request, .refreshing latest⟩) {now : Int}
    {oldest : KeyID} {t : State} (hstep : s.refresh id request latest now oldest = some t) : Inv t := by
  have hasked := h.asked_of_call hcall
  unfold State.refresh at hstep
  split at hstep
  · case isTrue hfresh =>
      obtain rfl := Option.some.inj hstep
      obtain ⟨rfl, _⟩ := hfresh
      exact h.put hasked trivial
  · split at hstep
    · case h_1 done hdone =>
        obtain rfl := Option.some.inj hstep
        refine h.put hasked ?_
        cases request with
        | signingKeyID => trivial
        | publicKey keyID => exact .inl hdone
    · case h_2 hnone =>
        cases request with
        | signingKeyID =>
            obtain rfl := Option.some.inj hstep
            exact (h.startRefresh hnone id s.cache.unknownKeyChecks).put hasked trivial
        | publicKey keyID =>
            obtain ⟨cache, hcache, rfl⟩ := Option.map_eq_some_iff.mp hstep
            obtain ⟨entries, _, rfl⟩ := Option.map_eq_some_iff.mp hcache
            have hput : Inv ((s.withCache { s.cache with keyRefreshDone := some id, unknownKeyChecks := entries }).put id
                (.publicKey keyID) (.fetching latest)) :=
              (h.startRefresh hnone id entries).put hasked trivial
            refine hput.record (fun _ heq => nomatch heq) ?_ trivial
            intro keyID' heq
            cases heq
            exact hasked keyID rfl

/-- A set of keys is installed. -/
theorem Inv.install (h : Inv s) (info : TransitKeyInfo) (now : Int)
    (hclean : ∀ keyID version, .asked keyID ∈ s.history → transitKeyVersion keyID = some version →
      (info.find keyID).isSome → info.above version < maxCachedPublicKeys) :
    Inv ((s.withCache { s.cache.installKeyInfo info now with keyRefreshErr := none, keyRefreshDone := none }).record
      (.fetched info)) := by
  have hcurrent : ∀ keyID version, transitKeyVersion keyID = some version → .asked keyID ∈ s.history →
      FetchedWithout (.fetched info :: s.history) keyID ∨ (info.installed keyID).isSome := by
    intro keyID version hversion hasked
    cases hfind : info.find keyID with
    | none => exact .inl (.of_fetched hasked hfind)
    | some key =>
        have hfound : (info.find keyID).isSome := Option.isSome_of_eq_some hfind
        exact .inr (installed_of_few hversion hfound (hclean keyID version hasked hversion hfound))
  have hasked : ∀ keyID, FetchedSince (.fetched info :: s.history) keyID → .asked keyID ∈ s.history := by
    intro keyID hsince
    exact (List.mem_cons.mp hsince.asked).resolve_left nofun
  constructor
  · intro id keyID phase hcall
    exact List.mem_cons_of_mem _ (h.asked id keyID phase hcall)
  · intro id request phase hcall
    apply (h.phase id request phase hcall).imp [.fetched info]
    · intro keyID hrequest _
      subst hrequest
      by_cases hahead : Ahead info.latestVersion keyID
      · obtain ⟨version, hversion, hlt, _⟩ := hahead
        refine .inl ((hcurrent keyID version hversion (h.asked id keyID phase hcall)).resolve_right fun hinstalled => ?_)
        have hle := version_le_of_installed hversion hinstalled
        omega
      · exact .inr hahead
    · intro keyID done hrequest _
      subst hrequest
      exact .inr (.inr (.of_fetched (h.asked id keyID phase hcall) info))
  · refine ⟨fun keyID version hversion => version_le_of_installed hversion, ?_, fun _ hentry => nomatch hentry⟩
    intro keyID version hversion hsince
    exact hcurrent keyID version hversion (hasked keyID hsince)
  · exact throughout_cons.mpr ⟨nofun, h.checked⟩
  · exact throughout_cons.mpr ⟨trivial, h.honest⟩

theorem Inv.rememberMissing (h : Inv s) {request : Request} {now : Int} {oldest : KeyID} {cache : KeyCache}
    (hremember : State.rememberMissing s.cache request now oldest = some cache)
    (hsince : ∀ keyID, request = .publicKey keyID → FetchedSince s.history keyID) : Inv (s.withCache cache) := by
  unfold State.rememberMissing at hremember
  split at hremember
  · obtain rfl := Option.some.inj hremember
    exact h
  · case h_2 keyID =>
      split at hremember
      · obtain rfl := Option.some.inj hremember
        exact h
      · case isFalse hmissing =>
          exact h.rememberUnknownKey hremember
            (h.known_of_missing (hsince keyID rfl) (Bool.eq_false_of_not_eq_true hmissing) _)

theorem Inv.fetched (h : Inv s) {request : Request} (hcall : s.calls id = some ⟨request, .fetching latest⟩)
    {reply : Except String TransitKeyInfo} {now : Int} {oldest : KeyID}
    (hclean : Clean s (.fetched id reply now oldest)) {t : State}
    (hstep : s.fetched id request latest reply now oldest = some t) : Inv t := by
  have hasked := h.asked_of_call hcall
  cases reply with
  | error error =>
      obtain rfl := Option.some.inj hstep
      have hfailed : Inv (s.withCache { s.cache with keyRefreshErr := some error, keyRefreshDone := none }) := by
        refine h.withCache ⟨h.cache.versions, h.cache.current, h.cache.negative⟩ ?_
        intro request phase hphase
        apply hphase.imp []
        · exact fun _ _ hknown => hknown
        · exact fun _ _ _ _ => .inr (.inl rfl)
      have hrecorded : Inv ((s.withCache { s.cache with
          keyRefreshErr := some error, keyRefreshDone := none }).record .failed) :=
        hfailed.record (fun _ heq => nomatch heq) (fun _ heq => nomatch heq) trivial
      exact hrecorded.fail (fun keyID hrequest => List.mem_cons_of_mem _ (hasked keyID hrequest)) error
  | ok info =>
      obtain ⟨cache, hcache, rfl⟩ := Option.map_eq_some_iff.mp hstep
      have hinstalled := h.install info now hclean
      have hremember : State.rememberMissing
          { s.cache.installKeyInfo info now with keyRefreshErr := none, keyRefreshDone := none } request now oldest =
            some { cache with keyRefreshErr := none, keyRefreshDone := none } := by
        unfold State.rememberMissing at hcache ⊢
        split at hcache
        · obtain rfl := Option.some.inj hcache
          rfl
        · split at hcache
          · case isTrue hkey =>
              obtain rfl := Option.some.inj hcache
              exact if_pos hkey
          · case isFalse hkey =>
              obtain ⟨entries, hentries, rfl⟩ := Option.map_eq_some_iff.mp hcache
              exact (if_neg hkey).trans (Option.map_eq_some_iff.mpr ⟨entries, hentries, rfl⟩)
      have hsince : ∀ keyID, request = .publicKey keyID → FetchedSince (.fetched info :: s.history) keyID :=
        fun keyID hrequest => .of_fetched (hasked keyID hrequest) info
      have hremembered := hinstalled.rememberMissing hremember hsince
      refine hremembered.put (fun keyID hrequest => List.mem_cons_of_mem _ (hasked keyID hrequest)) ?_
      cases request with
      | signingKeyID => trivial
      | publicKey keyID => exact hsince keyID rfl

theorem Inv.woken (h : Inv s) {request : Request} {done : Nat} (hcall : s.calls id = some ⟨request, .waiting latest done⟩)
    (hdone : s.cache.keyRefreshDone ≠ some done) {now : Int} {oldest : KeyID} {t : State}
    (hstep : s.woken id request latest now oldest = some t) : Inv t := by
  have hasked := h.asked_of_call hcall
  unfold State.woken at hstep
  split at hstep
  · obtain rfl := Option.some.inj hstep
    exact h.fail hasked _
  · case h_2 herr =>
      obtain ⟨cache, hcache, rfl⟩ := Option.map_eq_some_iff.mp hstep
      have hsince : ∀ keyID, request = .publicKey keyID → FetchedSince s.history keyID := by
        intro keyID hrequest
        subst hrequest
        have hphase := (h.phase id _ _ hcall).resolve_left hdone
        rw [herr] at hphase
        exact hphase.resolve_left Bool.false_ne_true
      refine (h.rememberMissing hcache hsince).put hasked ?_
      cases request with
      | signingKeyID => trivial
      | publicKey keyID => exact hsince keyID rfl

theorem Inv.look (h : Inv s) {request : Request} (hcall : s.calls id = some ⟨request, .looking latest⟩) :
    Inv (s.look id request latest) := by
  unfold State.look
  split
  · case h_1 keyID =>
      have hasked := h.asked id keyID _ hcall
      have hsince : FetchedSince s.history keyID := h.phase id _ _ hcall
      split
      · case h_1 hmissing =>
          apply h.answer hasked
          apply honest_of_notFound
          apply h.known_of_missing hsince
          rw [hmissing]
          rfl
      · exact h.answer hasked (honest_of_found (.inl hsince))
  · split
    · exact h.sign _
    · exact h.sign _

theorem Inv.step (h : Inv s) {label : Label} (hclean : Clean s label) {t : State} (hstep : s.step label = some t) :
    Inv t := by
  cases label with
  | begin id request =>
      simp only [State.step] at hstep
      split at hstep
      · case h_1 keyID _ =>
          obtain rfl := Option.some.inj hstep
          have hrecord : Inv (s.record (.asked keyID)) :=
            h.record (fun _ heq => nomatch heq) (fun _ heq => nomatch heq) trivial
          show Inv ((s.record (.asked keyID)).put id (.publicKey keyID) .begun)
          refine hrecord.put ?_ trivial
          intro keyID' heq
          cases heq
          exact List.mem_cons_self
      · obtain rfl := Option.some.inj hstep
        exact h.put (fun _ heq => nomatch heq) trivial
      · cases hstep
  | lookup id now =>
      simp only [State.step] at hstep
      split at hstep
      · case h_1 keyID hcall =>
          obtain rfl := Option.some.inj hstep
          exact h.lookup hcall (hclean keyID hcall)
      · case h_2 hcall =>
          obtain rfl := Option.some.inj hstep
          unfold State.lookupSigningKeyID
          split
          · exact h.sign _
          · split
            · exact h.put (fun _ heq => nomatch heq) trivial
            · exact h.sign _
      · cases hstep
  | remember id oldest =>
      simp only [State.step] at hstep
      split at hstep
      · case h_1 keyID latest now hcall =>
          obtain ⟨cache, hcache, rfl⟩ := Option.map_eq_some_iff.mp hstep
          have hphase := h.phase id _ _ hcall
          exact (h.rememberUnknownKey hcache hphase.2).answer (h.asked id keyID _ hcall) (honest_of_notFound hphase.1)
      · cases hstep
  | refresh id now oldest =>
      simp only [State.step] at hstep
      split at hstep
      · case h_1 request latest hcall => exact h.refresh hcall hstep
      · cases hstep
  | fetched id reply now oldest =>
      simp only [State.step] at hstep
      split at hstep
      · case h_1 request latest hcall => exact h.fetched hcall hclean hstep
      · cases hstep
  | woken id now oldest =>
      simp only [State.step] at hstep
      split at hstep
      · case h_1 request latest done hcall =>
          rw [Option.ite_none_left_eq_some] at hstep
          exact h.woken hcall hstep.1 hstep.2
      · cases hstep
  | cancelled id error =>
      simp only [State.step] at hstep
      split at hstep
      · case h_1 request latest done hcall =>
          obtain rfl := Option.some.inj hstep
          exact h.fail (h.asked_of_call hcall) error
      · cases hstep
  | look id =>
      simp only [State.step] at hstep
      split at hstep
      · case h_1 request latest hcall =>
          obtain rfl := Option.some.inj hstep
          exact h.look hcall
      · cases hstep
  | stop =>
      obtain rfl := Option.some.inj hstep
      exact ⟨h.asked, h.phase, h.cache, h.checked, h.honest⟩

theorem Inv.started (info : TransitKeyInfo) (now : Int) : Inv (State.started info now) where
  asked _ _ _ hcall := nomatch hcall
  phase _ _ _ hcall := nomatch hcall
  cache :=
    { versions := fun _ _ hversion => version_le_of_installed hversion
      current := fun _ _ _ hsince => absurd hsince History.not_after_nil
      negative := fun _ hentry => nomatch hentry }
  checked := throughout_nil
  honest := throughout_nil

def oldKey : PublicKey :=
  ⟨List.replicate 32 1, rfl⟩

def newKey : PublicKey :=
  ⟨List.replicate 32 2, rfl⟩

def beforeRotation : TransitKeyInfo :=
  ⟨1, [(1, oldKey)], by decide, by decide, by decide, by decide⟩

def afterRotation : TransitKeyInfo :=
  ⟨2, [(1, oldKey), (2, newKey)], by decide, by decide, by decide, by decide⟩

/-- `v2` is asked for and fetched. -/
def rotated : List Label :=
  [.begin 0 (.publicKey (keyVersion 2)), .lookup 0 second, .refresh 0 second [], .fetched 0 (.ok afterRotation) second [],
    .look 0]

/-- Vault cannot be reached when `v2` is asked for, and ten seconds later it is asked for again. -/
def sealed : List Label :=
  [.begin 0 (.publicKey (keyVersion 2)), .lookup 0 second, .refresh 0 second [],
    .fetched 0 (.error "Vault returned HTTP 503") second [],
    .begin 1 (.publicKey (keyVersion 2)), .lookup 1 (11 * second), .remember 1 []]

end Transcendence.Vault.Keys
