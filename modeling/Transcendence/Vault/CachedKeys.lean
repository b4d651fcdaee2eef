import Transcendence.Vault.KeyOutages

/-!
# What is cached

The client accepts an answer of Vault's if its key versions are positive decimal numbers, written as Go
writes them, with the latest version among them and none above it. Whatever sets of keys are fetched,
and however the calls of `SigningKeyID` and `PublicKey` go in between, the cache has the keys of the
highest versions of the set that was fetched last. The latest version is one of them.
-/

namespace Transcendence.Vault.Keys

open Auth (keyVersion)
open History (Throughout throughout_cons throughout_nil)
open OrderedMap (get set delete)

/-! ### The client -/

/-- What Vault answers: the key texts by version. -/
structure TransitKeyResponse where
  latestVersion : Int
  keys : List (Bytes × Bytes)
  names : (keys.map (·.1)).Nodup

/-- The number that Go writes as this text, if it is positive. -/
def parseVersion (version : Bytes) : Option Nat :=
  match GoString.parseUint version 63 with
  | none => none
  | some parsed => if parsed = 0 ∨ GoString.decimal parsed ≠ version then none else some parsed

/-- The keys of the answer. A Go map has them in no particular order, so which of several invalid ones the
error names is not determined. -/
def readKeys (parseTransitEd25519PublicKey : Bytes → Except String PublicKey) (latestVersion : Int) :
    List (Bytes × Bytes) → Except String (List (Nat × PublicKey))
  | [] => .ok []
  | (version, key) :: keys =>
      match parseVersion version with
      | none => .error "invalid Transit public key version"
      | some parsed =>
          if latestVersion < parsed then .error "invalid Transit public key version"
          else
            match parseTransitEd25519PublicKey key with
            | .error error => .error ("decode Transit public key version: " ++ error)
            | .ok publicKey =>
                match readKeys parseTransitEd25519PublicKey latestVersion keys with
                | .error error => .error error
                | .ok entries => .ok ((parsed, publicKey) :: entries)

theorem parseVersion_eq_some {version : Bytes} {parsed : Nat} (h : parseVersion version = some parsed) :
    0 < parsed ∧ GoString.decimal parsed = version := by
  unfold parseVersion at h
  split at h
  · cases h
  · rw [Option.ite_none_left_eq_some, not_or, not_not] at h
    obtain ⟨⟨hpos, hdecimal⟩, hparsed⟩ := h
    rw [← Option.some.inj hparsed]
    exact ⟨Nat.pos_of_ne_zero hpos, hdecimal⟩

/-- What is read has the versions of the answer, each positive and none above the latest. -/
theorem readKeys_eq_ok {parseKey : Bytes → Except String PublicKey} {latestVersion : Int} {keys : List (Bytes × Bytes)}
    {entries : List (Nat × PublicKey)} (h : readKeys parseKey latestVersion keys = .ok entries) :
    entries.map (fun entry => GoString.decimal entry.1) = keys.map (·.1) ∧
      ∀ entry ∈ entries, 0 < entry.1 ∧ (entry.1 : Int) ≤ latestVersion := by
  induction keys generalizing entries with
  | nil =>
      cases h
      exact ⟨rfl, fun _ hentry => nomatch hentry⟩
  | cons key keys ih =>
      unfold readKeys at h
      split at h
      · cases h
      · rename_i parsed hparsed
        split at h
        · cases h
        · rename_i hle
          split at h
          · cases h
          · split at h
            · cases h
            · rename_i rest hrest
              cases h
              obtain ⟨hnames, hbounds⟩ := ih hrest
              obtain ⟨hpos, hdecimal⟩ := parseVersion_eq_some hparsed
              refine ⟨?_, List.forall_mem_cons.mpr ⟨⟨hpos, not_lt.mp hle⟩, hbounds⟩⟩
              rw [List.map_cons, List.map_cons, hnames, hdecimal]

theorem nodup_versions {entries : List (Nat × PublicKey)} {keys : List (Bytes × Bytes)} (hnames : (keys.map (·.1)).Nodup)
    (hsame : entries.map (fun entry => GoString.decimal entry.1) = keys.map (·.1)) : (entries.map (·.1)).Nodup := by
  apply List.Nodup.of_map GoString.decimal
  rw [List.map_map]
  exact hsame ▸ hnames

theorem le_toNat_latestVersion {parseKey : Bytes → Except String PublicKey} {latestVersion : Int}
    {keys : List (Bytes × Bytes)} {entries : List (Nat × PublicKey)}
    (h : readKeys parseKey latestVersion keys = .ok entries) : ∀ entry ∈ entries, entry.1 ≤ latestVersion.toNat := by
  intro entry hentry
  have hle := ((readKeys_eq_ok h).2 entry hentry).2
  omega

/-- `TransitKeyInfo` of the client. The answer's keys are decoded by packages that are not modelled. -/
def transitKeyInfo (parseTransitEd25519PublicKey : Bytes → Except String PublicKey) (response : TransitKeyResponse) :
    Except String TransitKeyInfo :=
  if response.keys = [] then .error "Transit returned no public keys"
  else if response.latestVersion ≤ 0 then .error "Transit returned no latest signing key version"
  else
    match hread : readKeys parseTransitEd25519PublicKey response.latestVersion response.keys with
    | .error error => .error error
    | .ok entries =>
        if hlatest : response.latestVersion.toNat ∈ entries.map (·.1) then
          .ok
            { latestVersion := response.latestVersion.toNat
              publicKeys := entries
              versions := nodup_versions response.names (readKeys_eq_ok hread).1
              positive := fun entry hentry => ((readKeys_eq_ok hread).2 entry hentry).1
              le_latest := le_toNat_latestVersion hread
              latest := hlatest }
        else .error "Transit latest signing key has no public key"

/-- What the client accepts has the versions of the answer. -/
theorem versions_of_transitKeyInfo {parseKey : Bytes → Except String PublicKey} {response : TransitKeyResponse}
    {info : TransitKeyInfo} (h : transitKeyInfo parseKey response = .ok info) :
    (info.latestVersion : Int) = response.latestVersion ∧
      info.publicKeys.map (fun entry => GoString.decimal entry.1) = response.keys.map (·.1) := by
  unfold transitKeyInfo at h
  split at h
  · cases h
  · split at h
    · cases h
    · rename_i hlatest
      split at h
      · cases h
      · rename_i entries hread
        split at h
        · cases h
          exact ⟨by dsimp only; omega, (readKeys_eq_ok hread).1⟩
        · cases h

/-! ### The highest versions -/

/-- In a strictly descending list, what is near the front has few entries above it. -/
theorem few_of_mem_take {n x : Nat} {xs : List Nat} (hsorted : xs.Pairwise (· > ·)) (hmem : x ∈ xs.take n) :
    (xs.filter (x < ·)).length < n := by
  induction xs generalizing n with
  | nil => simp at hmem
  | cons y ys ih =>
      obtain ⟨hhead, htail⟩ := List.pairwise_cons.mp hsorted
      cases n with
      | zero => simp at hmem
      | succ n =>
          rw [List.take_succ_cons] at hmem
          rcases List.mem_cons.mp hmem with rfl | hys
          · have hnone : (x :: ys).filter (x < ·) = [] := by
              rw [List.filter_eq_nil_iff]
              intro z hz
              rcases List.mem_cons.mp hz with rfl | hz
              · simp
              · have hlt := hhead z hz
                simp only [decide_eq_true_eq]
                omega
            rw [hnone]
            exact Nat.succ_pos n
          · have hfew := ih htail hys
            have hle := List.length_filter_le (x < ·) [y]
            rw [← List.singleton_append, List.filter_append, List.length_append]
            rw [List.length_singleton] at hle
            omega

namespace TransitKeyInfo

variable {info : TransitKeyInfo}

theorem mem_kept_iff {version : Nat} :
    version ∈ info.kept ↔ version ∈ info.publicKeys.map (·.1) ∧ info.above version < maxCachedPublicKeys := by
  refine ⟨fun hkept => ?_, fun h => mem_kept h.1 h.2⟩
  have hperm := List.perm_insertionSort (· ≥ ·) (info.publicKeys.map (·.1))
  refine ⟨hperm.mem_iff.mp (List.mem_of_mem_take hkept), ?_⟩
  have hsorted : ((info.publicKeys.map (·.1)).insertionSort (· ≥ ·)).Pairwise (· > ·) := by
    have hdescending := List.pairwise_insertionSort (· ≥ ·) (info.publicKeys.map (·.1))
    refine (hdescending.and (hperm.nodup_iff.mpr info.versions)).imp fun h => ?_
    omega
  have hfew := few_of_mem_take hsorted hkept
  rwa [(hperm.filter _).length_eq] at hfew

theorem above_latestVersion : info.above info.latestVersion = 0 := by
  rw [above, List.length_eq_zero_iff, List.filter_eq_nil_iff]
  intro version hversion
  obtain ⟨entry, hentry, rfl⟩ := List.mem_map.mp hversion
  simpa using info.le_latest entry hentry

theorem find_eq_some_iff {keyID : KeyID} {key : PublicKey} :
    info.find keyID = some key ↔ ∃ version, (version, key) ∈ info.publicKeys ∧ keyID = keyVersion version := by
  constructor
  · intro hfind
    obtain ⟨entry, hentry, rfl⟩ := Option.map_eq_some_iff.mp hfind
    have hkeyID := List.find?_some hentry
    rw [decide_eq_true_eq] at hkeyID
    exact ⟨entry.1, List.mem_of_find?_eq_some hentry, hkeyID.symm⟩
  · rintro ⟨version, hmem, rfl⟩
    cases hfind : info.publicKeys.find? fun entry => keyVersion entry.1 = keyVersion version with
    | none =>
        rw [List.find?_eq_none] at hfind
        exact absurd (decide_eq_true rfl) (hfind _ hmem)
    | some entry =>
        have hkeyID := List.find?_some hfind
        rw [decide_eq_true_eq] at hkeyID
        have hsame : entry = (version, key) :=
          List.inj_on_of_nodup_map info.versions (List.mem_of_find?_eq_some hfind) hmem (keyVersion_injective hkeyID)
        rw [find, hfind, hsame]
        rfl

/-- The keys that are installed are those of the highest versions. -/
theorem installed_eq_some_iff {keyID : KeyID} {key : PublicKey} :
    info.installed keyID = some key ↔ ∃ version, (version, key) ∈ info.publicKeys ∧ keyID = keyVersion version ∧
      info.above version < maxCachedPublicKeys := by
  constructor
  · intro hinstalled
    obtain ⟨hkept, hfind⟩ := Option.ite_none_right_eq_some.mp hinstalled
    obtain ⟨version, hversion, rfl⟩ := List.mem_map.mp hkept
    obtain ⟨version', hmem, hkeyID⟩ := find_eq_some_iff.mp hfind
    refine ⟨version', hmem, hkeyID, ?_⟩
    rw [← keyVersion_injective hkeyID]
    exact (mem_kept_iff.mp hversion).2
  · rintro ⟨version, hmem, rfl, hfew⟩
    have hkept : keyVersion version ∈ info.kept.map keyVersion :=
      List.mem_map_of_mem (mem_kept_iff.mpr ⟨List.mem_map_of_mem hmem, hfew⟩)
    rw [installed, if_pos hkept]
    exact find_eq_some_iff.mpr ⟨version, hmem, rfl⟩

theorem isSome_installed_latest : (info.installed (keyVersion info.latestVersion)).isSome := by
  obtain ⟨entry, hentry, hlatest⟩ := List.mem_map.mp info.latest
  rw [Option.isSome_iff_exists]
  refine ⟨entry.2, installed_eq_some_iff.mpr ⟨entry.1, hentry, by rw [hlatest], ?_⟩⟩
  rw [hlatest, above_latestVersion]
  decide

end TransitKeyInfo

/-! ### Over a run -/

/-- The set of keys that was fetched last; `first` is the one that was there at the start. -/
def lastFetched (first : TransitKeyInfo) (history : List Event) : TransitKeyInfo :=
  (history.findSome? fun event => match event with
    | .fetched info => some info
    | _ => none).getD first

theorem lastFetched_cons {first : TransitKeyInfo} {history : List Event} {event : Event}
    (hevent : ∀ info, event ≠ .fetched info) : lastFetched first (event :: history) = lastFetched first history := by
  unfold lastFetched
  cases event with
  | fetched info => exact absurd rfl (hevent info)
  | _ => rfl

/-- The cache has the keys of this set, and its maps are within their bounds. -/
structure Caches (info : TransitKeyInfo) (cache : KeyCache) : Prop where
  keys : cache.publicKeys = info.installed
  latest : cache.latestKeyVersion = info.latestVersion
  negative : cache.negativeKeyIDs.length ≤ maxNegativeKeyIDs
  checks : cache.unknownKeyChecks.length ≤ maxNegativeKeyIDs

theorem length_remember_le {outdated : Int → Bool} {entries after : OrderedMap KeyID Int} {keyID oldest : KeyID} {time : Int}
    (hentries : entries.length ≤ maxNegativeKeyIDs)
    (hremember : remember outdated entries keyID time oldest = some after) : after.length ≤ maxNegativeKeyIDs := by
  have hset : ∀ entries : OrderedMap KeyID Int, (set entries keyID time).length ≤ entries.length + 1 := by
    intro entries
    rw [OrderedMap.set]
    split <;> simp
  unfold remember at hremember
  have hfiltered := List.length_filter_le (fun entry : KeyID × Int => !outdated entry.2) entries
  dsimp only at hremember
  split at hremember
  · rename_i hroom
    obtain rfl := Option.some.inj hremember
    exact (hset _).trans hroom
  · split at hremember
    · rename_i holdest
      obtain rfl := Option.some.inj hremember
      obtain ⟨time', hget, -⟩ := (Option.any_eq_true _ _).mp holdest
      have hmem := OrderedMap.mem_of_get hget
      have hdeleted : (delete (entries.filter fun entry => !outdated entry.2) oldest).length <
          (entries.filter fun entry => !outdated entry.2).length := by
        rw [delete, List.length_filter_lt_length_iff_exists]
        exact ⟨_, hmem, by simp⟩
      have hle := hset (delete (entries.filter fun entry => !outdated entry.2) oldest)
      omega
    · cases hremember

section Caches

variable {info : TransitKeyInfo} {cache after : KeyCache} {keyID oldest : KeyID} {now : Int}

theorem Caches.rememberUnknownKey (h : Caches info cache) (hremember : cache.rememberUnknownKey keyID now oldest = some after) :
    Caches info after := by
  obtain ⟨entries, hentries, rfl⟩ := Option.map_eq_some_iff.mp hremember
  exact ⟨h.keys, h.latest, length_remember_le h.negative hentries, h.checks⟩

theorem Caches.rememberUnknownKeyCheck (h : Caches info cache)
    (hremember : cache.rememberUnknownKeyCheck keyID now oldest = some after) : Caches info after := by
  obtain ⟨entries, hentries, rfl⟩ := Option.map_eq_some_iff.mp hremember
  exact ⟨h.keys, h.latest, h.negative, length_remember_le h.checks hentries⟩

theorem Caches.rememberMissing (h : Caches info cache) {request : Request}
    (hremember : State.rememberMissing cache request now oldest = some after) : Caches info after := by
  unfold State.rememberMissing at hremember
  split at hremember
  · obtain rfl := Option.some.inj hremember
    exact h
  · split at hremember
    · obtain rfl := Option.some.inj hremember
      exact h
    · exact h.rememberUnknownKey hremember

theorem Caches.withRefresh (h : Caches info cache) (done : Option Nat) (error : Option String) :
    Caches info { cache with keyRefreshDone := done, keyRefreshErr := error } :=
  ⟨h.keys, h.latest, h.negative, h.checks⟩

theorem caches_installKeyInfo (info : TransitKeyInfo) (now : Int) (hchecks : cache.unknownKeyChecks.length ≤ maxNegativeKeyIDs) :
    Caches info (cache.installKeyInfo info now) :=
  ⟨rfl, rfl, Nat.zero_le _, hchecks⟩

end Caches

/-- What `SigningKeyID` returned was in the set of keys that had been fetched last. -/
def SignedCached (first : TransitKeyInfo) (event : Event) (earlier : List Event) : Prop :=
  ∀ keyID, event = .signed (.ok keyID) → ((lastFetched first earlier).installed keyID).isSome

/-- The cache has the keys of the set fetched last. -/
structure HasLast (first : TransitKeyInfo) (s : State) : Prop where
  caches : Caches (lastFetched first s.history) s.cache
  signed : Throughout (SignedCached first) s.history

section HasLast

variable {first : TransitKeyInfo} {s t : State} {id latest : Nat} {request : Request} {keyID : KeyID}

theorem HasLast.put (h : HasLast first s) (id : Nat) (request : Request) (phase : Phase) :
    HasLast first (s.put id request phase) :=
  ⟨h.caches, h.signed⟩

theorem HasLast.record (h : HasLast first s) {event : Event} (hevent : ∀ info, event ≠ .fetched info)
    (hsigned : SignedCached first event s.history) : HasLast first (s.record event) := by
  refine ⟨?_, throughout_cons.mpr ⟨hsigned, h.signed⟩⟩
  rw [State.record, lastFetched_cons hevent]
  exact h.caches

theorem HasLast.answer (h : HasLast first s) (answer : Answer) : HasLast first (s.answer id keyID latest answer) :=
  (h.put id _ _).record (fun _ heq => nomatch heq) (fun _ heq => nomatch heq)

/-- The latest version is what is signed with. -/
theorem HasLast.sign (h : HasLast first s) {result : Except String KeyID}
    (hresult : ∀ keyID, result = .ok keyID → keyID = keyVersion s.cache.latestKeyVersion) :
    HasLast first (s.sign id result) := by
  refine (h.put id _ _).record (fun _ heq => nomatch heq) fun keyID heq => ?_
  rw [hresult keyID (Event.signed.inj heq), h.caches.latest]
  exact TransitKeyInfo.isSome_installed_latest

theorem HasLast.sign_error (h : HasLast first s) (error : String) : HasLast first (s.sign id (.error error)) :=
  h.sign fun _ heq => nomatch heq

theorem HasLast.fail (h : HasLast first s) (error : String) : HasLast first (s.fail id request latest error) := by
  cases request with
  | publicKey keyID => exact h.answer _
  | signingKeyID => exact h.sign_error error

theorem HasLast.withCache (h : HasLast first s) {cache : KeyCache} (hcache : ∀ info, Caches info s.cache → Caches info cache) :
    HasLast first (s.withCache cache) :=
  ⟨hcache _ h.caches, h.signed⟩

theorem HasLast.lookupSigningKeyID (h : HasLast first s) (now : Int) : HasLast first (s.lookupSigningKeyID id now) := by
  unfold State.lookupSigningKeyID
  split
  · exact h.sign_error _
  · split
    · exact h.put _ _ _
    · exact h.sign fun _ heq => (Except.ok.inj heq).symm

theorem HasLast.lookup (h : HasLast first s) (now : Int) : HasLast first (s.lookup id keyID now) := by
  unfold State.lookup
  dsimp only
  split
  · exact h.answer _
  · split
    · exact h.answer _
    · split
      · exact h.answer _
      · split
        · exact h.answer _
        · split
          · exact h.put _ _ _
          · split
            · exact h.put _ _ _
            · exact h.put _ _ _

theorem HasLast.refresh (h : HasLast first s) {now : Int} {oldest : KeyID}
    (hstep : s.refresh id request latest now oldest = some t) : HasLast first t := by
  unfold State.refresh at hstep
  split at hstep
  · obtain rfl := Option.some.inj hstep
    exact h.put _ _ _
  · split at hstep
    · obtain rfl := Option.some.inj hstep
      exact h.put _ _ _
    · have hfetching : HasLast first ((s.withCache { s.cache with keyRefreshDone := some id }).put id request
          (.fetching latest)) := (h.withCache fun _ hcache => hcache.withRefresh _ _).put _ _ _
      dsimp only at hstep
      split at hstep
      · obtain rfl := Option.some.inj hstep
        exact hfetching
      · obtain ⟨cache, hcache, rfl⟩ := Option.map_eq_some_iff.mp hstep
        have hremembered := hfetching.withCache fun _ hcaches => hcaches.rememberUnknownKeyCheck hcache
        exact hremembered.record (fun _ heq => nomatch heq) (fun _ heq => nomatch heq)

theorem HasLast.fetched (h : HasLast first s) {reply : Except String TransitKeyInfo} {now : Int} {oldest : KeyID}
    (hstep : s.fetched id request latest reply now oldest = some t) : HasLast first t := by
  cases reply with
  | error error =>
      obtain rfl := Option.some.inj hstep
      have hfailed : HasLast first (s.withCache { s.cache with keyRefreshErr := some error, keyRefreshDone := none }) :=
        h.withCache fun _ hcache => hcache.withRefresh _ _
      have hrecorded : HasLast first ((s.withCache { s.cache with
          keyRefreshErr := some error, keyRefreshDone := none }).record .failed) :=
        hfailed.record (fun _ heq => nomatch heq) (fun _ heq => nomatch heq)
      exact hrecorded.fail error
  | ok info =>
      obtain ⟨cache, hcache, rfl⟩ := Option.map_eq_some_iff.mp hstep
      have hinstalled : Caches info cache := (caches_installKeyInfo info now h.caches.checks).rememberMissing hcache
      have hsigned : Throughout (SignedCached first) (.fetched info :: s.history) :=
        throughout_cons.mpr ⟨(fun _ heq => nomatch heq), h.signed⟩
      exact ⟨hinstalled.withRefresh none none, hsigned⟩

theorem HasLast.woken (h : HasLast first s) {now : Int} {oldest : KeyID}
    (hstep : s.woken id request latest now oldest = some t) : HasLast first t := by
  unfold State.woken at hstep
  split at hstep
  · obtain rfl := Option.some.inj hstep
    exact h.fail _
  · obtain ⟨cache, hcache, rfl⟩ := Option.map_eq_some_iff.mp hstep
    exact (h.withCache fun _ hcaches => hcaches.rememberMissing hcache).put _ _ _

theorem HasLast.look (h : HasLast first s) : HasLast first (s.look id request latest) := by
  unfold State.look
  split
  · split
    · exact h.answer _
    · exact h.answer _
  · split
    · exact h.sign_error _
    · exact h.sign fun _ heq => (Except.ok.inj heq).symm

theorem HasLast.step (h : HasLast first s) {label : Label} (hstep : s.step label = some t) : HasLast first t := by
  cases label with
  | begin id request =>
      simp only [State.step] at hstep
      split at hstep
      · obtain rfl := Option.some.inj hstep
        refine (h.put _ _ _).record ?_ ?_
        · intro info heq
          cases heq
        · intro keyID heq
          cases heq
      · obtain rfl := Option.some.inj hstep
        exact h.put _ _ _
      · cases hstep
  | lookup id now =>
      simp only [State.step] at hstep
      split at hstep
      · obtain rfl := Option.some.inj hstep
        exact h.lookup now
      · obtain rfl := Option.some.inj hstep
        exact h.lookupSigningKeyID now
      · cases hstep
  | remember id oldest =>
      simp only [State.step] at hstep
      split at hstep
      · obtain ⟨cache, hcache, rfl⟩ := Option.map_eq_some_iff.mp hstep
        exact (h.withCache fun _ hcaches => hcaches.rememberUnknownKey hcache).answer _
      · cases hstep
  | refresh id now oldest =>
      simp only [State.step] at hstep
      split at hstep
      · exact h.refresh hstep
      · cases hstep
  | fetched id reply now oldest =>
      simp only [State.step] at hstep
      split at hstep
      · exact h.fetched hstep
      · cases hstep
  | woken id now oldest =>
      simp only [State.step] at hstep
      split at hstep
      · rw [Option.ite_none_left_eq_some] at hstep
        exact h.woken hstep.2
      · cases hstep
  | cancelled id error =>
      simp only [State.step] at hstep
      split at hstep
      · obtain rfl := Option.some.inj hstep
        exact h.fail error
      · cases hstep
  | look id =>
      simp only [State.step] at hstep
      split at hstep
      · obtain rfl := Option.some.inj hstep
        exact h.look
      · cases hstep
  | stop =>
      obtain rfl := Option.some.inj hstep
      exact ⟨h.caches, h.signed⟩

theorem hasLast_started (first : TransitKeyInfo) (now : Int) : HasLast first (State.started first now) where
  caches := ⟨rfl, rfl, Nat.zero_le _, Nat.zero_le _⟩
  signed := throughout_nil

end HasLast

/-- In every run that begins with the first set of keys, the cached keys are those of the highest versions
of the set fetched last, the latest version is one of them, what `SigningKeyID` returned was cached, and
the two maps are within their bounds. -/
theorem latest_keys_cached {first : TransitKeyInfo} {now : Int} {labels : List Label} {s : State}
    (hrun : Runs.run State.step (State.started first now) labels = some s) :
    (∀ keyID key, s.cache.publicKeys keyID = some key ↔
      ∃ version, (version, key) ∈ (lastFetched first s.history).publicKeys ∧ keyID = keyVersion version ∧
        (lastFetched first s.history).above version < maxCachedPublicKeys) ∧
      s.cache.latestKeyVersion = (lastFetched first s.history).latestVersion ∧
      (s.cache.publicKeys (keyVersion s.cache.latestKeyVersion)).isSome ∧
      Throughout (SignedCached first) s.history ∧
      s.cache.negativeKeyIDs.length ≤ maxNegativeKeyIDs ∧ s.cache.unknownKeyChecks.length ≤ maxNegativeKeyIDs := by
  have hlast : HasLast first s :=
    Runs.Preserved.run (fun _ _ _ h hstep => HasLast.step h hstep) (hasLast_started first now) hrun
  have hcaches := hlast.caches
  refine ⟨fun keyID key => ?_, hcaches.latest, ?_, hlast.signed, hcaches.negative, hcaches.checks⟩
  · rw [hcaches.keys]
    exact TransitKeyInfo.installed_eq_some_iff
  · rw [hcaches.keys, hcaches.latest]
    exact TransitKeyInfo.isSome_installed_latest

/-- A key that is not known yet is asked for after a rotation, and then the id to sign with. -/
theorem latest_keys_cached_of_rotated : ∃ s, Runs.run State.step (State.started beforeRotation 0) rotated = some s ∧
    (s.cache.publicKeys (keyVersion s.cache.latestKeyVersion)).isSome := by
  obtain ⟨s, hrun⟩ : ∃ s, Runs.run State.step (State.started beforeRotation 0) rotated = some s :=
    Option.isSome_iff_exists.mp (by decide +kernel)
  exact ⟨s, hrun, (latest_keys_cached hrun).2.2.1⟩

end Transcendence.Vault.Keys
