import Transcendence.Base.FixedWindows
import Transcendence.Base.OrderedMap

/-!
# The rate limiter of the authentication service

`FixedWindowLimiter` of `src/auth/internal/middleware/rate_limiter.go`. Times are nanoseconds. `Allow`
holds the mutex throughout, so the calls come one after another. A Go map is swept in no particular
order, which nothing here depends on.

`Traffic` remembers which calls were admitted, and in which window: the one that the key has afterwards.
-/

namespace Transcendence.Auth.RateLimiter

open FixedWindows OrderedMap

def minDuration : Int :=
  -2 ^ 63

def maxDuration : Int :=
  2 ^ 63 - 1

abbrev Duration :=
  { d : Int // minDuration ≤ d ∧ d ≤ maxDuration }

/-- `Time.Sub`, which saturates. -/
def sub (t u : Int) : Int :=
  max minDuration (min (t - u) maxDuration)

structure WindowCounter where
  start : Int
  count : Nat
  deriving DecidableEq

structure FixedWindowLimiter where
  limit : Nat
  window : Duration
  maxEntries : Nat
  entries : OrderedMap String WindowCounter

def NewFixedWindowLimiter (limit : Nat) (window : Duration) (maxEntries : Nat) : FixedWindowLimiter where
  limit := limit
  window := window
  maxEntries := maxEntries
  entries := []

namespace FixedWindowLimiter

def expired (l : FixedWindowLimiter) (now : Int) (entry : WindowCounter) : Bool :=
  l.window ≤ sub now entry.start

def removeExpired (l : FixedWindowLimiter) (now : Int) : FixedWindowLimiter :=
  { l with entries := l.entries.filter fun entry => !l.expired now entry.2 }

/-- The part of `Allow` for a key without an entry. -/
def addEntry (l : FixedWindowLimiter) (key : String) (now : Int) : Bool × FixedWindowLimiter :=
  let l := if l.maxEntries ≤ l.entries.length then l.removeExpired now else l
  if l.maxEntries ≤ l.entries.length then (false, l)
  else (true, { l with entries := set l.entries key ⟨now, 1⟩ })

def Allow (l : FixedWindowLimiter) (key : String) (now : Int) : Bool × FixedWindowLimiter :=
  match get l.entries key with
  | none => l.addEntry key now
  | some entry =>
      if l.expired now entry then { l with entries := delete l.entries key }.addEntry key now
      else if l.limit ≤ entry.count then (false, l)
      else (true, { l with entries := set l.entries key { entry with count := entry.count + 1 } })

end FixedWindowLimiter

structure Call where
  key : String
  now : Int
  deriving DecidableEq

structure Traffic where
  limiter : FixedWindowLimiter
  admitted : List (Admission String)

namespace Traffic

def call (s : Traffic) (c : Call) : Traffic :=
  let (allowed, limiter) := s.limiter.Allow c.key c.now
  if allowed then
    { limiter, admitted := ⟨c.key, ((get limiter.entries c.key).map (·.start)).getD c.now, c.now⟩ :: s.admitted }
  else { s with limiter }

def after (limiter : FixedWindowLimiter) (calls : List Call) : Traffic :=
  calls.foldl call ⟨limiter, []⟩

end Traffic

/-! ### What a call can do -/

/-- The window takes in the time. -/
def WindowCounter.Live (window : Duration) (now : Int) (entry : WindowCounter) : Prop :=
  now < entry.start + window

/-- The key has a live window. -/
def FixedWindowLimiter.HasLive (l : FixedWindowLimiter) (key : String) (now : Int) : Prop :=
  ∃ entry, get l.entries key = some entry ∧ entry.Live l.window now

/-- Entries are forgotten, none of them live. -/
def Swept (l : FixedWindowLimiter) (now : Int) (entries : OrderedMap String WindowCounter) : Prop :=
  ∃ keep : String × WindowCounter → Bool, entries = l.entries.filter keep ∧
    ∀ entry ∈ l.entries, entry.2.Live l.window now → keep entry

inductive Allowed (l : FixedWindowLimiter) (key : String) (now : Int) : Bool × FixedWindowLimiter → Prop where
  | full {entry : WindowCounter} (hget : get l.entries key = some entry) (hlive : entry.Live l.window now)
      (hcount : l.limit ≤ entry.count) : Allowed l key now (false, l)
  | counted {entry : WindowCounter} (hget : get l.entries key = some entry) (hlive : entry.Live l.window now)
      (hcount : entry.count < l.limit) :
      Allowed l key now (true, { l with entries := set l.entries key { entry with count := entry.count + 1 } })
  | opened {entries : OrderedMap String WindowCounter} (hnone : ¬l.HasLive key now) (hswept : Swept l now entries)
      (hget : get entries key = none) (hroom : entries.length < l.maxEntries) :
      Allowed l key now (true, { l with entries := set entries key ⟨now, 1⟩ })
  | crowded {entries : OrderedMap String WindowCounter} (hnone : ¬l.HasLive key now) (hswept : Swept l now entries)
      (hlive : ∀ entry ∈ entries, entry.2.Live l.window now) (hcrowded : l.maxEntries ≤ entries.length) :
      Allowed l key now (false, { l with entries })

variable {l : FixedWindowLimiter} {key : String} {now : Int}

theorem le_sub_iff {window : Duration} (hwindow : 0 < window.1) (t u : Int) : window ≤ sub t u ↔ window ≤ t - u := by
  have := window.2.1
  have := window.2.2
  simp only [sub, minDuration, maxDuration] at *
  omega

theorem expired_iff (hwindow : 0 < l.window.1) (now : Int) (entry : WindowCounter) :
    l.expired now entry = true ↔ ¬entry.Live l.window now := by
  rw [FixedWindowLimiter.expired, decide_eq_true_iff, le_sub_iff hwindow, WindowCounter.Live]
  omega

theorem Swept.refl (l : FixedWindowLimiter) (now : Int) : Swept l now l.entries :=
  ⟨fun _ => true, by simp, fun _ _ _ => rfl⟩

theorem Swept.mem {entries : OrderedMap String WindowCounter} (h : Swept l now entries) {entry : String × WindowCounter}
    (hmem : entry ∈ entries) : entry ∈ l.entries := by
  obtain ⟨keep, rfl, -⟩ := h
  exact List.mem_of_mem_filter hmem

theorem Swept.length_le {entries : OrderedMap String WindowCounter} (h : Swept l now entries) :
    entries.length ≤ l.entries.length := by
  obtain ⟨keep, rfl, -⟩ := h
  exact List.length_filter_le _ _

theorem Swept.get_of_live {entries : OrderedMap String WindowCounter} (h : Swept l now entries) {other : String}
    {entry : WindowCounter} (hget : get l.entries other = some entry) (hlive : entry.Live l.window now) :
    get entries other = some entry := by
  obtain ⟨keep, rfl, hkeep⟩ := h
  exact get_filter_of_get hget (hkeep (other, entry) (mem_of_get hget) hlive)

/-- A key without an entry, after its own has been forgotten if it had one. -/
theorem allowed_addEntry (hwindow : 0 < l.window.1) {entries : OrderedMap String WindowCounter} (hnone : ¬l.HasLive key now)
    (hswept : Swept l now entries) (hget : get entries key = none) :
    Allowed l key now ({ l with entries }.addEntry key now) := by
  rw [FixedWindowLimiter.addEntry]
  dsimp only
  by_cases hfull : l.maxEntries ≤ entries.length
  · have hsweptAll : Swept l now (entries.filter fun entry => !l.expired now entry.2) := by
      obtain ⟨keep, rfl, hkeep⟩ := hswept
      refine ⟨fun entry => !l.expired now entry.2 && keep entry, List.filter_filter, fun entry hentry hlive => ?_⟩
      have hexpired : l.expired now entry.2 = false := by
        rw [Bool.eq_false_iff, ne_eq, expired_iff hwindow]
        exact not_not_intro hlive
      simp only [hexpired, hkeep entry hentry hlive, Bool.not_false, Bool.and_self]
    have hremoved : { l with entries }.removeExpired now =
        { l with entries := entries.filter fun entry => !l.expired now entry.2 } := rfl
    rw [if_pos hfull, hremoved]
    by_cases hcrowded : l.maxEntries ≤ (entries.filter fun entry => !l.expired now entry.2).length
    · rw [if_pos hcrowded]
      refine .crowded hnone hsweptAll (fun entry hentry => ?_) hcrowded
      have hkept := (List.mem_filter.mp hentry).2
      by_contra hdead
      rw [(expired_iff hwindow now entry.2).mpr hdead] at hkept
      cases hkept
    · rw [if_neg hcrowded]
      exact .opened hnone hsweptAll (get_filter_of_none hget) (not_le.mp hcrowded)
  · rw [if_neg hfull, if_neg hfull]
    exact .opened hnone hswept hget (not_le.mp hfull)

theorem allowed_Allow (hwindow : 0 < l.window.1) (hunique : UniqueKeys l.entries) (key : String) (now : Int) :
    Allowed l key now (l.Allow key now) := by
  rw [FixedWindowLimiter.Allow]
  split
  · rename_i hget
    refine allowed_addEntry hwindow ?_ (Swept.refl l now) hget
    rintro ⟨entry, hentry, -⟩
    cases hget.symm.trans hentry
  · rename_i entry hget
    by_cases hexpired : l.expired now entry = true
    · rw [if_pos hexpired]
      have hdead := (expired_iff hwindow now entry).mp hexpired
      have hnone : ¬l.HasLive key now := by
        rintro ⟨other, hother, hlive⟩
        obtain rfl := Option.some.inj (hget.symm.trans hother)
        exact hdead hlive
      refine allowed_addEntry hwindow hnone ⟨_, rfl, fun other hother hlive => ?_⟩ (get_delete_self l.entries key)
      rw [decide_eq_true_iff]
      rintro rfl
      exact hnone ⟨other.2, get_of_mem hunique hother, hlive⟩
    · rw [if_neg hexpired]
      have hlive : entry.Live l.window now := by
        rw [expired_iff hwindow, not_not] at hexpired
        exact hexpired
      split
      · rename_i hcount
        exact .full hget hlive hcount
      · rename_i hcount
        exact .counted hget hlive (not_le.mp hcount)

/-! ### What holds after any calls -/

/-- `latest` is the time of the last call. -/
structure Inv (limit : Nat) (window : Duration) (maxEntries : Nat) (latest : Int) (s : Traffic) : Prop where
  limit_eq : s.limiter.limit = limit
  window_eq : s.limiter.window = window
  maxEntries_eq : s.limiter.maxEntries = maxEntries
  unique : UniqueKeys s.limiter.entries
  bounded : s.limiter.entries.length ≤ maxEntries
  windowed : Windowed limit window.1 s.admitted
  /-- An entry counts the admissions of its window. -/
  counts : ∀ key entry, get s.limiter.entries key = some entry →
    entry.count = inWindow s.admitted key entry.start ∧ entry.count ≤ limit ∧ entry.start ≤ latest
  /-- The window of an entry is the last one of its key. -/
  last : ∀ key entry, get s.limiter.entries key = some entry → ∀ a ∈ s.admitted, a.key = key →
    a.start = entry.start ∨ a.start + window.1 ≤ entry.start
  /-- What was admitted is counted by an entry until its window has ended. -/
  known : ∀ a ∈ s.admitted, a.start + window.1 ≤ latest ∨
    ∃ entry, get s.limiter.entries a.key = some entry ∧ entry.start = a.start

section Inv

variable {limit maxEntries : Nat} {window : Duration} {latest : Int} {s : Traffic}

theorem inv_new (limit : Nat) (window : Duration) (maxEntries : Nat) (latest : Int) :
    Inv limit window maxEntries latest ⟨NewFixedWindowLimiter limit window maxEntries, []⟩ where
  limit_eq := rfl
  window_eq := rfl
  maxEntries_eq := rfl
  unique := List.nodup_nil
  bounded := Nat.zero_le _
  windowed := windowed_nil
  counts _ _ hget := nomatch hget
  last _ _ hget := nomatch hget
  known _ ha := nomatch ha

/-- Forgetting entries that are not live loses no count that matters. -/
theorem Inv.sweep (h : Inv limit window maxEntries latest s) (hlatest : latest ≤ now)
    {entries : OrderedMap String WindowCounter} (hswept : Swept s.limiter now entries) :
    Inv limit window maxEntries now { s with limiter := { s.limiter with entries } } := by
  have hunique : UniqueKeys entries := by
    obtain ⟨keep, rfl, -⟩ := hswept
    exact uniqueKeys_filter h.unique keep
  have hold : ∀ {key entry}, get entries key = some entry → get s.limiter.entries key = some entry :=
    fun hget => get_of_mem h.unique (hswept.mem (mem_of_get hget))
  refine ⟨h.limit_eq, h.window_eq, h.maxEntries_eq, hunique, hswept.length_le.trans h.bounded, h.windowed, ?_, ?_, ?_⟩
  · intro key entry hget
    obtain ⟨hcount, hcapped, hstart⟩ := h.counts key entry (hold hget)
    exact ⟨hcount, hcapped, hstart.trans hlatest⟩
  · intro key entry hget
    exact h.last key entry (hold hget)
  · intro a ha
    rcases h.known a ha with hended | ⟨entry, hget, hstart⟩
    · exact .inl (hended.trans hlatest)
    · by_cases hlive : entry.Live s.limiter.window now
      · exact .inr ⟨entry, hswept.get_of_live hget hlive, hstart⟩
      · rw [WindowCounter.Live, h.window_eq] at hlive
        exact .inl (by omega)

/-- A new window, after all others of its key have ended. -/
theorem Inv.opened (h : Inv limit window maxEntries now s) (hlimit : 1 ≤ limit) (hwindow : 0 < window.1)
    (hget : get s.limiter.entries key = none) (hroom : s.limiter.entries.length < maxEntries) :
    Inv limit window maxEntries now
      ⟨{ s.limiter with entries := set s.limiter.entries key ⟨now, 1⟩ }, ⟨key, now, now⟩ :: s.admitted⟩ := by
  have hended : ∀ a ∈ s.admitted, a.key = key → a.start + window.1 ≤ now := by
    intro a ha hkey
    rcases h.known a ha with hended | ⟨entry, hentry, -⟩
    · exact hended
    · rw [hkey, hget] at hentry
      cases hentry
  have hzero : inWindow s.admitted key now = 0 := by
    refine inWindow_eq_zero fun a ha hkey => ?_
    have := hended a ha hkey
    omega
  have hlength : (set s.limiter.entries key ⟨now, 1⟩).length ≤ maxEntries := by
    rw [length_set_of_none hget]
    exact hroom
  refine ⟨h.limit_eq, h.window_eq, h.maxEntries_eq, uniqueKeys_set h.unique _ _, hlength, ?_, ?_, ?_, ?_⟩
  · refine h.windowed.cons ⟨le_refl now, by dsimp only; omega⟩ (fun a ha hkey => .inr (hended a ha hkey)) ?_
    dsimp only
    rw [hzero]
    exact hlimit
  · intro other entry hother
    rw [inWindow_cons]
    by_cases hkey : other = key
    · subst hkey
      rw [get_set_self] at hother
      obtain rfl := Option.some.inj hother
      refine ⟨?_, hlimit, le_refl now⟩
      rw [hzero, if_pos ⟨rfl, rfl⟩]
    · rw [get_set_of_ne _ _ hkey] at hother
      rw [if_neg fun hsame => hkey hsame.1.symm]
      exact h.counts other entry hother
  · intro other entry hother
    refine List.forall_mem_cons.mpr ?_
    by_cases hkey : other = key
    · subst hkey
      rw [get_set_self] at hother
      obtain rfl := Option.some.inj hother
      exact ⟨fun _ => .inl rfl, fun a ha hkey => .inr (hended a ha hkey)⟩
    · rw [get_set_of_ne _ _ hkey] at hother
      exact ⟨fun hsame => absurd hsame.symm hkey, h.last other entry hother⟩
  · refine List.forall_mem_cons.mpr ⟨.inr ⟨_, get_set_self _ _ _, rfl⟩, fun a ha => ?_⟩
    by_cases hkey : a.key = key
    · exact .inl (hended a ha hkey)
    · rcases h.known a ha with hended | ⟨entry, hentry, hstart⟩
      · exact .inl hended
      · exact .inr ⟨entry, by rw [get_set_of_ne _ _ hkey, hentry], hstart⟩

/-- One more admission in a live window. -/
theorem Inv.counted (h : Inv limit window maxEntries latest s) (hlatest : latest ≤ now) {entry : WindowCounter}
    (hget : get s.limiter.entries key = some entry) (hlive : entry.Live window now) (hcount : entry.count < limit) :
    Inv limit window maxEntries now
      ⟨{ s.limiter with entries := set s.limiter.entries key { entry with count := entry.count + 1 } },
        ⟨key, entry.start, now⟩ :: s.admitted⟩ := by
  obtain ⟨hcounts, hcapped, hstart⟩ := h.counts key entry hget
  have hlength : (set s.limiter.entries key { entry with count := entry.count + 1 }).length ≤ maxEntries := by
    rw [length_set_of_get hget]
    exact h.bounded
  refine ⟨h.limit_eq, h.window_eq, h.maxEntries_eq, uniqueKeys_set h.unique _ _, hlength, ?_, ?_, ?_, ?_⟩
  · refine h.windowed.cons ⟨hstart.trans hlatest, hlive⟩ (h.last key entry hget) ?_
    dsimp only
    omega
  · intro other new hother
    rw [inWindow_cons]
    by_cases hkey : other = key
    · subst hkey
      rw [get_set_self] at hother
      obtain rfl := Option.some.inj hother
      rw [if_pos ⟨rfl, rfl⟩]
      dsimp only
      omega
    · rw [get_set_of_ne _ _ hkey] at hother
      rw [if_neg fun hsame => hkey hsame.1.symm]
      obtain ⟨hcounts', hcapped', hstart'⟩ := h.counts other new hother
      exact ⟨hcounts', hcapped', hstart'.trans hlatest⟩
  · intro other new hother
    refine List.forall_mem_cons.mpr ?_
    by_cases hkey : other = key
    · subst hkey
      rw [get_set_self] at hother
      obtain rfl := Option.some.inj hother
      exact ⟨fun _ => .inl rfl, h.last other entry hget⟩
    · rw [get_set_of_ne _ _ hkey] at hother
      exact ⟨fun hsame => absurd hsame.symm hkey, h.last other new hother⟩
  · refine List.forall_mem_cons.mpr ⟨.inr ⟨_, get_set_self _ _ _, rfl⟩, fun a ha => ?_⟩
    rcases h.known a ha with hended | ⟨old, hold, holdStart⟩
    · exact .inl (hended.trans hlatest)
    · by_cases hkey : a.key = key
      · rw [hkey, hget] at hold
        obtain rfl := Option.some.inj hold
        exact .inr ⟨{ entry with count := entry.count + 1 }, by rw [hkey, get_set_self], holdStart⟩
      · exact .inr ⟨old, by rw [get_set_of_ne _ _ hkey, hold], holdStart⟩

theorem Traffic.call_of_true {c : Call} {limiter : FixedWindowLimiter} (h : s.limiter.Allow c.key c.now = (true, limiter)) :
    s.call c = ⟨limiter, ⟨c.key, ((get limiter.entries c.key).map (·.start)).getD c.now, c.now⟩ :: s.admitted⟩ := by
  rw [Traffic.call, h]
  rfl

theorem Traffic.call_of_false {c : Call} {limiter : FixedWindowLimiter}
    (h : s.limiter.Allow c.key c.now = (false, limiter)) : s.call c = { s with limiter } := by
  rw [Traffic.call, h]
  rfl

theorem Inv.call (h : Inv limit window maxEntries latest s) (hlimit : 1 ≤ limit) (hwindow : 0 < window.1) {c : Call}
    (hlatest : latest ≤ c.now) : Inv limit window maxEntries c.now (s.call c) := by
  have hallowed := allowed_Allow (h.window_eq ▸ hwindow) h.unique c.key c.now
  cases hanswer : s.limiter.Allow c.key c.now with
  | mk allowed limiter =>
    rw [hanswer] at hallowed
    cases hallowed with
    | full hget hlive hcount =>
        rw [Traffic.call_of_false hanswer]
        exact h.sweep hlatest (Swept.refl s.limiter c.now)
    | counted hget hlive hcount =>
        rw [Traffic.call_of_true hanswer, get_set_self]
        exact h.counted hlatest hget (h.window_eq ▸ hlive) (h.limit_eq ▸ hcount)
    | opened hnone hswept hget hroom =>
        rw [Traffic.call_of_true hanswer, get_set_self]
        exact (h.sweep hlatest hswept).opened hlimit hwindow hget (h.maxEntries_eq ▸ hroom)
    | crowded hnone hswept hlive hcrowded =>
        rw [Traffic.call_of_false hanswer]
        exact h.sweep hlatest hswept

theorem Inv.after {calls : List Call} (h : Inv limit window maxEntries latest s) (hlimit : 1 ≤ limit)
    (hwindow : 0 < window.1) (hordered : calls.Pairwise (·.now ≤ ·.now)) (hlatest : ∀ c ∈ calls, latest ≤ c.now)
    (hnow : ∀ c ∈ calls, c.now ≤ now) (hlater : latest ≤ now) :
    Inv limit window maxEntries now (calls.foldl Traffic.call s) := by
  induction calls generalizing latest s with
  | nil => exact h.sweep hlater (Swept.refl s.limiter now)
  | cons c calls ih =>
      rw [List.pairwise_cons] at hordered
      rw [List.forall_mem_cons] at hlatest hnow
      exact ih (h.call hlimit hwindow hlatest.1) hordered.2 hordered.1 hnow.2 hnow.1

end Inv

/-! ### The limits -/

/-- Whatever window takes in the time is there afterwards, with its count. -/
def KeepsLive (l : FixedWindowLimiter) (now : Int) (after : FixedWindowLimiter) : Prop :=
  ∀ key entry, get l.entries key = some entry → entry.Live l.window now →
    ∃ kept, get after.entries key = some kept ∧ kept.start = entry.start ∧ entry.count ≤ kept.count

/-- The live window of the key has no room. -/
def WindowFull (l : FixedWindowLimiter) (key : String) (now : Int) : Prop :=
  ∃ entry, get l.entries key = some entry ∧ entry.Live l.window now ∧ entry.count = l.limit

/-- Every entry there can be is there and live. -/
def TableFull (l : FixedWindowLimiter) (now : Int) : Prop :=
  l.entries.length = l.maxEntries ∧ ∀ entry ∈ l.entries, entry.2.Live l.window now

section Limits

variable {limit maxEntries : Nat} {window : Duration} {latest : Int} {s : Traffic}

theorem Inv.keepsLive (h : Inv limit window maxEntries now s) (hwindow : 0 < window.1) (key : String) :
    KeepsLive s.limiter now (s.limiter.Allow key now).2 := by
  intro other entry hother hlive
  have hallowed := allowed_Allow (h.window_eq ▸ hwindow) h.unique key now
  generalize s.limiter.Allow key now = answer at hallowed ⊢
  cases hallowed with
  | full => exact ⟨entry, hother, rfl, le_refl _⟩
  | @counted counted hget =>
      by_cases hkey : other = key
      · subst hkey
        obtain rfl := Option.some.inj (hget.symm.trans hother)
        exact ⟨_, get_set_self _ _ _, rfl, Nat.le_succ _⟩
      · exact ⟨entry, (get_set_of_ne _ _ hkey).trans hother, rfl, le_refl _⟩
  | opened hnone hswept hget =>
      have hkey : other ≠ key := by
        rintro rfl
        exact hnone ⟨entry, hother, hlive⟩
      exact ⟨entry, (get_set_of_ne _ _ hkey).trans (hswept.get_of_live hother hlive), rfl, le_refl _⟩
  | crowded hnone hswept => exact ⟨entry, hswept.get_of_live hother hlive, rfl, le_refl _⟩

theorem Inv.denied_iff (h : Inv limit window maxEntries now s) (hwindow : 0 < window.1) (key : String) :
    (s.limiter.Allow key now).1 = false ↔
      WindowFull s.limiter key now ∨ (¬s.limiter.HasLive key now ∧ TableFull s.limiter now) := by
  have hallowed := allowed_Allow (h.window_eq ▸ hwindow) h.unique key now
  generalize s.limiter.Allow key now = answer at hallowed ⊢
  cases hallowed with
  | @full entry hget hlive hcount =>
      refine ⟨fun _ => .inl ⟨entry, hget, hlive, le_antisymm ?_ hcount⟩, fun _ => rfl⟩
      rw [h.limit_eq]
      exact (h.counts key entry hget).2.1
  | @counted entry hget hlive hcount =>
      refine ⟨(nomatch ·), fun hdenied => ?_⟩
      rcases hdenied with ⟨other, hother, -, hfull⟩ | ⟨hnone, -⟩
      · obtain rfl := Option.some.inj (hget.symm.trans hother)
        omega
      · exact absurd ⟨entry, hget, hlive⟩ hnone
  | @opened entries hnone hswept hget hroom =>
      refine ⟨(nomatch ·), fun hdenied => ?_⟩
      rcases hdenied with ⟨other, hother, hlive, -⟩ | ⟨-, hlength, hall⟩
      · exact absurd ⟨other, hother, hlive⟩ hnone
      · obtain ⟨keep, rfl, hkeep⟩ := hswept
        rw [List.filter_eq_self.mpr fun entry hentry => hkeep entry hentry (hall entry hentry)] at hroom
        omega
  | @crowded entries hnone hswept hall hcrowded =>
      refine ⟨fun _ => .inr ⟨hnone, ?_⟩, fun _ => rfl⟩
      have hbounded := h.bounded
      rw [← h.maxEntries_eq] at hbounded
      obtain ⟨keep, rfl, hkeep⟩ := hswept
      have hlength := List.length_filter_le keep s.limiter.entries
      have hself : s.limiter.entries.filter keep = s.limiter.entries :=
        List.filter_sublist.eq_of_length (by omega)
      rw [hself] at hall hcrowded
      exact ⟨by omega, hall⟩

theorem inv_after (hlimit : 1 ≤ limit) (hwindow : 0 < window.1) {calls : List Call}
    (hordered : calls.Pairwise (·.now ≤ ·.now)) (hnow : ∀ c ∈ calls, c.now ≤ now) :
    Inv limit window maxEntries now (Traffic.after (NewFixedWindowLimiter limit window maxEntries) calls) := by
  cases calls with
  | nil => exact inv_new limit window maxEntries now
  | cons c calls =>
      refine (inv_new limit window maxEntries c.now).after hlimit hwindow hordered ?_ hnow (hnow c List.mem_cons_self)
      exact List.forall_mem_cons.mpr ⟨le_refl _, (List.pairwise_cons.mp hordered).1⟩

theorem exists_latest (calls : List Call) : ∃ now, ∀ c ∈ calls, c.now ≤ now := by
  induction calls with
  | nil => exact ⟨0, by simp⟩
  | cons c calls ih =>
      obtain ⟨now, hnow⟩ := ih
      refine ⟨max c.now now, List.forall_mem_cons.mpr ⟨le_max_left _ _, fun c' hc' => ?_⟩⟩
      exact (hnow c' hc').trans (le_max_right _ _)

/-- After any calls in order, the windows of each key are apart and admit at most `limit` calls each, an
interval as long as a window sees at most two windows' worth, and the table is within its bound. The next
call forgets no live window, and it is denied just where the key's live window is full, or the key has
none and the table is full of live ones. -/
theorem limits_kept (limit : Nat) (window : Duration) (maxEntries : Nat) (hlimit : 1 ≤ limit) (hwindow : 0 < window.1)
    (calls : List Call) (hordered : calls.Pairwise (·.now ≤ ·.now)) :
    let s := Traffic.after (NewFixedWindowLimiter limit window maxEntries) calls
    Windowed limit window.1 s.admitted ∧
      (∀ key first, between s.admitted key first (first + window) ≤ 2 * limit) ∧
      s.limiter.entries.length ≤ maxEntries ∧
      ∀ key now, (∀ c ∈ calls, c.now ≤ now) →
        KeepsLive s.limiter now (s.limiter.Allow key now).2 ∧
          ((s.limiter.Allow key now).1 = false ↔
            WindowFull s.limiter key now ∨ (¬s.limiter.HasLive key now ∧ TableFull s.limiter now)) := by
  intro s
  obtain ⟨latest, hlatest⟩ := exists_latest calls
  have hinv : Inv limit window maxEntries latest s := inv_after hlimit hwindow hordered hlatest
  refine ⟨hinv.windowed, hinv.windowed.between_le, hinv.bounded, fun key now hnow => ?_⟩
  have hnext : Inv limit window maxEntries now s := inv_after hlimit hwindow hordered hnow
  exact ⟨hnext.keepsLive hwindow key, hnext.denied_iff hwindow key⟩

/-- Two a second, of two keys at most. -/
theorem limits_kept_of_two :
    let calls : List Call := [⟨"a", 0⟩, ⟨"a", 1⟩, ⟨"a", 2⟩, ⟨"b", 3⟩, ⟨"c", 4⟩]
    let s := Traffic.after (NewFixedWindowLimiter 2 ⟨1000000000, by decide⟩ 2) calls
    s.admitted.length = 3 ∧ Windowed 2 1000000000 s.admitted :=
  ⟨by decide, (limits_kept 2 ⟨1000000000, by decide⟩ 2 (by decide) (by decide)
    [⟨"a", 0⟩, ⟨"a", 1⟩, ⟨"a", 2⟩, ⟨"b", 3⟩, ⟨"c", 4⟩] (by decide)).1⟩

end Limits

end Transcendence.Auth.RateLimiter
