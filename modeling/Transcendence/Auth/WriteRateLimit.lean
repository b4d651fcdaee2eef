import Mathlib.Data.List.Induction
import Transcendence.Base.OrderedMap

/-!
# The write limit of API tokens

`ProjectApiTokenWriteRateLimitGuard` of `src/backend/src/auth/`. Each token has a window of a minute. The
guard tracks a bounded number of tokens: when it tracks that many already, a new window takes the place
of the one whose token was tracked first, whether or not that one has ended. Times are milliseconds, and
`canActivate` runs without interruption, so the requests come one after another.

`Traffic` remembers the requests that were accepted, newest first.
-/

namespace Transcendence.Auth.WriteRateLimit

open OrderedMap

def windowMs : Int :=
  60000

def limit : Nat :=
  30

def maximumTrackedTokens : Nat :=
  10000

structure TokenWindow where
  count : Nat
  resetAt : Int
  deriving DecidableEq

structure Guard where
  tokenWindows : OrderedMap String TokenWindow
  lastPrunedAt : Int
  deriving DecidableEq

namespace Guard

def pruneExpiredWindows (g : Guard) (now : Int) : Guard :=
  if now - g.lastPrunedAt < windowMs then g
  else { tokenWindows := g.tokenWindows.filter fun entry => !(entry.2.resetAt ≤ now), lastPrunedAt := now }

def evictOldestWindowIfNeeded (g : Guard) : Guard :=
  if g.tokenWindows.length < maximumTrackedTokens then g
  else
    match g.tokenWindows.head? with
    | none => g
    | some (oldestTokenId, _) => { g with tokenWindows := delete g.tokenWindows oldestTokenId }

def setWindow (g : Guard) (tokenId : String) (window : TokenWindow) : Guard :=
  { g with tokenWindows := set g.tokenWindows tokenId window }

/-- Where the answer is `false`, the request is answered 429. -/
def canActivate (g : Guard) (tokenId : String) (now : Int) : Bool × Guard :=
  let g := g.pruneExpiredWindows now
  match get g.tokenWindows tokenId with
  | none => (true, g.evictOldestWindowIfNeeded.setWindow tokenId ⟨1, now + windowMs⟩)
  | some current =>
      if current.resetAt ≤ now then (true, g.evictOldestWindowIfNeeded.setWindow tokenId ⟨1, now + windowMs⟩)
      else if limit ≤ current.count then (false, g)
      else (true, g.setWindow tokenId { current with count := current.count + 1 })

end Guard

structure Request where
  tokenId : String
  now : Int
  deriving DecidableEq

structure Traffic where
  guard : Guard
  accepted : List Request
  deriving DecidableEq

namespace Traffic

def initial : Traffic where
  guard := ⟨[], 0⟩
  accepted := []

def request (s : Traffic) (r : Request) : Traffic :=
  let (accepts, guard) := s.guard.canActivate r.tokenId r.now
  { guard, accepted := if accepts then r :: s.accepted else s.accepted }

def serve (requests : List Request) : Traffic :=
  requests.foldl request initial

theorem serve_concat (requests : List Request) (r : Request) : serve (requests ++ [r]) = (serve requests).request r :=
  List.foldl_concat ..

end Traffic

/-- How many requests of the token were accepted in the minute that begins at `first`. -/
def acceptedWithin (accepted : List Request) (tokenId : String) (first : Int) : Nat :=
  accepted.countP fun r => r.tokenId = tokenId ∧ first ≤ r.now ∧ r.now < first + windowMs

/-- The request opens a window: its token has none that takes in the time. -/
def Guard.Opens (g : Guard) (r : Request) : Prop :=
  ∀ window, get (g.pruneExpiredWindows r.now).tokenWindows r.tokenId = some window → window.resetAt ≤ r.now

/-- The request of another token has the guard forget the window of this one. -/
structure Guard.Evicts (g : Guard) (r : Request) (tokenId : String) : Prop where
  other : r.tokenId ≠ tokenId
  opens : g.Opens r
  full : maximumTrackedTokens ≤ (g.pruneExpiredWindows r.now).tokenWindows.length
  oldest : (g.pruneExpiredWindows r.now).tokenWindows.head?.map (·.1) = some tokenId

/-- In the minute that begins at `first`, no request has the guard forget the token's window. -/
def Spared (requests : List Request) (tokenId : String) (first : Int) : Prop :=
  ∀ earlier r later, requests = earlier ++ r :: later → first ≤ r.now → r.now < first + windowMs →
    ¬(Traffic.serve earlier).guard.Evicts r tokenId

/-! ### What a request can do -/

inductive Activated (g : Guard) (r : Request) : Bool × Guard → Prop where
  | opened (hopens : g.Opens r) : Activated g r
      (true, (g.pruneExpiredWindows r.now).evictOldestWindowIfNeeded.setWindow r.tokenId ⟨1, r.now + windowMs⟩)
  | counted {current : TokenWindow} (hget : get (g.pruneExpiredWindows r.now).tokenWindows r.tokenId = some current)
      (hlive : r.now < current.resetAt) (hcount : current.count < limit) : Activated g r
      (true, (g.pruneExpiredWindows r.now).setWindow r.tokenId { current with count := current.count + 1 })
  | exceeded {current : TokenWindow} (hget : get (g.pruneExpiredWindows r.now).tokenWindows r.tokenId = some current)
      (hlive : r.now < current.resetAt) (hcount : limit ≤ current.count) : Activated g r
      (false, g.pruneExpiredWindows r.now)

variable {g : Guard} {r : Request} {tokenId : String} {window : TokenWindow}

theorem activated_canActivate (g : Guard) (r : Request) : Activated g r (g.canActivate r.tokenId r.now) := by
  rw [Guard.canActivate]
  split
  · rename_i hget
    refine .opened fun window hwindow => ?_
    rw [hget] at hwindow
    cases hwindow
  · rename_i current hget
    split
    · rename_i hended
      refine .opened fun window hwindow => ?_
      obtain rfl := Option.some.inj (hget.symm.trans hwindow)
      exact hended
    · rename_i hlive
      split
      · rename_i hcount
        exact .exceeded hget (not_le.mp hlive) hcount
      · rename_i hcount
        exact .counted hget (not_le.mp hlive) (not_le.mp hcount)

theorem get_pruneExpiredWindows {now : Int} (hget : get g.tokenWindows tokenId = some window) (hlive : now < window.resetAt) :
    get (g.pruneExpiredWindows now).tokenWindows tokenId = some window := by
  rw [Guard.pruneExpiredWindows]
  split
  · exact hget
  · exact get_filter_of_get hget (by simpa using hlive)

theorem get_evictOldestWindowIfNeeded (hget : get g.tokenWindows tokenId = some window)
    (hspared : maximumTrackedTokens ≤ g.tokenWindows.length → g.tokenWindows.head?.map (·.1) ≠ some tokenId) :
    get g.evictOldestWindowIfNeeded.tokenWindows tokenId = some window := by
  rw [Guard.evictOldestWindowIfNeeded]
  split
  · exact hget
  · rename_i hfull
    have hother := hspared (not_lt.mp hfull)
    split
    · exact hget
    · rename_i oldestTokenId _ hhead
      rw [hhead] at hother
      dsimp only
      rw [get_delete_of_ne, hget]
      rintro rfl
      exact hother rfl

/-- A live window that is not forgotten counts its token's requests and nothing else. -/
theorem get_request {s : Traffic} (hget : get s.guard.tokenWindows tokenId = some window) (hlive : r.now < window.resetAt)
    (hspared : ¬s.guard.Evicts r tokenId) :
    (r.tokenId ≠ tokenId ∧ get (s.request r).guard.tokenWindows tokenId = some window) ∨
      (r.tokenId = tokenId ∧ window.count < limit ∧ (s.request r).accepted = r :: s.accepted ∧
        get (s.request r).guard.tokenWindows tokenId = some { window with count := window.count + 1 }) ∨
      (r.tokenId = tokenId ∧ (s.request r).accepted = s.accepted ∧
        get (s.request r).guard.tokenWindows tokenId = some window) := by
  have hpruned := get_pruneExpiredWindows hget hlive
  have hactivated := activated_canActivate s.guard r
  rw [Traffic.request]
  generalize s.guard.canActivate r.tokenId r.now = answer at hactivated ⊢
  by_cases hsame : r.tokenId = tokenId
  · subst hsame
    cases hactivated with
    | opened hopens => exact absurd (hopens window hpruned) (not_le.mpr hlive)
    | counted hcurrent _ hcount =>
        obtain rfl := Option.some.inj (hpruned.symm.trans hcurrent)
        exact .inr (.inl ⟨rfl, hcount, rfl, get_set_self _ _ _⟩)
    | exceeded => exact .inr (.inr ⟨rfl, rfl, hpruned⟩)
  · refine .inl ⟨hsame, ?_⟩
    have hne : tokenId ≠ r.tokenId := fun heq => hsame heq.symm
    cases hactivated with
    | opened hopens =>
        have hkept := get_evictOldestWindowIfNeeded hpruned fun hfull holdest => hspared ⟨hsame, hopens, hfull, holdest⟩
        exact (get_set_of_ne _ _ hne).trans hkept
    | counted => exact (get_set_of_ne _ _ hne).trans hpruned
    | exceeded => exact hpruned

/-- A request that is accepted leaves its token a window that has not ended. -/
theorem accepted_request (s : Traffic) (r : Request) :
    (s.request r).accepted = s.accepted ∨ ((s.request r).accepted = r :: s.accepted ∧
      ∃ window, get (s.request r).guard.tokenWindows r.tokenId = some window ∧ r.now < window.resetAt) := by
  have hactivated := activated_canActivate s.guard r
  rw [Traffic.request]
  generalize s.guard.canActivate r.tokenId r.now = answer at hactivated ⊢
  cases hactivated with
  | opened => exact .inr ⟨rfl, _, get_set_self _ _ _, by simp [windowMs]⟩
  | counted hget hlive => exact .inr ⟨rfl, _, get_set_self _ _ _, hlive⟩
  | exceeded => exact .inl rfl

theorem request_of_opens {s : Traffic} (hopens : s.guard.Opens r) :
    (s.request r).accepted = r :: s.accepted ∧
      get (s.request r).guard.tokenWindows r.tokenId = some ⟨1, r.now + windowMs⟩ := by
  have hactivated := activated_canActivate s.guard r
  rw [Traffic.request]
  generalize s.guard.canActivate r.tokenId r.now = answer at hactivated ⊢
  cases hactivated with
  | opened => exact ⟨rfl, get_set_self _ _ _⟩
  | counted hget hlive => exact absurd (hopens _ hget) (not_le.mpr hlive)
  | exceeded hget hlive => exact absurd (hopens _ hget) (not_le.mpr hlive)

theorem acceptedWithin_cons (accepted : List Request) (first : Int) :
    acceptedWithin (r :: accepted) tokenId first = acceptedWithin accepted tokenId first +
      if r.tokenId = tokenId ∧ first ≤ r.now ∧ r.now < first + windowMs then 1 else 0 := by
  rw [acceptedWithin, List.countP_cons, acceptedWithin]
  simp only [decide_eq_true_eq]

/-! ### The window of a token -/

section Runs

variable {requests before after : List Request} {first : Int}

theorem Spared.of_append (h : Spared (requests ++ after) tokenId first) : Spared requests tokenId first := by
  intro earlier r later heq
  refine h earlier r (later ++ after) ?_
  rw [heq, List.append_assoc, List.cons_append]

theorem Spared.last (h : Spared (requests ++ [r]) tokenId first) (hfirst : first ≤ r.now) (hlast : r.now < first + windowMs) :
    ¬(Traffic.serve requests).guard.Evicts r tokenId :=
  h requests r [] rfl hfirst hlast

theorem mem_of_accepted (h : r ∈ (Traffic.serve requests).accepted) : r ∈ requests := by
  induction requests using List.reverseRec with
  | nil => exact h
  | append_singleton requests last ih =>
      rw [Traffic.serve_concat] at h
      rcases accepted_request (Traffic.serve requests) last with hsame | ⟨hnew, -⟩
      · rw [hsame] at h
        exact List.mem_append_left _ (ih h)
      · rw [hnew] at h
        rcases List.mem_cons.mp h with rfl | hold
        · exact List.mem_append_right _ List.mem_cons_self
        · exact List.mem_append_left _ (ih hold)

/-- A request that was accepted just now has its window still. -/
theorem get_of_accepted (hordered : requests.Pairwise (·.now ≤ ·.now)) (hnow : ∀ r ∈ requests, r.now ≤ first)
    (hspared : Spared requests tokenId first)
    (haccepted : ∃ a ∈ (Traffic.serve requests).accepted, a.tokenId = tokenId ∧ first ≤ a.now) :
    ∃ window, get (Traffic.serve requests).guard.tokenWindows tokenId = some window ∧ first < window.resetAt := by
  induction requests using List.reverseRec with
  | nil =>
      obtain ⟨a, ha, -⟩ := haccepted
      cases ha
  | append_singleton requests r ih =>
      rw [List.forall_mem_append, List.forall_mem_singleton] at hnow
      obtain ⟨hordered, -, hlast⟩ := List.pairwise_append.mp hordered
      rw [Traffic.serve_concat] at haccepted ⊢
      have hearlier : (∃ a ∈ (Traffic.serve requests).accepted, a.tokenId = tokenId ∧ first ≤ a.now) →
          ∃ window, get ((Traffic.serve requests).request r).guard.tokenWindows tokenId = some window ∧
            first < window.resetAt := by
        intro hold
        obtain ⟨window, hget, hlive⟩ := ih hordered hnow.1 hspared.of_append hold
        obtain ⟨a, ha, -, hafter⟩ := hold
        have hfirst : first ≤ r.now := hafter.trans (hlast a (mem_of_accepted ha) r List.mem_cons_self)
        have hminute : r.now < first + windowMs := by
          simp only [windowMs]
          omega
        rcases get_request hget (hnow.2.trans_lt hlive) (hspared.last hfirst hminute) with
          ⟨-, hkept⟩ | ⟨-, -, -, hkept⟩ | ⟨-, -, hkept⟩
        · exact ⟨window, hkept, hlive⟩
        · exact ⟨_, hkept, hlive⟩
        · exact ⟨window, hkept, hlive⟩
      rcases accepted_request (Traffic.serve requests) r with hsame | ⟨hnew, window, hget, hlive⟩
      · rw [hsame] at haccepted
        exact hearlier haccepted
      · rw [hnew] at haccepted
        obtain ⟨a, ha, htoken, hafter⟩ := haccepted
        rcases List.mem_cons.mp ha with rfl | hold
        · exact ⟨window, htoken ▸ hget, hafter.trans_lt hlive⟩
        · exact hearlier ⟨a, hold, htoken, hafter⟩

/-- No request of the token was accepted at or after the time at which one opens a window. -/
theorem acceptedWithin_of_opens (hordered : (before ++ [r]).Pairwise (·.now ≤ ·.now))
    (hspared : Spared before r.tokenId r.now) (hopens : (Traffic.serve before).guard.Opens r) :
    acceptedWithin (Traffic.serve before).accepted r.tokenId r.now = 0 := by
  obtain ⟨hordered, -, hlast⟩ := List.pairwise_append.mp hordered
  rw [acceptedWithin, List.countP_eq_zero]
  intro a ha hwithin
  rw [decide_eq_true_iff] at hwithin
  obtain ⟨window, hget, hlive⟩ := get_of_accepted hordered (fun q hq => hlast q hq r List.mem_cons_self) hspared
    ⟨a, ha, hwithin.1, hwithin.2.1⟩
  exact absurd (hopens window (get_pruneExpiredWindows hget hlive)) (not_le.mpr hlive)

/-- After a request that opened a window: while the minute lasts the window is there and counts what is
accepted, and no more is accepted than its limit. -/
structure Counted (opener : Request) (now : Int) (s : Traffic) : Prop where
  capped : acceptedWithin s.accepted opener.tokenId opener.now ≤ limit
  window : now < opener.now + windowMs → get s.guard.tokenWindows opener.tokenId =
    some ⟨acceptedWithin s.accepted opener.tokenId opener.now, opener.now + windowMs⟩

theorem Counted.request {opener : Request} {now : Int} {s : Traffic} (h : Counted opener now s) (hstart : opener.now ≤ now)
    (hnow : now ≤ r.now) (hspared : r.now < opener.now + windowMs → ¬s.guard.Evicts r opener.tokenId) :
    Counted opener r.now (s.request r) := by
  by_cases hlive : r.now < opener.now + windowMs
  · have hget := h.window (hnow.trans_lt hlive)
    rcases get_request hget hlive (hspared hlive) with ⟨hother, hkept⟩ | ⟨hsame, hcount, haccepted, hkept⟩ |
      ⟨-, haccepted, hkept⟩
    · have hwithin : acceptedWithin (s.request r).accepted opener.tokenId opener.now =
          acceptedWithin s.accepted opener.tokenId opener.now := by
        rcases accepted_request s r with haccepted | ⟨haccepted, -⟩
        · rw [haccepted]
        · rw [haccepted, acceptedWithin_cons, if_neg fun hin => hother hin.1]
          rfl
      exact ⟨hwithin ▸ h.capped, fun _ => by rw [hkept, hwithin]⟩
    · have hwithin : acceptedWithin (s.request r).accepted opener.tokenId opener.now =
          acceptedWithin s.accepted opener.tokenId opener.now + 1 := by
        rw [haccepted, acceptedWithin_cons, if_pos ⟨hsame, hstart.trans hnow, hlive⟩]
      exact ⟨hwithin ▸ hcount, fun _ => by rw [hkept, hwithin]⟩
    · exact ⟨haccepted ▸ h.capped, fun _ => by rw [hkept, haccepted]⟩
  · have hwithin : acceptedWithin (s.request r).accepted opener.tokenId opener.now =
        acceptedWithin s.accepted opener.tokenId opener.now := by
      rcases accepted_request s r with haccepted | ⟨haccepted, -⟩
      · rw [haccepted]
      · rw [haccepted, acceptedWithin_cons, if_neg fun hin => hlive hin.2.2]
        rfl
    exact ⟨hwithin ▸ h.capped, fun hlater => absurd hlater hlive⟩

/-- The time of the last of the requests. -/
def lastTime (opener : Request) (after : List Request) : Int :=
  ((opener :: after).getLast (List.cons_ne_nil _ _)).now

theorem counted_serve (hordered : (before ++ r :: after).Pairwise (·.now ≤ ·.now))
    (hopens : (Traffic.serve before).guard.Opens r) (hspared : Spared (before ++ r :: after) r.tokenId r.now) :
    Counted r (lastTime r after) (Traffic.serve (before ++ r :: after)) := by
  induction after using List.reverseRec with
  | nil =>
      have hzero := acceptedWithin_of_opens hordered hspared.of_append hopens
      obtain ⟨haccepted, hget⟩ := request_of_opens hopens
      have hone : acceptedWithin ((Traffic.serve before).request r).accepted r.tokenId r.now = 1 := by
        rw [haccepted, acceptedWithin_cons, hzero, if_pos ⟨rfl, le_refl _, by simp [windowMs]⟩]
      rw [Traffic.serve_concat]
      refine ⟨by rw [hone]; decide, fun _ => by rw [hget, hone]⟩
  | append_singleton after q ih =>
      rw [← List.cons_append, ← List.append_assoc] at hordered hspared ⊢
      obtain ⟨hbefore, -, hlast⟩ := List.pairwise_append.mp hordered
      have hcounted := ih hbefore hspared.of_append
      obtain ⟨-, hafter, -⟩ := List.pairwise_append.mp hbefore
      have hmem := List.getLast_mem (List.cons_ne_nil r after)
      have hstart : r.now ≤ lastTime r after := by
        rcases List.mem_cons.mp hmem with hself | hlater
        · exact le_of_eq (congrArg Request.now hself.symm)
        · exact (List.pairwise_cons.mp hafter).1 _ hlater
      have hnow : lastTime r after ≤ q.now :=
        hlast _ (List.mem_append_right before hmem) q List.mem_cons_self
      have hq : lastTime r (after ++ [q]) = q.now := by
        simp only [lastTime, ← List.cons_append, List.getLast_append_singleton]
      rw [Traffic.serve_concat, hq]
      exact hcounted.request hstart hnow fun hlive => hspared.last (hstart.trans hnow) hlive

/-- At most 30 requests of a token are accepted in the minute from one that opens a window, unless the
window is forgotten for that of another token. -/
theorem writes_limited (before after : List Request) (r : Request)
    (hordered : (before ++ r :: after).Pairwise (·.now ≤ ·.now)) (hopens : (Traffic.serve before).guard.Opens r)
    (hspared : Spared (before ++ r :: after) r.tokenId r.now) :
    acceptedWithin (Traffic.serve (before ++ r :: after)).accepted r.tokenId r.now ≤ limit :=
  (counted_serve hordered hopens hspared).capped

/-! ### Few requests, and many -/

theorem length_request_le (s : Traffic) (r : Request) :
    (s.request r).guard.tokenWindows.length ≤ s.guard.tokenWindows.length + 1 := by
  have hpruned : (s.guard.pruneExpiredWindows r.now).tokenWindows.length ≤ s.guard.tokenWindows.length := by
    rw [Guard.pruneExpiredWindows]
    split
    · exact le_refl _
    · exact List.length_filter_le _ _
  have hset : ∀ (g : Guard) (window : TokenWindow),
      (g.setWindow r.tokenId window).tokenWindows.length ≤ g.tokenWindows.length + 1 := by
    intro g window
    rw [Guard.setWindow, OrderedMap.set]
    split <;> simp
  have hevicted : (s.guard.pruneExpiredWindows r.now).evictOldestWindowIfNeeded.tokenWindows.length ≤
      (s.guard.pruneExpiredWindows r.now).tokenWindows.length := by
    rw [Guard.evictOldestWindowIfNeeded]
    split
    · exact le_refl _
    · split
      · exact le_refl _
      · exact List.length_filter_le _ _
  have hactivated := activated_canActivate s.guard r
  rw [Traffic.request]
  generalize s.guard.canActivate r.tokenId r.now = answer at hactivated ⊢
  cases hactivated with
  | opened => exact (hset _ _).trans (by omega)
  | counted => exact (hset _ _).trans (by omega)
  | exceeded => exact hpruned.trans (Nat.le_succ _)

theorem length_serve_le (requests : List Request) : (Traffic.serve requests).guard.tokenWindows.length ≤ requests.length := by
  induction requests using List.reverseRec with
  | nil => exact Nat.zero_le _
  | append_singleton requests r ih =>
      rw [Traffic.serve_concat, List.length_append, List.length_singleton]
      exact (length_request_le _ r).trans (Nat.add_le_add_right ih 1)

/-- Nothing is forgotten before 10 000 requests have been made. -/
theorem spared_of_few (hfew : requests.length ≤ maximumTrackedTokens) (tokenId : String) (first : Int) :
    Spared requests tokenId first := by
  intro earlier r later heq _ _ hevicts
  have hpruned : ((Traffic.serve earlier).guard.pruneExpiredWindows r.now).tokenWindows.length ≤
      (Traffic.serve earlier).guard.tokenWindows.length := by
    rw [Guard.pruneExpiredWindows]
    split
    · exact le_refl _
    · exact List.length_filter_le _ _
  have hfull := hevicts.full
  have htracked := length_serve_le earlier
  have hlength := congrArg List.length heq
  rw [List.length_append, List.length_cons] at hlength
  omega

def noon : Int :=
  1700000000000

def mine : Request where
  tokenId := "token"
  now := noon

theorem writes_limited_of_one :
    (Traffic.serve (mine :: List.replicate 31 mine)).accepted.length = 30 ∧
      acceptedWithin (Traffic.serve (mine :: List.replicate 31 mine)).accepted "token" noon ≤ limit :=
  ⟨by decide +kernel, writes_limited [] (List.replicate 31 mine) mine (by decide +kernel)
    (fun _ hget => nomatch hget) (spared_of_few (by decide) _ _)⟩

/-- Tokens that are not tracked yet are tracked, one by one, while there is room. -/
theorem foldl_request_of_new (s : Traffic) {now : Int} (hpruned : now - s.guard.lastPrunedAt < windowMs)
    {tokens : List String} (hnodup : tokens.Nodup) (hnew : ∀ token ∈ tokens, get s.guard.tokenWindows token = none)
    (hroom : s.guard.tokenWindows.length + tokens.length ≤ maximumTrackedTokens) :
    (tokens.map fun token => Request.mk token now).foldl Traffic.request s =
      ⟨⟨s.guard.tokenWindows ++ tokens.map fun token => (token, ⟨1, now + windowMs⟩), s.guard.lastPrunedAt⟩,
        (tokens.map fun token => Request.mk token now).reverse ++ s.accepted⟩ := by
  induction tokens generalizing s with
  | nil => simp
  | cons token tokens ih =>
      rw [List.nodup_cons] at hnodup
      rw [List.forall_mem_cons] at hnew
      rw [List.length_cons] at hroom
      have hrequest : s.request ⟨token, now⟩ =
          ⟨⟨s.guard.tokenWindows ++ [(token, ⟨1, now + windowMs⟩)], s.guard.lastPrunedAt⟩, ⟨token, now⟩ :: s.accepted⟩ := by
        have hlength : s.guard.tokenWindows.length < maximumTrackedTokens := by omega
        rw [Traffic.request, Guard.canActivate, Guard.pruneExpiredWindows, if_pos hpruned]
        dsimp only
        rw [hnew.1, Guard.evictOldestWindowIfNeeded, if_pos hlength, Guard.setWindow, set_of_none hnew.1]
        rfl
      rw [List.map_cons, List.foldl_cons, hrequest,
        ih ⟨⟨s.guard.tokenWindows ++ [(token, TokenWindow.mk 1 (now + windowMs))], s.guard.lastPrunedAt⟩,
            ⟨token, now⟩ :: s.accepted⟩
          hpruned hnodup.2]
      · simp
      · intro other hother
        have hne : other ≠ token := fun heq => hnodup.1 (heq ▸ hother)
        dsimp only
        rw [← set_of_none hnew.1, get_set_of_ne _ _ hne]
        exact hnew.2 other hother
      · simp only [List.length_append, List.length_singleton]
        omega

/-- With no room left, a token that is not tracked takes the place of the one that was tracked first. -/
theorem request_of_full {s : Traffic} {oldest : String × TokenWindow} (hpruned : r.now - s.guard.lastPrunedAt < windowMs)
    (hfull : maximumTrackedTokens ≤ s.guard.tokenWindows.length) (hhead : s.guard.tokenWindows.head? = some oldest)
    (hnew : get s.guard.tokenWindows r.tokenId = none) (hne : oldest.1 ≠ r.tokenId) :
    (s.request r).accepted = r :: s.accepted ∧ (s.request r).guard.lastPrunedAt = s.guard.lastPrunedAt ∧
      get (s.request r).guard.tokenWindows oldest.1 = none := by
  have hrequest : s.request r =
      ⟨⟨set (delete s.guard.tokenWindows oldest.1) r.tokenId ⟨1, r.now + windowMs⟩, s.guard.lastPrunedAt⟩,
        r :: s.accepted⟩ := by
    rw [Traffic.request, Guard.canActivate, Guard.pruneExpiredWindows, if_pos hpruned]
    dsimp only
    rw [hnew, Guard.evictOldestWindowIfNeeded, if_neg (not_lt.mpr hfull), hhead, Guard.setWindow]
    rfl
  rw [hrequest]
  exact ⟨rfl, rfl, (get_set_of_ne _ _ hne).trans (get_delete_self _ _)⟩

/-- Tokens told apart by their lengths. -/
def otherToken (length : Nat) : String :=
  String.ofList (List.replicate length 'x')

theorem otherToken_injective : Function.Injective otherToken := by
  intro m n heq
  have hlength := congrArg List.length (String.ofList_injective heq)
  rwa [List.length_replicate, List.length_replicate] at hlength

theorem otherToken_ne (length : Nat) : otherToken length ≠ mine.tokenId := by
  intro heq
  have hchars : List.replicate length 'x' = ['t', 'o', 'k', 'e', 'n'] := by
    rw [← String.toList_ofList (l := List.replicate length 'x')]
    exact congrArg String.toList heq
  have ht : 't' ∈ List.replicate length 'x' := hchars ▸ List.mem_cons_self
  exact absurd (List.eq_of_mem_replicate ht) (by decide)

/-- Nine thousand nine hundred and ninety-nine other tokens. -/
def otherTokens : List String :=
  (List.range 9999).map otherToken

def crowd : List Request :=
  otherTokens.map fun token => ⟨token, noon⟩

/-- After thirty writes of a token a crowd of other tokens, one more of them, and the token again, all in
one millisecond. -/
def crowded : List Request :=
  List.replicate 29 mine ++ (crowd ++ [⟨otherToken 9999, noon⟩, mine])

def thirtyWrites : Traffic where
  guard := ⟨[("token", ⟨30, noon + windowMs⟩)], noon⟩
  accepted := List.replicate 30 mine

theorem serve_thirtyWrites : Traffic.serve (List.replicate 30 mine) = thirtyWrites := by
  decide +kernel

/-- The guard is full, with the token tracked first. -/
def fullGuard : Traffic where
  guard := ⟨thirtyWrites.guard.tokenWindows ++ otherTokens.map fun token => (token, ⟨1, noon + windowMs⟩), noon⟩
  accepted := crowd.reverse ++ thirtyWrites.accepted

theorem nodup_otherTokens : otherTokens.Nodup :=
  List.nodup_range.map otherToken_injective

theorem length_otherTokens : otherTokens.length = 9999 := by
  rw [otherTokens, List.length_map, List.length_range]

theorem serve_crowd : crowd.foldl Traffic.request thirtyWrites = fullGuard := by
  have hnew : ∀ token ∈ otherTokens, get thirtyWrites.guard.tokenWindows token = none := by
    intro token htoken
    obtain ⟨length, -, rfl⟩ := List.mem_map.mp htoken
    rw [thirtyWrites, OrderedMap.get, List.find?_cons_of_neg (by simpa using fun heq => otherToken_ne length heq.symm)]
    rfl
  have hroom : thirtyWrites.guard.tokenWindows.length + otherTokens.length ≤ maximumTrackedTokens := by
    rw [length_otherTokens]
    decide
  exact foldl_request_of_new thirtyWrites (by decide) nodup_otherTokens hnew hroom

theorem length_fullGuard : fullGuard.guard.tokenWindows.length = maximumTrackedTokens := by
  rw [fullGuard, List.length_append, List.length_map, length_otherTokens]
  rfl

theorem get_fullGuard : get fullGuard.guard.tokenWindows (otherToken 9999) = none := by
  rw [OrderedMap.get, Option.map_eq_none_iff, List.find?_eq_none]
  intro entry hentry
  rcases List.mem_append.mp hentry with hentry | hentry
  · obtain rfl := List.mem_singleton.mp hentry
    simpa using fun heq => otherToken_ne 9999 heq.symm
  · obtain ⟨token, htoken, rfl⟩ := List.mem_map.mp hentry
    obtain ⟨length, hlength, rfl⟩ := List.mem_map.mp htoken
    rw [List.mem_range] at hlength
    simpa using fun heq => hlength.ne (otherToken_injective heq)

theorem serve_crowded : Traffic.serve (mine :: crowded) = (fullGuard.request ⟨otherToken 9999, noon⟩).request mine := by
  have hsplit : mine :: crowded = List.replicate 30 mine ++ (crowd ++ [⟨otherToken 9999, noon⟩, mine]) := by
    rw [crowded, List.replicate_succ (n := 29), List.cons_append]
  rw [hsplit, Traffic.serve, List.foldl_append, ← Traffic.serve, serve_thirtyWrites, List.foldl_append, serve_crowd,
    List.foldl_cons, List.foldl_cons, List.foldl_nil]

theorem now_of_mem_crowded (hr : r ∈ mine :: crowded) : r.now = noon := by
  rw [List.mem_cons, crowded, List.mem_append, List.mem_append, crowd, List.mem_map] at hr
  rcases hr with rfl | hr | ⟨token, -, rfl⟩ | hr
  · rfl
  · rw [List.eq_of_mem_replicate hr]
    rfl
  · rfl
  · rw [List.mem_cons, List.mem_singleton] at hr
    rcases hr with rfl | rfl <;> rfl

theorem not_writes_limited_of_crowd :
    (mine :: crowded).Pairwise (·.now ≤ ·.now) ∧ (Traffic.serve []).guard.Opens mine ∧
      limit < acceptedWithin (Traffic.serve (mine :: crowded)).accepted mine.tokenId mine.now := by
  refine ⟨?_, (fun _ hget => nomatch hget), ?_⟩
  · refine List.pairwise_of_forall_mem_list fun r hr q hq => ?_
    rw [now_of_mem_crowded hr, now_of_mem_crowded hq]
  · have hother : ("token", (⟨30, noon + windowMs⟩ : TokenWindow)).1 ≠ otherToken 9999 := fun heq => otherToken_ne 9999 heq.symm
    obtain ⟨haccepted, hpruned, hget⟩ := request_of_full (s := fullGuard) (r := ⟨otherToken 9999, noon⟩)
      (by decide) length_fullGuard.ge rfl get_fullGuard hother
    have hopens : (fullGuard.request ⟨otherToken 9999, noon⟩).guard.Opens mine := by
      intro window hwindow
      rw [Guard.pruneExpiredWindows, hpruned, if_pos (by decide)] at hwindow
      cases hget.symm.trans hwindow
    have hwrites : acceptedWithin fullGuard.accepted mine.tokenId mine.now ≥ 30 := by
      have hmine : acceptedWithin thirtyWrites.accepted mine.tokenId mine.now = 30 := by decide
      rw [fullGuard, acceptedWithin, List.countP_append, ← acceptedWithin, ← acceptedWithin, hmine]
      exact Nat.le_add_left _ _
    rw [serve_crowded, (request_of_opens hopens).1, haccepted, acceptedWithin_cons, acceptedWithin_cons,
      if_pos (⟨rfl, le_refl _, by decide⟩ : mine.tokenId = mine.tokenId ∧ mine.now ≤ mine.now ∧ _)]
    simp only [limit]
    omega

end Runs

end Transcendence.Auth.WriteRateLimit
