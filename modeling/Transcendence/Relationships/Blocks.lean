import Transcendence.Relationships.Table

/-!
# What a block shows to the blocked user

The blocked user reads his relationships with `findAll` and `findById`, where the blocker's row is
masked, and may send a request with `create`. The block stays hidden from all three exactly when the
masked row already read as accepted and `create` already answered without looking at it.
-/

namespace Transcendence.Relationships

open UserRelationships

/-- The caller obtains the same from `findAll`, `findById` and `create` on both tables. -/
structure Indistinguishable (users : Users) (caller other : UserId) (rows rows' : UserRelationships) : Prop where
  findAll : ∀ row, row ∈ findAll rows' caller ↔ row ∈ findAll rows caller
  findById : ∀ row, row ∈ findById rows' other caller ↔ row ∈ findById rows other caller
  create : (create users rows' other caller).result = (create users rows other caller).result

/-- Each pair has at most one row for each direction, by the unique index. -/
def UniqueRows (rows : UserRelationships) : Prop := (rows.map (·.1)).Nodup

variable {users : Users} {rows : UserRelationships} {a b x y : UserId} {status : RelationshipStatus}

/-! ### One row for each direction -/

theorem UniqueRows.setStatus (h : UniqueRows rows) : UniqueRows (rows.setStatus a b status) := by
  rw [UniqueRows, UserRelationships.setStatus, OrderedMap.set]
  split
  · have hkeys : (rows.map fun entry => if entry.1 = (a, b) then ((a, b), status) else entry).map (·.1) =
        rows.map (·.1) := by
      rw [List.map_map]
      refine List.map_congr_left fun entry _ => ?_
      show (if entry.1 = (a, b) then ((a, b), status) else entry).1 = entry.1
      split
      · next hkey => exact hkey.symm
      · rfl
    rw [hkeys]
    exact h
  · next hnone =>
      rw [List.map_append, List.nodup_append]
      refine ⟨h, List.nodup_singleton _, fun key hkey key' hkey' => ?_⟩
      obtain rfl : key' = (a, b) := List.mem_singleton.mp hkey'
      rintro rfl
      obtain ⟨entry, hentry, hkey⟩ := List.mem_map.mp hkey
      exact hnone (List.any_eq_true.mpr ⟨entry, hentry, decide_eq_true hkey⟩)

theorem UniqueRows.remove (h : UniqueRows rows) : UniqueRows (rows.remove a b) :=
  h.sublist (List.Sublist.map _ List.filter_sublist)

theorem UniqueRows.removeUnlessBlocked (h : UniqueRows rows) : UniqueRows (rows.removeUnlessBlocked a b) := by
  rw [UserRelationships.removeUnlessBlocked]
  split
  · exact h
  · exact h.remove

theorem UniqueRows.change (h : UniqueRows rows) {request : Request} {after : UserRelationships}
    (hchange : Change rows request after) : UniqueRows after := by
  cases hchange with
  | nothing => exact h
  | request => exact h.setStatus.setStatus
  | answer | renew | block | accept | unblock => exact h.setStatus
  | lift => exact h.remove
  | remove => exact h.removeUnlessBlocked.removeUnlessBlocked

theorem uniqueRows_nil : UniqueRows [] := List.nodup_nil

theorem uniqueRows_preserved (users : Users) : Runs.Preserved (step users) UniqueRows := by
  intro rows request after' h hstep
  obtain rfl := Option.some.inj hstep
  exact h.change (change_after users rows request)

theorem UniqueRows.mem_iff (h : UniqueRows rows) : ((x, y), status) ∈ rows ↔ rows.statusOf x y = some status := by
  constructor
  · intro hmem
    obtain ⟨entry, hfind⟩ : ∃ entry, rows.find? (·.1 = (x, y)) = some entry := by
      rw [← Option.isSome_iff_exists, List.find?_isSome]
      exact ⟨_, hmem, decide_eq_true rfl⟩
    have hkey := List.find?_some hfind
    obtain rfl : entry = ((x, y), status) :=
      List.inj_on_of_nodup_map h (List.mem_of_find?_eq_some hfind) hmem (of_decide_eq_true hkey)
    rw [statusOf, OrderedMap.get, hfind]
    rfl
  · exact OrderedMap.mem_of_get

/-! ### What the reads show -/

theorem UniqueRows.mem_toList (h : UniqueRows rows) {row : UserRelationship} :
    row ∈ rows.toList ↔ rows.statusOf row.requesterId row.addresseeId = some row.status := by
  rw [← h.mem_iff, toList, List.mem_map]
  constructor
  · rintro ⟨entry, hentry, rfl⟩
    exact hentry
  · exact fun hmem => ⟨_, hmem, rfl⟩

/-- The status under which `caller` sees a row of `requesterId`. -/
def shown (caller requesterId : UserId) (status : RelationshipStatus) : RelationshipStatus :=
  if requesterId ≠ caller ∧ status = .BLOCKED then .ACCEPTED else status

/-- Who may see a row sees its shown status, and nothing else of it. -/
theorem mem_mask (h : UniqueRows rows) (visible : UserRelationship → Bool)
    (hvisible : ∀ row status, visible { row with status } = visible row) {row : UserRelationship} :
    row ∈ maskCounterpartBlocks (rows.toList.filter visible) a ↔
      visible row ∧ (rows.statusOf row.requesterId row.addresseeId).map (shown a row.requesterId) = some row.status := by
  rw [maskCounterpartBlocks, List.mem_map]
  constructor
  · rintro ⟨stored, hstored, rfl⟩
    obtain ⟨hmem, hsees⟩ := List.mem_filter.mp hstored
    rw [h.mem_toList] at hmem
    split
    · next hmask =>
        refine ⟨(hvisible stored _).trans hsees, ?_⟩
        show (rows.statusOf stored.requesterId stored.addresseeId).map _ = _
        rw [hmem, Option.map_some, shown, if_pos hmask]
    · next hmask =>
        refine ⟨hsees, ?_⟩
        rw [hmem, Option.map_some, shown, if_neg hmask]
  · rintro ⟨hsees, hshown⟩
    obtain ⟨status, hstatus, hrow⟩ := Option.map_eq_some_iff.mp hshown
    refine ⟨{ row with status }, List.mem_filter.mpr ⟨h.mem_toList.mpr hstatus, (hvisible row status).trans hsees⟩, ?_⟩
    rw [shown] at hrow
    split at hrow
    · next hmask => rw [if_pos hmask, hrow]
    · next hmask => rw [if_neg hmask, hrow]

theorem mem_findAll (h : UniqueRows rows) {row : UserRelationship} :
    row ∈ findAll rows a ↔ (row.requesterId = a ∨ row.addresseeId = a) ∧
      (rows.statusOf row.requesterId row.addresseeId).map (shown a row.requesterId) = some row.status := by
  rw [findAll, mem_mask h]
  · simp only [decide_eq_true_eq]
  · exact fun _ _ => rfl

theorem mem_findById (h : UniqueRows rows) (hne : a ≠ b) {row : UserRelationship} :
    row ∈ findById rows b a ↔
      (row.requesterId = a ∧ row.addresseeId = b ∨ row.requesterId = b ∧ row.addresseeId = a) ∧
        (rows.statusOf row.requesterId row.addresseeId).map (shown a row.requesterId) = some row.status := by
  rw [findById, if_neg hne, mem_mask h]
  · simp only [decide_eq_true_eq]
  · exact fun _ _ => rfl

/-! ### A block -/

/-- The block by `a` is hidden from `b`: the masked row reads as before, and `b` cannot send a
request anyway. -/
def Hidden (users : Users) (rows : UserRelationships) (a b : UserId) : Prop :=
  rows.statusOf a b = some .ACCEPTED ∧ (rows.statusOf b a = some .BLOCKED ∨ (findUser users a).toOption = none)

theorem update_block (hne : a ≠ b) (ha : (users a).isSome) (hb : (users b).isSome)
    (hmine : rows.statusOf a b ≠ some .BLOCKED) :
    (update users rows b .BLOCKED a).rows = rows.setStatus a b .BLOCKED := by
  rw [update, if_neg hne, updateTransaction]
  cases hstatus : rows.statusOf a b with
  | none =>
      simp only [if_true, UserRelationships.insert, ha, hb, Bool.and_self]
      rfl
  | some status =>
      have hcurrent : RelationshipStatus.BLOCKED ≠ status := by
        rintro rfl
        exact hmine hstatus
      simp only [if_neg hcurrent, reduceCtorEq, and_false, ne_eq, not_true, false_and, if_false]

/-- A `create` by `b` answers an accepted or blocked row of `a` and nothing else of it. -/
theorem create_result (hne : b ≠ a) {username : String} (hactive : findUser users a = .ok ⟨username, .ACTIVE⟩)
    (hmine : rows.statusOf b a ≠ some .BLOCKED) :
    (rows.statusOf a b = some .ACCEPTED →
      (create users rows a b).result = .error (.forbidden EXISTING_RELATION_ERR_MSG)) ∧
    (rows.statusOf a b = some .BLOCKED → (create users rows a b).result = .ok [b, a]) := by
  constructor
  · intro htheirs
    simp only [create, if_neg hne, hactive, (createTransaction_of_theirs hmine).1 htheirs]
  · intro htheirs
    simp only [create, if_neg hne, hactive, (createTransaction_of_theirs hmine).2 htheirs]

theorem create_result_of_blocked (hne : b ≠ a) (hmine : rows.statusOf b a = some .BLOCKED) :
    (create users rows a b).result =
      match findUser users a with
      | .error error => .error error
      | .ok _ => .error (.forbidden EXISTING_RELATION_ERR_MSG) := by
  rw [create, if_neg hne]
  cases findUser users a with
  | error error => rfl
  | ok user => simp only [createTransaction, hmine]

theorem create_result_of_inactive (hne : b ≠ a) {error : Error} (hinactive : findUser users a = .error error) :
    (create users rows a b).result = .error error := by
  rw [create, if_neg hne, hinactive]

theorem shown_setStatus (hne : a ≠ b) (haccepted : rows.statusOf a b = some .ACCEPTED) :
    ((rows.setStatus a b .BLOCKED).statusOf x y).map (shown b x) = (rows.statusOf x y).map (shown b x) := by
  rw [statusOf_setStatus]
  split
  · next h =>
      obtain ⟨rfl, rfl⟩ := h
      rw [haccepted, Option.map_some, Option.map_some, shown, if_pos ⟨hne, rfl⟩, shown, if_neg fun h => (by cases h.2)]
  · rfl

theorem indistinguishable_iff (hunique : UniqueRows rows) (hne : a ≠ b) (hmine : rows.statusOf a b ≠ some .BLOCKED) :
    Indistinguishable users b a rows (rows.setStatus a b .BLOCKED) ↔ Hidden users rows a b := by
  have hblocked : (rows.setStatus a b .BLOCKED).statusOf a b = some .BLOCKED := statusOf_setStatus_self ..
  have hback : (rows.setStatus a b .BLOCKED).statusOf b a = rows.statusOf b a := by
    rw [statusOf_setStatus, if_neg fun h => hne h.1.symm]
  constructor
  · intro h
    have haccepted : rows.statusOf a b = some .ACCEPTED := by
      have hseen := (h.findAll ⟨a, b, .ACCEPTED⟩).mp
        ((mem_findAll hunique.setStatus).mpr ⟨.inr rfl, by rw [hblocked, Option.map_some, shown, if_pos ⟨hne, rfl⟩]⟩)
      obtain ⟨status, hstatus, hshown⟩ := Option.map_eq_some_iff.mp ((mem_findAll hunique).mp hseen).2
      have hstatus : rows.statusOf a b = some status := hstatus
      have hnot : status ≠ .BLOCKED := by
        rintro rfl
        exact hmine hstatus
      rw [shown, if_neg fun h => hnot h.2] at hshown
      exact hstatus.trans (congrArg some hshown)
    refine ⟨haccepted, ?_⟩
    by_contra hopen
    rw [not_or] at hopen
    cases hactive : findUser users a with
    | error error => exact hopen.2 (by rw [hactive]; rfl)
    | ok user =>
        obtain ⟨username, rfl⟩ : ∃ username, user = ⟨username, .ACTIVE⟩ := by
          rw [findUser] at hactive
          split at hactive
          · next name _ => exact ⟨name, (Except.ok.inj hactive).symm⟩
          · cases hactive
        have hbefore := (create_result hne.symm hactive hopen.1).1 haccepted
        have hafter := (create_result hne.symm hactive (hback ▸ hopen.1)).2 hblocked
        have := h.create
        rw [hbefore, hafter] at this
        cases this
  · rintro ⟨haccepted, hopen⟩
    refine ⟨fun row => ?_, fun row => ?_, ?_⟩
    · rw [mem_findAll hunique.setStatus, mem_findAll hunique, shown_setStatus hne haccepted]
    · rw [mem_findById hunique.setStatus hne.symm, mem_findById hunique hne.symm, shown_setStatus hne haccepted]
    · rcases hopen with hmine | hinactive
      · rw [create_result_of_blocked hne.symm hmine, create_result_of_blocked hne.symm (hback.trans hmine)]
      · cases herror : findUser users a with
        | ok user => rw [herror] at hinactive; cases hinactive
        | error error =>
            rw [create_result_of_inactive hne.symm herror, create_result_of_inactive hne.symm herror]

/-- For every reachable table and every two users: the blocked one notices nothing exactly when the
block is hidden. -/
theorem block_unobservable_iff (users : Users) (requests : List Request) (rows : UserRelationships) (a b : UserId)
    (hrun : Runs.run (step users) [] requests = some rows) (hne : a ≠ b) (ha : (users a).isSome) (hb : (users b).isSome)
    (hmine : rows.statusOf a b ≠ some .BLOCKED) :
    Indistinguishable users b a rows (update users rows b .BLOCKED a).rows ↔ Hidden users rows a b := by
  rw [update_block hne ha hb hmine]
  exact indistinguishable_iff ((uniqueRows_preserved users).run uniqueRows_nil hrun) hne hmine

/-! Bob has asked Alice, and Alice blocks him without an answer; Bob now sees her row as accepted.
-/

def askedByBob : List Request := [.create "alice" "bob"]

def rowsAskedByBob : UserRelationships := [(("bob", "alice"), .ACCEPTED), (("alice", "bob"), .PENDING_APPROVAL)]

theorem block_unobservable_iff_of_askedByBob :
    Indistinguishable pairUsers "bob" "alice" rowsAskedByBob (update pairUsers rowsAskedByBob "bob" .BLOCKED "alice").rows ↔
      Hidden pairUsers rowsAskedByBob "alice" "bob" :=
  block_unobservable_iff pairUsers askedByBob rowsAskedByBob "alice" "bob" (by decide +kernel) (by decide) (by decide)
    (by decide) (by decide)

theorem block_observed : ∃ rows, Runs.run (step pairUsers) [] askedByBob = some rows ∧
    rows.statusOf "alice" "bob" ≠ some .BLOCKED ∧
    ¬Indistinguishable pairUsers "bob" "alice" rows (update pairUsers rows "bob" .BLOCKED "alice").rows := by
  refine ⟨rowsAskedByBob, by decide +kernel, by decide, fun h => ?_⟩
  have hseen := (h.findAll ⟨"alice", "bob", .ACCEPTED⟩).mp (by decide +kernel)
  exact absurd hseen (by decide +kernel)

end Transcendence.Relationships
