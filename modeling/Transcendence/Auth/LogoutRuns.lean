import Transcendence.Auth.Logout

/-!
# Logouts beside logins and refreshes

Whatever the interleaving, rows are only added and continued, and a family that is revoked stays
revoked. So a logout whose lookup finds its token current leaves the family revoked before it answers,
and a refresh that begins later finds it revoked under its lock.
-/

namespace Transcendence.Auth.Logout

open Transaction Database

variable {ι : Type} [DecidableEq ι] {store : Store} {allowsBrowserOrigin : String → Bool} {familyId : String}
  {db db' : Database}

/-! ### What is written -/

/-- A write that keeps the rows there are. -/
def KeepsRows (write : Database → Database) : Prop :=
  ∀ db, Keeps db (write db)

theorem keepsRows_insertFamily (row : RefreshTokenFamilyRow) : KeepsRows fun db => (db.insertFamily row).getD db := by
  intro db
  dsimp only
  cases hinserted : db.insertFamily row with
  | none => exact .refl db
  | some inserted => exact keeps_insertFamily hinserted

theorem keepsRows_insertToken (row : AuthRefreshTokenRow) : KeepsRows fun db => (db.insertToken row).getD db := by
  intro db
  dsimp only
  cases hinserted : db.insertToken row with
  | none => exact .refl db
  | some inserted => exact keeps_insertToken hinserted

theorem keepsRows_replaceToken (id : String) (now : Nat) (ciphertext newID : String) :
    KeepsRows fun db => (db.replaceToken id now ciphertext newID).getD db := by
  intro db
  dsimp only
  cases hreplaced : db.replaceToken id now ciphertext newID with
  | none => exact .refl db
  | some replaced =>
      rw [Option.getD_some, (replaceToken_eq_some.mp hreplaced).2]
      exact keeps_updateTokens _ _ fun _ => ⟨rfl, rfl, rfl⟩

theorem keepsRows_updateActivity (id : String) (now idleExpiresAt : Nat) :
    KeepsRows fun db => db.updateActivity id now idleExpiresAt :=
  fun _ => keeps_updateFamilies _ _ fun _ _ => ⟨rfl, rfl, rfl, rfl, fun _ hrevoked => hrevoked⟩

theorem writes_fail (message : String) : (Store.fail message).Writes KeepsRows :=
  trivial

theorem writes_createRefreshFamily (r : CreateRequest) : (store.createRefreshFamily r).Writes KeepsRows := by
  apply writes_execute (keepsRows_insertFamily _) (writes_fail _)
  exact writes_execute (keepsRows_insertToken _) (writes_fail _) trivial

theorem writes_recoverSuccessor (r : RotateRequest) (row : RefreshRow) (head : AuthRefreshTokenRow) :
    (store.recoverSuccessor r row head).Writes KeepsRows := by
  unfold Store.recoverSuccessor
  split
  · split
    · trivial
    · apply writes_select Keeps.refl
      intro db
      split
      · trivial
      · split
        · trivial
        · split
          · trivial
          · trivial
  · trivial

theorem writes_revokeAfterReplay (r : RotateRequest) (row : RefreshRow) : (Store.revokeAfterReplay r row).Writes KeepsRows :=
  ⟨fun _ => keeps_revokeFamilies _ _ _, fun _ => ⟨fun _ => keeps_recordReplay row r.databaseNow, fun _ => trivial⟩⟩

theorem writes_replaceHead (r : RotateRequest) (row : RefreshRow) (head : AuthRefreshTokenRow) :
    (store.replaceHead r row head).Writes KeepsRows := by
  unfold Store.replaceHead
  split
  · trivial
  · split
    · trivial
    · apply writes_execute (keepsRows_insertToken _) (writes_fail _)
      refine ⟨keepsRows_replaceToken _ _ _ _, fun db => ?_⟩
      dsimp only
      split
      · trivial
      · split
        · trivial
        · exact ⟨keepsRows_updateActivity _ _ _, fun _ => trivial⟩

theorem writes_useToken (r : RotateRequest) (row : RefreshRow) : (store.useToken r row).Writes KeepsRows := by
  apply writes_select Keeps.refl
  intro db
  split
  · trivial
  · split
    · exact writes_recoverSuccessor r row _
    · exact writes_revokeAfterReplay r row
    · exact writes_replaceHead r row _

theorem writes_rotateRefreshToken (r : RotateRequest) : (store.rotateRefreshToken r).Writes KeepsRows := by
  intro snapshot db
  dsimp only
  split
  · trivial
  · refine ⟨fun _ => keeps_clearExpiredSuccessors r.now, fun _ => ?_⟩
    split
    · trivial
    · split
      · trivial
      · exact writes_useToken r _

theorem writes_revokeUpdate (family : RefreshFamily) (reason : String) (updatedAt : Nat) :
    (Store.revokeUpdate family reason updatedAt).Writes KeepsRows :=
  fun _ _ => ⟨fun _ => keeps_revokeFamilies _ _ _, fun _ => trivial⟩

theorem writes_handleLogout (r : LogoutRequest) : (handleLogout store allowsBrowserOrigin r).Writes KeepsRows := by
  unfold handleLogout
  split
  · trivial
  · apply writes_map
    apply writes_select Keeps.refl
    intro db
    cases store.getRefreshFamily db _ with
    | error error => trivial
    | ok family => exact writes_revokeUpdate _ _ _

theorem writes_program (request : Request) : (program store allowsBrowserOrigin request).Writes KeepsRows := by
  cases request with
  | login r => exact writes_map (writes_createRefreshFamily r) _
  | refresh r => exact writes_map (writes_rotateRefreshToken r) _
  | logout r => exact writes_map (writes_handleLogout r) _

section Runs

variable {s t : LogoutServer ι}

theorem keeps_step (h : Writing KeepsRows s) {label : LogoutLabel ι}
    (hstep : Server.step (program store allowsBrowserOrigin) s label = some t) : Keeps s.db t.db :=
  h.related Keeps.refl Keeps.trans (fun _ hwrite => hwrite) hstep

theorem keeps_run (h : Writing KeepsRows s) {labels : List (LogoutLabel ι)}
    (hrun : Runs.run (Server.step (program store allowsBrowserOrigin)) s labels = some t) :
    Writing KeepsRows t ∧ Keeps s.db t.db :=
  h.run writes_program Keeps.refl Keeps.trans (fun _ hwrite => hwrite) hrun

end Runs

/-! ### Revoked families -/

theorem Revoked.keeps (h : Revoked db familyId) (hkeeps : Keeps db db') : Revoked db' familyId := by
  obtain ⟨family, hfamily, hrevoked⟩ := h
  obtain ⟨later, hlater, hcontinues⟩ := hkeeps.families familyId family hfamily
  obtain ⟨revokedAt, hat⟩ := Option.isSome_iff_exists.mp hrevoked
  exact ⟨later, hlater, Option.isSome_of_eq_some (hcontinues.revokedAt revokedAt hat)⟩

theorem revoked_revokeFamilies {family : RefreshTokenFamilyRow} (hfamily : db.findFamily familyId = some family)
    (reason : String) (updatedAt : Nat) : Revoked (db.revokeFamilies (·.id = familyId) reason updatedAt) familyId := by
  have hid : family.id = familyId := (Database.findFamily_eq_some hfamily).2
  rw [Revoked, findFamily, revokeFamilies, Table.find?_update]
  · change ∃ later, Option.map _ (db.findFamily familyId) = some later ∧ _
    rw [hfamily, Option.map_some]
    refine ⟨_, rfl, ?_⟩
    rw [hid, decide_eq_true rfl, Bool.true_and]
    cases hrevoked : family.revokedAt with
    | none =>
        rw [Option.isNone_none, if_pos rfl]
        rfl
    | some revokedAt =>
        rw [Option.isNone_some, if_neg Bool.false_ne_true, hrevoked]
        rfl
  · intro row hrow
    rfl

/-- A revoked family has no live user. -/
theorem Revoked.liveUser (h : Revoked db familyId) (userId : String) (now : Nat) : db.liveUser familyId userId now = none := by
  obtain ⟨family, hfamily, hrevoked⟩ := h
  rw [Database.liveUser, hfamily, Option.bind_some, Option.filter_eq_none_iff]
  intro user _ hlive
  simp only [Bool.and_eq_true, Option.isNone_iff_eq_none] at hlive
  rw [hlive.1.1.1.2] at hrevoked
  exact Bool.false_ne_true hrevoked

theorem Revoked.not_isLive (h : Revoked db familyId) {row : RefreshRow} (hrow : db.findFamily row.family.id = some row.family)
    (hid : row.family.id = familyId) (now : Nat) : row.isLive now = false := by
  obtain ⟨family, hfamily, hrevoked⟩ := h
  rw [hid, hfamily] at hrow
  rw [Option.some.inj hrow] at hrevoked
  rw [RefreshRow.isLive, Bool.and_assoc, Bool.and_assoc]
  rw [Option.isNone_eq_false_iff.mpr hrevoked, Bool.false_and]

/-! ### One logout -/

theorem cookieCredentials_eq (allowsBrowserOrigin : String → Bool) {r : LogoutRequest} (hcookies : HasCookies r) :
    (∃ answer, cookieCredentials allowsBrowserOrigin r = .error answer ∧ answer.clears = false) ∨
      ∃ refreshToken csrfToken, r.refreshCookie = some refreshToken ∧
        cookieCredentials allowsBrowserOrigin r = .ok (refreshToken, csrfToken) := by
  obtain ⟨⟨refreshToken, hrefresh, hrefreshToken⟩, csrfToken, hcsrf, hcsrfToken⟩ := hcookies
  have hrefreshKept : r.refreshCookie.filter (· ≠ "") = some refreshToken := by
    rw [hrefresh, Option.filter_some, if_pos (decide_eq_true hrefreshToken)]
  have hcsrfKept : r.csrfCookie.filter (· ≠ "") = some csrfToken := by
    rw [hcsrf, Option.filter_some, if_pos (decide_eq_true hcsrfToken)]
  rw [cookieCredentials, hrefreshKept, hcsrfKept]
  dsimp only
  split
  · exact .inl ⟨_, rfl, rfl⟩
  · split
    · exact .inl ⟨_, rfl, rfl⟩
    · exact .inr ⟨refreshToken, csrfToken, hrefresh, rfl⟩

/-- Where a logout may stand before the family is revoked, as long as it does not clear the cookies. -/
inductive Stands (store : Store) (allowsBrowserOrigin : String → Bool) (r : LogoutRequest) (familyId : String) :
    Progress Database String Reply → Prop where
  | begun : Stands store allowsBrowserOrigin r familyId (.running (program store allowsBrowserOrigin (.logout r)) [])
  | refused {answer : Answer} {writes : List (Database → Database)} (hclears : answer.clears = false) :
      Stands store allowsBrowserOrigin r familyId (.running (.rollback (.logout answer)) writes)
  | updating {family : RefreshFamily} (hid : family.id = familyId) : Stands store allowsBrowserOrigin r familyId
      (.running (((Store.revokeUpdate family "LOGOUT" r.updatedAt).map answerOf).map .logout) [id])
  | waiting {family : RefreshFamily} (hid : family.id = familyId) {row : String} {snapshot : Database} :
      Stands store allowsBrowserOrigin r familyId (.waiting row snapshot
        (fun _ _ => ((Store.revokeRow family "LOGOUT" r.updatedAt).map answerOf).map .logout) [id])
  | revoking {family : RefreshFamily} (hid : family.id = familyId) : Stands store allowsBrowserOrigin r familyId
      (.running (((Store.revokeRow family "LOGOUT" r.updatedAt).map answerOf).map .logout) [id])
  | committing {answer : Answer} : Stands store allowsBrowserOrigin r familyId
      (.running (.commit (.logout answer)) [id, (·.revokeFamilies (·.id = familyId) "LOGOUT" r.updatedAt)])
  | ended {answer : Answer} (hclears : answer.clears = false) :
      Stands store allowsBrowserOrigin r familyId (.ended (.logout answer))

/-- The lookup of a token that is current finds its family, or the CSRF token is wrong. -/
theorem getRefreshFamily_of_current {r : LogoutRequest} {token : String} (csrfToken : String) {row : RefreshRow}
    (hrow : db.findRefresh (store.hashToken token) = some row) (hcurrent : IsCurrent row r) :
    store.getRefreshFamily db ⟨token, csrfToken, "LOGOUT", r.now, r.databaseNow⟩ = .error .csrf ∨
      store.getRefreshFamily db ⟨token, csrfToken, "LOGOUT", r.now, r.databaseNow⟩ = .ok row.refreshFamily := by
  obtain ⟨hreplaced, hused, hexpires, hlive⟩ := hcurrent
  have hkept : (db.findRefresh (store.hashToken token)).filter (fun row =>
      row.token.replacedById.isNone && row.token.usedAt.isNone && r.databaseNow < row.token.expiresAt) = some row := by
    rw [hrow, Option.filter_some, hreplaced, hused, if_pos]
    simp only [Option.isNone_none, Bool.true_and, decide_eq_true_eq]
    exact hexpires
  rw [Store.getRefreshFamily, hkept]
  dsimp only
  rw [hlive, Bool.not_true, if_neg Bool.false_ne_true]
  split
  · exact .inl rfl
  · exact .inr rfl

section Logout

variable {s t : LogoutServer ι} {r : LogoutRequest} {before after : Progress Database String Reply}

omit [DecidableEq ι] in
theorem Stands.advance (hstands : Stands store allowsBrowserOrigin r familyId before) (hadvance : Advance s t before after)
    (hcookies : HasCookies r) (hfamily : ∃ family, s.db.findFamily familyId = some family)
    (hlookup : before = .running (program store allowsBrowserOrigin (.logout r)) [] → ∀ token, r.refreshCookie = some token →
      ∃ row, s.db.findRefresh (store.hashToken token) = some row ∧ row.family.id = familyId ∧ IsCurrent row r) :
    Revoked t.db familyId ∨ Stands store allowsBrowserOrigin r familyId after := by
  cases hstands with
  | begun =>
      rcases cookieCredentials_eq allowsBrowserOrigin hcookies with
        ⟨answer, hrefused, hclears⟩ | ⟨token, csrfToken, hcookie, haccepted⟩
      · have hprogram : program store allowsBrowserOrigin (.logout r) = .rollback (.logout answer) := by
          rw [program, handleLogout, hrefused]
          rfl
        rw [hprogram] at hadvance
        cases hadvance with
        | rollback => exact .inr (.ended hclears)
      · obtain ⟨row, hrow, hid, hcurrent⟩ := hlookup rfl token hcookie
        have hprogram : program store allowsBrowserOrigin (.logout r) = .statement id fun db =>
            ((Store.revokeLookedUp "LOGOUT" r.updatedAt (store.getRefreshFamily db
              ⟨token, csrfToken, "LOGOUT", r.now, r.databaseNow⟩)).map answerOf).map .logout := by
          rw [program, handleLogout, haccepted]
          rfl
        rw [hprogram] at hadvance
        cases hadvance with
        | statement =>
            change _ ∨ Stands store allowsBrowserOrigin r familyId (.running (((Store.revokeLookedUp "LOGOUT" r.updatedAt
              (store.getRefreshFamily s.db _)).map answerOf).map .logout) [id])
            cases getRefreshFamily_of_current csrfToken hrow hcurrent with
            | inl hcsrf =>
                rw [hcsrf]
                exact .inr (.refused rfl)
            | inr hfound =>
                rw [hfound]
                exact .inr (.updating hid)
  | refused hclears =>
      cases hadvance with
      | rollback => exact .inr (.ended hclears)
  | @updating family hid =>
      have hlock : Advance s t (.running (.lock _ fun _ _ => ((Store.revokeRow family "LOGOUT" r.updatedAt).map answerOf).map
        Reply.logout) [id]) after := hadvance
      cases hlock with
      | waits => exact .inr (.waiting hid)
      | passes => exact .inr (.revoking hid)
  | waiting hid =>
      cases hadvance with
      | acquires => exact .inr (.revoking hid)
  | @revoking family hid =>
      have hwrite : Advance s t (.running (.statement (·.revokeFamilies (·.id = family.id) "LOGOUT" r.updatedAt) fun db =>
        .commit (.logout (answerOf (Store.revokeFound db family "LOGOUT" r.updatedAt).1))) [id]) after := hadvance
      cases hwrite with
      | statement =>
          rw [hid]
          exact .inr .committing
  | committing =>
      cases hadvance with
      | commit hdb =>
          obtain ⟨family, hfamily⟩ := hfamily
          rw [hdb]
          exact .inl (revoked_revokeFamilies hfamily _ _)
  | ended => cases hadvance

/-- The row of the token, in any later database. -/
theorem findRefresh_of_keeps (hkeeps : Keeps db db') {tokenHash : String} {row : RefreshRow}
    (hrow : db.findRefresh tokenHash = some row) :
    ∃ later, db'.findRefresh tokenHash = some later ∧ later.family.id = row.family.id := by
  obtain ⟨htoken, hfamily, huser⟩ := Database.findRefresh_eq_some.mp hrow
  obtain ⟨token, htoken', -, hfamilyId⟩ := hkeeps.tokens tokenHash row.token htoken
  obtain ⟨family, hfamily', hcontinues⟩ := hkeeps.families row.token.familyId row.family hfamily
  refine ⟨⟨token, family, row.user⟩, Database.findRefresh_eq_some.mpr ⟨htoken', ?_, ?_⟩, hcontinues.id⟩
  · rw [hfamilyId]
    exact hfamily'
  · rw [hcontinues.userId, findUser, hkeeps.users]
    exact huser

/-- A logout on its way: the family is revoked, or the cookies are not cleared without that. -/
structure OnItsWay (store : Store) (allowsBrowserOrigin : String → Bool) (s₀ : LogoutServer ι) (id : ι) (r : LogoutRequest)
    (familyId : String) (s : LogoutServer ι) : Prop where
  writing : Writing KeepsRows s
  keeps : Keeps s₀.db s.db
  stands : Revoked s.db familyId ∨
    ∃ progress, s.clients id = some ⟨.logout r, progress⟩ ∧ Stands store allowsBrowserOrigin r familyId progress

variable {s₀ : LogoutServer ι} {id : ι} {row : RefreshRow}

theorem OnItsWay.step (h : OnItsWay store allowsBrowserOrigin s₀ id r row.family.id s) (hcookies : HasCookies r) {token : String}
    (hcookie : r.refreshCookie = some token) (hrow : s₀.db.findRefresh (store.hashToken token) = some row)
    {label : LogoutLabel ι} (hcurrent : FindsCurrent store allowsBrowserOrigin id s label)
    (hstep : Server.step (program store allowsBrowserOrigin) s label = some t) :
    OnItsWay store allowsBrowserOrigin s₀ id r row.family.id t := by
  have hkeeps := keeps_step h.writing hstep
  refine ⟨h.writing.step writes_program hstep, h.keeps.trans hkeeps, ?_⟩
  rcases h.stands with hrevoked | ⟨progress, hclient, hstands⟩
  · exact .inl (hrevoked.keeps hkeeps)
  · cases label with
    | begin other request =>
        obtain ⟨hnew, _, hclients⟩ := Server.begin_inv hstep
        refine .inr ⟨progress, ?_, hstands⟩
        rw [hclients, Function.update_of_ne, hclient]
        intro heq
        rw [← heq, hclient] at hnew
        cases hnew
    | advance other =>
        by_cases hother : other = id
        · subst hother
          obtain ⟨request, before, after, hbefore, hclients, hadvance⟩ := Server.advance_inv hstep
          rw [hclient, Option.some.injEq, Client.mk.injEq] at hbefore
          obtain ⟨rfl, rfl⟩ := hbefore
          obtain ⟨later, hlater, hid⟩ := findRefresh_of_keeps h.keeps hrow
          obtain ⟨_, hfamily, _⟩ := Database.findRefresh_eq_some.mp hlater
          have hfound : s.db.findFamily row.family.id = some later.family := by
            rw [← hid, (Database.findFamily_eq_some hfamily).2]
            exact hfamily
          by_cases hrevoked : later.family.revokedAt.isSome
          · exact .inl (Revoked.keeps ⟨later.family, hfound, hrevoked⟩ hkeeps)
          · have hlookup : progress = .running (program store allowsBrowserOrigin (.logout r)) [] → ∀ token,
                r.refreshCookie = some token → ∃ row', s.db.findRefresh (store.hashToken token) = some row' ∧
                  row'.family.id = row.family.id ∧ IsCurrent row' r := by
              intro hbegun token' hcookie'
              obtain rfl := Option.some.inj (hcookie.symm.trans hcookie')
              rw [hbegun] at hclient
              refine ⟨later, hlater, hid, ?_⟩
              exact (hcurrent rfl r hclient token hcookie later hlater).resolve_left hrevoked
            cases hstands.advance hadvance hcookies ⟨_, hfound⟩ hlookup with
            | inl hrevoked => exact .inl hrevoked
            | inr hafter =>
                refine .inr ⟨after, ?_, hafter⟩
                rw [hclients, Function.update_self]
        · refine .inr ⟨progress, ?_, hstands⟩
          rw [Server.advance_clients_of_ne hstep (Ne.symm hother), hclient]

theorem OnItsWay.run (h : OnItsWay store allowsBrowserOrigin s₀ id r row.family.id s) (hcookies : HasCookies r) {token : String}
    (hcookie : r.refreshCookie = some token) (hrow : s₀.db.findRefresh (store.hashToken token) = some row)
    {labels : List (LogoutLabel ι)}
    (hcurrent : Runs.Along (Server.step (program store allowsBrowserOrigin)) (FindsCurrent store allowsBrowserOrigin id) s labels)
    (hrun : Runs.run (Server.step (program store allowsBrowserOrigin)) s labels = some t) :
    OnItsWay store allowsBrowserOrigin s₀ id r row.family.id t :=
  hcurrent.run (P := OnItsWay store allowsBrowserOrigin s₀ id r row.family.id)
    (fun _ _ _ h hlabel hstep => h.step hcookies hcookie hrow hlabel hstep) h hrun

end Logout

/-! ### Refreshes that begin later -/

/-- If it succeeds then not for the family. -/
def ForOthers (familyId : String) (reply : Reply) : Prop :=
  ∀ session, reply = .session (.ok session) → session.family.id ≠ familyId

theorem forOthers_error (error : StoreError) : ForOthers familyId (.session (.error error)) := by
  intro session hsession
  cases hsession

theorem returns_fail (message : String) :
    (Store.fail message).Returns fun result => ForOthers familyId (.session result) :=
  forOthers_error _

section OfOthers

variable {r : RotateRequest} {row : RefreshRow} (hother : row.family.id ≠ familyId)
include hother

theorem forOthers_ok (session : CreatedRefreshSession) (hsession : session.family.id = row.family.id) :
    ForOthers familyId (.session (.ok session)) := by
  intro session' heq
  cases heq
  rw [hsession]
  exact hother

theorem returns_recoverSuccessor (head : AuthRefreshTokenRow) :
    (store.recoverSuccessor r row head).Returns fun result => ForOthers familyId (.session result) := by
  unfold Store.recoverSuccessor
  split
  · split
    · exact returns_fail _
    · intro db
      dsimp only
      split
      · exact returns_fail _
      · split
        · exact returns_fail _
        · split
          · exact forOthers_error _
          · exact forOthers_ok hother _ rfl
  · exact returns_fail _

theorem returns_replaceHead (head : AuthRefreshTokenRow) :
    (store.replaceHead r row head).Returns fun result => ForOthers familyId (.session result) := by
  unfold Store.replaceHead
  split
  · exact forOthers_error _
  · split
    · exact returns_fail _
    · apply returns_execute (returns_fail _)
      intro db
      dsimp only
      split
      · exact returns_fail _
      · split
        · exact returns_fail _
        · exact fun _ => forOthers_ok hother _ rfl

theorem returns_useToken : (store.useToken r row).Returns fun result => ForOthers familyId (.session result) := by
  intro db
  dsimp only
  split
  · exact returns_fail _
  · split
    · exact returns_recoverSuccessor hother _
    · exact fun _ _ => forOthers_error _
    · exact returns_replaceHead hother _

end OfOthers

/-- What a refresh does with what it finds under its lock. -/
def underLock (store : Store) (r : RotateRequest) (snapshot db : Database) : Call :=
  match snapshot.reread db (store.hashToken r.token) with
  | none => .rollback (.error .notFound)
  | some row => store.rotateLocked r row

/-- Under its lock a refresh sees whether the family is revoked, whatever its snapshot was. -/
theorem returns_underLock (hrevoked : Revoked db familyId) (r : RotateRequest) (snapshot : Database) :
    (underLock store r snapshot db).Returns fun result => ForOthers familyId (.session result) := by
  unfold underLock
  split
  · exact forOthers_error _
  · case h_2 row hrow =>
      have hfamily : db.findFamily row.family.id = some row.family := by
        obtain ⟨seen, _, hseen⟩ := Option.bind_eq_some_iff.mp hrow
        obtain ⟨family, hfound, hupdated⟩ := Option.map_eq_some_iff.mp hseen
        rw [← hupdated, (Database.findFamily_eq_some hfound).2]
        exact hfound
      intro view
      dsimp only
      split
      · exact forOthers_error _
      · case isFalse hlive =>
          have hother : row.family.id ≠ familyId := by
            intro hid
            rw [hrevoked.not_isLive hfamily hid] at hlive
            exact hlive rfl
          split
          · exact forOthers_error _
          · exact returns_useToken hother

/-- A refresh that began after the family was revoked. -/
inductive BeganLater (store : Store) (allowsBrowserOrigin : String → Bool) (r : RotateRequest) (familyId : String) :
    Progress Database String Reply → Prop where
  | begun : BeganLater store allowsBrowserOrigin r familyId (.running (program store allowsBrowserOrigin (.refresh r)) [])
  | waiting {row : String} {snapshot : Database} {next : Database → Database → Transaction Database String Reply}
      {writes : List (Database → Database)}
      (hnext : ∀ db, Revoked db familyId → (next snapshot (view db writes)).Returns (ForOthers familyId)) :
      BeganLater store allowsBrowserOrigin r familyId (.waiting row snapshot next writes)
  | running {rest : Transaction Database String Reply} {writes : List (Database → Database)}
      (hrest : rest.Returns (ForOthers familyId)) : BeganLater store allowsBrowserOrigin r familyId (.running rest writes)
  | ended {reply : Reply} (hreply : ForOthers familyId reply) : BeganLater store allowsBrowserOrigin r familyId (.ended reply)

section Later

variable {s t : LogoutServer ι} {r : RotateRequest} {before after : Progress Database String Reply}

omit [DecidableEq ι] in
theorem BeganLater.advance (h : BeganLater store allowsBrowserOrigin r familyId before) (hadvance : Advance s t before after)
    (hrevoked : Revoked s.db familyId) : BeganLater store allowsBrowserOrigin r familyId after := by
  cases h with
  | begun =>
      have hlock : Advance s t (.running (.lock (fun db => (db.findRefresh (store.hashToken r.token)).map (·.family.id))
        fun snapshot db => (underLock store r snapshot db).map Reply.session) []) after := hadvance
      cases hlock with
      | waits => exact .waiting fun db hdb => returns_map (returns_underLock hdb r s.db)
      | passes => exact .running (returns_map (returns_underLock hrevoked r s.db))
  | waiting hnext =>
      cases hadvance with
      | acquires => exact .running (hnext s.db hrevoked)
  | running hrest =>
      cases hadvance with
      | commit => exact .ended hrest
      | rollback => exact .ended hrest
      | statement => exact .running (hrest _)
      | waits => exact .waiting fun db _ => hrest _ _
      | passes => exact .running (hrest _ _)
  | ended => cases hadvance

/-- The family is revoked, and the refreshes that were not there yet at `t` know it. -/
structure StaysOut (store : Store) (allowsBrowserOrigin : String → Bool) (t : LogoutServer ι) (familyId : String)
    (u : LogoutServer ι) : Prop where
  writing : Writing KeepsRows u
  revoked : Revoked u.db familyId
  refreshes : ∀ id r progress, t.clients id = none → u.clients id = some ⟨.refresh r, progress⟩ →
    BeganLater store allowsBrowserOrigin r familyId progress

variable {u v : LogoutServer ι}

theorem StaysOut.step (h : StaysOut store allowsBrowserOrigin t familyId u) {label : LogoutLabel ι}
    (hstep : Server.step (program store allowsBrowserOrigin) u label = some v) :
    StaysOut store allowsBrowserOrigin t familyId v := by
  refine ⟨h.writing.step writes_program hstep, h.revoked.keeps (keeps_step h.writing hstep), ?_⟩
  intro id r progress hnew hclient
  cases label with
  | begin other request =>
      obtain ⟨_, _, hclients⟩ := Server.begin_inv hstep
      rw [hclients] at hclient
      cases Calls.update_eq_some hclient with
      | inl hbegun =>
          obtain ⟨rfl, rfl⟩ := Client.mk.inj hbegun.2
          exact .begun
      | inr hold => exact h.refreshes id r progress hnew hold.2
  | advance other =>
      obtain ⟨request, before, after, hbefore, hclients, hadvance⟩ := Server.advance_inv hstep
      rw [hclients] at hclient
      cases Calls.update_eq_some hclient with
      | inl hadvanced =>
          obtain ⟨rfl, rfl⟩ := Client.mk.inj hadvanced.2
          rw [hadvanced.1] at hnew
          exact (h.refreshes other r before hnew hbefore).advance hadvance h.revoked
      | inr hold => exact h.refreshes id r progress hnew hold.2

theorem StaysOut.run (h : StaysOut store allowsBrowserOrigin t familyId u) {labels : List (LogoutLabel ι)}
    (hrun : Runs.run (Server.step (program store allowsBrowserOrigin)) u labels = some v) :
    StaysOut store allowsBrowserOrigin t familyId v :=
  Runs.Preserved.run (fun _ _ _ h hstep => h.step hstep) h hrun

omit [DecidableEq ι] in
theorem StaysOut.signedOut (h : StaysOut store allowsBrowserOrigin t familyId u) :
    SignedOut store allowsBrowserOrigin t familyId u where
  revoked := h.revoked
  refreshes := by
    intro id r session hnew hclient
    cases h.refreshes id r _ hnew hclient with
    | ended hreply => exact hreply session rfl
  introspections := by
    intro userID databaseNow
    rw [Database.introspectAccess, h.revoked.liveUser]
    split
    · case h_1 hnone => cases hnone
    · rfl
  issues := by
    intro db r statement hsnapshot hfamily
    rw [WebSocketTickets.issueWebSocketTicket, hsnapshot, hfamily, h.revoked.liveUser]
  consumes := by
    intro db ticket statement hsnapshot admission hadmitted hfamily
    rw [WebSocketTickets.consumeWebSocketTicket, hsnapshot] at hadmitted
    split at hadmitted
    · cases hadmitted
    · case h_2 row user hfound =>
        obtain ⟨found, _, huser⟩ := Option.bind_eq_some_iff.mp hfound
        obtain ⟨live, hlive, hpair⟩ := Option.map_eq_some_iff.mp huser
        obtain ⟨rfl, rfl⟩ := Prod.mk.inj hpair
        split at hadmitted
        · cases hadmitted
        · split at hadmitted
          · cases hadmitted
          · obtain rfl := WebSocketTickets.Response.admitted.inj (Except.ok.inj hadmitted)
            have hsame : found.refreshFamilyId = familyId := hfamily
            rw [hsame, h.revoked.liveUser] at hlive
            cases hlive

end Later

/-! ### Complete logouts -/

section Completeness

variable {s t : LogoutServer ι} {r : LogoutRequest} {row : RefreshRow} {id : ι}

/-- In every run, a logout whose lookup finds its token current does not clear the cookies before the
family is revoked, and what begins later for the family is refused. -/
theorem logout_completes (store : Store) (allowsBrowserOrigin : String → Bool) (db : Database)
    (before after : List (LogoutLabel ι)) (id : ι) (r : LogoutRequest) (row : RefreshRow) (s t : LogoutServer ι)
    (hbefore : Runs.run (Server.step (program store allowsBrowserOrigin)) (Server.initial db) before = some s)
    (hcarries : Carries store s.db r row)
    (hafter : Runs.run (Server.step (program store allowsBrowserOrigin)) s (.begin id (.logout r) :: after) = some t)
    (hcurrent : Runs.Along (Server.step (program store allowsBrowserOrigin)) (FindsCurrent store allowsBrowserOrigin id) s
      (.begin id (.logout r) :: after)) :
    Completes store allowsBrowserOrigin id r row.family.id t := by
  obtain ⟨hwriting, -⟩ := keeps_run (writing_initial db) hbefore
  obtain ⟨token, hcookie, hrow⟩ := hcarries.token
  have hcookies : HasCookies r := hcurrent.1 rfl
  obtain ⟨begun, hbegin, hrest⟩ := Runs.run_cons_eq_some.mp hafter
  obtain ⟨_, hdb, hclients⟩ := Server.begin_inv hbegin
  have honItsWay : OnItsWay store allowsBrowserOrigin s id r row.family.id begun := by
    refine ⟨hwriting.step writes_program hbegin, keeps_step hwriting hbegin, .inr ⟨_, ?_, .begun⟩⟩
    rw [hclients, Function.update_self]
  have hend := honItsWay.run hcookies hcookie hrow (hcurrent.2 begun hbegin) hrest
  intro answer hanswer hclears later u hlater
  have hrevoked : Revoked t.db row.family.id := by
    rcases hend.stands with hrevoked | ⟨progress, hclient, hstands⟩
    · exact hrevoked
    · rw [hanswer] at hclient
      obtain ⟨-, rfl⟩ := Client.mk.inj (Option.some.inj hclient)
      cases hstands with
      | ended hkept =>
          rw [hkept] at hclears
          cases hclears
  have hstays : StaysOut store allowsBrowserOrigin t row.family.id t := by
    refine ⟨hend.writing, hrevoked, ?_⟩
    intro other r' progress hnew hclient
    rw [hnew] at hclient
    cases hclient
  exact (hstays.run hlater).signedOut

end Completeness

/-! ### A login, a refresh and a logout -/

open Sessions

def anyOrigin (_ : String) : Bool :=
  true

def loggedInAndRefreshed : List (LogoutLabel Nat) :=
  [.begin 0 (.login login)] ++ List.replicate 3 (.advance 0) ++
    [.begin 1 (.refresh (rotation "first" second ⟨"renewed", by decide⟩ "t1"))] ++ List.replicate 8 (.advance 1)

def refreshed : LogoutServer Nat :=
  (Runs.run (Server.step (program configured anyOrigin)) (Server.initial ⟨[activeUser], [], [], [], []⟩)
    loggedInAndRefreshed).get (by decide +kernel)

/-- A logout two seconds after the login. -/
def logoutWith (token : String) : LogoutRequest where
  origin := "https://localhost"
  refreshCookie := some token
  csrfCookie := some "csrf"
  csrfHeader := "csrf"
  now := 2 * second
  databaseNow := 2 * second
  updatedAt := 2 * second

def loggingOut (token : String) (steps : Nat) : List (LogoutLabel Nat) :=
  .begin 2 (.logout (logoutWith token)) :: List.replicate steps (.advance 2)

/-- After the logout with the current token. -/
def loggedOut : LogoutServer Nat :=
  (Runs.run (Server.step (program configured anyOrigin)) refreshed (loggingOut "renewed" 5)).get (by decide +kernel)

/-- After the logout with the token that the refresh has replaced. -/
def notLoggedOut : LogoutServer Nat :=
  (Runs.run (Server.step (program configured anyOrigin)) refreshed (loggingOut "first" 2)).get (by decide +kernel)

def presentedRow (token : String) : RefreshRow :=
  (refreshed.db.findRefresh (configured.hashToken token)).getD ⟨⟨"", "", "", 0, none, none, none, none, 0, none⟩,
    ⟨"", "", .LOCAL, 0, "", 0, 0, 0, 0, none, none, none, none, 0, 0⟩, activeUser⟩

instance (row : RefreshRow) (r : LogoutRequest) : Decidable (IsCurrent row r) :=
  inferInstanceAs (Decidable (_ ∧ _ ∧ _ ∧ _))

theorem carries_of_live {token : String}
    (hrow : refreshed.db.findRefresh (configured.hashToken token) = some (presentedRow token))
    (hlive : (presentedRow token).isLive (2 * second))
    (hcsrf : configured.verifyTokenHash "csrf" (presentedRow token).family.csrfTokenHash) :
    Carries configured refreshed.db (logoutWith token) (presentedRow token) :=
  ⟨⟨token, rfl, hrow⟩, hlive, "csrf", .inl rfl, hcsrf⟩

/-- The client's request, for one that has ended. -/
theorem client_of_result {s : LogoutServer Nat} {id : Nat} {request : Request} {reply : Reply}
    (hrequest : (s.clients id).map (·.request) = some request) (hresult : s.result id = some reply) :
    s.clients id = some ⟨request, .ended reply⟩ := by
  obtain ⟨client, hclient, rfl⟩ := Option.map_eq_some_iff.mp hrequest
  rw [Server.result, hclient] at hresult
  obtain ⟨request, progress⟩ := client
  cases progress with
  | ended result =>
      rw [Option.some.inj hresult] at hclient
      exact hclient
  | running => cases hresult
  | waiting => cases hresult

def checkCurrent (s : LogoutServer Nat) : LogoutLabel Nat → Bool
  | .begin _ (.logout r) => r = logoutWith "renewed"
  | .begin _ _ => true
  | .advance _ => ((s.clients 2).all fun client => client.request = .logout (logoutWith "renewed")) &&
      (s.db.findRefresh (configured.hashToken "renewed")).all fun row => IsCurrent row (logoutWith "renewed")

theorem findsCurrent_of_check (s : LogoutServer Nat) (label : LogoutLabel Nat) (h : checkCurrent s label) :
    FindsCurrent configured anyOrigin 2 s label := by
  cases label with
  | begin other request =>
      cases request with
      | login r => trivial
      | refresh r => trivial
      | logout r =>
          intro _
          rw [of_decide_eq_true h]
          exact ⟨⟨"renewed", rfl, by decide⟩, "csrf", rfl, by decide⟩
  | advance other =>
      intro _ r hclient token hcookie row hrow
      rw [checkCurrent, hclient, Option.all_some, Bool.and_eq_true, decide_eq_true_eq] at h
      obtain ⟨hrequest, hcurrent⟩ := h
      obtain rfl := Request.logout.inj hrequest
      obtain rfl := Option.some.inj hcookie
      rw [hrow, Option.all_some, decide_eq_true_eq] at hcurrent
      exact .inr hcurrent

theorem logout_completes_of_current : loggedOut.result 2 = some (.logout ⟨204, true⟩) ∧
    SignedOut configured anyOrigin loggedOut (presentedRow "renewed").family.id loggedOut := by
  have hresult : loggedOut.result 2 = some (.logout ⟨204, true⟩) := by decide +kernel
  refine ⟨hresult, ?_⟩
  refine logout_completes configured anyOrigin _ loggedInAndRefreshed _ 2 (logoutWith "renewed") (presentedRow "renewed")
    refreshed loggedOut (Option.some_get _).symm
    (carries_of_live (by decide +kernel) (by decide +kernel) (by decide +kernel)) (Option.some_get _).symm
    (Runs.Along.of_check findsCurrent_of_check (by decide +kernel)) ⟨204, true⟩
    (client_of_result (by decide +kernel) hresult) rfl [] loggedOut rfl

/-- A logout in another tab, a second after the refresh: the cookies are cleared, and the session goes on. -/
theorem not_logout_completes_of_predecessor : ¬ ∀ (db : Database) (before after : List (LogoutLabel Nat)) (id : Nat)
    (r : LogoutRequest) (row : RefreshRow) (s t : LogoutServer Nat),
    Runs.run (Server.step (program configured anyOrigin)) (Server.initial db) before = some s →
      Carries configured s.db r row →
        Runs.run (Server.step (program configured anyOrigin)) s (.begin id (.logout r) :: after) = some t →
          Completes configured anyOrigin id r row.family.id t := by
  intro hall
  have hcompletes := hall _ loggedInAndRefreshed _ 2 (logoutWith "first") (presentedRow "first") refreshed notLoggedOut
    (Option.some_get _).symm (carries_of_live (by decide +kernel) (by decide +kernel) (by decide +kernel))
    (Option.some_get _).symm
  have hanswer : notLoggedOut.clients 2 = some ⟨.logout (logoutWith "first"), .ended (.logout ⟨401, true⟩)⟩ :=
    client_of_result (by decide +kernel) (by decide +kernel)
  obtain ⟨family, hfamily, hrevoked⟩ := (hcompletes ⟨401, true⟩ hanswer rfl [] notLoggedOut rfl).revoked
  have hlive : (notLoggedOut.db.findFamily (presentedRow "first").family.id).all (·.revokedAt.isNone) = true := by
    decide +kernel
  rw [hfamily, Option.all_some, Option.isNone_iff_eq_none] at hlive
  rw [hlive] at hrevoked
  cases hrevoked

end Transcendence.Auth.Logout
