import Transcendence.PublicApi.Isolation

/-!
# Tokens that are revoked

The steps of the auth service in a run are a run of the auth service, so what holds of a token there holds
of the requests that present it (`requests_follow_token`): whoever arrives after the token is revoked,
deleted or expired gets nothing, and nobody is turned away for a token that is good all the while.
-/

namespace Transcendence.PublicApi

open Auth.ProjectApiTokens (CreateProjectAPITokenRequest IsActive Issued IssuedInv)
open RankedColumns (Dense)
open Tasks (Service)

variable {config : Config} {b c d : Backend} {id : Nat} {client : Client}

/-- The run of the auth service in a run of the system. -/
theorem exists_auth_run {labels : List Label} (hdrawn : Runs.Along (Backend.step config) Drawn b labels)
    (hrun : Runs.run (Backend.step config) b labels = some c) : ∃ drawings,
      Runs.Along (Auth.ProjectApiTokens.State.step config.store) Auth.ProjectApiTokens.Drawn b.auth drawings ∧
        Runs.run (Auth.ProjectApiTokens.State.step config.store) b.auth drawings = some c.auth := by
  refine hdrawn.project (fun s label t hdrawn hstep => ?_) hrun
  cases serviceStep hstep with
  | rests hauth => exact .inl hauth
  | auth drawing hdraws hauth => exact .inr ⟨drawing, hdraws hdrawn, hauth⟩
  | board boardLabel _ hauth => exact .inl hauth

/-! ### Requests that arrive -/

/-- Where a request comes from: it was there, or arrives with an introspection that begins. -/
inductive Arrival (config : Config) (b : Backend) (id : Nat) (client : Client) : Prop where
  | stays {before : Client} (hclient : b.clients id = some before) (hrequest : before.request = client.request)
      (hintrospection : before.introspection = client.introspection)
  | refused {status : Nat} (hkey : client.request.key config = .error status)
  | introspects (hnew : b.auth.calls client.introspection = none)

theorem Arrival.of_setClient {before after : Client} {other : Nat} (hbefore : b.clients other = some before)
    (hclient : Function.update b.clients other (some after) id = some client) (hrequest : before.request = after.request)
    (hintrospection : before.introspection = after.introspection) : Arrival config b id client := by
  rcases Calls.update_eq_some hclient with ⟨rfl, rfl⟩ | ⟨-, hold⟩
  · exact .stays hbefore hrequest hintrospection
  · exact .stays hold rfl rfl

theorem arrival {label : Label} (hstep : b.step config label = some c) (hclient : c.clients id = some client) :
    Arrival config b id client := by
  cases label with
  | auth drawing =>
      obtain ⟨auth, -, rfl⟩ := Option.map_eq_some_iff.mp hstep
      exact .stays hclient rfl rfl
  | board boardLabel =>
      obtain ⟨board, -, rfl, -⟩ := exists_stepBoard hstep
      exact .stays hclient rfl rfl
  | archive projectId isArchived =>
      cases hstep
      exact .stays hclient rfl rfl
  | arrive other request introspection =>
      obtain ⟨-, hstep⟩ := Option.ite_none_left_eq_some.mp hstep
      split at hstep
      · next status hkey =>
          cases hstep
          rcases Calls.update_eq_some hclient with ⟨-, rfl⟩ | ⟨-, hold⟩
          · exact .refused hkey
          · exact .stays hold rfl rfl
      · next text hkey =>
          obtain ⟨auth, hbegin, rfl⟩ := Option.map_eq_some_iff.mp hstep
          obtain ⟨hnew, -⟩ := Option.ite_none_left_eq_some.mp hbegin
          rcases Calls.update_eq_some hclient with ⟨-, rfl⟩ | ⟨-, hold⟩
          · exact .introspects (Option.not_isSome_iff_eq_none.mp hnew)
          · exact .stays hold rfl rfl
  | introspected other =>
      obtain ⟨before, hfiltered, hstep⟩ := Option.bind_eq_some_iff.mp hstep
      obtain ⟨hbefore, -⟩ := exists_stage hfiltered
      obtain ⟨call, -, hstep⟩ := Option.bind_eq_some_iff.mp hstep
      split at hstep
      · cases hstep
        exact .of_setClient hbefore hclient rfl rfl
      · cases hstep
        exact .of_setClient hbefore hclient rfl rfl
      · cases hstep
        exact .of_setClient hbefore hclient rfl rfl
      · cases hstep
  | findProject other =>
      obtain ⟨before, hfiltered, hstep⟩ := Option.bind_eq_some_iff.mp hstep
      obtain ⟨hbefore, -⟩ := exists_stage hfiltered
      obtain ⟨principal, -, hstep⟩ := Option.map_eq_some_iff.mp hstep
      split_ifs at hstep
      · cases hstep
        exact .of_setClient hbefore hclient rfl rfl
      · cases hstep
        exact .of_setClient hbefore hclient rfl rfl
      · cases hstep
        exact .of_setClient hbefore hclient rfl rfl
      · cases hstep
        exact .of_setClient hbefore hclient rfl rfl
  | handle other taskCall =>
      obtain ⟨before, hfiltered, hstep⟩ := Option.bind_eq_some_iff.mp hstep
      obtain ⟨hbefore, -⟩ := exists_stage hfiltered
      obtain ⟨principal, -, hstep⟩ := Option.bind_eq_some_iff.mp hstep
      split at hstep
      · cases hstep
        exact .of_setClient hbefore hclient rfl rfl
      · split at hstep
        · cases hstep
          exact .of_setClient hbefore hclient rfl rfl
        · obtain ⟨board, -, rfl⟩ := Option.map_eq_some_iff.mp hstep
          exact .of_setClient hbefore hclient rfl rfl
  | respond other =>
      obtain ⟨before, hfiltered, hstep⟩ := Option.bind_eq_some_iff.mp hstep
      obtain ⟨hbefore, -⟩ := exists_stage hfiltered
      obtain ⟨taskCall, -, hstep⟩ := Option.bind_eq_some_iff.mp hstep
      obtain ⟨call, -, hstep⟩ := Option.bind_eq_some_iff.mp hstep
      split at hstep
      · cases hstep
        exact .of_setClient hbefore hclient rfl rfl
      · cases hstep
        exact .of_setClient hbefore hclient rfl rfl
      · cases hstep
  | fail other status =>
      obtain ⟨before, hbefore, hstep⟩ := Option.bind_eq_some_iff.mp hstep
      obtain ⟨-, hstep⟩ := Option.ite_none_left_eq_some.mp hstep
      split at hstep
      · cases hstep
      · cases hstep
      · cases hstep
        exact .of_setClient hbefore hclient rfl rfl

/-- Since `b`: the calls of the auth service go on, and the requests that have arrived have begun theirs. -/
structure Since (config : Config) (b c : Backend) : Prop where
  calls : ∀ i, c.auth.calls i = none → b.auth.calls i = none
  issued : ∀ r, Issued config.store b.auth r → Issued config.store c.auth r
  arrived : ∀ id client, b.clients id = none → c.clients id = some client →
    (∃ status, client.request.key config = .error status) ∨ b.auth.calls client.introspection = none

theorem Since.refl (config : Config) (b : Backend) : Since config b b where
  calls _ h := h
  issued _ h := h
  arrived id client hnew hclient := by cases hnew.symm.trans hclient

theorem Since.step {label : Label} (h : Since config b c) (hstep : c.step config label = some d) : Since config b d where
  calls i hnone := by
    apply h.calls
    cases serviceStep hstep with
    | rests hauth => exact hauth ▸ hnone
    | board _ _ hauth => exact hauth ▸ hnone
    | auth drawing _ hauth =>
        by_contra hsome
        obtain ⟨call, hcall⟩ := Option.ne_none_iff_exists'.mp hsome
        have hsteps := Auth.ProjectApiTokens.steps_of_step hauth
        have hgoesOn : GoesOn c { c with auth := d.auth } := .of_auth hsteps rfl
        obtain ⟨later, hlater⟩ := hgoesOn.auth i call.request call.phase hcall
        cases hnone.symm.trans hlater
  issued r hissued := by
    have hissued := h.issued r hissued
    cases serviceStep hstep with
    | rests hauth => exact hauth ▸ hissued
    | board _ _ hauth => exact hauth ▸ hissued
    | auth drawing _ hauth => exact hissued.step (Auth.ProjectApiTokens.steps_of_step hauth)
  arrived id client hnew hclient := by
    cases arrival hstep hclient with
    | stays hbefore hrequest hintrospection =>
        have harrived := h.arrived id _ hnew hbefore
        rw [hrequest, hintrospection] at harrived
        exact harrived
    | refused hkey => exact .inl ⟨_, hkey⟩
    | introspects hfree => exact .inr (h.calls _ hfree)

/-! ### What becomes of them -/

/-- What a request that has arrived since then gets for the token. -/
structure FollowsToken (b c : Backend) (r : CreateProjectAPITokenRequest) (client : Client) : Prop where
  grant : ∀ principal, client.principal = some principal →
    (principal.tokenId, principal.projectId, principal.permission) = r.grant
  /-- Nothing, if the token was revoked or deleted or had expired. -/
  shut : (∀ row ∈ b.auth.tokens, row.id = r.id → ¬IsActive b.auth.clock row) →
    client.principal = none ∧ client.taskCall = none
  /-- As long as the token is good, it is not said to be invalid. -/
  good : ∀ row ∈ c.auth.tokens, row.id = r.id → IsActive c.auth.clock row → client.stage ≠ .ended (.status 401)

theorem isPrefixOf_token (r : CreateProjectAPITokenRequest) : Auth.ProjectAPITokenPrefix.isPrefixOf r.token = true := by
  rw [List.isPrefixOf_iff_prefix]
  refine ⟨r.selector ++ [Auth.dot] ++ r.secret, ?_⟩
  simp only [CreateProjectAPITokenRequest.token, Auth.formatProjectAPIToken, List.append_assoc]

/-- A request with a token may have the wrong path only. -/
theorem key_of_token {request : PublicRequest} {r : CreateProjectAPITokenRequest} (htoken : request.apiKey = .value r.token)
    {status : Nat} (hkey : request.key config = .error status) : status = 400 := by
  rw [PublicRequest.key, htoken] at hkey
  split_ifs at hkey
  · cases hkey
    rfl
  · dsimp only at hkey
    rw [if_pos (isPrefixOf_token r)] at hkey
    cases hkey

theorem requests_follow_token (config : Config) (hhmac : Function.Injective config.store.hmac) (projects : List String)
    (clock : Nat) (db : Tasks.Database) (hids : (db.tasks.map (·.id)).Nodup) (hdense : Dense (Tasks.positions db.tasks))
    (labels later : List Label)
    (hdrawn : Runs.Along (Backend.step config) Drawn (.initial projects clock db) (labels ++ later)) (b c : Backend)
    (hrun : Runs.run (Backend.step config) (.initial projects clock db) labels = some b)
    (hlater : Runs.run (Backend.step config) b later = some c) (r : CreateProjectAPITokenRequest)
    (hissued : Issued config.store b.auth r) (id : Nat) (client : Client) (hnew : b.clients id = none)
    (hclient : c.clients id = some client) (htoken : client.request.apiKey = .value r.token) : FollowsToken b c r client := by
  have hb := inv_run hhmac hids hdense hdrawn.of_append hrun
  have hc : Inv config c := inv_run hhmac hids hdense hdrawn (Runs.run_append_eq_some.mpr ⟨b, hrun, hlater⟩)
  have hvouched := hc.vouched id client hclient
  obtain ⟨drawings, hdraws, hauth⟩ := exists_auth_run (hdrawn.after hrun) hlater
  have hsince : Since config b c := Runs.Preserved.run (fun _ _ _ => Since.step) (.refl config b) hlater
  have harrived := hsince.arrived id client hnew hclient
  constructor
  · intro principal hprincipal
    obtain ⟨r', hholds, hgrant⟩ := hc.holder hclient hprincipal
    have hsame : r'.token = r.token := HeaderValue.value.inj (hholds.presented.symm.trans htoken)
    rw [← hc.issued.eq_of_token_eq hholds.issued (hsince.issued r hissued) hsame, hgrant]
  · intro hover
    have hnone : client.principal = none := by
      by_contra hsome
      obtain ⟨principal, hprincipal⟩ := Option.ne_none_iff_exists'.mp hsome
      obtain ⟨text, hkey, hcall⟩ := hvouched.principal principal hprincipal
      rw [htoken] at hkey
      cases hkey
      rcases harrived with ⟨status, hrefused⟩ | hfree
      · exact hsome (hvouched.refused status hrefused).2
      · cases hb.issued.rejected hhmac hissued hover hfree hdraws hauth hcall
    refine ⟨hnone, ?_⟩
    by_contra hsome
    obtain ⟨taskCall, htaskCall⟩ := Option.ne_none_iff_exists'.mp hsome
    obtain ⟨principal, -, -, hprincipal, -⟩ := hvouched.taskCall taskCall htaskCall
    cases hnone.symm.trans hprincipal
  · intro row hrow hid hactive hended
    have hkey : ∀ status, client.request.key config = .error status → status = 400 := fun status => key_of_token htoken
    rcases hvouched.unauthorized hended with hrefused | ⟨text, htext, hcall⟩
    · cases hkey 401 hrefused
    · rw [htoken] at htext
      cases htext
      rcases harrived with ⟨status, hrefused⟩ | hfree
      · rw [hkey status hrefused] at hrefused
        cases hended.symm.trans (hvouched.refused 400 hrefused).1
      · rcases hb.issued.accepted hhmac hissued hfree hdraws hauth hcall hrow hid hactive with hgrant | hfailed | ⟨_, _, hbegun⟩
        · cases hgrant
        · cases hfailed
        · cases hbegun

/-- The token is revoked, and then a request presents it. -/
def revoking : List Label :=
  [.auth (.begin 0 (.create writeRequest)), .auth (.lock 0), .auth (.count 0 Auth.second), .auth (.insert 0),
    .auth (.begin 1 (.revoke "project" "token" "owner")), .auth (.revoke 1)]

def arriving : List Label :=
  [.arrive 0 ⟨"project", .value writeRequest.token, .tasks none⟩ 2, .auth (.select 2), .introspected 0]

theorem requests_follow_token_of_revoking : ∃ b c client, Runs.run (Backend.step plainConfig)
    (.initial ["project"] Auth.second Tasks.Service.emptyBoard) revoking = some b ∧
      Runs.run (Backend.step plainConfig) b arriving = some c ∧ c.clients 0 = some client ∧
        client.stage = .ended (.status 401) ∧ client.principal = none ∧ FollowsToken b c writeRequest client := by
  have hruns : (Runs.run (Backend.step plainConfig) (.initial ["project"] Auth.second Tasks.Service.emptyBoard) revoking).bind
      (fun b => (Runs.run (Backend.step plainConfig) b arriving).map fun c =>
        (b.auth.tokens.all (·.revokedAt.isSome), b.clients 0, b.auth.calls 0, c.clients 0)) =
          some (true, none, some ⟨.create writeRequest, .ended (.ok (.created
            (Auth.ProjectApiTokens.State.createdRow plainConfig.store writeRequest) writeRequest.token))⟩,
            some ⟨⟨"project", .value writeRequest.token, .tasks none⟩, 2, none, none, .ended (.status 401)⟩) := by
    decide +kernel
  obtain ⟨b, hrun, hruns⟩ := Option.bind_eq_some_iff.mp hruns
  obtain ⟨c, hlater, hends⟩ := Option.map_eq_some_iff.mp hruns
  obtain ⟨hrevoked, hends⟩ := Prod.mk.inj hends
  obtain ⟨hnew, hends⟩ := Prod.mk.inj hends
  obtain ⟨hcreated, hclient⟩ := Prod.mk.inj hends
  have hdrawn : Runs.Along (Backend.step plainConfig) Drawn (.initial ["project"] Auth.second Tasks.Service.emptyBoard)
      (revoking ++ arriving) := by
    refine ⟨fun _ _ _ _ _ _ _ _ => nofun, fun _ _ => Runs.Along.of_forall (fun label hlabel s drawing heq i r hbegin => ?_) _⟩
    rw [heq, hbegin] at hlabel
    simp [arriving] at hlabel
  have hfollows := requests_follow_token plainConfig Function.injective_id ["project"] Auth.second Tasks.Service.emptyBoard
    List.nodup_nil (fun _ => List.Perm.nil) revoking arriving hdrawn b c hrun hlater writeRequest ⟨0, hcreated⟩ 0 _ hnew
    hclient rfl
  refine ⟨b, c, _, hrun, hlater, hclient, rfl, (hfollows.shut fun row hrow _ hactive => ?_).1, hfollows⟩
  have hsome := List.all_eq_true.mp hrevoked row hrow
  rw [hactive.1] at hsome
  cases hsome

end Transcendence.PublicApi
