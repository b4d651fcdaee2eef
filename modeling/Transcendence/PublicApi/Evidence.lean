import Transcendence.PublicApi.Requests
import Transcendence.Tasks.OtherBoards

/-!
# Evidence of the requests

What a request may do is decided once, before its task call begins, and the token may be revoked while the
call runs. So the evidence is kept with the request: the principal is what the introspection of its API key
has returned, the project and the permission are those the guard has compared, and the task call is the one
the route makes of the path and the principal (`Vouched`).
-/

namespace Transcendence.PublicApi

open Auth.ProjectApiTokens (CreateProjectAPITokenRequest IsActive Issued IssuedInv ProjectAPITokenPrincipal)
open RankedColumns (Dense)
open Tasks (CallId ProjectId Service Task)

/-- What the guard compares before a handler of a project runs. -/
structure Admits (request : PublicRequest) (principal : ProjectAPITokenPrincipal) : Prop where
  project : toLowerCase request.projectId = toLowerCase principal.projectId
  permission : request.route.requiredPermission = some .READ_WRITE → principal.permission = .READ_WRITE

/-- The tasks in a response. -/
def PublicResponse.shown : PublicResponse → List Task
  | .tasks found => found
  | .task found => [found]
  | .written answer => [answer]
  | _ => []

theorem status_ne {status other : Nat} (h : status ≠ other) : PublicResponse.status status ≠ .status other :=
  fun heq => h (PublicResponse.status.inj heq)

/-- The request's introspection has got the result. -/
def Introspected (b : Backend) (client : Client) (result : Except Auth.ProjectApiTokens.Error Auth.ProjectApiTokens.Response) :
    Prop :=
  ∃ text, client.request.apiKey = .value text ∧ b.auth.calls client.introspection = some ⟨.introspect text, .ended result⟩

/-- Where what a request has got comes from. -/
structure Vouched (config : Config) (b : Backend) (client : Client) : Prop where
  refused : ∀ status, client.request.key config = .error status →
    client.stage = .ended (.status status) ∧ client.principal = none
  introspecting : client.stage = .introspecting → client.principal = none ∧ ∃ text phase,
    client.request.apiKey = .value text ∧ b.auth.calls client.introspection = some ⟨.introspect text, phase⟩
  principal : ∀ principal, client.principal = some principal → Introspected b client (.ok (.principal principal))
  activated : ∀ principal, client.principal = some principal → client.stage = .activated →
    client.request.route ≠ .introspect → Admits client.request principal
  pending : client.taskCall.isSome → client.stage = .handling ∨ ∃ response, client.stage = .ended response
  taskCall : ∀ taskCall, client.taskCall = some taskCall → ∃ principal mutation progress, client.principal = some principal ∧
    Admits client.request principal ∧
      client.request.route.mutation client.request.projectId principal.tokenId = some mutation ∧
        b.board.calls taskCall = some ⟨mutation, progress⟩
  shown : ∀ response, client.stage = .ended response → ∀ task ∈ response.shown, task.projectId = client.request.projectId ∧
    ∃ principal, client.principal = some principal ∧ Admits client.request principal
  unauthorized : client.stage = .ended (.status 401) →
    client.request.key config = .error 401 ∨ Introspected b client (.error .notFound)

structure Inv (config : Config) (b : Backend) : Prop where
  issued : IssuedInv config.store b.auth
  board : b.board.Inv
  answers : b.board.Answers
  vouched : ∀ id client, b.clients id = some client → Vouched config b client
  machines : ∀ taskCall call tokenId, b.board.calls taskCall = some call → call.request.actor = .MACHINE tokenId →
    ∃ id client, b.clients id = some client ∧ client.taskCall = some taskCall

/-- Of the tokens that the auth service draws. -/
def Drawn (b : Backend) (label : Label) : Prop :=
  ∀ drawing, label = .auth drawing → Auth.ProjectApiTokens.Drawn b.auth drawing

variable {config : Config} {b c : Backend} {id : Nat} {client : Client}

/-! ### Calls go on -/

/-- The calls of both services are still there, with their requests and results. -/
structure GoesOn (b c : Backend) : Prop where
  auth : ∀ i request phase, b.auth.calls i = some ⟨request, phase⟩ → ∃ later, c.auth.calls i = some ⟨request, later⟩
  ended : ∀ i request result, b.auth.calls i = some ⟨request, .ended result⟩ →
    c.auth.calls i = some ⟨request, .ended result⟩
  board : ∀ taskCall request progress, b.board.calls taskCall = some ⟨request, progress⟩ →
    ∃ later, c.board.calls taskCall = some ⟨request, later⟩

theorem GoesOn.of_eq (hauth : c.auth = b.auth) (hboard : c.board = b.board) : GoesOn b c where
  auth i request phase h := ⟨phase, by rw [hauth, h]⟩
  ended i request result h := by rw [hauth, h]
  board taskCall request progress h := ⟨progress, by rw [hboard, h]⟩

theorem GoesOn.of_auth {label : Auth.ProjectApiTokens.Label}
    (hsteps : Auth.ProjectApiTokens.Steps config.store b.auth c.auth label) (hboard : c.board = b.board) : GoesOn b c where
  auth i request phase h := by
    cases hsteps with
    | ticks hcalls => exact ⟨phase, by rw [hcalls, h]⟩
    | @begins other began hnew hcalls =>
        refine ⟨phase, ?_⟩
        rw [hcalls, Function.update_of_ne, h]
        intro heq
        rw [heq, hnew] at h
        cases h
    | @proceeds label other call later hcall hrunning hcalls =>
        rw [hcalls]
        by_cases heq : i = other
        · rw [heq] at h
          cases hcall.symm.trans h
          exact ⟨later, by rw [heq, Function.update_self]⟩
        · exact ⟨phase, by rw [Function.update_of_ne heq, h]⟩
  ended i request result h := hsteps.of_hasEnded h rfl
  board taskCall request progress h := ⟨progress, by rw [hboard, h]⟩

theorem GoesOn.of_board {label : Tasks.Label} (hstep : b.board.step label = some c.board) (hauth : c.auth = b.auth) :
    GoesOn b c where
  auth i request phase h := ⟨phase, by rw [hauth, h]⟩
  ended i request result h := by rw [hauth, h]
  board taskCall request progress h := by
    by_cases heq : taskCall = label.call
    · cases Service.stepCases hstep with
      | starts hdb hnew =>
          rw [heq, hnew] at h
          cases h
      | fails hdb hcall hfailed =>
          rw [heq] at h
          cases hcall.symm.trans h
          exact ⟨_, heq ▸ hfailed⟩
      | advances hadvance =>
          rw [heq] at h
          cases hadvance.hcall.symm.trans h
          exact ⟨_, heq ▸ hadvance.calls_self⟩
    · exact ⟨progress, (Service.calls_of_ne hstep heq).trans h⟩

theorem GoesOn.introspected (h : GoesOn b c) {result : Except Auth.ProjectApiTokens.Error Auth.ProjectApiTokens.Response}
    (hintrospected : Introspected b client result) : Introspected c client result := by
  obtain ⟨text, hkey, hcall⟩ := hintrospected
  exact ⟨text, hkey, h.ended _ _ _ hcall⟩

theorem Vouched.goesOn (h : Vouched config b client) (hgoesOn : GoesOn b c) : Vouched config c client where
  refused := h.refused
  introspecting hstage := by
    obtain ⟨hnone, text, phase, hkey, hcall⟩ := h.introspecting hstage
    obtain ⟨later, hlater⟩ := hgoesOn.auth _ _ _ hcall
    exact ⟨hnone, text, later, hkey, hlater⟩
  principal principal hprincipal := hgoesOn.introspected (h.principal principal hprincipal)
  activated := h.activated
  pending := h.pending
  taskCall taskCall htaskCall := by
    obtain ⟨principal, mutation, progress, hprincipal, hadmits, hmutation, hcall⟩ := h.taskCall taskCall htaskCall
    obtain ⟨later, hlater⟩ := hgoesOn.board _ _ _ hcall
    exact ⟨principal, mutation, later, hprincipal, hadmits, hmutation, hlater⟩
  shown := h.shown
  unauthorized hstage := (h.unauthorized hstage).imp_right hgoesOn.introspected

/-! ### The steps of a request -/

/-- A request that comes to another stage with what it has. -/
theorem Vouched.of_stage (h : Vouched config b client) {stage : Stage} (hrefused : ∀ response, client.stage ≠ .ended response)
    (hnot : stage ≠ .introspecting)
    (hactivated : ∀ principal, client.principal = some principal → stage = .activated →
      client.request.route ≠ .introspect → Admits client.request principal)
    (hpending : client.taskCall.isSome → ∃ response, stage = .ended response)
    (hshown : ∀ response, stage = .ended response → ∀ task ∈ response.shown, task.projectId = client.request.projectId ∧
      ∃ principal, client.principal = some principal ∧ Admits client.request principal)
    (hunauthorized : stage = .ended (.status 401) → Introspected b client (.error .notFound)) :
    Vouched config b { client with stage := stage } where
  refused status hkey := absurd (h.refused status hkey).1 (hrefused _)
  introspecting hstage := absurd hstage hnot
  principal := h.principal
  activated := hactivated
  pending hsome := .inr (hpending hsome)
  taskCall := h.taskCall
  shown := hshown
  unauthorized hstage := .inr (hunauthorized hstage)

/-- A response that shows nothing. -/
theorem Vouched.of_response (h : Vouched config b client) {response : PublicResponse}
    (hrunning : ∀ response, client.stage ≠ .ended response)
    (hshown : ∀ task ∈ response.shown, task.projectId = client.request.projectId ∧
      ∃ principal, client.principal = some principal ∧ Admits client.request principal)
    (hunauthorized : response = .status 401 → Introspected b client (.error .notFound)) :
    Vouched config b { client with stage := .ended response } := by
  refine h.of_stage hrunning nofun (fun _ _ heq => nomatch heq) (fun _ => ⟨_, rfl⟩) (fun other heq task htask => ?_) fun heq => ?_
  · cases heq
    exact hshown task htask
  · cases heq
    exact hunauthorized rfl

/-- What changes about one request. -/
theorem Inv.setClient (h : Inv config b) (hvouched : Vouched config b client)
    (hkeeps : ∀ before taskCall, b.clients id = some before → before.taskCall = some taskCall →
      client.taskCall = some taskCall) : Inv config (b.setClient id client) where
  issued := h.issued
  board := h.board
  answers := h.answers
  vouched other found hfound := by
    have hsame : GoesOn b (b.setClient id client) := .of_eq rfl rfl
    rcases Calls.update_eq_some hfound with ⟨-, rfl⟩ | ⟨-, hold⟩
    · exact hvouched.goesOn hsame
    · exact (h.vouched other found hold).goesOn hsame
  machines taskCall call tokenId hcall hactor := by
    obtain ⟨other, found, hfound, htaskCall⟩ := h.machines taskCall call tokenId hcall hactor
    by_cases heq : other = id
    · rw [heq] at hfound
      exact ⟨id, client, Function.update_self .., hkeeps found taskCall hfound htaskCall⟩
    · exact ⟨other, found, (Function.update_of_ne heq _ _).trans hfound, htaskCall⟩

theorem Inv.stage (h : Inv config b) (hclient : b.clients id = some client) {stage : Stage}
    (hvouched : Vouched config b { client with stage := stage }) : Inv config (b.setClient id { client with stage := stage }) := by
  apply h.setClient hvouched
  intro before taskCall hbefore htaskCall
  rw [hclient] at hbefore
  cases hbefore
  exact htaskCall

theorem Inv.finish (h : Inv config b) (hclient : b.clients id = some client) {response : PublicResponse}
    (hrunning : ∀ response, client.stage ≠ .ended response)
    (hshown : ∀ task ∈ response.shown, task.projectId = client.request.projectId ∧
      ∃ principal, client.principal = some principal ∧ Admits client.request principal)
    (hunauthorized : response = .status 401 → Introspected b client (.error .notFound)) :
    Inv config (b.finish id client response) :=
  h.stage hclient ((h.vouched id client hclient).of_response hrunning hshown hunauthorized)

theorem running_of_eq {stage : Stage} (h : client.stage = stage) (hstage : ∀ response, stage ≠ .ended response)
    (response : PublicResponse) : client.stage ≠ .ended response := by
  rw [h]
  exact hstage response

theorem exists_stage {stage : Stage} {found : Client} (h : (b.clients id).filter (·.stage = stage) = some found) :
    b.clients id = some found ∧ found.stage = stage := by
  obtain ⟨hclient, hstage⟩ := Option.filter_eq_some_iff.mp h
  exact ⟨hclient, of_decide_eq_true hstage⟩

theorem next_cases (route : Route) :
    (route = .introspect ∧ route.next = .activated) ∨ (route ≠ .introspect ∧ route.next = .introspected) := by
  cases route with
  | introspect => exact .inl ⟨rfl, rfl⟩
  | _ => exact .inr ⟨nofun, rfl⟩

/-- The principal that the auth service has returned. -/
theorem Vouched.granted (h : Vouched config b client) (hstage : client.stage = .introspecting)
    {principal : ProjectAPITokenPrincipal} (hprincipal : Introspected b client (.ok (.principal principal))) :
    Vouched config b { client with principal := some principal, stage := client.request.route.next } := by
  obtain ⟨hnone, -⟩ := h.introspecting hstage
  have hended : ∀ response, client.request.route.next ≠ .ended response := by
    intro response heq
    rcases next_cases client.request.route with ⟨-, hnext⟩ | ⟨-, hnext⟩
    · cases hnext.symm.trans heq
    · cases hnext.symm.trans heq
  constructor
  · intro status hrefused
    cases hstage.symm.trans (h.refused status hrefused).1
  · intro heq
    rcases next_cases client.request.route with ⟨-, hnext⟩ | ⟨-, hnext⟩
    · cases hnext.symm.trans heq
    · cases hnext.symm.trans heq
  · intro other heq
    cases heq
    exact hprincipal
  · intro other _ hactivated hroute
    rcases next_cases client.request.route with ⟨hnext, -⟩ | ⟨-, hnext⟩
    · exact absurd hnext hroute
    · cases hnext.symm.trans hactivated
  · intro hsome
    rcases h.pending hsome with hhandling | ⟨response, hresponse⟩
    · cases hstage.symm.trans hhandling
    · cases hstage.symm.trans hresponse
  · intro taskCall htaskCall
    obtain ⟨other, -, -, hother, -⟩ := h.taskCall taskCall htaskCall
    cases hnone.symm.trans hother
  · exact fun response heq => absurd heq (hended response)
  · exact fun heq => absurd heq (hended _)

theorem Inv.introspected (h : Inv config b) (hstep : b.introspected id = some c) : Inv config c := by
  obtain ⟨client, hfiltered, hstep⟩ := Option.bind_eq_some_iff.mp hstep
  obtain ⟨hclient, hstage⟩ := exists_stage hfiltered
  obtain ⟨call, hcall, hstep⟩ := Option.bind_eq_some_iff.mp hstep
  have hvouched := h.vouched id client hclient
  obtain ⟨hnone, text, phase, hkey, hknown⟩ := hvouched.introspecting hstage
  cases hcall.symm.trans hknown
  have hrunning := running_of_eq hstage fun _ heq => nomatch heq
  dsimp only at hstep
  split at hstep
  · next principal =>
      cases hstep
      have hprincipal : Introspected b client (.ok (.principal principal)) := ⟨text, hkey, hcall⟩
      apply h.setClient (hvouched.granted hstage hprincipal)
      intro before taskCall hbefore htaskCall
      rw [hclient] at hbefore
      cases hbefore
      exact htaskCall
  · cases hstep
    exact h.finish hclient hrunning (fun _ htask => absurd htask List.not_mem_nil) fun _ => ⟨text, hkey, hcall⟩
  · cases hstep
    exact h.finish hclient hrunning (fun _ htask => absurd htask List.not_mem_nil) fun heq => absurd heq (status_ne (by decide))
  · cases hstep

theorem Inv.findProject (h : Inv config b) (hstep : b.findProject id = some c) : Inv config c := by
  obtain ⟨client, hfiltered, hstep⟩ := Option.bind_eq_some_iff.mp hstep
  obtain ⟨hclient, hstage⟩ := exists_stage hfiltered
  obtain ⟨principal, hprincipal, hstep⟩ := Option.map_eq_some_iff.mp hstep
  have hvouched := h.vouched id client hclient
  have hrunning := running_of_eq hstage fun _ heq => nomatch heq
  have hnothing : ∀ status task, task ∈ (PublicResponse.status status).shown → task.projectId = client.request.projectId ∧
      ∃ principal, client.principal = some principal ∧ Admits client.request principal :=
    fun _ _ htask => absurd htask List.not_mem_nil
  split_ifs at hstep with hgone hother hforbidden
  · cases hstep
    exact h.finish hclient hrunning (hnothing 404) fun heq => absurd heq (status_ne (by decide))
  · cases hstep
    exact h.finish hclient hrunning (hnothing 404) fun heq => absurd heq (status_ne (by decide))
  · cases hstep
    exact h.finish hclient hrunning (hnothing 403) fun heq => absurd heq (status_ne (by decide))
  · cases hstep
    have hadmits : Admits client.request principal := by
      refine ⟨not_not.mp hother, fun hrequired => ?_⟩
      by_contra hpermission
      exact hforbidden ⟨hrequired, hpermission⟩
    have hpending : client.taskCall.isSome → ∃ response, Stage.activated = .ended response := by
      intro hsome
      rcases hvouched.pending hsome with hhandling | ⟨response, hended⟩
      · cases hstage.symm.trans hhandling
      · exact absurd hended (hrunning response)
    have hsame : ∀ found, client.principal = some found → Stage.activated = .activated →
        client.request.route ≠ .introspect → Admits client.request found := by
      intro found hfound _ _
      cases hprincipal.symm.trans hfound
      exact hadmits
    exact h.stage hclient (hvouched.of_stage hrunning nofun hsame hpending (fun _ heq => nomatch heq) fun heq => nomatch heq)

/-- A mutation is of the project in the path and of the machine. -/
theorem mutation_eq {route : Route} {projectId : ProjectId} {tokenId : String} {mutation : Tasks.Request}
    (h : route.mutation projectId tokenId = some mutation) :
    mutation.projectId = projectId ∧ mutation.actor = .MACHINE tokenId ∧ route.requiredPermission = some .READ_WRITE := by
  cases route with
  | createTask dto | updateTask taskId dto | deleteTask taskId =>
      cases h
      exact ⟨rfl, rfl, rfl⟩
  | _ => cases h

theorem projectId_of_findAllForProject {db : Tasks.Database} {projectId : ProjectId} {limit : Nat} {task : Task}
    (h : task ∈ findAllForProject db projectId limit) : task.projectId = projectId := by
  have hboard : task ∈ db.board projectId := List.mem_mergeSort.mp (List.mem_of_mem_take h)
  obtain ⟨row, hrow, rfl⟩ := List.mem_map.mp hboard
  exact of_decide_eq_true (List.mem_filter.mp hrow).2

/-- A read shows tasks of the project in the path. -/
theorem projectId_of_read {db : Tasks.Database} {request : PublicRequest} {principal : ProjectAPITokenPrincipal} {task : Task}
    (h : task ∈ (read db request principal).shown) :
    task.projectId = request.projectId ∧ request.route ≠ .introspect := by
  obtain ⟨projectId, apiKey, route⟩ := request
  cases route with
  | tasks limit =>
      simp only [read] at h
      split at h
      · cases h
      · exact ⟨projectId_of_findAllForProject h, nofun⟩
  | task taskId =>
      simp only [read] at h
      split at h
      · cases h
      · next found hfound =>
          cases List.mem_singleton.mp h
          exact ⟨Tasks.projectId_of_find hfound, nofun⟩
  | _ => cases h

theorem read_ne_unauthorized (db : Tasks.Database) (request : PublicRequest) (principal : ProjectAPITokenPrincipal) :
    ¬read db request principal = .status 401 := by
  obtain ⟨projectId, apiKey, route⟩ := request
  cases route with
  | introspect => exact fun heq => nomatch heq
  | tasks limit =>
      simp only [read]
      split
      · exact status_ne (by decide)
      · exact fun heq => nomatch heq
  | task taskId =>
      simp only [read]
      split
      · exact status_ne (by decide)
      · exact fun heq => nomatch heq
  | _ => exact status_ne (by decide)

/-- A task call that begins with its request. -/
theorem Inv.begins (h : Inv config b) (hclient : b.clients id = some client) (hnone : client.taskCall = none)
    {taskCall : CallId} {mutation : Tasks.Request} {board : Service} (hstart : b.board.start taskCall mutation = some board)
    (hgoesOn : GoesOn b { b with board := board }) {later : Client} (hlater : later.taskCall = some taskCall)
    (hvouched : Vouched config { b with board := board } later) : Inv config ({ b with board := board }.setClient id later) where
  issued := h.issued
  board := Service.inv_preserved h.board (l := .start taskCall mutation) hstart
  answers := h.answers.step h.board (show b.board.step (.start taskCall mutation) = some board from hstart)
  vouched other found hfound := by
    have hsame : GoesOn { b with board := board } ({ b with board := board }.setClient id later) := .of_eq rfl rfl
    rcases Calls.update_eq_some hfound with ⟨-, rfl⟩ | ⟨-, hold⟩
    · exact hvouched.goesOn hsame
    · exact ((h.vouched other found hold).goesOn hgoesOn).goesOn hsame
  machines machineCall call tokenId hcall hactor := by
    by_cases heq : machineCall = taskCall
    · rw [heq]
      exact ⟨id, later, Function.update_self .., hlater⟩
    · have hstep : b.board.step (.start taskCall mutation) = some board := hstart
      have hbefore : b.board.calls machineCall = some call := (Service.calls_of_ne hstep heq).symm.trans hcall
      obtain ⟨other, found, hother, hmachine⟩ := h.machines machineCall call tokenId hbefore hactor
      have hne : other ≠ id := by
        intro heq
        rw [heq, hclient] at hother
        cases hother
        cases hnone.symm.trans hmachine
      exact ⟨other, found, (Function.update_of_ne hne _ _).trans hother, hmachine⟩

theorem Inv.handle {taskCall : CallId} (h : Inv config b) (hstep : b.handle config id taskCall = some c) : Inv config c := by
  obtain ⟨client, hfiltered, hstep⟩ := Option.bind_eq_some_iff.mp hstep
  obtain ⟨hclient, hstage⟩ := exists_stage hfiltered
  obtain ⟨principal, hprincipal, hstep⟩ := Option.bind_eq_some_iff.mp hstep
  have hvouched := h.vouched id client hclient
  have hrunning := running_of_eq hstage fun _ heq => nomatch heq
  have hadmits : client.request.route ≠ .introspect → Admits client.request principal :=
    hvouched.activated principal hprincipal hstage
  split at hstep
  · cases hstep
    exact h.finish hclient hrunning (fun _ htask => absurd htask List.not_mem_nil) fun heq => absurd heq (status_ne (by decide))
  · split at hstep
    · cases hstep
      refine h.finish hclient hrunning (fun task htask => ?_) (read_ne_unauthorized b.board.db client.request principal).elim
      obtain ⟨hproject, hroute⟩ := projectId_of_read htask
      exact ⟨hproject, principal, hprincipal, hadmits hroute⟩
    · next mutation hmutation =>
        obtain ⟨board, hstart, rfl⟩ := Option.map_eq_some_iff.mp hstep
        obtain ⟨hnew, hstarted⟩ := Option.ite_none_left_eq_some.mp hstart
        have hroute : client.request.route ≠ .introspect := by
          intro heq
          rw [heq] at hmutation
          cases hmutation
        have hboard : b.board.step (.start taskCall mutation) = some board := hstart
        have hgoesOn : GoesOn b { b with board := board } := .of_board hboard rfl
        have hcall : board.calls taskCall = some ⟨mutation, .begun⟩ := by
          cases hstarted
          exact Function.update_self ..
        have hnone : client.taskCall = none := by
          by_contra hsome
          rcases hvouched.pending (Option.isSome_iff_ne_none.mpr hsome) with hhandling | hended
          · cases hstage.symm.trans hhandling
          · exact absurd hended.choose_spec (hrunning _)
        have hlater := hvouched.goesOn hgoesOn
        have hbegun : Vouched config { b with board := board } { client with taskCall := some taskCall, stage := .handling } := by
          constructor
          · exact fun status hkey => absurd (hvouched.refused status hkey).1 (hrunning _)
          · exact fun heq => nomatch heq
          · exact hlater.principal
          · exact fun _ _ heq => nomatch heq
          · exact fun _ => .inl rfl
          · intro found heq
            cases heq
            exact ⟨principal, mutation, .begun, hprincipal, hadmits hroute, hmutation, hcall⟩
          · exact fun _ heq => nomatch heq
          · exact fun heq => nomatch heq
        exact h.begins hclient hnone hstart hgoesOn rfl hbegun

theorem Inv.respond (h : Inv config b) (hstep : b.respond id = some c) : Inv config c := by
  obtain ⟨client, hfiltered, hstep⟩ := Option.bind_eq_some_iff.mp hstep
  obtain ⟨hclient, hstage⟩ := exists_stage hfiltered
  obtain ⟨taskCall, htaskCall, hstep⟩ := Option.bind_eq_some_iff.mp hstep
  obtain ⟨call, hcall, hstep⟩ := Option.bind_eq_some_iff.mp hstep
  have hrunning := running_of_eq hstage fun _ heq => nomatch heq
  split at hstep
  · next answer hfinished =>
      cases hstep
      obtain ⟨principal, mutation, progress, hprincipal, hadmits, hmutation, hbegun⟩ :=
        (h.vouched id client hclient).taskCall taskCall htaskCall
      cases hcall.symm.trans hbegun
      refine h.finish hclient hrunning (fun task htask => ?_) fun heq => nomatch heq
      cases List.mem_singleton.mp htask
      have hanswer : progress.answer = some answer := by
        cases hfinished
        rfl
      exact ⟨(h.answers taskCall _ answer hcall hanswer).trans (mutation_eq hmutation).1, principal, hprincipal, hadmits⟩
  · cases hstep
    exact h.finish hclient hrunning (fun _ htask => absurd htask List.not_mem_nil) fun heq => nomatch heq
  · cases hstep

theorem Inv.fail {status : Nat} (h : Inv config b) (hstep : b.fail id status = some c) : Inv config c := by
  obtain ⟨client, hclient, hstep⟩ := Option.bind_eq_some_iff.mp hstep
  obtain ⟨hstatus, hstep⟩ := Option.ite_none_left_eq_some.mp hstep
  have hunauthorized : PublicResponse.status status = .status 401 → Introspected b client (.error .notFound) := by
    intro heq
    cases heq
    exact absurd (by decide : 401 ∉ [429, 500, 503]) hstatus
  split at hstep
  · cases hstep
  · cases hstep
  · next hhandling hended =>
      cases hstep
      exact h.finish hclient hended (fun _ htask => absurd htask List.not_mem_nil) hunauthorized

/-! ### The steps of the services -/

/-- The token of a request that gets to the auth service. -/
theorem key_eq_ok {request : PublicRequest} {text : Bytes} (h : request.key config = .ok text) : request.apiKey = .value text := by
  rw [PublicRequest.key] at h
  split_ifs at h
  split at h
  · next found hfound =>
      split_ifs at h
      cases h
      exact hfound
  · cases h

theorem Inv.auth (hhmac : Function.Injective config.store.hmac) (h : Inv config b) {label : Auth.ProjectApiTokens.Label}
    (hdrawn : Auth.ProjectApiTokens.Drawn b.auth label) {auth : Auth.ProjectApiTokens.State}
    (hstep : Auth.ProjectApiTokens.State.step config.store b.auth label = some auth) : Inv config { b with auth := auth } := by
  have hsteps := Auth.ProjectApiTokens.steps_of_step hstep
  have hgoesOn : GoesOn b { b with auth := auth } := .of_auth hsteps rfl
  exact ⟨Auth.ProjectApiTokens.issuedInv_step hhmac h.issued hdrawn hsteps, h.board, h.answers,
    fun id client hclient => (h.vouched id client hclient).goesOn hgoesOn, h.machines⟩

theorem Inv.arrive (hhmac : Function.Injective config.store.hmac) (h : Inv config b) {request : PublicRequest}
    {introspection : Nat} (hstep : b.arrive config id request introspection = some c) : Inv config c := by
  obtain ⟨hnew, hstep⟩ := Option.ite_none_left_eq_some.mp hstep
  rw [Option.not_isSome_iff_eq_none] at hnew
  have hkeeps : ∀ (client before : Client) (taskCall : CallId), b.clients id = some before → before.taskCall = some taskCall →
      client.taskCall = some taskCall := by
    intro client before taskCall hbefore
    cases hnew.symm.trans hbefore
  split at hstep
  · next status hkey =>
      cases hstep
      refine h.setClient ?_ (hkeeps _)
      constructor
      · intro other hother
        cases hkey.symm.trans hother
        exact ⟨rfl, rfl⟩
      · exact fun heq => nomatch heq
      · exact fun _ heq => nomatch heq
      · exact fun _ heq => nomatch heq
      · exact fun heq => nomatch heq
      · exact fun _ heq => nomatch heq
      · intro response heq task htask
        cases heq
        exact absurd htask List.not_mem_nil
      · intro heq
        cases heq
        exact .inl hkey
  · next text hkey =>
      obtain ⟨auth, hbegin, rfl⟩ := Option.map_eq_some_iff.mp hstep
      obtain ⟨hfree, hbegun⟩ := Option.ite_none_left_eq_some.mp hbegin
      have hdrawn : Auth.ProjectApiTokens.Drawn b.auth (.begin introspection (.introspect text)) := by
        intro i r heq
        cases heq
      have hcall : ∃ phase, auth.calls introspection = some ⟨.introspect text, phase⟩ := by
        cases hbegun
        exact ⟨_, Function.update_self ..⟩
      obtain ⟨phase, hcall⟩ := hcall
      refine (h.auth hhmac hdrawn hbegin).setClient ?_ (hkeeps _)
      constructor
      · intro other hother
        cases hkey.symm.trans hother
      · exact fun _ => ⟨rfl, text, phase, key_eq_ok hkey, hcall⟩
      · exact fun _ heq => nomatch heq
      · exact fun _ heq => nomatch heq
      · exact fun heq => nomatch heq
      · exact fun _ heq => nomatch heq
      · exact fun _ heq => nomatch heq
      · exact fun heq => nomatch heq

theorem exists_stepBoard {label : Tasks.Label} (hstep : b.stepBoard label = some c) : ∃ board,
    b.board.step label = some board ∧ c = { b with board := board } ∧
      ∀ taskCall request tokenId, label = .start taskCall request → request.actor ≠ .MACHINE tokenId := by
  rw [Backend.stepBoard.eq_def] at hstep
  split at hstep
  · next taskCall request =>
      split at hstep
      · next userId hactor =>
          obtain ⟨board, hboard, rfl⟩ := Option.map_eq_some_iff.mp hstep
          refine ⟨board, hboard, rfl, fun other found tokenId heq hmachine => ?_⟩
          cases heq
          cases hactor.symm.trans hmachine
      · cases hstep
  · next hnot =>
      obtain ⟨board, hboard, rfl⟩ := Option.map_eq_some_iff.mp hstep
      exact ⟨board, hboard, rfl, fun taskCall request tokenId heq => absurd heq (hnot taskCall request)⟩

/-- Where a call of the task service comes from. -/
theorem board_request {s t : Service} {label : Tasks.Label} (hstep : s.step label = some t) {taskCall : CallId}
    {call : Tasks.Call} (hcall : t.calls taskCall = some call) :
    (∃ progress, s.calls taskCall = some ⟨call.request, progress⟩) ∨ label = .start taskCall call.request := by
  cases label with
  | start other request =>
      obtain ⟨-, hstarted⟩ := Option.ite_none_left_eq_some.mp hstep
      cases hstarted
      rcases Calls.update_eq_some hcall with ⟨rfl, rfl⟩ | ⟨-, hold⟩
      · exact .inr rfl
      · exact .inl ⟨call.progress, hold⟩
  | advance other randomUUID =>
      obtain ⟨before, effect, hadvance⟩ := Service.exists_advance hstep
      rw [hadvance.next] at hcall
      rcases Calls.update_eq_some hcall with ⟨rfl, rfl⟩ | ⟨-, hold⟩
      · exact .inl ⟨before.progress, hadvance.hcall⟩
      · exact .inl ⟨call.progress, hold⟩
  | fail other =>
      obtain ⟨before, hbefore, rfl⟩ := Service.exists_fail hstep
      rcases Calls.update_eq_some hcall with ⟨rfl, rfl⟩ | ⟨-, hold⟩
      · exact .inl ⟨before.progress, hbefore⟩
      · exact .inl ⟨call.progress, hold⟩

theorem Inv.stepBoard (h : Inv config b) {label : Tasks.Label} (hstep : b.stepBoard label = some c) : Inv config c := by
  obtain ⟨board, hboard, rfl, huser⟩ := exists_stepBoard hstep
  have hgoesOn : GoesOn b { b with board := board } := .of_board hboard rfl
  refine ⟨h.issued, Service.inv_preserved h.board (l := label) hboard, h.answers.step h.board hboard,
    fun id client hclient => (h.vouched id client hclient).goesOn hgoesOn, fun taskCall call tokenId hcall hactor => ?_⟩
  rcases board_request hboard hcall with ⟨progress, hbefore⟩ | hstart
  · exact h.machines taskCall _ tokenId hbefore hactor
  · exact absurd hactor (huser taskCall call.request tokenId hstart)

/-! ### Over whole runs -/

theorem Inv.step (hhmac : Function.Injective config.store.hmac) {label : Label} (h : Inv config b) (hdrawn : Drawn b label)
    (hstep : b.step config label = some c) : Inv config c := by
  cases label with
  | auth drawing =>
      obtain ⟨auth, hauth, rfl⟩ := Option.map_eq_some_iff.mp hstep
      exact h.auth hhmac (hdrawn drawing rfl) hauth
  | board label => exact h.stepBoard hstep
  | archive projectId isArchived =>
      cases hstep
      exact ⟨h.issued, h.board, h.answers,
        fun id client hclient => (h.vouched id client hclient).goesOn (.of_eq rfl rfl), h.machines⟩
  | arrive id request introspection => exact h.arrive hhmac hstep
  | introspected id => exact h.introspected hstep
  | findProject id => exact h.findProject hstep
  | handle id taskCall => exact h.handle hstep
  | respond id => exact h.respond hstep
  | fail id status => exact h.fail hstep

theorem inv_initial (projects : List String) (clock : Nat) {db : Tasks.Database} (hids : (db.tasks.map (·.id)).Nodup)
    (hdense : Dense (Tasks.positions db.tasks)) : Inv config (.initial projects clock db) where
  issued := Auth.ProjectApiTokens.issuedInv_initial config.store projects clock
  board := Service.inv_initial hids hdense
  answers := Service.answers_initial db
  vouched _ _ hclient := by cases hclient
  machines _ _ _ hcall := by cases hcall

theorem inv_run (hhmac : Function.Injective config.store.hmac) {projects : List String} {clock : Nat} {db : Tasks.Database}
    (hids : (db.tasks.map (·.id)).Nodup) (hdense : Dense (Tasks.positions db.tasks)) {labels : List Label}
    (hdrawn : Runs.Along (Backend.step config) Drawn (.initial projects clock db) labels)
    (hrun : Runs.run (Backend.step config) (.initial projects clock db) labels = some b) : Inv config b :=
  hdrawn.run (fun _ _ _ h hdrawn hstep => h.step hhmac hdrawn hstep) (inv_initial projects clock hids hdense) hrun

end Transcendence.PublicApi
