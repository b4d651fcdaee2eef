import Transcendence.PublicApi.Evidence
import Transcendence.Tasks.OtherBoards

/-!
# Machines stay in their project

Every change of a board is made by a user's call or by the holder of a token for the project that permits
writes, and whoever gets to see a task holds a token for its project (`boards_isolated`).
-/

namespace Transcendence.PublicApi

open Auth.ProjectApiTokens (CreateProjectAPITokenRequest Issued ProjectAPITokenPrincipal)
open RankedColumns (Dense)
open Tasks (CallId ProjectId Service Task)

variable {config : Config} {b c : Backend} {id : Nat} {client : Client}

/-- What a step does to the services: that of a request does nothing to the database of the tasks. -/
inductive ServiceStep (config : Config) (b c : Backend) (label : Label) : Prop where
  | rests (hauth : c.auth = b.auth) (hdb : c.board.db = b.board.db)
  | auth (drawing : Auth.ProjectApiTokens.Label) (hdrawn : Drawn b label → Auth.ProjectApiTokens.Drawn b.auth drawing)
      (hauth : Auth.ProjectApiTokens.State.step config.store b.auth drawing = some c.auth) (hdb : c.board.db = b.board.db)
  | board (boardLabel : Tasks.Label) (hlabel : label = .board boardLabel) (hauth : c.auth = b.auth)
      (hboard : b.board.step boardLabel = some c.board)

theorem serviceStep {label : Label} (hstep : b.step config label = some c) : ServiceStep config b c label := by
  cases label with
  | auth drawing =>
      obtain ⟨auth, hauth, rfl⟩ := Option.map_eq_some_iff.mp hstep
      exact .auth drawing (fun hdrawn => hdrawn drawing rfl) hauth rfl
  | board boardLabel =>
      obtain ⟨board, hboard, rfl, -⟩ := exists_stepBoard hstep
      exact .board boardLabel rfl rfl hboard
  | archive projectId isArchived =>
      cases hstep
      exact .rests rfl rfl
  | arrive id request introspection =>
      obtain ⟨-, hstep⟩ := Option.ite_none_left_eq_some.mp hstep
      split at hstep
      · cases hstep
        exact .rests rfl rfl
      · next text hkey =>
          obtain ⟨auth, hbegin, rfl⟩ := Option.map_eq_some_iff.mp hstep
          refine .auth (.begin introspection (.introspect text)) (fun _ i r heq => ?_) hbegin rfl
          cases heq
  | introspected id =>
      obtain ⟨client, -, hstep⟩ := Option.bind_eq_some_iff.mp hstep
      obtain ⟨call, -, hstep⟩ := Option.bind_eq_some_iff.mp hstep
      split at hstep
      · cases hstep
        exact .rests rfl rfl
      · cases hstep
        exact .rests rfl rfl
      · cases hstep
        exact .rests rfl rfl
      · cases hstep
  | findProject id =>
      obtain ⟨client, -, hstep⟩ := Option.bind_eq_some_iff.mp hstep
      obtain ⟨principal, -, rfl⟩ := Option.map_eq_some_iff.mp hstep
      split_ifs
      · exact .rests rfl rfl
      · exact .rests rfl rfl
      · exact .rests rfl rfl
      · exact .rests rfl rfl
  | handle id taskCall =>
      obtain ⟨client, -, hstep⟩ := Option.bind_eq_some_iff.mp hstep
      obtain ⟨principal, -, hstep⟩ := Option.bind_eq_some_iff.mp hstep
      split at hstep
      · cases hstep
        exact .rests rfl rfl
      · split at hstep
        · cases hstep
          exact .rests rfl rfl
        · obtain ⟨board, hstart, rfl⟩ := Option.map_eq_some_iff.mp hstep
          obtain ⟨-, hstarted⟩ := Option.ite_none_left_eq_some.mp hstart
          cases hstarted
          exact .rests rfl rfl
  | respond id =>
      obtain ⟨client, -, hstep⟩ := Option.bind_eq_some_iff.mp hstep
      obtain ⟨taskCall, -, hstep⟩ := Option.bind_eq_some_iff.mp hstep
      obtain ⟨call, -, hstep⟩ := Option.bind_eq_some_iff.mp hstep
      split at hstep
      · cases hstep
        exact .rests rfl rfl
      · cases hstep
        exact .rests rfl rfl
      · cases hstep
  | fail id status =>
      obtain ⟨client, -, hstep⟩ := Option.bind_eq_some_iff.mp hstep
      obtain ⟨-, hstep⟩ := Option.ite_none_left_eq_some.mp hstep
      split at hstep
      · cases hstep
      · cases hstep
      · cases hstep
        exact .rests rfl rfl

/-! ### Isolation -/

/-- The request has presented the token, which was issued to someone. -/
structure Holds (config : Config) (b : Backend) (client : Client) (r : CreateProjectAPITokenRequest) : Prop where
  issued : Issued config.store b.auth r
  presented : client.request.apiKey = .value r.token

theorem Inv.holder (h : Inv config b) (hclient : b.clients id = some client) {principal : ProjectAPITokenPrincipal}
    (hprincipal : client.principal = some principal) : ∃ r, Holds config b client r ∧
      r.grant = (principal.tokenId, principal.projectId, principal.permission) := by
  obtain ⟨text, hkey, hcall⟩ := (h.vouched id client hclient).principal principal hprincipal
  obtain ⟨r, hissued, hrequest, hgrant⟩ := h.issued.granted _ _ _ _ hcall rfl
  cases hrequest
  exact ⟨r, ⟨hissued, hkey⟩, hgrant⟩

/-- Who changes the board of a project: a user, or the holder of a token for it that permits writes. -/
def ChangedBy (config : Config) (b : Backend) (projectId : ProjectId) (taskCall : CallId) : Prop :=
  ∃ call, b.board.calls taskCall = some call ∧
    ((∃ userId, call.request.actor = .USER userId) ∨
      ∃ id client r, b.clients id = some client ∧ client.taskCall = some taskCall ∧ Holds config b client r ∧
        call.request.actor = .MACHINE r.id ∧ call.request.projectId = projectId ∧ r.permission = .READ_WRITE ∧
          toLowerCase r.projectId = toLowerCase projectId)

/-- The task calls of machines are those of the holders of tokens. -/
theorem Inv.writer (h : Inv config b) {taskCall : CallId} {call : Tasks.Call} {tokenId : String}
    (hcall : b.board.calls taskCall = some call) (hactor : call.request.actor = .MACHINE tokenId) :
    ChangedBy config b call.request.projectId taskCall := by
  obtain ⟨id, client, hclient, htaskCall⟩ := h.machines taskCall call tokenId hcall hactor
  obtain ⟨principal, mutation, progress, hprincipal, hadmits, hmutation, hbegun⟩ :=
    (h.vouched id client hclient).taskCall taskCall htaskCall
  obtain ⟨r, hholds, hgrant⟩ := h.holder hclient hprincipal
  cases hcall.symm.trans hbegun
  obtain ⟨hproject, hmachine, hrequired⟩ := mutation_eq hmutation
  obtain ⟨hid, hgrant⟩ := Prod.mk.inj hgrant
  obtain ⟨htokenProject, hpermission⟩ := Prod.mk.inj hgrant
  refine ⟨_, hcall, .inr ⟨id, client, r, hclient, htaskCall, hholds, ?_, rfl, ?_, ?_⟩⟩
  · rw [hid]
    exact hmachine
  · exact hpermission.trans (hadmits.permission hrequired)
  · show toLowerCase r.projectId = toLowerCase mutation.projectId
    rw [hproject, htokenProject]
    exact hadmits.project.symm

structure Isolated (config : Config) (b : Backend) : Prop where
  /-- A step that changes the board of a project is one of a task call, of someone who may. -/
  writes : ∀ label c projectId, b.step config label = some c → c.board.db.board projectId ≠ b.board.db.board projectId →
    ∃ taskCall randomUUID, label = .board (.advance taskCall randomUUID) ∧ ChangedBy config b projectId taskCall
  /-- Whoever is shown a task holds a token for its project. -/
  reads : ∀ id client response task, b.clients id = some client → client.stage = .ended response → task ∈ response.shown →
    ∃ r, Holds config b client r ∧ toLowerCase r.projectId = toLowerCase task.projectId

theorem Inv.writes (h : Inv config b) {label : Label} {projectId : ProjectId} (hstep : b.step config label = some c)
    (hchanged : c.board.db.board projectId ≠ b.board.db.board projectId) :
    ∃ taskCall randomUUID, label = .board (.advance taskCall randomUUID) ∧ ChangedBy config b projectId taskCall := by
  cases serviceStep hstep with
  | rests _ hdb =>
      rw [hdb] at hchanged
      exact absurd rfl hchanged
  | auth _ _ _ hdb =>
      rw [hdb] at hchanged
      exact absurd rfl hchanged
  | board boardLabel hlabel _ hboard =>
      cases boardLabel with
      | start taskCall request =>
          obtain ⟨-, hstarted⟩ := Option.ite_none_left_eq_some.mp hboard
          rw [← Option.some.inj hstarted] at hchanged
          exact absurd rfl hchanged
      | fail taskCall =>
          obtain ⟨call, -, hfailed⟩ := Service.exists_fail hboard
          rw [hfailed] at hchanged
          exact absurd rfl hchanged
      | advance taskCall randomUUID =>
          obtain ⟨call, effect, hadvance⟩ := Service.exists_advance hboard
          refine ⟨taskCall, randomUUID, hlabel, ?_⟩
          cases hactor : call.request.actor with
          | USER userId => exact ⟨call, hadvance.hcall, .inl ⟨userId, hactor⟩⟩
          | MACHINE tokenId =>
              by_cases hproject : projectId = call.request.projectId
              · rw [hproject]
                exact h.writer hadvance.hcall hactor
              · exact absurd (h.board.board_of_machine hadvance hactor hproject) hchanged

theorem Inv.reads (h : Inv config b) {response : PublicResponse} {task : Task} (hclient : b.clients id = some client)
    (hended : client.stage = .ended response) (htask : task ∈ response.shown) :
    ∃ r, Holds config b client r ∧ toLowerCase r.projectId = toLowerCase task.projectId := by
  obtain ⟨hproject, principal, hprincipal, hadmits⟩ := (h.vouched id client hclient).shown response hended task htask
  obtain ⟨r, hholds, hgrant⟩ := h.holder hclient hprincipal
  refine ⟨r, hholds, ?_⟩
  have htokenProject : r.projectId = principal.projectId := (Prod.mk.inj (Prod.mk.inj hgrant).2).1
  rw [hproject, htokenProject]
  exact hadmits.project.symm

/-- In every order of the steps of requests, users' calls and the auth service. -/
theorem boards_isolated (config : Config) (hhmac : Function.Injective config.store.hmac) (projects : List String) (clock : Nat)
    (db : Tasks.Database) (hids : (db.tasks.map (·.id)).Nodup) (hdense : Dense (Tasks.positions db.tasks)) (labels : List Label)
    (hdrawn : Runs.Along (Backend.step config) Drawn (.initial projects clock db) labels) (b : Backend)
    (hrun : Runs.run (Backend.step config) (.initial projects clock db) labels = some b) : Isolated config b := by
  have h := inv_run hhmac hids hdense hdrawn hrun
  constructor
  · intro label c projectId hstep hchanged
    exact h.writes hstep hchanged
  · intro id client response task hclient hended htask
    exact h.reads hclient hended htask

/-! A request creates a task with a token that permits writes, and is answered with it. -/

def plainConfig : Config := ⟨Auth.ProjectApiTokens.plainStore, fun _ => true⟩

def writeRequest : CreateProjectAPITokenRequest := { Auth.ProjectApiTokens.exampleRequest with permission := .READ_WRITE }

def creating : List Label :=
  [.auth (.begin 0 (.create writeRequest)), .auth (.lock 0), .auth (.count 0 Auth.second), .auth (.insert 0),
    .arrive 0 ⟨"project", .value writeRequest.token, .createTask (Tasks.Service.card "task")⟩ 1, .auth (.select 1),
    .auth (.touch 1), .introspected 0, .findProject 0, .handle 0 0] ++ List.replicate 4 (.board (.advance 0 "a"))

/-- The task is inserted, and it is what the request is answered. -/
def answering : List Label :=
  .board (.advance 0 "a") :: List.replicate 3 (.board (.advance 0 "b")) ++ [.respond 0]

def answer : Task := ⟨⟨"a", "project", .TODO, 0, (Tasks.Service.card "task").content⟩, []⟩

theorem along_answering : Runs.Along (Backend.step plainConfig) Drawn (.initial ["project"] Auth.second Tasks.Service.emptyBoard)
    (creating ++ answering) := by
  refine ⟨fun _ _ _ _ _ _ _ _ => nofun, fun _ _ => Runs.Along.of_forall (fun label hlabel s drawing heq i r hbegin => ?_) _⟩
  rw [heq, hbegin] at hlabel
  simp [answering, List.replicate] at hlabel

theorem boards_isolated_of_answering : ∃ b c d client, Runs.run (Backend.step plainConfig)
    (.initial ["project"] Auth.second Tasks.Service.emptyBoard) creating = some b ∧
      b.step plainConfig (.board (.advance 0 "a")) = some c ∧
        c.board.db.board "project" ≠ b.board.db.board "project" ∧ Isolated plainConfig b ∧
          Runs.run (Backend.step plainConfig) b answering = some d ∧ d.clients 0 = some client ∧
            client.stage = .ended (.written answer) ∧ Isolated plainConfig d := by
  have hboards : (Runs.run (Backend.step plainConfig) (.initial ["project"] Auth.second Tasks.Service.emptyBoard) creating).map
      (fun b => ((b.board.db.board "project").length,
        (b.step plainConfig (.board (.advance 0 "a"))).map (fun c => (c.board.db.board "project").length),
          (Runs.run (Backend.step plainConfig) b answering).map fun d => (d.clients 0).map (·.stage))) =
            some (0, some 1, some (some (.ended (.written answer)))) := by decide +kernel
  obtain ⟨b, hrun, hboards⟩ := Option.map_eq_some_iff.mp hboards
  obtain ⟨hbefore, hboards⟩ := Prod.mk.inj hboards
  obtain ⟨hafter, hanswered⟩ := Prod.mk.inj hboards
  obtain ⟨c, hstep, hafter⟩ := Option.map_eq_some_iff.mp hafter
  obtain ⟨d, hanswering, hanswered⟩ := Option.map_eq_some_iff.mp hanswered
  obtain ⟨client, hclient, hstage⟩ := Option.map_eq_some_iff.mp hanswered
  have hisolated := boards_isolated plainConfig Function.injective_id ["project"] Auth.second Tasks.Service.emptyBoard
    List.nodup_nil (fun _ => List.Perm.nil)
  refine ⟨b, c, d, client, hrun, hstep, fun heq => ?_, hisolated creating along_answering.of_append b hrun, hanswering, hclient,
    hstage, hisolated (creating ++ answering) along_answering d (Runs.run_append_eq_some.mpr ⟨b, hrun, hanswering⟩)⟩
  rw [heq, hbefore] at hafter
  cases hafter

end Transcendence.PublicApi
