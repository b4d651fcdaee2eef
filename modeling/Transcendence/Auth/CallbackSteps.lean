import Transcendence.Auth.OAuthCallbacks

/-!
# What a step does to the callbacks

Every step of the system is one of a few kinds (`Steps`). Of a callback it matters which transaction it
has consumed (`State.consumption`), which later steps leave as it is.
-/

namespace Transcendence.Auth.OAuthCallbacks

def Label.start : Label → Option Start
  | .startLogin browser returnTo state id now => some (handleFortyTwoStart browser returnTo state id now)
  | .startLink browser subject state id now => some (handleAccountLink browser subject state id now)
  | _ => none

/-- A link names the user whose session its browser holds. -/
def Start.Allowed (start : Start) (s : State) : Prop :=
  start.purpose = .LINK → ∃ userId, start.userID = some userId ∧ (start.browser, userId) ∈ s.sessions

/-- The rows after the update that consumes the open transaction of a state. -/
def consumeRows (config : OAuth42) (s : State) (state : String) (now : Nat) : List OAuthTransactionRow :=
  Table.update (isOpen (config.hashOAuthState state) now) ({ · with consumedAt := some (timestamp3 now) }) s.transactions

inductive Steps (config : OAuth42) (s t : State) (label : Label) : Prop where
  | starts {start : Start} (hlabel : label.start = some start) (hallowed : start.Allowed s)
      (hfresh : config.hashOAuthState start.state ∉ s.transactions.map (·.transaction.stateHash))
      (heq : t = { s with
        transactions := s.transactions ++ [newRow config start s.clock], started := s.started ++ [start] })
  | cleans (heq : t = { s with transactions := deleteExpired s.transactions s.clock })
  | begins {id request phase} (hnew : s.calls id = none) (hphase : phase.transaction = none)
      (hrunning : ∃ now response, phase = .begun now ∨ phase = .ended none response) (heq : t = s.setPhase id request phase)
  | consumes {id now request began row phase} (hlabel : label = .consume id now) (hcall : s.calls id = some ⟨request, .begun began⟩)
      (hrow : row ∈ s.transactions) (hopen : isOpen (config.hashOAuthState request.state) now row)
      (hphase : phase = .consumed row.transaction ∨ ∃ response, phase = .ended (some row.transaction) response)
      (heq : t = { s.setPhase id request phase with transactions := consumeRows config s request.state now })
  | fetches {id request transaction profile identities} {identityCall : FortyTwoIdentities.Request}
      (hcall : s.calls id = some ⟨request, .consumed transaction⟩) (hrequest : identityRequest transaction profile = some identityCall)
      (hbegin : s.identities.begin id identityCall = some identities)
      (heq : t = { s.setPhase id request (.storing transaction profile) with identities })
  | identity {statement identities} (hlabel : label = .identity statement) (hbegun : ∀ id request, statement ≠ .begin id request)
      (hstep : s.identities.step statement = some identities) (heq : t = { s with identities })
  | resolves {id request transaction profile identityCall resolution} (hcall : s.calls id = some ⟨request, .storing transaction profile⟩)
      (hresult : s.identities.calls id = some ⟨identityCall, .ended (.ok (.resolved resolution))⟩)
      (hpurpose : transaction.purpose = .LOGIN) (hactive : resolution.user.status = .ACTIVE)
      (heq : t = s.setPhase id request (.resolved transaction resolution))
  | opens {id sessionId request transaction resolution response events} (hlabel : label = .createLogin id (some sessionId))
      (hcall : s.calls id = some ⟨request, .resolved transaction resolution⟩)
      (heq : t = { s.setPhase id request (.ended (some transaction) response) with
        sessions := (request.browser, resolution.user.id) :: s.sessions, events })
  | ends {id request before response events} (hcall : s.calls id = some ⟨request, before⟩)
      (heq : t = { s.setPhase id request (.ended before.transaction response) with events })
  | outside {sessions clock} (hsessions : ∀ session, sessions.count session ≤ s.sessions.count session ∨ label = .signIn session.1 session.2)
      (heq : t = { s with sessions, clock })

variable {config : OAuth42} {s t : State} {id : Nat} {label : Label}

theorem Steps.of_start {start : Start} (hlabel : label.start = some start) (hallowed : start.Allowed s)
    (hstep : s.start config start = some t) : Steps config s t label := by
  obtain ⟨-, hstep⟩ := Option.ite_none_left_eq_some.mp hstep
  obtain ⟨transactions, hinsert, rfl⟩ := Option.map_eq_some_iff.mp hstep
  obtain ⟨hbroken, hinsert⟩ := Option.ite_none_left_eq_some.mp hinsert
  cases hinsert
  exact .starts hlabel hallowed (fun hmem => hbroken (.inr (.inr (.inl hmem)))) rfl

theorem Steps.of_callback {request : CallbackRequest} (hstep : s.callback id request = some t) : Steps config s t label := by
  obtain ⟨hsome, hstep⟩ := Option.ite_none_left_eq_some.mp hstep
  rw [Bool.not_eq_true, Option.isSome_eq_false_iff, Option.isNone_iff_eq_none] at hsome
  by_cases hempty : request.code = "" ∨ request.state = ""
  · rw [if_pos hempty] at hstep
    cases hstep
    exact .begins hsome rfl ⟨0, _, .inr rfl⟩ rfl
  · rw [if_neg hempty] at hstep
    cases hstep
    exact .begins hsome rfl ⟨_, callbackInvalid, .inl rfl⟩ rfl

theorem consume_eq_ok {rows rows' : List OAuthTransactionRow} {stateHash : String} {now : Nat} {transaction : OAuthTransaction}
    (h : consumeOAuthTransaction rows stateHash now = .ok (transaction, rows')) :
    ∃ row ∈ rows, isOpen stateHash now row ∧ row.transaction = transaction ∧
      rows' = Table.update (isOpen stateHash now) ({ · with consumedAt := some (timestamp3 now) }) rows := by
  rw [consumeOAuthTransaction] at h
  cases hfind : rows.find? (isOpen stateHash now) with
  | none =>
      rw [hfind] at h
      cases h
  | some row =>
      rw [hfind] at h
      dsimp only at h
      by_cases hearly : timestamp3 now < row.createdAt
      · rw [if_pos hearly] at h
        cases h
      · rw [if_neg hearly] at h
        cases h
        exact ⟨row, List.mem_of_find?_eq_some hfind, List.find?_some hfind, rfl, rfl⟩

theorem Steps.of_consume {now : Nat} (hstep : s.consume config id now = some t) :
    Steps config s t (.consume id now) := by
  obtain ⟨⟨request, phase⟩, hcall, hstep⟩ := Option.bind_eq_some_iff.mp hstep
  cases phase with
  | begun began =>
      obtain ⟨-, hstep⟩ := Option.ite_none_left_eq_some.mp hstep
      cases hconsume : consumeOAuthTransaction s.transactions (config.hashOAuthState request.state) now with
      | error error =>
          cases error with
          | notFound =>
              rw [hconsume] at hstep
              cases hstep
              exact .ends hcall rfl
          | failed =>
              rw [hconsume] at hstep
              cases hstep
              exact .ends hcall rfl
      | ok result =>
          obtain ⟨transaction, rows⟩ := result
          rw [hconsume] at hstep
          cases hstep
          obtain ⟨row, hrow, hopen, rfl, rfl⟩ := consume_eq_ok hconsume
          refine .consumes rfl hcall hrow hopen ?_ rfl
          split
          · exact .inl rfl
          · exact .inr ⟨_, rfl⟩
  | _ => cases hstep

theorem Steps.of_fetch {answer : Option FortyTwoProfile} (hstep : s.fetch id answer = some t) : Steps config s t label := by
  obtain ⟨⟨request, phase⟩, hcall, hstep⟩ := Option.bind_eq_some_iff.mp hstep
  cases phase with
  | consumed transaction =>
      cases answer with
      | none =>
          cases hstep
          exact .ends hcall rfl
      | some profile =>
          dsimp only [Option.elim_some] at hstep
          cases hrequest : identityRequest transaction profile with
          | none =>
              rw [hrequest] at hstep
              cases hstep
              exact .ends hcall rfl
          | some identityCall =>
              rw [hrequest] at hstep
              obtain ⟨identities, hbegin, rfl⟩ := Option.map_eq_some_iff.mp hstep
              exact .fetches hcall hrequest hbegin rfl
  | _ => cases hstep

theorem Steps.of_identity {statement : FortyTwoIdentities.Label} (hstep : s.identity statement = some t) :
    Steps config s t (.identity statement) := by
  cases statement with
  | begin => cases hstep
  | _ =>
      obtain ⟨identities, hidentity, rfl⟩ := Option.map_eq_some_iff.mp hstep
      refine .identity rfl (fun _ _ hbegin => ?_) hidentity rfl
      cases hbegin

theorem Steps.of_respond (hstep : s.respond id = some t) : Steps config s t label := by
  obtain ⟨⟨request, phase⟩, hcall, hstep⟩ := Option.bind_eq_some_iff.mp hstep
  cases phase with
  | storing transaction profile =>
      cases hresult : s.identities.calls id with
      | none =>
          rw [hresult] at hstep
          cases hstep
      | some call =>
          obtain ⟨identityCall, phase⟩ := call
          rw [hresult] at hstep
          cases phase with
          | ended result =>
              cases hpurpose : transaction.purpose with
              | LINK =>
                  dsimp only at hstep
                  rw [hpurpose] at hstep
                  cases result with
                  | ok =>
                      cases hstep
                      exact .ends hcall rfl
                  | error error =>
                      cases error with
                      | _ =>
                          cases hstep
                          exact .ends hcall rfl
              | LOGIN =>
                  dsimp only at hstep
                  rw [hpurpose] at hstep
                  cases result with
                  | error error =>
                      cases error with
                      | _ =>
                          cases hstep
                          exact .ends hcall rfl
                  | ok response =>
                      cases response with
                      | linked => cases hstep
                      | resolved resolution =>
                          dsimp only at hstep
                          by_cases hactive : resolution.user.status = .ACTIVE
                          · rw [if_neg (not_not.mpr hactive)] at hstep
                            cases hstep
                            exact .resolves hcall hresult hpurpose hactive rfl
                          · rw [if_pos hactive] at hstep
                            cases hstep
                            exact .ends hcall rfl
          | _ => cases hstep
  | _ => cases hstep

theorem Steps.of_createLogin {sessionId : Option String} (hstep : s.createLogin id sessionId = some t) :
    Steps config s t (.createLogin id sessionId) := by
  obtain ⟨⟨request, phase⟩, hcall, hstep⟩ := Option.bind_eq_some_iff.mp hstep
  cases phase with
  | resolved transaction resolution =>
      cases sessionId with
      | none =>
          cases hstep
          exact .ends hcall rfl
      | some sessionId =>
          cases hstep
          cases hlinked : resolution.autoLinked with
          | false => exact .opens rfl hcall rfl
          | true => exact .opens rfl hcall rfl
  | _ => cases hstep

theorem Steps.of_fail (hstep : s.fail id = some t) : Steps config s t label := by
  obtain ⟨⟨request, phase⟩, hcall, hstep⟩ := Option.bind_eq_some_iff.mp hstep
  cases phase with
  | begun began =>
      cases hstep
      exact .ends hcall rfl
  | _ => cases hstep

theorem steps_of_step (hstep : s.step config label = some t) : Steps config s t label := by
  cases label with
  | startLogin browser returnTo state id now => exact .of_start rfl (fun hlink => by cases hlink) hstep
  | startLink browser subject state id now =>
      obtain ⟨hsession, hstep⟩ := Option.ite_none_right_eq_some.mp hstep
      exact .of_start rfl (fun _ => ⟨subject, rfl, hsession⟩) hstep
  | cleanup =>
      cases hstep
      exact .cleans rfl
  | callback id request => exact .of_callback hstep
  | consume id now => exact .of_consume hstep
  | fetch id answer => exact .of_fetch hstep
  | identity statement => exact .of_identity hstep
  | respond id => exact .of_respond hstep
  | createLogin id sessionId => exact .of_createLogin hstep
  | fail id => exact .of_fail hstep
  | signIn browser userId =>
      cases hstep
      refine .outside (fun session => ?_) rfl
      by_cases hsame : session = (browser, userId)
      · subst hsame
        exact .inr rfl
      · exact .inl (List.count_cons_of_ne (Ne.symm hsame)).le
  | signOut browser userId =>
      cases hstep
      exact .outside (fun session => .inl (List.filter_sublist.count_le session)) rfl
  | tick elapsed =>
      cases hstep
      exact .outside (fun session => .inl le_rfl) rfl

end Transcendence.Auth.OAuthCallbacks
