import Transcendence.Base.Calls
import Transcendence.Base.Transactions

/-!
# What transactions write and return

Rules for the clients of one server whatever rows they lock. A step of a client is one of six
(`Advance`). If all that the transactions write is good in the same sense then so is every change of
the committed database (`Writing.run`), and what a client can still return is known from the tree of
its statements (`Returns`). Where the two depend on each other, a transaction may count on what all keep:
`Within` says what it returns then, and `Sound.run` that every client returns that.
-/

namespace Transaction

variable {γ δ ι κ ρ σ : Type}

/-! ### Trees -/

/-- The same statements with other results. -/
def map (f : ρ → σ) : Transaction δ κ ρ → Transaction δ κ σ
  | .commit result => .commit (f result)
  | .rollback result => .rollback (f result)
  | .statement write next => .statement write fun db => (next db).map f
  | .lock key next => .lock key fun snapshot db => (next snapshot db).map f

/-- Every write of the transaction satisfies `Q`, whatever its statements see. -/
def Writes (Q : (δ → δ) → Prop) : Transaction δ κ ρ → Prop
  | .commit _ => True
  | .rollback _ => True
  | .statement write next => Q write ∧ ∀ db, (next db).Writes Q
  | .lock _ next => ∀ snapshot db, (next snapshot db).Writes Q

/-- Every result of the transaction satisfies `P`, whatever its statements see. -/
def Returns (P : ρ → Prop) : Transaction δ κ ρ → Prop
  | .commit result => P result
  | .rollback result => P result
  | .statement _ next => ∀ db, (next db).Returns P
  | .lock _ next => ∀ snapshot db, (next snapshot db).Returns P

section Trees

variable {Q : (δ → δ) → Prop} {P : σ → Prop}

theorem writes_map {tx : Transaction δ κ ρ} (h : tx.Writes Q) (f : ρ → σ) : (tx.map f).Writes Q := by
  induction tx with
  | commit result => trivial
  | rollback result => trivial
  | statement write next ih => exact ⟨h.1, fun db => ih db (h.2 db)⟩
  | lock key next ih => exact fun snapshot db => ih snapshot db (h snapshot db)

theorem returns_map {f : ρ → σ} {tx : Transaction δ κ ρ} (h : tx.Returns fun result => P (f result)) : (tx.map f).Returns P := by
  induction tx with
  | commit result => exact h
  | rollback result => exact h
  | statement write next ih => exact fun db => ih db (h db)
  | lock key next ih => exact fun snapshot db => ih snapshot db (h snapshot db)

theorem writes_execute {write : δ → Option δ} {refused next : Transaction δ κ ρ} (hwrite : Q fun db => (write db).getD db)
    (hrefused : refused.Writes Q) (hnext : next.Writes Q) : (execute write refused next).Writes Q := by
  refine ⟨hwrite, fun db => ?_⟩
  dsimp only
  split
  · exact hnext
  · exact hrefused

theorem returns_execute {P : ρ → Prop} {write : δ → Option δ} {refused next : Transaction δ κ ρ} (hrefused : refused.Returns P)
    (hnext : next.Returns P) : (execute write refused next).Returns P := by
  intro db
  dsimp only
  split
  · exact hnext
  · exact hrefused

theorem writes_select {next : δ → Transaction δ κ ρ} (hid : Q id) (hnext : ∀ db, (next db).Writes Q) :
    (select next).Writes Q :=
  ⟨hid, hnext⟩

end Trees

/-! ### Steps -/

/-- A step of one client, from where it stands to where it stands then. -/
inductive Advance (s t : Server γ δ ι κ ρ) : Progress δ κ ρ → Progress δ κ ρ → Prop where
  | commit {result : ρ} {writes : List (δ → δ)} (hdb : t.db = view s.db writes) :
      Advance s t (.running (.commit result) writes) (.ended result)
  | rollback {result : ρ} {writes : List (δ → δ)} (hdb : t.db = s.db) :
      Advance s t (.running (.rollback result) writes) (.ended result)
  | statement {write : δ → δ} {next : δ → Transaction δ κ ρ} {writes : List (δ → δ)} (hdb : t.db = s.db) :
      Advance s t (.running (.statement write next) writes) (.running (next (view s.db writes)) (writes ++ [write]))
  | waits {key : δ → Option κ} {next : δ → δ → Transaction δ κ ρ} {writes : List (δ → δ)} {row : κ}
      (hrow : key (view s.db writes) = some row) (hdb : t.db = s.db) :
      Advance s t (.running (.lock key next) writes) (.waiting row (view s.db writes) next writes)
  | passes {key : δ → Option κ} {next : δ → δ → Transaction δ κ ρ} {writes : List (δ → δ)}
      (hrow : key (view s.db writes) = none) (hdb : t.db = s.db) :
      Advance s t (.running (.lock key next) writes) (.running (next (view s.db writes) (view s.db writes)) writes)
  | acquires {row : κ} {snapshot : δ} {next : δ → δ → Transaction δ κ ρ} {writes : List (δ → δ)} (hdb : t.db = s.db) :
      Advance s t (.waiting row snapshot next writes) (.running (next snapshot (view s.db writes)) writes)

namespace Server

variable [DecidableEq ι] [DecidableEq κ] {program : γ → Transaction δ κ ρ} {s t : Server γ δ ι κ ρ} {id : ι}

theorem advance_inv (hstep : s.advance id = some t) :
    ∃ request before after, s.clients id = some ⟨request, before⟩ ∧
      t.clients = Function.update s.clients id (some ⟨request, after⟩) ∧ Advance s t before after := by
  rw [advance] at hstep
  split at hstep
  · cases hstep
  · case h_2 request result writes hclient =>
      cases hstep
      exact ⟨request, _, _, hclient, rfl, .commit rfl⟩
  · case h_3 request result writes hclient =>
      cases hstep
      exact ⟨request, _, _, hclient, rfl, .rollback rfl⟩
  · case h_4 request write next writes hclient =>
      cases hstep
      exact ⟨request, _, _, hclient, rfl, .statement rfl⟩
  · case h_5 request key next writes hclient =>
      dsimp only at hstep
      cases hrow : key (view s.db writes) with
      | some row =>
          rw [hrow] at hstep
          cases hstep
          exact ⟨request, _, _, hclient, rfl, .waits hrow rfl⟩
      | none =>
          rw [hrow] at hstep
          cases hstep
          exact ⟨request, _, _, hclient, rfl, .passes hrow rfl⟩
  · case h_6 request row snapshot next writes hclient =>
      split at hstep
      · cases hstep
        exact ⟨request, _, _, hclient, rfl, .acquires rfl⟩
      · cases hstep
  · cases hstep

theorem begin_inv {request : γ} (hstep : step program s (.begin id request) = some t) :
    s.clients id = none ∧ t.db = s.db ∧
      t.clients = Function.update s.clients id (some ⟨request, .running (program request) []⟩) := by
  simp only [step] at hstep
  split at hstep
  · case isTrue hnew =>
      cases hstep
      exact ⟨Option.isNone_iff_eq_none.mp hnew, rfl, rfl⟩
  · cases hstep

end Server

/-! ### What is written -/

/-- What a client has written and will write satisfies `Q`. -/
def Progress.Writes (Q : (δ → δ) → Prop) : Progress δ κ ρ → Prop
  | .running rest writes => rest.Writes Q ∧ ∀ write ∈ writes, Q write
  | .waiting _ _ next writes => (∀ snapshot db, (next snapshot db).Writes Q) ∧ ∀ write ∈ writes, Q write
  | .ended _ => True

/-- All clients write with functions that satisfy `Q`. -/
def Writing (Q : (δ → δ) → Prop) (s : Server γ δ ι κ ρ) : Prop :=
  ∀ id client, s.clients id = some client → client.progress.Writes Q

section Writing

variable {Q : (δ → δ) → Prop} {program : γ → Transaction δ κ ρ} {s t : Server γ δ ι κ ρ}

theorem writing_initial (db : δ) : Writing Q (Server.initial db : Server γ δ ι κ ρ) := by
  intro id client hclient
  cases hclient

theorem Advance.writes {before after : Progress δ κ ρ} (h : Advance s t before after) (hbefore : before.Writes Q) :
    after.Writes Q := by
  cases h with
  | commit => trivial
  | rollback => trivial
  | @statement write next writes =>
      obtain ⟨⟨hwrite, hnext⟩, hwrites⟩ := hbefore
      refine ⟨hnext _, ?_⟩
      intro other hother
      cases List.mem_append.mp hother with
      | inl hold => exact hwrites other hold
      | inr hnew => exact List.mem_singleton.mp hnew ▸ hwrite
  | waits => exact hbefore
  | passes => exact ⟨hbefore.1 _ _, hbefore.2⟩
  | acquires => exact ⟨hbefore.1 _ _, hbefore.2⟩

variable {R : δ → δ → Prop}

theorem view_related (hrefl : ∀ db, R db db) (htrans : ∀ {a b c}, R a b → R b c → R a c) (hQ : ∀ write, Q write → ∀ db, R db (write db))
    {writes : List (δ → δ)} (hwrites : ∀ write ∈ writes, Q write) (db : δ) : R db (view db writes) := by
  induction writes generalizing db with
  | nil => exact hrefl db
  | cons write writes ih =>
      rw [List.forall_mem_cons] at hwrites
      exact htrans (hQ write hwrites.1 db) (ih hwrites.2 (write db))

/-- A step changes the committed database only by what a client has written. -/
theorem Advance.related (hrefl : ∀ db, R db db) (htrans : ∀ {a b c}, R a b → R b c → R a c)
    (hQ : ∀ write, Q write → ∀ db, R db (write db)) {before after : Progress δ κ ρ} (h : Advance s t before after)
    (hbefore : before.Writes Q) : R s.db t.db := by
  have hsame : t.db = s.db → R s.db t.db := by
    intro hdb
    rw [hdb]
    exact hrefl s.db
  cases h with
  | commit hdb =>
      rw [hdb]
      exact view_related hrefl htrans hQ hbefore.2 s.db
  | rollback hdb => exact hsame hdb
  | statement hdb => exact hsame hdb
  | waits _ hdb => exact hsame hdb
  | passes _ hdb => exact hsame hdb
  | acquires hdb => exact hsame hdb

variable [DecidableEq ι] [DecidableEq κ]

theorem Writing.step (h : Writing Q s) (hprogram : ∀ request, (program request).Writes Q) {label : Label γ ι}
    (hstep : Server.step program s label = some t) : Writing Q t := by
  intro other client hclient
  cases label with
  | begin id request =>
      obtain ⟨_, _, hclients⟩ := Server.begin_inv hstep
      rw [hclients] at hclient
      cases Calls.update_eq_some hclient with
      | inl hnew =>
          rw [← hnew.2]
          exact ⟨hprogram request, fun write hwrite => absurd hwrite List.not_mem_nil⟩
      | inr hold => exact h other client hold.2
  | advance id =>
      obtain ⟨request, before, after, hbefore, hclients, hadvance⟩ := Server.advance_inv hstep
      rw [hclients] at hclient
      cases Calls.update_eq_some hclient with
      | inl hnew =>
          rw [← hnew.2]
          exact hadvance.writes (h id _ hbefore)
      | inr hold => exact h other client hold.2

theorem Writing.related (h : Writing Q s) (hrefl : ∀ db, R db db) (htrans : ∀ {a b c}, R a b → R b c → R a c)
    (hQ : ∀ write, Q write → ∀ db, R db (write db)) {label : Label γ ι} (hstep : Server.step program s label = some t) :
    R s.db t.db := by
  cases label with
  | begin id request =>
      obtain ⟨_, hdb, _⟩ := Server.begin_inv hstep
      rw [hdb]
      exact hrefl s.db
  | advance id =>
      obtain ⟨request, before, after, hbefore, hclients, hadvance⟩ := Server.advance_inv hstep
      exact hadvance.related hrefl htrans hQ (h id _ hbefore)

/-- Whatever the interleaving, a later database comes from an earlier one by such writes. -/
theorem Writing.run (h : Writing Q s) (hprogram : ∀ request, (program request).Writes Q) (hrefl : ∀ db, R db db)
    (htrans : ∀ {a b c}, R a b → R b c → R a c) (hQ : ∀ write, Q write → ∀ db, R db (write db)) {labels : List (Label γ ι)}
    (hrun : Runs.run (Server.step program) s labels = some t) : Writing Q t ∧ R s.db t.db :=
  Runs.Preserved.run (P := fun u => Writing Q u ∧ R s.db u.db)
    (fun _ _ _ hkept hstep => ⟨hkept.1.step hprogram hstep, htrans hkept.2 (hkept.1.related hrefl htrans hQ hstep)⟩)
    ⟨h, hrefl s.db⟩ hrun

end Writing

/-! ### What is kept and returned -/

/-- As long as `I` holds of the databases that the transaction sees, its writes keep it and its result
satisfies `P`. -/
def Within (I : δ → Prop) (P : ρ → Prop) : Transaction δ κ ρ → Prop
  | .commit result => P result
  | .rollback result => P result
  | .statement write next => (∀ db, I db → I (write db)) ∧ ∀ db, I db → (next db).Within I P
  | .lock _ next => ∀ snapshot db, I snapshot → I db → (next snapshot db).Within I P

def Progress.Within (I : δ → Prop) (P : ρ → Prop) : Progress δ κ ρ → Prop
  | .running rest writes => rest.Within I P ∧ ∀ write ∈ writes, ∀ db, I db → I (write db)
  | .waiting _ snapshot next writes =>
      (∀ db, I db → (next snapshot db).Within I P) ∧ ∀ write ∈ writes, ∀ db, I db → I (write db)
  | .ended result => P result

/-- The committed database satisfies `I`, and every client keeps it and returns what it should. -/
structure Sound (I : δ → Prop) (P : γ → ρ → Prop) (s : Server γ δ ι κ ρ) : Prop where
  db : I s.db
  clients : ∀ id client, s.clients id = some client → client.progress.Within I (P client.request)

section Within

variable {I : δ → Prop}

theorem within_map {P : σ → Prop} {f : ρ → σ} {tx : Transaction δ κ ρ} (h : tx.Within I fun result => P (f result)) :
    (tx.map f).Within I P := by
  induction tx with
  | commit result => exact h
  | rollback result => exact h
  | statement write next ih => exact ⟨h.1, fun db hdb => ih db (h.2 db hdb)⟩
  | lock key next ih => exact fun snapshot db hsnapshot hdb => ih snapshot db (h snapshot db hsnapshot hdb)

theorem within_select {P : ρ → Prop} {next : δ → Transaction δ κ ρ} (hnext : ∀ db, I db → (next db).Within I P) :
    (select next).Within I P :=
  ⟨fun _ hdb => hdb, hnext⟩

theorem within_execute {P : ρ → Prop} {write : δ → Option δ} {refused next : Transaction δ κ ρ}
    (hwrite : ∀ db written, I db → write db = some written → I written) (hrefused : refused.Within I P)
    (hnext : next.Within I P) : (execute write refused next).Within I P := by
  refine ⟨fun db hdb => ?_, fun db _ => ?_⟩
  · dsimp only
    cases hwritten : write db with
    | none => exact hdb
    | some written => exact hwrite db written hdb hwritten
  · dsimp only
    split
    · exact hnext
    · exact hrefused

theorem view_within {writes : List (δ → δ)} (hwrites : ∀ write ∈ writes, ∀ db, I db → I (write db)) {db : δ} (hdb : I db) :
    I (view db writes) := by
  induction writes generalizing db with
  | nil => exact hdb
  | cons write writes ih =>
      rw [List.forall_mem_cons] at hwrites
      exact ih hwrites.2 (hwrites.1 db hdb)

variable {P : ρ → Prop} {s t : Server γ δ ι κ ρ}

/-- A step of one client, one case for each of the six. -/
theorem Advance.within {before after : Progress δ κ ρ} (h : Advance s t before after) (hdb : I s.db)
    (hbefore : before.Within I P) : I t.db ∧ after.Within I P := by
  cases h with
  | commit hcommitted =>
      rw [hcommitted]
      exact ⟨view_within hbefore.2 hdb, hbefore.1⟩
  | rollback hsame => exact ⟨hsame ▸ hdb, hbefore.1⟩
  | @statement write next writes hsame =>
      obtain ⟨⟨hwrite, hnext⟩, hwrites⟩ := hbefore
      refine ⟨hsame ▸ hdb, hnext _ (view_within hwrites hdb), ?_⟩
      intro other hother
      cases List.mem_append.mp hother with
      | inl hold => exact hwrites other hold
      | inr hnew => exact List.mem_singleton.mp hnew ▸ hwrite
  | waits _ hsame =>
      have hsnapshot := view_within hbefore.2 hdb
      exact ⟨hsame ▸ hdb, fun db hview => hbefore.1 _ db hsnapshot hview, hbefore.2⟩
  | passes _ hsame =>
      have hview := view_within hbefore.2 hdb
      exact ⟨hsame ▸ hdb, hbefore.1 _ _ hview hview, hbefore.2⟩
  | acquires hsame => exact ⟨hsame ▸ hdb, hbefore.1 _ (view_within hbefore.2 hdb), hbefore.2⟩

end Within

section Sound

variable {I : δ → Prop} {P : γ → ρ → Prop} {program : γ → Transaction δ κ ρ} {s t : Server γ δ ι κ ρ}

theorem sound_initial {db : δ} (hdb : I db) : Sound I P (Server.initial db : Server γ δ ι κ ρ) := by
  refine ⟨hdb, fun id client hclient => ?_⟩
  cases hclient

variable [DecidableEq ι] [DecidableEq κ]

theorem Sound.step (h : Sound I P s) {label : Label γ ι}
    (hlabel : ∀ id request, label = .begin id request → (program request).Within I (P request))
    (hstep : Server.step program s label = some t) : Sound I P t := by
  cases label with
  | begin id request =>
      obtain ⟨_, hdb, hclients⟩ := Server.begin_inv hstep
      refine ⟨hdb ▸ h.db, fun other client hclient => ?_⟩
      rw [hclients] at hclient
      cases Calls.update_eq_some hclient with
      | inl hnew =>
          rw [← hnew.2]
          exact ⟨hlabel id request rfl, fun write hwrite => absurd hwrite List.not_mem_nil⟩
      | inr hold => exact h.clients other client hold.2
  | advance id =>
      obtain ⟨request, before, after, hbefore, hclients, hadvance⟩ := Server.advance_inv hstep
      obtain ⟨hdb, hafter⟩ := hadvance.within h.db (h.clients id _ hbefore)
      refine ⟨hdb, fun other client hclient => ?_⟩
      rw [hclients] at hclient
      cases Calls.update_eq_some hclient with
      | inl hnew =>
          rw [← hnew.2]
          exact hafter
      | inr hold => exact h.clients other client hold.2

/-- Whatever the interleaving, if what begins counts only on what all keep. -/
theorem Sound.run (h : Sound I P s) {labels : List (Label γ ι)}
    (hlabels : ∀ id request, .begin id request ∈ labels → (program request).Within I (P request))
    (hrun : Runs.run (Server.step program) s labels = some t) : Sound I P t := by
  refine Runs.Along.run (C := fun _ label => label ∈ labels) ?_ h ?_ hrun
  · intro u label v hsound hlabel hstep
    exact hsound.step (fun id request hbegin => hlabels id request (hbegin ▸ hlabel)) hstep
  · exact Runs.Along.of_forall (fun _ hlabel _ => hlabel) s

end Sound

end Transaction
