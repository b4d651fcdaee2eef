import Mathlib.Data.Prod.Lex
import Transcendence.Accounts.OneOwner
import Transcendence.Base.RowNumbers
import Transcendence.Base.Table

/-!
# The backfill of owners

The migration `tr69_project_owner_backfill_index`, which gives every project of the older program an owner:
its oldest ADMIN, or else its oldest member. It fails on a project without members, and its index on one with
two owners; where it succeeds every project has one owner, and nothing else has changed. From there on the
program keeps the one owner of every project, as far as it does (`owner_backfilled`).

The ids and the instants are those of any linear orders.
-/

namespace Transcendence.Accounts

open Realtime (ProjectId Role UserId)

/-! ### The migration -/

structure ProjectMemberRow (ι τ : Type) where
  id : ι
  userId : UserId
  projectId : ProjectId
  role : Role
  createdAt : τ
  deriving DecidableEq

/-- The tables with the constraints they have by then. -/
structure MemberTables (ι τ : Type) where
  accounts : Finset UserId
  projects : Finset ProjectId
  members : List (ProjectMemberRow ι τ)
  ids : (members.map (·.id)).Nodup
  userIds_projectIds : (members.map fun member => (member.userId, member.projectId)).Nodup
  foreignKeys : ∀ member ∈ members, member.projectId ∈ projects ∧ member.userId ∈ accounts

/-- The exception of the `DO` block, and the error of `CREATE UNIQUE INDEX`. -/
inductive MigrationError where
  | noMembers
  | duplicateOwner
  deriving DecidableEq, Repr

variable {ι τ : Type}

/-- `ORDER BY` -/
def orderKey (member : ProjectMemberRow ι τ) : ℕ ×ₗ τ ×ₗ ι :=
  toLex (if member.role = .ADMIN then 0 else 1, toLex (member.createdAt, member.id))

def setOwner (member : ProjectMemberRow ι τ) : ProjectMemberRow ι τ := { member with role := .OWNER }

namespace MemberTables

variable {tables : MemberTables ι τ} {member other : ProjectMemberRow ι τ}

/-- The owners that the index is over. -/
def owners (tables : MemberTables ι τ) : List (ProjectMemberRow ι τ) := tables.members.filter (·.role = .OWNER)

/-- The database that the program starts from. -/
def database (tables : MemberTables ι τ) : Database where
  accounts := tables.accounts
  projects := tables.projects
  members projectId userId :=
    (tables.members.find? fun member => (member.userId, member.projectId) = (userId, projectId)).map (·.role)
  foreignKeys projectId userId hmember := by
    rw [Option.isSome_map, List.find?_isSome] at hmember
    obtain ⟨member, hmem, hsame⟩ := hmember
    obtain ⟨huser, hproject⟩ := Prod.mk.inj (of_decide_eq_true hsame)
    rw [← huser, ← hproject]
    exact tables.foreignKeys member hmem

theorem eq_of_id (hmember : member ∈ tables.members) (hother : other ∈ tables.members) (hid : other.id = member.id) :
    other = member := Table.key_injective tables.ids hother hmember hid

theorem id_of_orderKey (h : orderKey other = orderKey member) : other.id = member.id := by
  have hsecond := congrArg (fun key => (ofLex (ofLex key).2).2) h
  exact hsecond

/-- The role of a user in the database is that of his row. -/
theorem members_database {userId : UserId} {projectId : ProjectId} {role : Role} :
    tables.database.members projectId userId = some role ↔
      ∃ member ∈ tables.members, member.userId = userId ∧ member.projectId = projectId ∧ member.role = role := by
  constructor
  · intro h
    obtain ⟨member, hfound, hrole⟩ := Option.map_eq_some_iff.mp h
    have hsame := List.find?_some hfound
    obtain ⟨huser, hproject⟩ := Prod.mk.inj (of_decide_eq_true hsame)
    exact ⟨member, List.mem_of_find?_eq_some hfound, huser, hproject, hrole⟩
  · rintro ⟨member, hmember, rfl, rfl, rfl⟩
    show (tables.members.find? _).map _ = _
    rw [Table.find?_eq_some_of_mem tables.userIds_projectIds hmember rfl]
    rfl

end MemberTables

variable [LinearOrder ι] [LinearOrder τ]

/-- Each member that is no owner, with `rank_in_project`. -/
def rankedMembers (members : List (ProjectMemberRow ι τ)) : List (ProjectMemberRow ι τ × Nat) :=
  let others := members.filter (·.role ≠ .OWNER)
  others.map fun member =>
    (member, RowNumbers.rowNumber orderKey (others.filter (·.projectId = member.projectId)) member)

/-- The condition of the `UPDATE`, whose subqueries see the rows as they were. -/
def isUpdated (members : List (ProjectMemberRow ι τ)) (member : ProjectMemberRow ι τ) : Bool :=
  (rankedMembers members).any fun ranked =>
    member.id = ranked.1.id ∧ ranked.2 = 1 ∧ ¬∃ owner ∈ members, owner.projectId = ranked.1.projectId ∧ owner.role = .OWNER

namespace MemberTables

variable (tables : MemberTables ι τ)

def backfill : MemberTables ι τ where
  accounts := tables.accounts
  projects := tables.projects
  members := Table.update (isUpdated tables.members) setOwner tables.members
  ids := by
    have hids : (Table.update (isUpdated tables.members) setOwner tables.members).map (·.id) = tables.members.map (·.id) := by
      apply Table.map_update
      intro _ _
      rfl
    rw [hids]
    exact tables.ids
  userIds_projectIds := by
    have hpairs : (Table.update (isUpdated tables.members) setOwner tables.members).map
        (fun member => (member.userId, member.projectId)) = tables.members.map fun member => (member.userId, member.projectId) := by
      apply Table.map_update
      intro _ _
      rfl
    rw [hpairs]
    exact tables.userIds_projectIds
  foreignKeys member hmember := by
    obtain ⟨before, hbefore, rfl⟩ := Table.mem_update.mp hmember
    split
    · exact tables.foreignKeys before hbefore
    · exact tables.foreignKeys before hbefore

def migrate : Except MigrationError (MemberTables ι τ) :=
  if ∃ projectId ∈ tables.projects, ∀ member ∈ tables.members, member.projectId ≠ projectId then .error .noMembers
  else if (tables.backfill.owners.map (·.projectId)).Nodup then .ok tables.backfill
  else .error .duplicateOwner

/-! ### Who becomes an owner -/

/-- The first in the order of the migration among the members of a project that has no owner. -/
def Chosen (member : ProjectMemberRow ι τ) : Prop :=
  ∀ other ∈ tables.members, other.projectId = member.projectId → other.role ≠ .OWNER ∧ orderKey member ≤ orderKey other

instance (member : ProjectMemberRow ι τ) : Decidable (tables.Chosen member) :=
  inferInstanceAs (Decidable (∀ other ∈ tables.members, _))

variable {tables} {member other : ProjectMemberRow ι τ}

theorem isUpdated_iff (hmember : member ∈ tables.members) : isUpdated tables.members member = true ↔ tables.Chosen member := by
  let others := tables.members.filter (·.role ≠ .OWNER)
  let partition := others.filter (·.projectId = member.projectId)
  have hmem : ∀ other, other ∈ partition ↔ (other ∈ tables.members ∧ other.role ≠ .OWNER) ∧ other.projectId = member.projectId := by
    intro other
    simp only [partition, others, List.mem_filter, decide_eq_true_eq]
  have hunique : ∀ other ∈ partition, orderKey other = orderKey member → other = member := by
    intro other hother hkey
    exact eq_of_id hmember ((hmem other).mp hother).1.1 (id_of_orderKey hkey)
  have hupdated : isUpdated tables.members member = true ↔ member.role ≠ .OWNER ∧
      RowNumbers.rowNumber orderKey partition member = 1 ∧
        ¬∃ owner ∈ tables.members, owner.projectId = member.projectId ∧ owner.role = .OWNER := by
    simp only [isUpdated, rankedMembers, List.any_map, List.any_eq_true, List.mem_filter, decide_eq_true_eq,
      Function.comp_apply]
    constructor
    · rintro ⟨ranked, ⟨hranked, hrole⟩, hid, hfirst, hnone⟩
      cases eq_of_id hmember hranked hid.symm
      exact ⟨hrole, hfirst, hnone⟩
    · rintro ⟨hrole, hfirst, hnone⟩
      exact ⟨member, ⟨hmember, hrole⟩, rfl, hfirst, hnone⟩
  rw [hupdated]
  constructor
  · rintro ⟨hrole, hfirst, hnone⟩ other hother hproject
    have hnot : other.role ≠ .OWNER := fun howner => hnone ⟨other, hother, hproject, howner⟩
    have hin : member ∈ partition := (hmem member).mpr ⟨⟨hmember, hrole⟩, rfl⟩
    refine ⟨hnot, (RowNumbers.rowNumber_eq_one_iff hin hunique).mp hfirst other ?_⟩
    exact (hmem other).mpr ⟨⟨hother, hnot⟩, hproject⟩
  · intro hchosen
    have hrole : member.role ≠ .OWNER := (hchosen member hmember rfl).1
    have hin : member ∈ partition := (hmem member).mpr ⟨⟨hmember, hrole⟩, rfl⟩
    refine ⟨hrole, (RowNumbers.rowNumber_eq_one_iff hin hunique).mpr fun other hother => ?_, ?_⟩
    · obtain ⟨⟨hmem, -⟩, hproject⟩ := (hmem other).mp hother
      exact (hchosen other hmem hproject).2
    · rintro ⟨owner, howner, hproject, hrole⟩
      exact (hchosen owner howner hproject).1 hrole

/-- A project that has members and no owner has one to choose. -/
theorem exists_chosen (hmember : member ∈ tables.members)
    (hnone : ∀ owner ∈ tables.members, owner.projectId = member.projectId → owner.role ≠ .OWNER) :
    ∃ chosen ∈ tables.members, chosen.projectId = member.projectId ∧ tables.Chosen chosen := by
  let partition := tables.members.filter (·.projectId = member.projectId)
  have hmem : ∀ other, other ∈ partition ↔ other ∈ tables.members ∧ other.projectId = member.projectId := by
    intro other
    simp only [partition, List.mem_filter, decide_eq_true_eq]
  have hne : partition ≠ [] := List.ne_nil_of_mem ((hmem member).mpr ⟨hmember, rfl⟩)
  have hexists : ∃ chosen ∈ partition, RowNumbers.rowNumber orderKey partition chosen = 1 :=
    RowNumbers.exists_rowNumber_eq_one hne
  obtain ⟨chosen, hchosen, hfirst⟩ := hexists
  obtain ⟨hin, hproject⟩ := (hmem chosen).mp hchosen
  have hunique : ∀ other ∈ partition, orderKey other = orderKey chosen → other = chosen := by
    intro other hother hkey
    exact eq_of_id hin ((hmem other).mp hother).1 (id_of_orderKey hkey)
  refine ⟨chosen, hin, hproject, fun other hother hsame => ⟨hnone other hother (hsame.trans hproject), ?_⟩⟩
  exact (RowNumbers.rowNumber_eq_one_iff hchosen hunique).mp hfirst other ((hmem other).mpr ⟨hother, hsame.trans hproject⟩)

theorem Chosen.unique (h : tables.Chosen member) (hother : tables.Chosen other) (hmember : member ∈ tables.members)
    (hmem : other ∈ tables.members) (hproject : other.projectId = member.projectId) : other = member := by
  apply eq_of_id hmember hmem
  exact id_of_orderKey (le_antisymm (hother member hmember hproject.symm).2 (h other hmem hproject).2)

/-! ### The owners afterwards -/

theorem mem_backfill {row : ProjectMemberRow ι τ} : row ∈ tables.backfill.members ↔
    ∃ member ∈ tables.members, (if tables.Chosen member then setOwner member else member) = row := by
  rw [backfill, Table.mem_update]
  refine exists_congr fun member => and_congr_right fun hmember => ?_
  simp only [isUpdated_iff hmember]

/-- The owners there were and those that are chosen. -/
theorem mem_owners_backfill {row : ProjectMemberRow ι τ} : row ∈ tables.backfill.owners ↔
    ∃ member ∈ tables.members, (member.role = .OWNER ∨ tables.Chosen member) ∧ setOwner member = row := by
  rw [owners, List.mem_filter, mem_backfill, decide_eq_true_eq]
  constructor
  · rintro ⟨⟨member, hmember, rfl⟩, hrole⟩
    split at hrole
    · next hchosen => exact ⟨member, hmember, .inr hchosen, (if_pos hchosen).symm⟩
    · next hnot => exact ⟨member, hmember, .inl hrole, by rw [if_neg hnot, setOwner, ← hrole]⟩
  · rintro ⟨member, hmember, hor, rfl⟩
    refine ⟨⟨member, hmember, ?_⟩, rfl⟩
    rcases hor with hrole | hchosen
    · rw [if_neg fun hchosen => (hchosen member hmember rfl).1 hrole, setOwner, ← hrole]
    · exact if_pos hchosen

/-- Where no project had two owners, none has two afterwards. -/
theorem nodup_owners_iff : (tables.backfill.owners.map (·.projectId)).Nodup ↔
    ∀ member ∈ tables.members, ∀ other ∈ tables.members, member.role = .OWNER → other.role = .OWNER →
      other.projectId = member.projectId → other = member := by
  have hnodup : tables.backfill.owners.Nodup := (List.Nodup.of_map _ tables.backfill.ids).filter _
  rw [List.nodup_map_iff_inj_on hnodup]
  constructor
  · intro hinj member hmember other hother hrole hrole' hproject
    have hsame := hinj (setOwner other) (mem_owners_backfill.mpr ⟨other, hother, .inl hrole', rfl⟩) (setOwner member)
      (mem_owners_backfill.mpr ⟨member, hmember, .inl hrole, rfl⟩) hproject
    exact eq_of_id hmember hother (congrArg (·.id) hsame)
  · intro hone row hrow row' hrow' hproject
    obtain ⟨member, hmember, hor, rfl⟩ := mem_owners_backfill.mp hrow
    obtain ⟨other, hother, hor', rfl⟩ := mem_owners_backfill.mp hrow'
    have hproject : member.projectId = other.projectId := hproject
    rcases hor with hrole | hchosen
    · rcases hor' with hrole' | hchosen'
      · rw [hone other hother member hmember hrole' hrole hproject]
      · exact absurd hrole (hchosen' member hmember hproject).1
    · rcases hor' with hrole' | hchosen'
      · exact absurd hrole' (hchosen other hother hproject.symm).1
      · rw [hchosen'.unique hchosen hother hmember hproject]

/-- A project with members has an owner afterwards. -/
theorem exists_owner (hmember : member ∈ tables.members) :
    ∃ row ∈ tables.backfill.owners, row.projectId = member.projectId := by
  by_cases howner : ∃ owner ∈ tables.members, owner.projectId = member.projectId ∧ owner.role = .OWNER
  · obtain ⟨owner, hmem, hproject, hrole⟩ := howner
    exact ⟨setOwner owner, mem_owners_backfill.mpr ⟨owner, hmem, .inl hrole, rfl⟩, hproject⟩
  · have hnone : ∀ owner ∈ tables.members, owner.projectId = member.projectId → owner.role ≠ .OWNER :=
      fun owner hmem hproject hrole => howner ⟨owner, hmem, hproject, hrole⟩
    obtain ⟨chosen, hmem, hproject, hchosen⟩ := exists_chosen hmember hnone
    exact ⟨setOwner chosen, mem_owners_backfill.mpr ⟨chosen, hmem, .inr hchosen, rfl⟩, hproject⟩

theorem migrate_eq_ok {after : MemberTables ι τ} (h : tables.migrate = .ok after) : after = tables.backfill ∧
    (∀ projectId ∈ tables.projects, ∃ member ∈ tables.members, member.projectId = projectId) ∧
      (tables.backfill.owners.map (·.projectId)).Nodup := by
  rw [migrate] at h
  split_ifs at h with hempty hindex
  cases h
  refine ⟨rfl, fun projectId hproject => ?_, hindex⟩
  by_contra hnone
  exact hempty ⟨projectId, hproject, fun member hmember heq => hnone ⟨member, hmember, heq⟩⟩

theorem oneOwner_of_migrate {after : MemberTables ι τ} (h : tables.migrate = .ok after) (users : String → Option UserId) :
    (Platform.initial users after.database).OneOwner := by
  obtain ⟨rfl, hmembers, hindex⟩ := migrate_eq_ok h
  intro projectId hproject
  obtain ⟨member, hmember, rfl⟩ := hmembers projectId hproject
  obtain ⟨row, hrow, hsame⟩ := exists_owner hmember
  obtain ⟨hmem, hrole⟩ := List.mem_filter.mp hrow
  refine ⟨row.userId, members_database.mpr ⟨row, hmem, rfl, hsame, of_decide_eq_true hrole⟩, fun userId howner => ?_⟩
  obtain ⟨other, hother, rfl, hotherProject, hotherRole⟩ := members_database.mp howner
  have hinj := List.inj_on_of_nodup_map hindex
  rw [hinj (List.mem_filter.mpr ⟨hother, decide_eq_true hotherRole⟩) hrow (hotherProject.trans hsame.symm)]

/-- What the migration leaves. -/
structure Backfilled (tables after : MemberTables ι τ) : Prop where
  projects : after.projects = tables.projects
  members : after.members = tables.members.map fun member => if tables.Chosen member then setOwner member else member
  oneOwner : ∀ projectId ∈ after.projects, ∃! owner, owner ∈ after.owners ∧ owner.projectId = projectId
  /-- In every run of the program in which no removal of an account is overtaken. -/
  kept : ∀ users labels s, Runs.Along Platform.step Platform.NotOvertaken (.initial users after.database) labels →
    Runs.run Platform.step (.initial users after.database) labels = some s → s.OneOwner

theorem backfilled_of_migrate {after : MemberTables ι τ} (h : tables.migrate = .ok after) : Backfilled tables after := by
  obtain ⟨rfl, hmembers, hindex⟩ := migrate_eq_ok h
  constructor
  · rfl
  · apply List.map_congr_left
    intro member hmember
    simp only [isUpdated_iff hmember]
  · intro projectId hproject
    obtain ⟨member, hmember, rfl⟩ := hmembers projectId hproject
    obtain ⟨owner, howner, hsame⟩ := exists_owner hmember
    refine ⟨owner, ⟨howner, hsame⟩, fun other hother => ?_⟩
    exact List.inj_on_of_nodup_map hindex hother.1 howner (hother.2.trans hsame.symm)
  · intro users labels s hovertaken hrun
    refine (Runs.Along.run (P := fun s => s.Inv ∧ s.OneOwner) (fun s label t hs hnot hstep => ?_)
      ⟨Platform.inv_initial users _, oneOwner_of_migrate h users⟩ hovertaken hrun).2
    exact ⟨Platform.inv_preserved hs.1 hstep, (Platform.oneOwner_iff_of_step hs.1 hs.2 hstep).mpr hnot⟩

/-- On tables that meet their constraints. -/
theorem owner_backfilled (tables : MemberTables ι τ) :
    (tables.migrate = .error .noMembers ↔
      ∃ projectId ∈ tables.projects, ∀ member ∈ tables.members, member.projectId ≠ projectId) ∧
    (tables.migrate = .error .duplicateOwner ↔
      (∀ projectId ∈ tables.projects, ∃ member ∈ tables.members, member.projectId = projectId) ∧
        ∃ member ∈ tables.members, ∃ other ∈ tables.members, member.role = .OWNER ∧ other.role = .OWNER ∧
          other.projectId = member.projectId ∧ other ≠ member) ∧
    ∀ after, tables.migrate = .ok after → Backfilled tables after := by
  refine ⟨?_, ?_, fun after h => backfilled_of_migrate h⟩
  · rw [migrate]
    split_ifs with hempty hindex
    · exact iff_of_true rfl hempty
    · exact iff_of_false (by intro heq; cases heq) hempty
    · exact iff_of_false (by intro heq; cases heq) hempty
  · have hmembers : (∀ projectId ∈ tables.projects, ∃ member ∈ tables.members, member.projectId = projectId) ↔
        ¬∃ projectId ∈ tables.projects, ∀ member ∈ tables.members, member.projectId ≠ projectId := by
      push Not
      rfl
    have htwo : (∃ member ∈ tables.members, ∃ other ∈ tables.members, member.role = .OWNER ∧ other.role = .OWNER ∧
        other.projectId = member.projectId ∧ other ≠ member) ↔ ¬(tables.backfill.owners.map (·.projectId)).Nodup := by
      rw [nodup_owners_iff]
      push Not
      rfl
    rw [hmembers, htwo, migrate]
    split_ifs with hempty hindex
    · exact iff_of_false (by intro heq; cases heq) fun h => h.1 hempty
    · exact iff_of_false (by intro heq; cases heq) fun h => h.2 hindex
    · exact iff_of_true rfl ⟨hempty, hindex⟩

/-- A project that has an owner, and one whose only ADMIN is younger than a member. -/
def twoProjects : MemberTables ℕ ℕ where
  accounts := {"ada", "bob"}
  projects := {"owned", "older"}
  members := [⟨0, "ada", "owned", .OWNER, 0⟩, ⟨1, "bob", "owned", .ADMIN, 0⟩, ⟨2, "ada", "older", .MEMBER, 1⟩,
    ⟨3, "bob", "older", .ADMIN, 2⟩]
  ids := by decide
  userIds_projectIds := by decide
  foreignKeys := by decide

theorem owner_backfilled_of_twoProjects : ∃ after, twoProjects.migrate = .ok after ∧
    after.owners.map (fun owner => (owner.projectId, owner.userId)) = [("owned", "ada"), ("older", "bob")] ∧
      Backfilled twoProjects after := by
  have howners : twoProjects.migrate.toOption.map (fun after => after.owners.map fun owner => (owner.projectId, owner.userId)) =
      some [("owned", "ada"), ("older", "bob")] := by decide +kernel
  obtain ⟨after, hafter, howners⟩ := Option.map_eq_some_iff.mp howners
  have hmigrate : twoProjects.migrate = .ok after := by
    cases hmigrated : twoProjects.migrate with
    | error error =>
        rw [hmigrated] at hafter
        cases hafter
    | ok found =>
        rw [hmigrated] at hafter
        cases hafter
        rfl
  exact ⟨after, hmigrate, howners, (owner_backfilled twoProjects).2.2 after hmigrate⟩

end MemberTables

end Transcendence.Accounts
