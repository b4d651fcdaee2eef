import Transcendence.Base.Calls
import Transcendence.Base.Runs
import Transcendence.Base.SerialOrder
import Transcendence.Discovery.BlockItems
import Transcendence.Evaluation.ChecklistItems

/-!
# Containers

The discovery blocks of a project, the items of a discovery block and the checklist items of a
section, with every operation of `DiscoveryBlocksService`, `DiscoveryBlockItemsService`,
`EvaluationChecklistItemsService` and `ProjectsService` that inserts, updates or deletes one of them.
A create counts its container and inserts into it in one SERIALIZABLE transaction, which counts in
the step that opens it, on a snapshot, and inserts in the step that commits it; any other statement
is one step. A call may fail at any moment.

Two fields are not in the program: `issued`, the ids that rows have had so far, and `history`, the
transactions of creates that have committed, with what their snapshots have shown.
-/

namespace Transcendence.Content

open Discovery (DiscoveryBlockStatus DiscoveryBlockItem CreateDiscoveryBlockItemDto UpdateDiscoveryBlockItemDto
  computeDiscoveryBlockStatus MAX_ITEMS_PER_DISCOVERY_BLOCK)
open Evaluation (EvaluationChecklistItem EvaluationChecklistItemSection CreateEvaluationChecklistItemDto
  UpdateEvaluationChecklistItemDto EVALUATION_CHECKLIST_MAX_ITEMS_PER_SECTION)

abbrev ProjectId := String
abbrev BlockId := String
abbrev ItemId := String

def MAX_DISCOVERY_BLOCKS_PER_PROJECT : Nat := 20

structure DiscoveryBlock where
  projectId : ProjectId
  title : String
  description : Option String
  icon : Option String
  color : Option Int
  status : DiscoveryBlockStatus
  notes : Option String
  deriving DecidableEq, Repr

structure CreateDiscoveryBlockDto where
  title : String
  description : Option String := none
  icon : Option String := none
  color : Option Int := none
  notes : Option String := none
  deriving DecidableEq, Repr

/-- `none` is a field that is not sent, and `some none` one that is cleared. -/
structure UpdateDiscoveryBlockDto where
  title : Option String := none
  description : Option (Option String) := none
  icon : Option (Option String) := none
  color : Option (Option Int) := none
  notes : Option (Option String) := none
  deriving DecidableEq, Repr

/-- The fields that are sent replace the block's. -/
def UpdateDiscoveryBlockDto.apply (dto : UpdateDiscoveryBlockDto) (block : DiscoveryBlock) : DiscoveryBlock :=
  { block with
    title := dto.title.getD block.title
    description := dto.description.getD block.description
    icon := dto.icon.getD block.icon
    color := dto.color.getD block.color
    notes := dto.notes.getD block.notes }

/-- What the blocks of a new project are made of. -/
structure DefaultDiscoveryBlock where
  title : String
  icon : String
  color : Int
  items : List String

def DEFAULT_DISCOVERY_BLOCKS : List DefaultDiscoveryBlock :=
  [⟨"PDF Project Understanding", "search", 0, ["Read the subject PDF fully", "List every mandatory requirement"]⟩,
    ⟨"Constraints", "layers", 1,
      ["Identify technical constraints (allowed libs, languages)", "Identify norm/style constraints"]⟩,
    ⟨"Questions", "palette", 2, ["List open questions for the team", "List questions to ask evaluators"]⟩,
    ⟨"Roadmap", "link", 3, ["Draft a rough milestone plan", "Assign first tasks to teammates"]⟩,
    ⟨"Resources", "notebook", 4, ["Collect useful docs/links", "Bookmark similar past projects"]⟩,
    ⟨"Concepts", "wheel", 5, ["List unfamiliar concepts to learn", "Find a resource for each concept"]⟩]

/-! ### Tables -/

/-- Rows with their ids. -/
abbrev Rows (α : Type) := List (String × α)

namespace Rows

variable {α : Type}

/-- The ids of the rows that meet a condition. -/
def ids (rows : Rows α) (holds : α → Bool) : List String := (rows.filter fun row => holds row.2).map (·.1)

def find (rows : Rows α) (id : String) : Option α := (rows.find? (·.1 = id)).map (·.2)

def update (rows : Rows α) (id : String) (change : α → α) : Rows α :=
  rows.map fun row => if row.1 = id then (row.1, change row.2) else row

def delete (rows : Rows α) (id : String) : Rows α := rows.filter (·.1 ≠ id)

end Rows

structure Database where
  projects : List ProjectId
  discoveryBlocks : Rows DiscoveryBlock
  discoveryBlockItems : Rows DiscoveryBlockItem
  evaluationChecklistItems : Rows EvaluationChecklistItem

inductive Container where
  | project (projectId : ProjectId)
  | block (discoveryBlockId : BlockId)
  | checklist (projectId : ProjectId) (itemSection : EvaluationChecklistItemSection)
  deriving DecidableEq, Repr

namespace Container

def cap : Container → Nat
  | project _ => MAX_DISCOVERY_BLOCKS_PER_PROJECT
  | block _ => MAX_ITEMS_PER_DISCOVERY_BLOCK
  | checklist .. => EVALUATION_CHECKLIST_MAX_ITEMS_PER_SECTION

/-- The row that the rows of a container refer to. -/
def owner : Container → String
  | project projectId => projectId
  | block discoveryBlockId => discoveryBlockId
  | checklist projectId _ => projectId

/-- The message of the `BadRequestException` of a create. -/
def tooMany : Container → String
  | project _ => "A project can have at most " ++ toString MAX_DISCOVERY_BLOCKS_PER_PROJECT ++ " discovery blocks"
  | block _ => "A discovery block can have at most " ++ toString MAX_ITEMS_PER_DISCOVERY_BLOCK ++ " items"
  | checklist .. =>
      "A section can have at most " ++ toString EVALUATION_CHECKLIST_MAX_ITEMS_PER_SECTION ++ " checklist items"

end Container

namespace Database

/-- The ids of the rows in a container. -/
def contents (db : Database) : Container → List String
  | .project projectId => db.discoveryBlocks.ids (·.projectId = projectId)
  | .block discoveryBlockId => db.discoveryBlockItems.ids (·.discoveryBlockId = discoveryBlockId)
  | .checklist projectId itemSection =>
      db.evaluationChecklistItems.ids fun item => item.projectId = projectId ∧ item.itemSection = itemSection

def count (db : Database) (container : Container) : Nat := (db.contents container).length

/-- The row that the rows of a container refer to is there. -/
def hasOwner (db : Database) : Container → Bool
  | .project projectId => projectId ∈ db.projects
  | .block discoveryBlockId => (db.discoveryBlocks.find discoveryBlockId).isSome
  | .checklist projectId _ => projectId ∈ db.projects

end Database

/-! ### Requests -/

inductive Error where
  | badRequest (message : String)
  | notFound (message : String)
  /-- A statement or a transaction has failed. -/
  | database
  deriving DecidableEq, Repr

/-- What a create inserts. -/
inductive NewRow where
  | block (dto : CreateDiscoveryBlockDto)
  | blockItem (dto : CreateDiscoveryBlockItemDto)
  | checklistItem (dto : CreateEvaluationChecklistItemDto)
  deriving DecidableEq, Repr

inductive Operation where
  | create (row : NewRow)
  | updateBlock (id : BlockId) (dto : UpdateDiscoveryBlockDto)
  | removeBlock (id : BlockId)
  | updateBlockItem (id : ItemId) (dto : UpdateDiscoveryBlockItemDto)
  | removeBlockItem (id : ItemId)
  | updateChecklistItem (id : ItemId) (dto : UpdateEvaluationChecklistItemDto)
  | removeChecklistItem (id : ItemId)
  deriving DecidableEq, Repr

/-- A request; `discoveryBlockId` is that of the routes below a block. -/
structure Request where
  projectId : ProjectId
  discoveryBlockId : BlockId
  operation : Operation
  deriving DecidableEq, Repr

/-- The container that a create counts. -/
def Request.container (request : Request) : NewRow → Container
  | .block _ => .project request.projectId
  | .blockItem _ => .block request.discoveryBlockId
  | .checklistItem dto => .checklist request.projectId dto.itemSection

inductive Phase where
  | begun
  | guarded
  /-- In the transaction of a create, which has counted the container on a snapshot that shows this
  many of the committed creates. -/
  | counted (existingCount seen : Nat)
  /-- The item is written, and the status of its block not recalculated yet. -/
  | written
  | ended (error : Option Error)
  deriving DecidableEq, Repr

abbrev Call := Calls.Call Request Phase

structure State where
  db : Database
  calls : Nat → Option Call
  issued : List String
  history : List (SerialOrder.Insert Container)

inductive Label where
  | begin (id : Nat) (request : Request)
  /-- The access guard, with the answer of `assertMembership`. -/
  | guard (id : Nat) (isMember : Bool)
  | count (id : Nat)
  | insert (id : Nat) (rowId : String)
  | write (id : Nat)
  | recalculateStatus (id : Nat)
  | abort (id : Nat)
  /-- The transaction of `ProjectsService.create`, with the ids of the default blocks and items. -/
  | createProject (projectId : ProjectId) (ids : List (BlockId × List ItemId))
  | removeProject (projectId : ProjectId)
  deriving DecidableEq, Repr

namespace Database

/-- `DiscoveryBlocksService.findById`. -/
def findBlock (db : Database) (projectId : ProjectId) (id : BlockId) : Option Error :=
  if (db.discoveryBlocks.find id).any (·.projectId = projectId) then none
  else some (.notFound "Discovery block not found")

/-- `DiscoveryBlockItemsService.findById`. -/
def findBlockItem (db : Database) (projectId : ProjectId) (discoveryBlockId : BlockId) (id : ItemId) : Option Error :=
  (db.findBlock projectId discoveryBlockId).or
    (if (db.discoveryBlockItems.find id).any (·.discoveryBlockId = discoveryBlockId) then none
    else some (.notFound "Discovery block item not found"))

/-- `EvaluationChecklistItemsService.findById`. -/
def findChecklistItem (db : Database) (projectId : ProjectId) (id : ItemId) : Option Error :=
  if (db.evaluationChecklistItems.find id).any (·.projectId = projectId) then none
  else some (.notFound "Checklist item not found")

/-- What the access guard of a request throws. -/
def access (db : Database) (request : Request) (isMember : Bool) : Option Error :=
  if isMember = false ∨ request.projectId ∉ db.projects then some (.notFound "Project not found")
  else
    match request.operation with
    | .create (.block _) => none
    | .create (.blockItem _) => db.findBlock request.projectId request.discoveryBlockId
    | .create (.checklistItem _) => none
    | .updateBlock id _ => db.findBlock request.projectId id
    | .removeBlock id => db.findBlock request.projectId id
    | .updateBlockItem id _ => db.findBlockItem request.projectId request.discoveryBlockId id
    | .removeBlockItem id => db.findBlockItem request.projectId request.discoveryBlockId id
    | .updateChecklistItem id _ => db.findChecklistItem request.projectId id
    | .removeChecklistItem id => db.findChecklistItem request.projectId id

/-- The insert of a create. -/
def insert (db : Database) (id : String) (request : Request) : NewRow → Database
  | .block dto =>
      { db with
        discoveryBlocks := db.discoveryBlocks ++
          [(id, ⟨request.projectId, dto.title, dto.description, dto.icon, dto.color, .NOT_STARTED, dto.notes⟩)] }
  | .blockItem dto =>
      { db with
        discoveryBlockItems := db.discoveryBlockItems ++ [(id, ⟨request.discoveryBlockId, dto.label, false, dto.order⟩)] }
  | .checklistItem dto =>
      { db with
        evaluationChecklistItems := db.evaluationChecklistItems ++
          [(id, ⟨request.projectId, dto.label, false, dto.order, dto.itemSection⟩)] }

/-- The delete of a block cascades to its items. -/
def deleteBlock (db : Database) (id : BlockId) : Database :=
  { db with
    discoveryBlocks := db.discoveryBlocks.delete id
    discoveryBlockItems := db.discoveryBlockItems.filter (·.2.discoveryBlockId ≠ id) }

/-- The statement of an update or a removal, which does nothing if the row is gone. -/
def write (db : Database) : Operation → Database
  | .create _ => db
  | .updateBlock id dto => { db with discoveryBlocks := db.discoveryBlocks.update id dto.apply }
  | .removeBlock id => db.deleteBlock id
  | .updateBlockItem id dto => { db with discoveryBlockItems := db.discoveryBlockItems.update id dto.apply }
  | .removeBlockItem id => { db with discoveryBlockItems := db.discoveryBlockItems.delete id }
  | .updateChecklistItem id dto =>
      { db with evaluationChecklistItems := db.evaluationChecklistItems.update id dto.apply }
  | .removeChecklistItem id => { db with evaluationChecklistItems := db.evaluationChecklistItems.delete id }

/-- What the statement throws: an update does if its row is gone. -/
def writeError (db : Database) : Operation → Option Error
  | .updateBlock id _ => if (db.discoveryBlocks.find id).isSome then none else some (.notFound "Discovery block not found")
  | .updateBlockItem id _ =>
      if (db.discoveryBlockItems.find id).isSome then none else some (.notFound "Discovery block item not found")
  | .updateChecklistItem id _ =>
      if (db.evaluationChecklistItems.find id).isSome then none else some (.notFound "Checklist item not found")
  | _ => none

def recalculateStatus (db : Database) (discoveryBlockId : BlockId) : Database :=
  let items := (db.discoveryBlockItems.filter (·.2.discoveryBlockId = discoveryBlockId)).map (·.2)
  { db with
    discoveryBlocks := db.discoveryBlocks.update discoveryBlockId fun block =>
      { block with status := computeDiscoveryBlockStatus items } }

/-- The default items of a block of a new project. -/
def seedItems (discoveryBlockId : BlockId) (block : DefaultDiscoveryBlock) (ids : List ItemId) : Rows DiscoveryBlockItem :=
  (ids.zip block.items).mapIdx fun index entry => (entry.1, ⟨discoveryBlockId, entry.2, false, index⟩)

def createProject (db : Database) (projectId : ProjectId) (ids : List (BlockId × List ItemId)) : Database :=
  let seeds := ids.zip DEFAULT_DISCOVERY_BLOCKS
  { db with
    projects := db.projects ++ [projectId]
    discoveryBlocks := db.discoveryBlocks ++ seeds.map fun seed =>
      (seed.1.1, ⟨projectId, seed.2.title, none, some seed.2.icon, some seed.2.color,
        computeDiscoveryBlockStatus ((seedItems seed.1.1 seed.2 seed.1.2).map (·.2)), none⟩)
    discoveryBlockItems := db.discoveryBlockItems ++ seeds.flatMap fun seed => seedItems seed.1.1 seed.2 seed.1.2 }

/-- The delete of a project cascades to all that refers to it. -/
def deleteProject (db : Database) (projectId : ProjectId) : Database where
  projects := db.projects.filter (· ≠ projectId)
  discoveryBlocks := db.discoveryBlocks.filter (·.2.projectId ≠ projectId)
  discoveryBlockItems := db.discoveryBlockItems.filter fun item =>
    (db.discoveryBlocks.find item.2.discoveryBlockId).all (·.projectId ≠ projectId)
  evaluationChecklistItems := db.evaluationChecklistItems.filter (·.2.projectId ≠ projectId)

/-- Every id in use: of the projects, the blocks and the items. -/
def allIds (db : Database) : List String :=
  db.projects ++ db.discoveryBlocks.map (·.1) ++ db.discoveryBlocks.map (·.2.projectId) ++
    db.discoveryBlockItems.map (·.1) ++ db.discoveryBlockItems.map (·.2.discoveryBlockId) ++
    db.evaluationChecklistItems.map (·.1) ++ db.evaluationChecklistItems.map (·.2.projectId)

end Database

namespace State

def initial (db : Database) : State where
  db := db
  calls _ := none
  issued := db.allIds
  history := []

def setPhase (s : State) (id : Nat) (request : Request) (phase : Phase) : State :=
  { s with calls := Function.update s.calls id (some ⟨request, phase⟩) }

def begin (s : State) (id : Nat) (request : Request) : Option State :=
  if (s.calls id).isSome then none else some (s.setPhase id request .begun)

def guard (s : State) (id : Nat) (isMember : Bool) : Option State :=
  ((s.calls id).filter (·.phase = .begun)).map fun call =>
    s.setPhase id call.request ((s.db.access call.request isMember).elim .guarded fun error => .ended (some error))

/-- Opens the transaction of a create. -/
def count (s : State) (id : Nat) : Option State :=
  ((s.calls id).filter (·.phase = .guarded)).bind fun call =>
    match call.request.operation with
    | .create row =>
        let container := call.request.container row
        let existingCount := s.db.count container
        some (s.setPhase id call.request
          (if existingCount ≥ container.cap then .ended (some (.badRequest container.tooMany))
          else .counted existingCount s.history.length))
    | _ => none

/-- The insert of a create and its commit; the insert fails if what the row refers to is gone. -/
def insert (s : State) (id : Nat) (rowId : String) : Option State :=
  (s.calls id).bind fun call =>
    match call.phase, call.request.operation with
    | .counted _ seen, .create row =>
        if rowId ∈ s.issued ∨ s.db.hasOwner (call.request.container row) = false then none
        else
          some { s.setPhase id call.request (match row with
              | .blockItem .. => .written
              | _ => .ended none) with
            db := s.db.insert rowId call.request row
            issued := rowId :: s.issued
            history := s.history ++ [⟨call.request.container row, seen⟩] }
    | _, _ => none

/-- Where an update or a removal stands after its statement. -/
def afterWrite (db : Database) (operation : Operation) : Phase :=
  (db.writeError operation).elim
    (match operation with
      | .updateBlockItem .. | .removeBlockItem _ => .written
      | _ => .ended none)
    fun error => .ended (some error)

def write (s : State) (id : Nat) : Option State :=
  ((s.calls id).filter (·.phase = .guarded)).bind fun call =>
    match call.request.operation with
    | .create _ => none
    | operation =>
        some { s.setPhase id call.request (afterWrite s.db operation) with db := s.db.write operation }

def recalculateStatus (s : State) (id : Nat) : Option State :=
  ((s.calls id).filter (·.phase = .written)).map fun call =>
    { s.setPhase id call.request (.ended none) with db := s.db.recalculateStatus call.request.discoveryBlockId }

/-- A statement or a transaction of the call fails. -/
def abort (s : State) (id : Nat) : Option State :=
  (s.calls id).bind fun call =>
    match call.phase with
    | .ended _ => none
    | _ => some (s.setPhase id call.request (.ended (some .database)))

def createProject (s : State) (projectId : ProjectId) (ids : List (BlockId × List ItemId)) : Option State :=
  let newIds := projectId :: ids.flatMap fun block => block.1 :: block.2
  if ids.map (·.2.length) = DEFAULT_DISCOVERY_BLOCKS.map (·.items.length) ∧ newIds.Nodup ∧
      ∀ id ∈ newIds, id ∉ s.issued then
    some { s with db := s.db.createProject projectId ids, issued := newIds ++ s.issued }
  else none

def step (s : State) : Label → Option State
  | .begin id request => s.begin id request
  | .guard id isMember => s.guard id isMember
  | .count id => s.count id
  | .insert id rowId => s.insert id rowId
  | .write id => s.write id
  | .recalculateStatus id => s.recalculateStatus id
  | .abort id => s.abort id
  | .createProject projectId ids => s.createProject projectId ids
  | .removeProject projectId => some { s with db := s.db.deleteProject projectId }

end State

end Transcendence.Content
