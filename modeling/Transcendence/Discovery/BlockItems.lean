import Transcendence.Base.OrderedMap
import Transcendence.Base.Runs

/-!
# Discovery block items

`DiscoveryBlockItemsService` with the `recalculateStatus` of `DiscoveryBlocksService`. The status of
a block is stored beside its items, and every request that changes an item recalculates it
afterwards in another transaction. A request is cut at its statements and transactions:

* an autocommitted statement takes effect in one step;
* a SERIALIZABLE transaction reads in the step that opens it and takes effect in the step that
  commits it. It cannot commit when another transaction has written its row since it was opened, and
  it may fail at any moment, as it does in conflict with another one.

The two reads of the access guard are one step, since neither the project of a block nor the block
of an item ever changes.
-/

namespace Transcendence.Discovery

abbrev ProjectId := String
abbrev BlockId := String
abbrev ItemId := String

inductive DiscoveryBlockStatus where
  | NOT_STARTED
  | IN_PROGRESS
  | COMPLETED
  deriving DecidableEq, Repr

/-- `version` is the transaction that has written the row last. -/
structure DiscoveryBlock where
  projectId : ProjectId
  status : DiscoveryBlockStatus
  version : Nat
  deriving DecidableEq, Repr

structure DiscoveryBlockItem where
  discoveryBlockId : BlockId
  label : String
  isChecked : Bool
  order : Int
  deriving DecidableEq, Repr

structure CreateDiscoveryBlockItemDto where
  label : String
  order : Int
  deriving DecidableEq, Repr

structure UpdateDiscoveryBlockItemDto where
  label : Option String
  order : Option Int
  isChecked : Option Bool
  deriving DecidableEq, Repr

/-- The fields that are sent replace the item's. -/
def UpdateDiscoveryBlockItemDto.apply (dto : UpdateDiscoveryBlockItemDto) (item : DiscoveryBlockItem) :
    DiscoveryBlockItem :=
  { item with
    label := dto.label.getD item.label
    order := dto.order.getD item.order
    isChecked := dto.isChecked.getD item.isChecked }

inductive Error where
  | badRequest (message : String)
  | notFound (message : String)
  /-- A transaction has failed: in conflict with another one, or because its row is gone. -/
  | transaction
  deriving DecidableEq, Repr

def MAX_ITEMS_PER_DISCOVERY_BLOCK : Nat := 30

def computeDiscoveryBlockStatus (items : List DiscoveryBlockItem) : DiscoveryBlockStatus :=
  let checkedCount := (items.filter (·.isChecked)).length
  if items.length = 0 ∨ checkedCount = 0 then .NOT_STARTED
  else if checkedCount = items.length then .COMPLETED
  else .IN_PROGRESS

/-! ### Tables -/

/-- `transactions` counts the writes of blocks. -/
structure Database where
  blocks : BlockId → Option DiscoveryBlock
  items : OrderedMap ItemId DiscoveryBlockItem
  transactions : Nat

namespace Database

/-- The items of a block. -/
def itemsOf (db : Database) (discoveryBlockId : BlockId) : List DiscoveryBlockItem :=
  (db.items.filter (·.2.discoveryBlockId = discoveryBlockId)).map (·.2)

/-- A new version of a block. -/
def setBlock (db : Database) (id : BlockId) (projectId : ProjectId) (status : DiscoveryBlockStatus) : Database :=
  { db with
    blocks := Function.update db.blocks id (some ⟨projectId, status, db.transactions⟩)
    transactions := db.transactions + 1 }

def setItem (db : Database) (id : ItemId) (item : DiscoveryBlockItem) : Database :=
  { db with items := OrderedMap.set db.items id item }

def deleteItem (db : Database) (id : ItemId) : Database := { db with items := OrderedMap.delete db.items id }

/-- The delete cascades to the items. -/
def deleteBlock (db : Database) (id : BlockId) : Database :=
  { db with
    blocks := Function.update db.blocks id none
    items := db.items.filter (·.2.discoveryBlockId ≠ id) }

/-- The status of a block is the one of its items. -/
def Settled (db : Database) (id : BlockId) : Prop :=
  ∀ block, db.blocks id = some block → block.status = computeDiscoveryBlockStatus (db.itemsOf id)

end Database

/-! ### Requests -/

inductive Operation where
  | create (dto : CreateDiscoveryBlockItemDto)
  | update (id : ItemId) (dto : UpdateDiscoveryBlockItemDto)
  | remove (id : ItemId)
  deriving DecidableEq, Repr

/-- The item a request is about. -/
def Operation.itemId : Operation → Option ItemId
  | create _ => none
  | update id _ => some id
  | remove id => some id

inductive Phase where
  | begun
  /-- Past the access guard, which answers `remove` with the item. -/
  | guarded (existing : Option DiscoveryBlockItem)
  /-- In the transaction of `create`, which has counted the items. -/
  | counted (existingItemCount : Nat)
  /-- The item is written, and the status not yet read for. -/
  | changed (item : DiscoveryBlockItem)
  /-- In the transaction of `recalculateStatus`, with the items and the version of the block it
  sees. -/
  | recalculating (item : DiscoveryBlockItem) (items : List DiscoveryBlockItem) (version : Option Nat)
  | ended (result : Except Error DiscoveryBlockItem)
  deriving DecidableEq

def Phase.hasEnded : Phase → Bool
  | .ended _ => true
  | _ => false

structure Call where
  projectId : ProjectId
  discoveryBlockId : BlockId
  operation : Operation
  phase : Phase
  deriving DecidableEq

/-- `issued` are the ids items have ever had: a new id is a new one. -/
structure State where
  db : Database
  calls : Nat → Option Call
  issued : List ItemId

def initial (db : Database) : State where
  db := db
  calls _ := none
  issued := db.items.map (·.1)

inductive Label where
  | begin (id : Nat) (projectId : ProjectId) (discoveryBlockId : BlockId) (operation : Operation)
  /-- The access guard, with the answer of `assertMembership`. -/
  | guard (id : Nat) (isMember : Bool)
  | count (id : Nat)
  | insert (id : Nat) (itemId : ItemId)
  | write (id : Nat)
  | openRecalculation (id : Nat)
  | commitRecalculation (id : Nat)
  | abort (id : Nat)
  | createBlock (id : BlockId) (projectId : ProjectId)
  /-- `DiscoveryBlocksService.update`, which never sets the status. -/
  | updateBlock (id : BlockId)
  | removeBlock (id : BlockId)
  deriving DecidableEq, Repr

namespace State

def setPhase (s : State) (id : Nat) (call : Call) (phase : Phase) : State :=
  { s with calls := Function.update s.calls id (some { call with phase }) }

def begin (s : State) (id : Nat) (projectId : ProjectId) (discoveryBlockId : BlockId) (operation : Operation) :
    Option State :=
  if (s.calls id).isSome then none
  else some { s with calls := Function.update s.calls id (some ⟨projectId, discoveryBlockId, operation, .begun⟩) }

/-- `DiscoveryBlocksService.findById`, and for an item `findById`. -/
def access (db : Database) (call : Call) (isMember : Bool) : Except Error (Option DiscoveryBlockItem) :=
  if !isMember then .error (.notFound "Project not found")
  else if !(db.blocks call.discoveryBlockId).any (·.projectId == call.projectId) then
    .error (.notFound "Discovery block not found")
  else
    match call.operation.itemId with
    | none => .ok none
    | some itemId =>
        match (OrderedMap.get db.items itemId).filter (·.discoveryBlockId = call.discoveryBlockId) with
        | none => .error (.notFound "Discovery block item not found")
        | some item => .ok (some item)

def guard (s : State) (id : Nat) (isMember : Bool) : Option State :=
  ((s.calls id).filter (·.phase = .begun)).map fun call =>
    s.setPhase id call (match access s.db call isMember with
      | .error error => .ended (.error error)
      | .ok existing => .guarded existing)

/-- Opens the transaction of `create`. -/
def count (s : State) (id : Nat) : Option State :=
  (s.calls id).bind fun call =>
    match call.phase, call.operation with
    | .guarded _, .create _ =>
        let existingItemCount := (s.db.itemsOf call.discoveryBlockId).length
        some (s.setPhase id call
          (if existingItemCount ≥ MAX_ITEMS_PER_DISCOVERY_BLOCK then .ended (.error (.badRequest
            ("A discovery block can have at most " ++ toString MAX_ITEMS_PER_DISCOVERY_BLOCK ++ " items")))
          else .counted existingItemCount))
    | _, _ => none

/-- The insert of `create` and its commit. -/
def insert (s : State) (id : Nat) (itemId : ItemId) : Option State :=
  (s.calls id).bind fun call =>
    match call.phase, call.operation with
    | .counted _, .create dto =>
        if itemId ∈ s.issued ∨ (s.db.blocks call.discoveryBlockId).isNone then none
        else
          let item : DiscoveryBlockItem := ⟨call.discoveryBlockId, dto.label, false, dto.order⟩
          some { s.setPhase id call (.changed item) with
            db := s.db.setItem itemId item
            issued := itemId :: s.issued }
    | _, _ => none

/-- The statement of `update` or `remove`; `remove` does not mind that the item is gone. -/
def write (s : State) (id : Nat) : Option State :=
  (s.calls id).bind fun call =>
    match call.phase, call.operation with
    | .guarded _, .update itemId dto =>
        match OrderedMap.get s.db.items itemId with
        | none => some (s.setPhase id call (.ended (.error (.notFound "Discovery block item not found"))))
        | some item =>
            let updatedItem := dto.apply item
            some { s.setPhase id call (.changed updatedItem) with db := s.db.setItem itemId updatedItem }
    | .guarded (some existingItem), .remove itemId =>
        match OrderedMap.get s.db.items itemId with
        | none => some (s.setPhase id call (.changed existingItem))
        | some deletedItem =>
            some { s.setPhase id call (.changed deletedItem) with db := s.db.deleteItem itemId }
    | _, _ => none

/-- Opens the transaction of `recalculateStatus`. -/
def openRecalculation (s : State) (id : Nat) : Option State :=
  (s.calls id).bind fun call =>
    match call.phase with
    | .changed item =>
        some (s.setPhase id call (.recalculating item (s.db.itemsOf call.discoveryBlockId)
          ((s.db.blocks call.discoveryBlockId).map (·.version))))
    | _ => none

/-- Its update of the block and the commit. -/
def commitRecalculation (s : State) (id : Nat) : Option State :=
  (s.calls id).bind fun call =>
    match call.phase with
    | .recalculating item items version =>
        ((s.db.blocks call.discoveryBlockId).filter fun block => some block.version = version).map fun block =>
          { s.setPhase id call (.ended (.ok item)) with
            db := s.db.setBlock call.discoveryBlockId block.projectId (computeDiscoveryBlockStatus items) }
    | _ => none

/-- An open transaction fails, and the call with it. -/
def abort (s : State) (id : Nat) : Option State :=
  (s.calls id).bind fun call =>
    match call.phase with
    | .counted _ | .recalculating .. => some (s.setPhase id call (.ended (.error .transaction)))
    | _ => none

def createBlock (s : State) (id : BlockId) (projectId : ProjectId) : Option State :=
  if (s.db.blocks id).isSome then none else some { s with db := s.db.setBlock id projectId .NOT_STARTED }

def updateBlock (s : State) (id : BlockId) : Option State :=
  (s.db.blocks id).map fun block => { s with db := s.db.setBlock id block.projectId block.status }

def removeBlock (s : State) (id : BlockId) : State := { s with db := s.db.deleteBlock id }

def step (s : State) : Label → Option State
  | .begin id projectId discoveryBlockId operation => s.begin id projectId discoveryBlockId operation
  | .guard id isMember => s.guard id isMember
  | .count id => s.count id
  | .insert id itemId => s.insert id itemId
  | .write id => s.write id
  | .openRecalculation id => s.openRecalculation id
  | .commitRecalculation id => s.commitRecalculation id
  | .abort id => s.abort id
  | .createBlock id projectId => s.createBlock id projectId
  | .updateBlock id => s.updateBlock id
  | .removeBlock id => some (s.removeBlock id)

def AtRest (s : State) : Prop := ∀ id call, s.calls id = some call → call.phase.hasEnded

/-! ### What an abort may lose -/

/-- The call is going to recalculate the status of the block, or has read the items as they are. -/
def Current (s : State) (id : Nat) (discoveryBlockId : BlockId) : Prop :=
  ∃ call, s.calls id = some call ∧ call.discoveryBlockId = discoveryBlockId ∧
    ((∃ item, call.phase = .changed item) ∨
      ∃ item version, call.phase = .recalculating item (s.db.itemsOf discoveryBlockId) version)

/-- The call has an open recalculation that can still be committed. -/
def CanCommit (s : State) (id : Nat) (discoveryBlockId : BlockId) : Prop :=
  ∃ call block item items, s.calls id = some call ∧ call.discoveryBlockId = discoveryBlockId ∧
    s.db.blocks discoveryBlockId = some block ∧ call.phase = .recalculating item items (some block.version)

/-- A recalculation fails only while another request is going to recalculate the status, or has read
the items as they are, or while the status is right and nobody else can commit another one. -/
def NothingLost (s : State) (label : Label) : Prop :=
  ∀ id call item items version, label = .abort id → s.calls id = some call →
    call.phase = .recalculating item items version →
      (∃ other, other ≠ id ∧ s.Current other call.discoveryBlockId) ∨
        (s.db.Settled call.discoveryBlockId ∧ ∀ other, other ≠ id → ¬s.CanCommit other call.discoveryBlockId)

end State

end Transcendence.Discovery
