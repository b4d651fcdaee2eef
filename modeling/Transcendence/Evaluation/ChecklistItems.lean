import Transcendence.Base.OrderedMap
import Transcendence.Base.Runs

/-!
# Evaluation checklist items

`EvaluationChecklistItemsService`. A request reads the section of its item, writes the item, and
works out from what it has read whether its write has completed the section, in which case it
notifies the other members of the project. A request is cut at its statements; `create` is one
SERIALIZABLE transaction, which reads in the step that opens it and takes effect in the step that
commits it. Two such transactions that count one section and insert into it cannot both commit.

Field locks are left out: they only make fewer runs, and an update without a label takes none.
-/

namespace Transcendence.Evaluation

abbrev ProjectId := String
abbrev UserId := String
abbrev ItemId := String

inductive EvaluationChecklistItemSection where
  | MANDATORY
  | BONUS
  | SUPPLEMENTAL
  deriving DecidableEq, Repr

structure EvaluationChecklistItem where
  projectId : ProjectId
  label : String
  isChecked : Bool
  order : Int
  itemSection : EvaluationChecklistItemSection
  deriving DecidableEq, Repr

structure CreateEvaluationChecklistItemDto where
  label : String
  itemSection : EvaluationChecklistItemSection
  order : Int
  deriving DecidableEq, Repr

structure UpdateEvaluationChecklistItemDto where
  label : Option String
  order : Option Int
  isChecked : Option Bool
  deriving DecidableEq, Repr

/-- The fields that are sent replace the item's. -/
def UpdateEvaluationChecklistItemDto.apply (dto : UpdateEvaluationChecklistItemDto) (item : EvaluationChecklistItem) :
    EvaluationChecklistItem :=
  { item with
    label := dto.label.getD item.label
    order := dto.order.getD item.order
    isChecked := dto.isChecked.getD item.isChecked }

inductive Error where
  | badRequest (message : String)
  | notFound (message : String)
  /-- A transaction has failed, in conflict with another one. -/
  | transaction
  deriving DecidableEq, Repr

def EVALUATION_CHECKLIST_MAX_ITEMS_PER_SECTION : Nat := 50

/-- An item as the queries of a section select it. -/
structure SectionItem where
  id : ItemId
  isChecked : Bool
  deriving DecidableEq, Repr

/-- `Math.round` of the exact quotient, which is all the same to whether it reaches 100. -/
def computeSectionPercent (items : List SectionItem) : Nat :=
  if items.length = 0 then 0
  else (200 * (items.filter (·.isChecked)).length + items.length) / (2 * items.length)

def SECTION_LABELS : EvaluationChecklistItemSection → String
  | .MANDATORY => "Mandatory Part"
  | .BONUS => "Bonus Part"
  | .SUPPLEMENTAL => "Supplemental Goal"

structure Notification where
  userId : UserId
  message : String
  link : String
  deriving DecidableEq, Repr

abbrev Items := OrderedMap ItemId EvaluationChecklistItem

/-- The items of a section. -/
def sectionItems (items : Items) (projectId : ProjectId) (itemSection : EvaluationChecklistItemSection) : List SectionItem :=
  (items.filter fun entry => entry.2.projectId = projectId ∧ entry.2.itemSection = itemSection).map
    fun entry => ⟨entry.1, entry.2.isChecked⟩

/-! ### Requests -/

inductive Operation where
  | create (dto : CreateEvaluationChecklistItemDto)
  | update (id : ItemId) (dto : UpdateEvaluationChecklistItemDto)
  | remove (id : ItemId)
  deriving DecidableEq, Repr

inductive Phase where
  | begun
  /-- Past the access guard, which answers `update` and `remove` with the item. -/
  | guarded (existingItem : Option EvaluationChecklistItem)
  /-- In the transaction of `create`, which has counted these items. -/
  | counted (existingItems : List SectionItem)
  | read (existingItem : EvaluationChecklistItem) (items : List SectionItem)
  /-- The item is written; the section as it was read, and as it should be after the write. -/
  | written (existingItem : EvaluationChecklistItem) (items currentItems : List SectionItem)
      (result : EvaluationChecklistItem)
  | ended (result : Except Error EvaluationChecklistItem)
  deriving DecidableEq

def Phase.hasEnded : Phase → Bool
  | .ended _ => true
  | _ => false

structure Call where
  projectId : ProjectId
  userId : UserId
  operation : Operation
  phase : Phase
  deriving DecidableEq

/-- A section that a request completes, or has told the others about. -/
structure Completion where
  call : Nat
  projectId : ProjectId
  itemSection : EvaluationChecklistItemSection
  deriving DecidableEq, Repr

structure Announcement where
  completion : Completion
  notifications : List Notification
  deriving DecidableEq, Repr

/-- `issued` are the ids items have ever had: a new id is a new one. `completions` is not in the
program: it remembers the writes that complete a section. -/
structure State where
  names : ProjectId → String
  members : ProjectId → List UserId
  items : Items
  calls : Nat → Option Call
  issued : List ItemId
  announcements : List Announcement
  completions : List Completion

def initial (names : ProjectId → String) (members : ProjectId → List UserId) (items : Items) : State where
  names := names
  members := members
  items := items
  calls _ := none
  issued := items.map (·.1)
  announcements := []
  completions := []

inductive Label where
  | begin (id : Nat) (projectId : ProjectId) (userId : UserId) (operation : Operation)
  | guard (id : Nat)
  | count (id : Nat)
  | insert (id : Nat) (itemId : ItemId)
  | read (id : Nat)
  | write (id : Nat)
  | notify (id : Nat)
  /-- The transaction of `create` fails. -/
  | abort (id : Nat)
  | setMembers (projectId : ProjectId) (userIds : List UserId)
  deriving DecidableEq, Repr

/-- The section has items, and all of them are checked. -/
def IsComplete (items : List SectionItem) : Prop := items ≠ [] ∧ ∀ item ∈ items, item.isChecked

instance (items : List SectionItem) : Decidable (IsComplete items) := inferInstanceAs (Decidable (_ ∧ _))

/-- A change of the items completes the section. -/
def Completes (before after : Items) (projectId : ProjectId) (itemSection : EvaluationChecklistItemSection) : Prop :=
  ¬IsComplete (sectionItems before projectId itemSection) ∧ IsComplete (sectionItems after projectId itemSection)

instance (before after : Items) (projectId : ProjectId) (itemSection : EvaluationChecklistItemSection) :
    Decidable (Completes before after projectId itemSection) := inferInstanceAs (Decidable (_ ∧ _))

/-- Whether `notifySectionIfJustCompleted` notifies. -/
def sectionJustCompleted (previousPercent : Nat) (currentItems : List SectionItem) : Bool :=
  !(previousPercent ≥ 100) && !(computeSectionPercent currentItems < 100)

namespace State

def setPhase (s : State) (id : Nat) (call : Call) (phase : Phase) : State :=
  { s with calls := Function.update s.calls id (some { call with phase }) }

def begin (s : State) (id : Nat) (projectId : ProjectId) (userId : UserId) (operation : Operation) : Option State :=
  if (s.calls id).isSome then none
  else some { s with calls := Function.update s.calls id (some ⟨projectId, userId, operation, .begun⟩) }

/-- `findById`. -/
def findById (s : State) (projectId : ProjectId) (id : ItemId) : Except Error EvaluationChecklistItem :=
  match (OrderedMap.get s.items id).filter (·.projectId = projectId) with
  | none => .error (.notFound "Checklist item not found")
  | some item => .ok item

/-- `assertMembership`, and for an item `findById`. -/
def access (s : State) (call : Call) : Except Error (Option EvaluationChecklistItem) :=
  if call.userId ∉ s.members call.projectId then .error (.notFound "Project not found")
  else
    match call.operation with
    | .create _ => .ok none
    | .update id _ => (s.findById call.projectId id).map some
    | .remove id => (s.findById call.projectId id).map some

def guard (s : State) (id : Nat) : Option State :=
  ((s.calls id).filter (·.phase = .begun)).map fun call =>
    s.setPhase id call (match s.access call with
      | .error error => .ended (.error error)
      | .ok existingItem => .guarded existingItem)

def tooManyItems : Error :=
  .badRequest ("A section can have at most " ++ toString EVALUATION_CHECKLIST_MAX_ITEMS_PER_SECTION ++ " checklist items")

/-- Opens the transaction of `create`. -/
def count (s : State) (id : Nat) : Option State :=
  (s.calls id).bind fun call =>
    match call.phase, call.operation with
    | .guarded _, .create dto =>
        let existingItems := sectionItems s.items call.projectId dto.itemSection
        some (s.setPhase id call
          (if existingItems.length ≥ EVALUATION_CHECKLIST_MAX_ITEMS_PER_SECTION then .ended (.error tooManyItems)
          else .counted existingItems))
    | _, _ => none

/-- The insert of `create` and its commit, which is possible as long as the transaction has counted
every item of the section. -/
def insert (s : State) (id : Nat) (itemId : ItemId) : Option State :=
  (s.calls id).bind fun call =>
    match call.phase, call.operation with
    | .counted existingItems, .create dto =>
        if itemId ∈ s.issued ∨
            ¬(sectionItems s.items call.projectId dto.itemSection).map (·.id) ⊆ existingItems.map (·.id) then none
        else
          let item : EvaluationChecklistItem := ⟨call.projectId, dto.label, false, dto.order, dto.itemSection⟩
          some { s.setPhase id call (.ended (.ok item)) with
            items := OrderedMap.set s.items itemId item
            issued := itemId :: s.issued }
    | _, _ => none

/-- `update` and `remove` read the section of their item. -/
def read (s : State) (id : Nat) : Option State :=
  (s.calls id).bind fun call =>
    match call.phase, call.operation with
    | .guarded (some _), .create _ => none
    | .guarded (some existingItem), _ =>
        some (s.setPhase id call
          (.read existingItem (sectionItems s.items call.projectId existingItem.itemSection)))
    | _, _ => none

/-- The items a write leaves, and the section it completes if it does. -/
def writeItems (s : State) (id : Nat) (call : Call) (itemSection : EvaluationChecklistItemSection) (items : Items)
    (phase : Phase) : State :=
  { s.setPhase id call phase with
    items
    completions := s.completions ++
      if Completes s.items items call.projectId itemSection then [⟨id, call.projectId, itemSection⟩] else [] }

/-- The statement of `update` or `remove`; `remove` does not mind that the item is gone. -/
def write (s : State) (id : Nat) : Option State :=
  (s.calls id).bind fun call =>
    match call.phase, call.operation with
    | .read existingItem items, .update itemId dto =>
        match OrderedMap.get s.items itemId with
        | none => some (s.setPhase id call (.ended (.error (.notFound "Checklist item not found"))))
        | some item =>
            let updatedItem := dto.apply item
            some (s.writeItems id call existingItem.itemSection (OrderedMap.set s.items itemId updatedItem)
              (.written existingItem items
                (items.map fun item => if item.id = itemId then ⟨itemId, updatedItem.isChecked⟩ else item) updatedItem))
    | .read existingItem items, .remove itemId =>
        some (s.writeItems id call existingItem.itemSection (OrderedMap.delete s.items itemId)
          (.written existingItem items (items.filter (·.id ≠ itemId))
            ((OrderedMap.get s.items itemId).getD existingItem)))
    | _, _ => none

/-- The notifications of the members other than the user. -/
def notifications (s : State) (projectId : ProjectId) (itemSection : EvaluationChecklistItemSection)
    (actingUserId : UserId) : List Notification :=
  ((s.members projectId).filter (· ≠ actingUserId)).map fun userId =>
    ⟨userId, SECTION_LABELS itemSection ++ " reached 100% on \"" ++ s.names projectId ++ "\"",
      "/" ++ projectId ++ "/evaluation-checklist"⟩

/-- `notifySectionIfJustCompleted`. -/
def notify (s : State) (id : Nat) : Option State :=
  (s.calls id).bind fun call =>
    match call.phase with
    | .written existingItem items currentItems result =>
        some { s.setPhase id call (.ended (.ok result)) with
          announcements := s.announcements ++
            if sectionJustCompleted (computeSectionPercent items) currentItems then
              [⟨⟨id, call.projectId, existingItem.itemSection⟩,
                s.notifications call.projectId existingItem.itemSection call.userId⟩]
            else [] }
    | _ => none

def abort (s : State) (id : Nat) : Option State :=
  (s.calls id).bind fun call =>
    match call.phase with
    | .counted _ => some (s.setPhase id call (.ended (.error .transaction)))
    | _ => none

def step (s : State) : Label → Option State
  | .begin id projectId userId operation => s.begin id projectId userId operation
  | .guard id => s.guard id
  | .count id => s.count id
  | .insert id itemId => s.insert id itemId
  | .read id => s.read id
  | .write id => s.write id
  | .notify id => s.notify id
  | .abort id => s.abort id
  | .setMembers projectId userIds => some { s with members := Function.update s.members projectId userIds }

def AtRest (s : State) : Prop := ∀ id call, s.calls id = some call → call.phase.hasEnded

/-! ### When a request judges its own write rightly -/

/-- The item is the only one of the section that is not checked. -/
def OnlyUnchecked (items : List SectionItem) (id : ItemId) : Prop :=
  ⟨id, false⟩ ∈ items ∧ ∀ item ∈ items, item.id ≠ id → item.isChecked

/-- An update that leaves its item checked finds it the only unchecked one of the section if and only
if the request has read the section so, and likewise a removal for one of several items. -/
def NotOvertaken (s : State) (label : Label) : Prop :=
  ∀ id call existingItem items, label = .write id → s.calls id = some call → call.phase = .read existingItem items →
    let current := sectionItems s.items call.projectId existingItem.itemSection
    (∀ itemId dto item, call.operation = .update itemId dto → OrderedMap.get s.items itemId = some item →
      dto.isChecked.getD item.isChecked → (OnlyUnchecked items itemId ↔ OnlyUnchecked current itemId)) ∧
    ∀ itemId, call.operation = .remove itemId →
      (OnlyUnchecked items itemId ∧ (∃ item ∈ items, item.id ≠ itemId) ↔
        OnlyUnchecked current itemId ∧ ∃ item ∈ current, item.id ≠ itemId)

end State

end Transcendence.Evaluation
