import Transcendence.Kanban.Rollback

/-!
# Drags that are abandoned

A drag previews its card in every column it crosses. Every way of ending a gesture that persists
nothing moves the card back to where the gesture started, except a drop whose target is the slot it
started from: there the board is left as the previews left it, wherever the card then is.
-/

namespace Transcendence.Kanban

open Tasks (TaskId TaskStatus)
open RankedColumns (eraseItem moveItem)

/-! ### The handlers of the board -/

def statusName : TaskStatus → String
  | .TODO => "TODO"
  | .IN_PROGRESS => "IN_PROGRESS"
  | .REVIEW => "REVIEW"
  | .COMPLETED => "COMPLETED"

def STATUS_ORDER : List TaskStatus :=
  [.TODO, .IN_PROGRESS, .REVIEW, .COMPLETED]

structure Slot where
  status : TaskStatus
  index : Int
  deriving DecidableEq

/-- The droppable under the card, and whether the card is past its midpoint. -/
structure Over where
  id : String
  past_midpoint : Bool
  deriving DecidableEq

def findIndex (tasks : List Task) (taskId : TaskId) : Int :=
  match tasks.findIdx? (·.id = taskId) with
  | none => -1
  | some index => index

def columnIndexOf (tasks : List Task) (taskId : TaskId) (status : TaskStatus) : Int :=
  findIndex (selectColumnTasks tasks status) taskId

def resolveDropTarget (tasks : List Task) (active_id over_id : String) (insert_after : Bool) : Option Slot :=
  match STATUS_ORDER.find? (statusName · = over_id) with
  | some over_status =>
      some ⟨over_status, ((selectColumnTasks tasks over_status).filter (·.id ≠ active_id)).length⟩
  | none =>
      match tasks.find? (·.id = over_id) with
      | none => none
      | some over_task =>
          if over_id = active_id then some ⟨over_task.status, columnIndexOf tasks active_id over_task.status⟩
          else
            let over_index :=
              findIndex ((selectColumnTasks tasks over_task.status).filter (·.id ≠ active_id)) over_task.id
            some ⟨over_task.status, if insert_after then over_index + 1 else over_index⟩

/-- The tasks the board shows and where the dragged card sat when the gesture started. -/
structure Gesture where
  tasks : List Task
  drag_origin : Option Slot

/-- `onPreviewMove` and the dispatch of `onMoveTask`. -/
def dispatchMove (tasks : List Task) (taskId : TaskId) (slot : Slot) : List Task :=
  tasksReducer tasks (.task_moved taskId slot.status (JsonNumber.ofInt slot.index))

def slotOf (tasks : List Task) (taskId : TaskId) : Option Slot :=
  (tasks.find? (·.id = taskId)).map fun task => ⟨task.status, columnIndexOf tasks taskId task.status⟩

def handleDragStart (tasks : List Task) (task_id : TaskId) : Gesture where
  tasks := tasks
  drag_origin := slotOf tasks task_id

def restoreOrigin (tasks : List Task) (taskId : TaskId) : Option Slot → List Task
  | none => tasks
  | some origin => dispatchMove tasks taskId origin

def handleDragOver (gesture : Gesture) (active_id : TaskId) : Option Over → Gesture
  | none => gesture
  | some over_ =>
      if active_id = over_.id then gesture
      else
        match gesture.tasks.find? (·.id = active_id),
          resolveDropTarget gesture.tasks active_id over_.id over_.past_midpoint with
        | some dragged_task, some target =>
            if target.status ≠ dragged_task.status then
              { gesture with tasks := dispatchMove gesture.tasks dragged_task.id target }
            else gesture
        | _, _ => gesture

/-- The tasks after the gesture, and the slot `onMoveTask` was called with. -/
structure Outcome where
  tasks : List Task
  moved : Option Slot

def handleDragCancel (gesture : Gesture) (active_id : TaskId) : Outcome where
  tasks := restoreOrigin gesture.tasks active_id gesture.drag_origin
  moved := none

def handleDragEnd (gesture : Gesture) (task_id : TaskId) : Option Over → Outcome
  | none => ⟨restoreOrigin gesture.tasks task_id gesture.drag_origin, none⟩
  | some over_ =>
      match gesture.tasks.find? (·.id = task_id),
        resolveDropTarget gesture.tasks task_id over_.id over_.past_midpoint, gesture.drag_origin with
      | some _, some target, some origin =>
          if target.status = origin.status ∧ target.index = origin.index then ⟨gesture.tasks, none⟩
          else ⟨dispatchMove gesture.tasks task_id target, some target⟩
      | _, _, origin => ⟨restoreOrigin gesture.tasks task_id origin, none⟩

inductive Ending where
  | cancelled
  | dropped (target : Option Over)
  deriving DecidableEq

/-- The gesture as the drag-over events leave it. -/
def dragged (tasks : List Task) (task_id : TaskId) (overs : List (Option Over)) : Gesture :=
  overs.foldl (fun gesture over_ => handleDragOver gesture task_id over_) (handleDragStart tasks task_id)

def ended (gesture : Gesture) (task_id : TaskId) : Ending → Outcome
  | .cancelled => handleDragCancel gesture task_id
  | .dropped target => handleDragEnd gesture task_id target

/-- The drop target is the slot the gesture started from, and the card is in another one. -/
def LeftBehind (gesture : Gesture) (task_id : TaskId) : Ending → Prop
  | .dropped (some over_) =>
      resolveDropTarget gesture.tasks task_id over_.id over_.past_midpoint = gesture.drag_origin ∧
        slotOf gesture.tasks task_id ≠ gesture.drag_origin
  | _ => False

/-! ### Slots and columns -/

variable {state tasks : List Task} {columns : TaskStatus → List TaskId} {task : Task} {taskId : TaskId}

theorem findIndex_eq (hmem : taskId ∈ tasks.map (·.id)) : findIndex tasks taskId = (tasks.map (·.id)).idxOf taskId := by
  have hfind : tasks.findIdx? (·.id = taskId) = some ((tasks.map (·.id)).idxOf taskId) := by
    induction tasks with
    | nil => exact absurd hmem List.not_mem_nil
    | cons head tasks ih =>
        rw [List.findIdx?_cons, List.map_cons, List.idxOf_cons]
        by_cases hid : head.id = taskId
        · rw [if_pos (decide_eq_true hid), beq_iff_eq.mpr hid]
          rfl
        · have hrest : taskId ∈ tasks.map (·.id) := (List.mem_cons.mp hmem).resolve_left fun heq => hid heq.symm
          rw [if_neg (decide_eq_true_iff.not.mpr hid), beq_eq_false_iff_ne.mpr hid, ih hrest]
          rfl
  rw [findIndex, hfind]

theorem columnIndexOf_eq (h : Shows state columns) (hmem : task ∈ state) :
    columnIndexOf state task.id task.status = (columns task.status).idxOf task.id := by
  have hcolumn : (selectColumnTasks state task.status).map (·.id) = columns task.status :=
    (h.column task.status).columnIds_eq h.ids
  have hin : task.id ∈ (selectColumnTasks state task.status).map (·.id) := hcolumn ▸ h.column_of_mem hmem
  rw [columnIndexOf, findIndex_eq hin, hcolumn]

theorem slotOf_eq (h : Shows state columns) (hmem : task ∈ state) :
    slotOf state task.id = some ⟨task.status, (columns task.status).idxOf task.id⟩ := by
  rw [slotOf, find?_eq_some_of_mem h.ids hmem, Option.map_some, columnIndexOf_eq h hmem]

/-! ### The columns without the card -/

/-- While `task` is dragged over a board that showed these columns, only the task itself is elsewhere. -/
structure Dragging (columns : TaskStatus → List TaskId) (task : Task) (gesture : Gesture) : Prop where
  origin : gesture.drag_origin = some ⟨task.status, (columns task.status).idxOf task.id⟩
  shows : ∃ columns', Shows gesture.tasks columns' ∧ eraseItem columns' task.id = eraseItem columns task.id
  present : ∃ card ∈ gesture.tasks, card.id = task.id

theorem dragging_start (h : Shows state columns) (hmem : task ∈ state) :
    Dragging columns task (handleDragStart state task.id) where
  origin := slotOf_eq h hmem
  shows := ⟨columns, h, rfl⟩
  present := ⟨task, hmem, rfl⟩

theorem Dragging.dispatchMove {gesture : Gesture} (h : Dragging columns task gesture) (slot : Slot) :
    Dragging columns task { gesture with tasks := dispatchMove gesture.tasks task.id slot } := by
  obtain ⟨columns', hshows, hrest⟩ := h.shows
  obtain ⟨card, hcard, hid⟩ := h.present
  have hnext := shows_task_moved hshows hcard slot.status (JsonNumber.ofInt slot.index)
  rw [hid] at hnext
  have hslot := slot_le columns' task.id slot.status (JsonNumber.ofInt slot.index)
  have hin := RankedColumns.mem_moveItem_self columns' task.id slot.status hslot
  obtain ⟨moved, hmoved, hmovedId, _⟩ := ((hnext.column slot.status).mem_iff task.id).mp hin
  refine ⟨h.origin, ⟨_, hnext, ?_⟩, ⟨moved, hmoved, hmovedId⟩⟩
  rw [RankedColumns.eraseItem_moveItem (fun status => (hshows.column status).nodup) hslot, hrest]

theorem Dragging.handleDragOver {gesture : Gesture} (h : Dragging columns task gesture) (target : Option Over) :
    Dragging columns task (handleDragOver gesture task.id target) := by
  cases target with
  | none => exact h
  | some over_ =>
      rw [Kanban.handleDragOver]
      split_ifs with hself
      · exact h
      · split
        · rename_i dragged_task slot hfind hslot
          have hid : dragged_task.id = task.id := by simpa using List.find?_some hfind
          rw [hid]
          split_ifs
          · exact h.dispatchMove slot
          · exact h
        · exact h

theorem dragging_dragged (h : Shows state columns) (hmem : task ∈ state) (overs : List (Option Over)) :
    Dragging columns task (dragged state task.id overs) := by
  have hrun : ∀ (overs : List (Option Over)) (gesture : Gesture), Dragging columns task gesture →
      Dragging columns task (overs.foldl (fun gesture over_ => handleDragOver gesture task.id over_) gesture) := by
    intro overs
    induction overs with
    | nil => exact fun _ hgesture => hgesture
    | cons over_ overs ih => exact fun gesture hgesture => ih _ (hgesture.handleDragOver over_)
  exact hrun overs _ (dragging_start h hmem)

/-! ### How a gesture ends -/

theorem Dragging.restoreOrigin {gesture : Gesture} (h : Dragging columns task gesture) (hstart : Shows state columns)
    (hmem : task ∈ state) : Shows (restoreOrigin gesture.tasks task.id gesture.drag_origin) columns := by
  obtain ⟨columns', hshows, hrest⟩ := h.shows
  obtain ⟨card, hcard, hid⟩ := h.present
  rw [h.origin, Kanban.restoreOrigin, Kanban.dispatchMove, JsonNumber.ofInt_natCast,
    ← (hstart.column task.status).rank task hmem rfl]
  exact hstart.restored hmem hshows hcard hid hrest

/-- A board that is the same but for the card is the same exactly when the card is in its slot. -/
theorem Dragging.triples_perm_iff {gesture : Gesture} (h : Dragging columns task gesture) (hstart : Shows state columns)
    (hmem : task ∈ state) :
    (triples gesture.tasks).Perm (triples state) ↔ slotOf gesture.tasks task.id = gesture.drag_origin := by
  obtain ⟨columns', hshows, hrest⟩ := h.shows
  obtain ⟨card, hcard, hid⟩ := h.present
  have hin := hid ▸ hshows.column_of_mem hcard
  rw [h.origin, ← hid, slotOf_eq hshows hcard, hid]
  constructor
  · intro hperm
    obtain rfl := hshows.columns_eq hstart hperm
    have hstatus : task.status = card.status := hstart.status_eq hmem hin
    rw [hstatus]
  · intro hslot
    obtain ⟨hstatus, hindex⟩ := Slot.mk.inj (Option.some.inj hslot)
    have hother : ∀ status, task.id ∈ columns' status → status = card.status :=
      fun status hmem' => (hshows.status_eq hcard (hid.symm ▸ hmem')).symm
    have hcolumns : columns' = columns :=
      calc columns' = moveItem columns' task.id card.status ((columns' card.status).idxOf task.id) :=
            (RankedColumns.moveItem_idxOf hin hother).symm
        _ = moveItem columns task.id task.status ((columns task.status).idxOf task.id) := by
            rw [RankedColumns.moveItem_congr hrest, Nat.cast_injective hindex, hstatus]
        _ = columns := RankedColumns.moveItem_idxOf (hstart.column_of_mem hmem)
            fun status hmem' => (hstart.status_eq hmem hmem').symm
    rw [hcolumns] at hshows
    exact hshows.triples_perm hstart

theorem handleDragEnd_eq {gesture : Gesture} {origin : Slot} (horigin : gesture.drag_origin = some origin)
    (hpresent : ∃ card ∈ gesture.tasks, card.id = taskId) (over_ : Over) :
    handleDragEnd gesture taskId (some over_) =
      match resolveDropTarget gesture.tasks taskId over_.id over_.past_midpoint with
      | none => ⟨restoreOrigin gesture.tasks taskId gesture.drag_origin, none⟩
      | some target =>
          if target = origin then ⟨gesture.tasks, none⟩
          else ⟨dispatchMove gesture.tasks taskId target, some target⟩ := by
  obtain ⟨card, hcard, hid⟩ := hpresent
  have hfound : (gesture.tasks.find? (·.id = taskId)).isSome := by
    rw [List.find?_isSome]
    exact ⟨card, hcard, decide_eq_true hid⟩
  obtain ⟨found, hfind⟩ := Option.isSome_iff_exists.mp hfound
  rw [handleDragEnd, hfind, horigin]
  cases resolveDropTarget gesture.tasks taskId over_.id over_.past_midpoint with
  | none => rfl
  | some target =>
      show (if target.status = origin.status ∧ target.index = origin.index then _ else _) =
        if target = origin then _ else _
      by_cases htarget : target = origin
      · rw [if_pos htarget, if_pos ⟨congrArg Slot.status htarget, congrArg Slot.index htarget⟩]
      · rw [if_neg htarget, if_neg fun hsame => htarget ?_]
        obtain ⟨hstatus, hindex⟩ := hsame
        cases target
        cases origin
        rw [Slot.mk.injEq]
        exact ⟨hstatus, hindex⟩

/-- A gesture that persists nothing leaves the board as it was, exactly when it does not end on the slot it started from with
the card elsewhere. -/
theorem drag_abandoned_iff (h : DenseBoard state) (hmem : task ∈ state) (overs : List (Option Over)) (ending : Ending)
    (hmoved : (ended (dragged state task.id overs) task.id ending).moved = none) :
    (triples (ended (dragged state task.id overs) task.id ending).tasks).Perm (triples state) ↔
      ¬ LeftBehind (dragged state task.id overs) task.id ending := by
  have hdragging := dragging_dragged h.shows hmem overs
  set gesture := dragged state task.id overs
  have hrestored := (hdragging.restoreOrigin h.shows hmem).triples_perm h.shows
  have horigin := hdragging.origin
  cases ending with
  | cancelled => exact iff_of_true hrestored id
  | dropped target =>
      cases target with
      | none => exact iff_of_true hrestored id
      | some over_ =>
          rw [ended, handleDragEnd_eq horigin hdragging.present] at hmoved ⊢
          rw [LeftBehind]
          cases htarget : resolveDropTarget gesture.tasks task.id over_.id over_.past_midpoint with
          | none =>
              refine iff_of_true hrestored fun hleft => ?_
              rw [horigin] at hleft
              exact Option.some_ne_none _ hleft.1.symm
          | some target =>
              rw [htarget] at hmoved
              dsimp only at hmoved ⊢
              by_cases hsame : target = ⟨task.status, (columnIds state task.status).idxOf task.id⟩
              · have hboard := hdragging.triples_perm_iff h.shows hmem
                rw [if_pos hsame, hboard, hsame, ← horigin, ne_eq, and_iff_right rfl, not_not]
              · rw [if_neg hsame] at hmoved
                exact absurd hmoved (Option.some_ne_none _)

/-- The card is held over another column and the drag is cancelled. -/
theorem drag_abandoned_iff_of_cancel :
    (triples (ended (dragged twoCards "a" [some ⟨"IN_PROGRESS", false⟩]) "a" .cancelled).tasks).Perm (triples twoCards) ↔
      ¬ LeftBehind (dragged twoCards "a" [some ⟨"IN_PROGRESS", false⟩]) "a" .cancelled :=
  drag_abandoned_iff denseBoard_twoCards mem_twoCards [some ⟨"IN_PROGRESS", false⟩] .cancelled rfl

/-- The card crosses another column, comes back below the other card, and is dropped above that card. -/
theorem not_drag_abandoned_of_return :
    ¬ ∀ (state : List Task) (task : Task) (overs : List (Option Over)) (ending : Ending), DenseBoard state → task ∈ state →
      (ended (dragged state task.id overs) task.id ending).moved = none →
        (triples (ended (dragged state task.id overs) task.id ending).tasks).Perm (triples state) := by
  intro hall
  have hperm := hall twoCards (card "a" .TODO 0) [some ⟨"IN_PROGRESS", false⟩, some ⟨"b", true⟩] (.dropped (some ⟨"b", false⟩))
    denseBoard_twoCards mem_twoCards (by decide +kernel)
  have hmem : ("a", .TODO, 1) ∈ triples twoCards := hperm.mem_iff.mp (by decide +kernel)
  exact absurd hmem (by decide)

end Transcendence.Kanban
