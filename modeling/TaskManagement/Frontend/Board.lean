import TaskManagement.Service.Responses
import Mathlib.Data.List.Sort

/-!
# The Kanban board

`fn_get_project_board`, the board that `get_board` makes of its rows, and what the frontend does
with it: `resolveTaskMove` of `KanbanBoard.tsx` turns a drop into a move, and `moveTask` of
`useUpdateTaskMutation.ts` shows the board as it expects it after the move.

The board here is that of `fn_get_project_board`, whose rows have a status: the `TaskSummary` of the
API has none, but the `BoardTask` of the frontend does, and `resolveTaskMove` reads it.
-/

namespace Board

open TaskDb (Uuid Timestamp Status Task Db)
open Responses (TaskRow TaskAssignee)

/-! ### The board of a project -/

/-- `ORDER BY t.status, t.position` -/
def boardOrder (a b : Uuid × Task) : Prop :=
  a.2.status < b.2.status ∨ (a.2.status = b.2.status ∧ a.2.position ≤ b.2.position)

instance : DecidableRel boardOrder := fun a b => by
  unfold boardOrder
  infer_instance

def fnGetProjectBoard (db : Db) (pProjectId : Uuid) (pIncludeInactive : Bool) : List TaskRow :=
  let rows := (TaskDb.tasks db).filter fun x =>
    decide (x.2.projectId = some pProjectId) && (pIncludeInactive || x.2.isActive)
  (rows.insertionSort boardOrder).map fun x =>
    { id := x.1
      task := x.2
      projectIsActive := (db.row (.project pProjectId)).map TaskDb.Project.isActive
      commentCount := Responses.commentCount db x.1 }

structure BoardTask where
  id : Uuid
  title : String
  description : Option String
  status : Status
  assignee : Option TaskAssignee
  position : ℤ
  version : ℤ
  dueAt : Option Timestamp
  isActive : Bool
  commentCount : ℕ
deriving DecidableEq

abbrev BoardColumns : Type := Status → List BoardTask

structure BoardResponse where
  projectId : Uuid
  projectIsActive : Bool
  columns : BoardColumns

/-- The card of an item: its `_summary`, with the status that the row of `fn_get_project_board`
has. -/
def boardTask (row : TaskRow) : BoardTask :=
  { Responses.summary (Responses.buildTask row) row.commentCount with status := row.task.status }

def getBoard (db : Db) (projectId : Uuid) (includeInactive : Bool) : BoardResponse :=
  let items := fnGetProjectBoard db projectId includeInactive
  { projectId := projectId
    projectIsActive := items.all fun item => item.projectIsActive != some false
    columns := fun status =>
      (items.filter fun item => decide (item.task.status = status)).map boardTask }

/-! ### A drop -/

/-- `TASK_STATUSES`, which is also the order of the keys of `columns`. -/
def taskStatuses : List Status := [.todo, .inProgress, .done]

/-- A `UniqueIdentifier` of a card or of a column; `other` is any text that is neither the id of a
task nor `column:` with a status. -/
inductive DropId : Type where
  | task (id : Uuid)
  | column (status : Status)
  | other
deriving DecidableEq

/-- A `DropTarget` with its `data.current.status`. -/
structure DropTarget where
  id : DropId
  dataStatus : Option Status
deriving DecidableEq

/-- A drop; `overTarget` is the `over` of the event. -/
structure TaskDropEvent where
  active : DropId
  overTarget : Option DropTarget
deriving DecidableEq

structure TaskMoveInput where
  taskId : Uuid
  status : Status
  position : ℕ
  version : ℤ
deriving DecidableEq

/-- `findTask` -/
def findTask (columns : BoardColumns) (taskId : DropId) : Option BoardTask :=
  (taskStatuses.flatMap columns).find? fun task => decide (.task task.id = taskId)

/-- `getTargetStatus` -/
def getTargetStatus (overTarget : DropTarget) (columns : BoardColumns) : Option Status :=
  match overTarget.dataStatus with
  | some status => some status
  | none =>
    match findTask columns overTarget.id with
    | some targetTask => some targetTask.status
    | none =>
      match overTarget.id with
      | .column status => some status
      | _ => none

/-- `resolveTaskMove` -/
def resolveTaskMove (event : TaskDropEvent) (columns : BoardColumns) : Option TaskMoveInput :=
  event.overTarget.bind fun overTarget =>
  (findTask columns event.active).bind fun task =>
  (getTargetStatus overTarget columns).bind fun targetStatus =>
    let targetTasks := columns targetStatus
    let overTaskIndex :=
      targetTasks.findIdx? fun targetTask => decide (.task targetTask.id = overTarget.id)
    let activeIndex := (columns task.status).findIdx? fun currentTask => currentTask.id == task.id
    let position : ℤ :=
      match overTaskIndex with
      | some index => index
      | none =>
        if targetStatus = task.status then (targetTasks.length : ℤ) - 1 else targetTasks.length
    if position < 0 ∨ (targetStatus = task.status ∧ activeIndex = some position.toNat) then none
    else some ⟨task.id, targetStatus, position.toNat, task.version⟩

/-! ### The optimistic update -/

/-- The first column that holds the task, and its index there. -/
def findColumn (columns : BoardColumns) (taskId : Uuid) : Option (Status × ℕ) :=
  taskStatuses.findSome? fun status =>
    ((columns status).findIdx? fun task => task.id == taskId).map (status, ·)

/-- `task.position = index` for every task of a column -/
def renumber (tasks : List BoardTask) : List BoardTask :=
  tasks.mapIdx fun index task => { task with position := index }

/-- `moveTask`; the columns are copies, so `board` itself is not changed. -/
def moveTask (board : BoardResponse) (move : TaskMoveInput) : BoardResponse :=
  match findColumn board.columns move.taskId with
  | none => board
  | some (status, index) =>
    match (board.columns status)[index]? with
    | none => board
    | some moved =>
      let columns := Function.update board.columns status ((board.columns status).eraseIdx index)
      let target := columns move.status
      let columns := Function.update columns move.status
        (target.insertIdx (min move.position target.length)
          { moved with status := move.status })
      { board with columns := fun status => renumber (columns status) }

/-- The ids of the tasks of a column, from top to bottom. -/
def columnIds (board : BoardResponse) (status : Status) : List Uuid :=
  (board.columns status).map BoardTask.id

/-- The body of the `PATCH` that `updateTask` sends for a move. -/
def TaskMoveInput.payload (m : TaskMoveInput) : TaskDb.TaskUpdateRequest where
  version := m.version
  status := some m.status
  position := some m.position

/-- The `CALL` of `sp_update_task` for a move of the task with the row `r`, as `update_task` makes
it of the body. -/
def TaskMoveInput.call (m : TaskMoveInput) (r : Task) (day : TaskDb.AppDay) : TaskDb.UpdateTask :=
  m.payload.call m.taskId r day

end Board
