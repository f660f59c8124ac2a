import TaskManagement.Db.Reorder
import TaskManagement.Service.Tasks

/-!
# Requests that give a task its position

`create_task`, `create_task_flat` and `update_task` as calls that are made one after another, and
what the positions of the tasks have to leave room for (`WriteCall.HasRoom`).
-/

namespace TaskDb

/-- The position that `update_task` passes on: the one of the request, or the one of the task. -/
def TaskUpdateRequest.target (payload : TaskUpdateRequest) (task : Task) : ℤ :=
  (payload.position.map fun q => (q : ℤ)).getD task.position

/-- The column in which `update_task` leaves the task. -/
def TaskUpdateRequest.targetColumn (payload : TaskUpdateRequest) (task : Task) : Column :=
  (task.projectId, payload.status.getD task.status)

/-- The services that create or update a task. -/
inductive TaskWrite : Type where
  | createTask (projectId : Option Uuid) (payload : TaskCreateRequest)
  | createTaskFlat (payload : TaskCreateFlatRequest)
  | updateTask (taskId : Uuid) (payload : TaskUpdateRequest)
deriving DecidableEq

/-- A call of one of the services. -/
structure WriteCall where
  write : TaskWrite
  user : CurrentUser
  day : AppDay
deriving DecidableEq

namespace WriteCall

/-- The transaction of the call. -/
def proc (k : WriteCall) : TaskProc Unit :=
  match k.write with
  | .createTask projectId payload => TaskDb.createTask projectId payload k.user k.day
  | .createTaskFlat payload => TaskDb.createTaskFlat payload k.user k.day
  | .updateTask taskId payload => TaskDb.updateTask taskId payload k.user k.day

/-- Every task of the column from the position `q` on can be moved back by one. -/
def CanShift (db : Db) (c : Column) (q : ℤ) : Prop :=
  ∀ t x, slot db t = some (c, x) → q ≤ x → x < maxInteger

/-- A task can be placed: a new one behind the last task of its column, and an updated one at its
target, with the tasks of another column moved back from there on. -/
def HasRoom (k : WriteCall) (db : Db) : Prop :=
  match k.write with
  | .createTask projectId payload => CanShift db (projectId, payload.status) 0
  | .createTaskFlat payload => CanShift db (payload.projectId, payload.status) 0
  | .updateTask taskId payload => ∀ old, db.row (.task taskId) = some old →
      payload.target old ≤ maxInteger ∧ (payload.targetColumn old ≠ old.slot.1 →
        CanShift db (payload.targetColumn old) (payload.target old))

/-- An update places its task within its column, or at the end of another one. -/
def WithinColumn (k : WriteCall) (db : Db) : Prop :=
  match k.write with
  | .updateTask taskId payload => ∀ old, db.row (.task taskId) = some old →
      if payload.targetColumn old = old.slot.1 then
        payload.target old < columnSize db old.slot.1
      else payload.target old ≤ columnSize db (payload.targetColumn old)
  | _ => True

/-- The call updates a task whose version cannot be counted up. -/
def VersionExhausted (k : WriteCall) (db : Db) : Prop :=
  match k.write with
  | .updateTask taskId _ => ∃ old, db.row (.task taskId) = some old ∧ maxInteger ≤ old.version
  | _ => False

end WriteCall

end TaskDb
