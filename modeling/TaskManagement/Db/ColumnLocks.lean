import TaskManagement.Db.Procedures
import TaskManagement.ReadCommitted.Logic

/-!
# The column locks of the task writers

The discipline that the writers of `tasks` keep, as a `ReadCommitted.Protocol`: the slots of a
column change only in transactions that hold the advisory key of the column.  A session therefore
sees the slots of its own columns (`lockedSlots`) as nobody else changes them, and its writes leave
the other columns as they are committed (`Framed`).

`sp_update_task` decides from an unlocked read whether it takes the keys.  `UpdateTask.Fresh` is
the condition under which that decision is still right when the row lock is granted.

The protocol has two switches: `ordered`, under which the committed columns are ordered and the
position errors must not occur, and `ranked`, under which every wait keeps the lock order
(`LockOrder`) and a member removal touches at most one task.
-/

namespace TaskDb

open ReadCommitted Columns

/-- The transactions that write tasks, with the arguments of their `CALL`. -/
inductive Writer : Type where
  | createTask (p : CreateTask)
  | updateTask (p : UpdateTask)
  | deactivateTask (taskId : Uuid) (isActive : Bool)
  | removeMember (projectId userId : Uuid)
deriving DecidableEq, Repr

/-- The procedure that is called; the result of `sp_create_task` is the new identifier. -/
def Writer.proc : Writer → TaskProc (Option Uuid)
  | .createTask p => do
    let pTaskId ← spCreateTask p
    return some pTaskId
  | .updateTask p => do
    spUpdateTask p
    return none
  | .deactivateTask t isActive => do
    spDeactivateTask t isActive
    return none
  | .removeMember p u => do
    spRemoveProjectMember p u
    return none

/-! ### What a session sees -/

/-- The slots that a session sees in the columns whose key it holds. -/
def lockedSlots (σ : TaskSession) (db : Db) : Layout Uuid Column :=
  fun t => (slot (σ.view db) t).filter fun s => decide (columnKey s.1 ∈ σ.keys)

/-- What the commits of other transactions leave alone, seen from a session: the rows it has
locked, the slots of its columns, and that a task stays in its project. -/
structure ColumnsRely (σ : TaskSession) (db db' : Db) : Prop where
  rows : ∀ i ∈ σ.rows, db'.row i = db.row i
  slots : ∀ t s, columnKey s.1 ∈ σ.keys → (slot db' t = some s ↔ slot db t = some s)
  tasks : ∀ t r, db.row (.task t) = some r →
    ∃ r', db'.row (.task t) = some r' ∧ r'.projectId = r.projectId

/-- The writes of a session change no slot of a column whose key it does not hold, and keep every
task in its project. -/
structure Framed (σ : TaskSession) (db : Db) : Prop where
  slots : ∀ t s, columnKey s.1 ∉ σ.keys → (slot (σ.view db) t = some s ↔ slot db t = some s)
  tasks : ∀ t r, db.row (.task t) = some r →
    ∃ r', (σ.view db).row (.task t) = some r' ∧ r'.projectId = r.projectId

/-- The session locks only task rows. -/
def TasksOnly (σ : TaskSession) : Prop := ∀ i ∈ σ.rows, ∃ t, i = .task t

/-- Every task that the session has locked is committed in one of its columns. -/
def Covered (σ : TaskSession) (db : Db) : Prop :=
  ∀ t, .task t ∈ σ.rows → ∃ s, slot db t = some s ∧ columnKey s.1 ∈ σ.keys

/-- The order in which locks are taken: keys in ascending order and before any row, the own row
before its neighbours, and neighbours only in columns whose key is held; a task is inserted under
an identifier that is reserved. -/
def LockOrder (σ : TaskSession) (db : Db) : Op RowId LockKey → Prop
  | .query | .commit => True
  | .key k => σ.rows = [] ∧ ∀ k' ∈ σ.keys, k' < k
  | .lock _ => σ.rows = []
  | .insert i => TasksOnly σ ∧ ∀ t, i = .task t → i ∈ σ.rows
  | .row (.task t) => TasksOnly σ ∧ (.task t ∈ σ.rows ∨ σ.rows = [] ∨
      ((∃ s, slot db t = some s ∧ columnKey s.1 ∈ σ.keys) ∧ Covered σ db))
  | .row _ => TasksOnly σ

/-! ### The protocol -/

/-- When `sp_update_task` locks a row of the version it expects, the row still has the status that
was read before the lock, and either the key of its column is held or its position is not to
change. -/
def UpdateTask.Fresh (p : UpdateTask) (σ : TaskSession) (db : Db) : Prop :=
  ∀ r ∈ db.row (.task p.taskId), r.version = p.version →
    (∀ s ∈ σ.reads, ∀ read ∈ s.row (.task p.taskId), read.status = r.status) ∧
    (columnKey (r.projectId, r.status) ∈ σ.keys ∨ ∀ q ∈ p.position, q = r.position)

instance (p : UpdateTask) (σ : TaskSession) (db : Db) : Decidable (p.Fresh σ db) := by
  unfold UpdateTask.Fresh
  infer_instance

/-- The `UPDATE` of `sp_remove_project_member`, its second statement, finds at most one task. -/
def RemovesFromOneTask (p u : Uuid) (σ : TaskSession) (db : Db) : Prop :=
  σ.reads.length = 1 → ((σ.view db).matching (clearAssignee p u)).length ≤ 1

instance (p u : Uuid) (σ : TaskSession) (db : Db) : Decidable (RemovesFromOneTask p u σ db) := by
  unfold RemovesFromOneTask
  infer_instance

/-- The discipline of the task writers. -/
def columnProtocol (ordered ranked : Prop) : Protocol Writer Row LockKey Error where
  inv db := ordered → Ordered (slot db)
  rely := ColumnsRely
  assume
    | .updateTask p, .lock _, σ, db => p.Fresh σ db
    | .removeMember p u, .query, σ, db => ranked → RemovesFromOneTask p u σ db
    | _, _, _, _ => True
  require o σ db := ranked → LockOrder σ db o
  allowed e := ordered → e ≠ .negativePosition ∧ e ≠ .duplicatePosition
  rely_refl σ db := ⟨fun _ _ => rfl, fun _ _ _ => Iff.rfl, fun _ r h => ⟨r, h, rfl⟩⟩
  rely_trans σ db db' db'' h h' := by
    refine ⟨fun i hi => (h'.rows i hi).trans (h.rows i hi),
      fun t s hs => (h'.slots t s hs).trans (h.slots t s hs), fun t r hr => ?_⟩
    obtain ⟨r', hr', hp⟩ := h.tasks t r hr
    obtain ⟨r'', hr'', hp'⟩ := h'.tasks t r' hr'
    exact ⟨r'', hr'', hp'.trans hp⟩

end TaskDb
