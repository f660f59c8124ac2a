import TaskManagement.Db.Procedures

/-!
# The reorder law of a board

What a call of `sp_update_task` with an explicit position is meant to do (`UpdateTask.Reorders`):
the task goes to that position, the other tasks keep their order, and every column holds the
positions `0`, ..., `n - 1` again.
-/

namespace TaskDb

open Columns

/-- The positions of a column, in the order of the rows. -/
def positions (db : Db) (c : Column) : List ℤ :=
  ((tasks db).filter fun x => x.2.slot.1 = c).map fun x => x.2.position

/-- The number of tasks of a column. -/
def columnSize (db : Db) (c : Column) : ℕ := (positions db c).length

namespace UpdateTask

variable (p : UpdateTask) (old : Task)

/-- The column that the task leaves or stays in. -/
def oldColumn (_ : UpdateTask) : Column := (old.projectId, old.status)

/-- The column in which the task ends. -/
def newColumn : Column := (old.projectId, p.status)

/-- The position is one of the column, or its end when the task comes from another column. -/
def InColumn (k : ℤ) (db : Db) : Prop :=
  0 ≤ k ∧ if p.status = old.status then k < columnSize db (p.oldColumn old)
    else k ≤ columnSize db (p.newColumn old)

instance (k : ℤ) (db : Db) : Decidable (p.InColumn old k db) := by
  unfold InColumn
  infer_instance

/-- The conditions on everything but the position: the title fits its column, the assignee is active,
the version can be counted up, and the column that the task enters has room. -/
structure Accepted (db : Db) : Prop where
  title : p.TitleFits
  assignee : ∀ u ∈ p.assigneeId, activeUser db u = true
  version : old.version < maxInteger
  room : p.status ≠ old.status → (columnSize db (p.newColumn old) : ℤ) ≤ maxInteger

/-- The other tasks keep their order in their columns. -/
def KeepsOrder (db db' : Db) : Prop :=
  ∀ t t' c x y x' y', t ≠ p.taskId → t' ≠ p.taskId →
    slot db t = some (c, x) → slot db t' = some (c, y) →
    slot db' t = some (c, x') → slot db' t' = some (c, y') → (x < y ↔ x' < y')

/-- The task is at the position `k`, the other tasks keep their order, and the columns are
contiguous again. -/
structure Reorders (k : ℤ) (db db' : Db) : Prop where
  self : ∃ r, db'.row (.task p.taskId) = some r ∧ r.slot = (p.newColumn old, k) ∧
    r.version = old.version + 1
  /-- Nothing but the position of another task changes. -/
  other : ∀ t r, t ≠ p.taskId → db.row (.task t) = some r →
    ∃ x, db'.row (.task t) = some { r with position := x }
  /-- The other tasks were there before. -/
  noOther : ∀ t, t ≠ p.taskId → db.row (.task t) = none → db'.row (.task t) = none
  elsewhere : ∀ t r, t ≠ p.taskId → db.row (.task t) = some r → r.slot.1 ≠ p.oldColumn old →
    r.slot.1 ≠ p.newColumn old → db'.row (.task t) = some r
  order : p.KeepsOrder db db'
  contiguous : Contiguous (slot db')

end UpdateTask

end TaskDb
