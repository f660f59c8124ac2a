import TaskManagement.Db.Schema

/-!
# The stored functions and procedures of the task database

Each `fn*` and `sp*` is the function or procedure of that name, as a transaction program over the
schema.  A plpgsql block of `sp_update_task` that is long enough to be read on its own has its own
definition (`lockColumns`, `movePositions`, `requireActiveAssignee`, `notifyUpdated`), and the four
renumbering `UPDATE`s of the procedures are one definition, `shiftPositions`, with their range and
their step as parameters.
-/

namespace TaskDb

open ReadCommitted

/-- The program of a transaction. -/
abbrev TaskProc (α : Type) : Type := Proc Row LockKey Uuid Error α

/-- The session of a transaction. -/
abbrev TaskSession : Type := Session Row LockKey

/-! ### Functions -/

/-- The `tasks` rows that a `SELECT ... FROM tasks` ranges over, with their identifiers. -/
def tasks (db : Db) : List (Uuid × Task) :=
  db.ids.filterMap fun
    | .task t => (db.row (.task t)).map (t, ·)
    | _ => none

theorem mem_tasks {db : Db} {t : Uuid} {r : Task} :
    (t, r) ∈ tasks db ↔ db.row (.task t) = some r := by
  refine (Store.mem_table_iff RowId.task (fun t r => (t, r)) (fun _ => rfl) fun i b h => ?_).trans ?_
  · cases i with
    | task t => exact ⟨t, rfl⟩
    | _ => cases h
  · constructor
    · rintro ⟨t', r', hr, heq⟩
      obtain ⟨rfl, rfl⟩ := Prod.mk.inj heq
      exact hr
    · exact fun hr => ⟨t, r, hr, rfl⟩

/-- Every task is listed once. -/
theorem nodup_tasks (db : Db) : ((tasks db).map Prod.fst).Nodup := by
  refine Store.nodup_table RowId.task (fun t r => (t, r)) (fun _ => rfl) (fun i b h => ?_) Prod.fst
    fun _ _ => rfl
  cases i with
  | task t => exact ⟨t, rfl⟩
  | _ => cases h

/-- `COALESCE(MAX(position), -1) + 1` over the tasks of a column. -/
def nextTaskPosition (db : Db) (pProjectId : Option Uuid) (pStatus : Status) : ℤ :=
  (((tasks db).filter fun r => r.2.projectId = pProjectId ∧ r.2.status = pStatus).map
    (·.2.position)).foldr max (-1) + 1

def fnNextTaskPosition (pProjectId : Option Uuid) (pStatus : Status) : TaskProc ℤ :=
  Proc.select fun db => nextTaskPosition db pProjectId pStatus

/-- `EXISTS (SELECT 1 FROM users WHERE id = p_assignee_id AND is_active = true)`. -/
def activeUser (db : Db) (u : Uuid) : Bool := (db.row (.user u)).any User.isActive

/-- `EXISTS (SELECT 1 FROM project_members ...)`. -/
def isMember (db : Db) (p u : Uuid) : Bool := (db.row (.member p u)).isSome

/-- `fn_is_project_member`: an active user who is an admin or a member. -/
def fnIsProjectMember (pProjectId pUserId : Uuid) : TaskProc Bool :=
  Proc.select fun db => (db.row (.user pUserId)).any fun u =>
    u.isActive && (decide (u.role = .admin) || isMember db pProjectId pUserId)

def fnGetUser (pUserId : Uuid) : TaskProc (Option User) :=
  Proc.select fun db => db.row (.user pUserId)

def fnGetProject (pProjectId : Uuid) : TaskProc (Option Project) :=
  Proc.select fun db => db.row (.project pProjectId)

def fnGetTask (pTaskId : Uuid) : TaskProc (Option Task) :=
  Proc.select fun db => db.row (.task pTaskId)

def fnGetCommentWithTask (pCommentId : Uuid) : TaskProc (Option TaskComment) :=
  Proc.select fun db => db.row (.comment pCommentId)

/-! ### Statements that several procedures share -/

/-- `UPDATE tasks SET position = position + δ WHERE project_id IS NOT DISTINCT FROM p AND
status = s AND position ... AND id <> e`; `except` is `none` without the last condition. -/
def shiftPositions (p : Option Uuid) (s : Status) (range : ℤ → Prop) [DecidablePred range]
    (except : Option Uuid) (δ : ℤ) : RowUpdate Row
  | .task t, r =>
    if r.projectId = p ∧ r.status = s ∧ range r.position ∧ except ≠ some t then
      some (some { r with position := r.position + δ })
    else none
  | _, _ => none

/-- An `UPDATE tasks SET ... WHERE id = t AND ...`. -/
def setTask (t : Uuid) (where_ : Task → Prop) [DecidablePred where_] (set : Task → Task) :
    RowUpdate Row
  | .task t', r => if t' = t ∧ where_ r then some (some (set r)) else none
  | _, _ => none

theorem setTask_of_ne {t : Uuid} {w : Task → Prop} [DecidablePred w] {set : Task → Task}
    {j : RowId} (r : Row j) (hj : j ≠ .task t) : setTask t w set j r = none := by
  cases j with
  | task t' => exact if_neg fun h => hj (by rw [h.1])
  | _ => rfl

theorem setTask_self {t : Uuid} {w : Task → Prop} [DecidablePred w] {set : Task → Task}
    {r : Task} (hw : w r) : setTask t w set (.task t) r = some (some (set r)) :=
  if_pos ⟨rfl, hw⟩

/-- `IF p_assignee_id IS NOT NULL AND NOT EXISTS (...) THEN RAISE EXCEPTION`. -/
def requireActiveAssignee (pAssigneeId : Option Uuid) : TaskProc Unit :=
  match pAssigneeId with
  | none => return ()
  | some u => do
    let active ← Proc.select fun db => activeUser db u
    Proc.raiseIf (active = false) .assigneeNotActive

/-! ### `sp_create_task` -/

/-- The parameters of `sp_create_task`. -/
structure CreateTask where
  projectId : Option Uuid
  createdBy : Uuid
  assigneeId : Option Uuid
  title : String
  body : Option String
  status : Status
  dueAt : Option Timestamp
  position : Option ℤ
  dayStartUtc : Timestamp
  dayEndUtc : Timestamp
deriving DecidableEq, Repr

/-- The row that `sp_create_task` inserts. -/
def CreateTask.task (p : CreateTask) (vPosition : ℤ) : Task where
  projectId := p.projectId
  title := .assign p.title
  description := p.body
  status := p.status
  assigneeId := p.assigneeId
  createdBy := p.createdBy
  position := vPosition
  version := 1
  dueAt := p.dueAt
  isActive := true

/-- The position of the new task, with room made for it. -/
def CreateTask.choosePosition (p : CreateTask) : TaskProc ℤ :=
  match p.position with
  | none => fnNextTaskPosition p.projectId p.status
  | some vPosition => do
    let _ ← Proc.update (shiftPositions p.projectId p.status (vPosition ≤ ·) none 1)
    return vPosition

/-- The notification of a task created for a user and due today. -/
def CreateTask.notifyCreated (p : CreateTask) (pTaskId : Uuid) : TaskProc Unit :=
  match p.assigneeId, p.dueAt with
  | some u, some due =>
    if p.dayStartUtc ≤ due ∧ due < p.dayEndUtc then
      Proc.insertOrIgnore (.notification u (.created pTaskId))
        { taskId := some pTaskId, type := .dueTodayCreated, title := varchar 200 p.title,
          body := p.body, dueAt := p.dueAt }
    else return ()
  | _, _ => return ()

def spCreateTask (p : CreateTask) : TaskProc Uuid := do
  requireActiveAssignee p.assigneeId
  Proc.advisoryLock (columnKey (p.projectId, p.status))
  let vPosition ← p.choosePosition
  let pTaskId ← Proc.generate .task
  Proc.insertOrRaise (.task pTaskId) (p.task vPosition) .duplicateKey
  p.notifyCreated pTaskId
  return pTaskId

/-! ### `sp_update_task` -/

/-- The parameters of `sp_update_task`; `p_editor_id` is not used by its body. -/
structure UpdateTask where
  taskId : Uuid
  version : ℤ
  title : String
  body : Option String
  status : Status
  assigneeId : Option Uuid
  dueAt : Option Timestamp
  position : Option ℤ
  isActive : Option Bool
  dayStartUtc : Timestamp
  dayEndUtc : Timestamp
deriving DecidableEq, Repr

/-- `v_status_changed OR (p_position IS NOT NULL AND p_position <> v_old_position)`. -/
def UpdateTask.Moves (p : UpdateTask) (vOldStatus : Status) (vOldPosition : ℤ) : Prop :=
  p.status ≠ vOldStatus ∨ ∃ q ∈ p.position, q ≠ vOldPosition

instance (p : UpdateTask) (s : Status) (x : ℤ) : Decidable (p.Moves s x) := by
  unfold UpdateTask.Moves
  infer_instance

/-- The advisory locks of the old and the new column, in the order of their keys. -/
def UpdateTask.lockColumns (p : UpdateTask) (vProjectId : Option Uuid) (vOldStatus : Status)
    (vOldPosition : ℤ) : TaskProc Unit :=
  let vOldKey := columnKey (vProjectId, vOldStatus)
  let vNewKey := columnKey (vProjectId, p.status)
  if p.Moves vOldStatus vOldPosition then
    if vOldKey = vNewKey then Proc.advisoryLock vOldKey
    else if vOldKey < vNewKey then do
      Proc.advisoryLock vOldKey
      Proc.advisoryLock vNewKey
    else do
      Proc.advisoryLock vNewKey
      Proc.advisoryLock vOldKey
  else return ()

/-- Renumber the neighbours; the result is `v_new_position`. -/
def UpdateTask.movePositions (p : UpdateTask) (vProjectId : Option Uuid) (vOldStatus : Status)
    (vOldPosition : ℤ) : TaskProc ℤ :=
  if p.status ≠ vOldStatus then do
    let _ ← Proc.update (shiftPositions vProjectId vOldStatus (vOldPosition < ·) none (-1))
    match p.position with
    | none => fnNextTaskPosition vProjectId p.status
    | some vNewPosition => do
      let _ ← Proc.update (shiftPositions vProjectId p.status (vNewPosition ≤ ·) none 1)
      return vNewPosition
  else
    match p.position with
    | none => return vOldPosition
    | some q =>
      if q = vOldPosition then return vOldPosition
      else if vOldPosition < q then do
        let _ ← Proc.update (shiftPositions vProjectId vOldStatus
          (fun x => vOldPosition < x ∧ x ≤ q) (some p.taskId) (-1))
        return q
      else do
        let _ ← Proc.update (shiftPositions vProjectId vOldStatus
          (fun x => q ≤ x ∧ x < vOldPosition) (some p.taskId) 1)
        return q

/-- The task row that the final `UPDATE` writes. -/
def UpdateTask.apply (p : UpdateTask) (vNewPosition : ℤ) (r : Task) : Task :=
  { r with
    title := .assign p.title
    description := p.body
    status := p.status
    assigneeId := p.assigneeId
    dueAt := p.dueAt
    position := vNewPosition
    isActive := p.isActive.getD r.isActive
    version := r.version + 1 }

/-- The title fits its column, when spaces beyond the length are cut off. -/
def UpdateTask.TitleFits (p : UpdateTask) : Prop := (Title.assign p.title).val.length ≤ 150

instance (p : UpdateTask) : Decidable p.TitleFits := Nat.decLe _ _

/-- The notification of a task that is now due today. -/
def UpdateTask.notifyUpdated (p : UpdateTask) (vOldDueAt : Option Timestamp) : TaskProc Unit :=
  match p.assigneeId, p.dueAt with
  | some u, some due =>
    if p.dueAt ≠ vOldDueAt ∧ p.dayStartUtc ≤ due ∧ due < p.dayEndUtc then
      Proc.insertOrIgnore (.notification u (.updated p.taskId due))
        { taskId := some p.taskId, type := .dueTodayUpdated, title := varchar 200 p.title,
          body := p.body, dueAt := p.dueAt }
    else return ()
  | _, _ => return ()

/-- `sp_update_task` after its row lock, with `old` the locked row. -/
def UpdateTask.afterLock (p : UpdateTask) (vProjectId : Option Uuid) (vOldStatus : Status)
    (old : Task) : TaskProc Unit := do
  Proc.raiseIf (old.version ≠ p.version) .taskVersionConflict
  requireActiveAssignee p.assigneeId
  let vNewPosition ← p.movePositions vProjectId vOldStatus old.position
  let updated ← Proc.update
    (setTask p.taskId (fun r => r.version = p.version) (p.apply vNewPosition))
  Proc.raiseIf (updated = 0) .taskVersionConflict
  p.notifyUpdated old.dueAt

def spUpdateTask (p : UpdateTask) : TaskProc Unit := do
  match ← Proc.select fun db => db.row (.task p.taskId) with
  | none => return ()
  | some read =>
    p.lockColumns read.projectId read.status read.position
    -- `SELECT position, version, due_at ... FOR UPDATE`: the status is not read again
    match ← Proc.selectForUpdate (.task p.taskId) with
    | some old => p.afterLock read.projectId read.status old
    | none =>
      -- no such row any more: the comparison with a NULL version does not raise, the final
      -- `UPDATE` does
      requireActiveAssignee p.assigneeId
      .throw .taskVersionConflict

/-! ### The other writers -/

/-- `sp_deactivate_task`. -/
def spDeactivateTask (pTaskId : Uuid) (pIsActive : Bool) : TaskProc Unit := do
  let _ ← Proc.update (setTask pTaskId (fun _ => True)
    fun r => { r with isActive := pIsActive, version := r.version + 1 })
  return ()

/-- `UPDATE tasks SET assignee_id = NULL WHERE project_id = p AND assignee_id = u`. -/
def clearAssignee (p u : Uuid) : RowUpdate Row
  | .task _, r =>
    if r.projectId = some p ∧ r.assigneeId = some u then
      some (some { r with assigneeId := none })
    else none
  | _, _ => none

/-- `DELETE FROM project_members WHERE project_id = p AND user_id = u`. -/
def deleteMember (p u : Uuid) : RowUpdate Row
  | .member p' u', _ => if p' = p ∧ u' = u then some none else none
  | _, _ => none

theorem deleteMember_of_ne {p u : Uuid} {j : RowId} (r : Row j) (hj : j ≠ .member p u) :
    deleteMember p u j r = none := by
  cases j with
  | member p' u' => exact if_neg fun h => hj (by rw [h.1, h.2])
  | _ => rfl

theorem deleteMember_self {p u : Uuid} (r : ProjectMember) :
    deleteMember p u (.member p u) r = some none := if_pos ⟨rfl, rfl⟩

def spRemoveProjectMember (pProjectId pUserId : Uuid) : TaskProc Unit := do
  let isOwner ← Proc.select fun db =>
    (db.row (.project pProjectId)).any fun r => decide (r.ownerId = pUserId)
  Proc.raiseIf (isOwner = true) .ownerCannotBeRemoved
  let _ ← Proc.update (clearAssignee pProjectId pUserId)
  let _ ← Proc.update (deleteMember pProjectId pUserId)
  return ()

def spAddProjectMember (pProjectId pUserId : Uuid) (pInvitedBy : Option Uuid) :
    TaskProc Unit := do
  let present ← Proc.select fun db => isMember db pProjectId pUserId
  Proc.raiseIf (present = true) .alreadyMember
  Proc.insertOrRaise (.member pProjectId pUserId) { invitedBy := pInvitedBy } .duplicateKey

/-- The parameters of `sp_create_project`. -/
structure CreateProject where
  ownerId : Uuid
  name : String
  description : Option String
  startAt : Option Timestamp
  endAt : Option Timestamp
deriving DecidableEq, Repr

def spCreateProject (p : CreateProject) : TaskProc Uuid := do
  Proc.raiseIf (∃ s ∈ p.startAt, ∃ e ∈ p.endAt, e < s) .endBeforeStart
  let pProjectId ← Proc.generate .project
  Proc.insertOrRaise (.project pProjectId)
    { ownerId := p.ownerId, name := p.name, description := p.description, startAt := p.startAt,
      endAt := p.endAt, isActive := true } .duplicateKey
  Proc.insertOrRaise (.member pProjectId p.ownerId) { invitedBy := none } .duplicateKey
  return pProjectId

/-! ### Comments -/

def spAddTaskComment (pTaskId pUserId : Uuid) (pBody : String) : TaskProc Uuid := do
  let pCommentId ← Proc.generate .comment
  Proc.insertOrRaise (.comment pCommentId)
    { taskId := pTaskId, userId := pUserId, body := pBody } .duplicateKey
  return pCommentId

/-- `UPDATE task_comments SET body = p_body WHERE id = p_comment_id`. -/
def setCommentBody (c : Uuid) (body : String) : RowUpdate Row
  | .comment c', r => if c' = c then some (some { r with body := body }) else none
  | _, _ => none

/-- `DELETE FROM task_comments WHERE id = p_comment_id`. -/
def deleteCommentRow (c : Uuid) : RowUpdate Row
  | .comment c', _ => if c' = c then some none else none
  | _, _ => none

/-- `p_user_id` is not used by the body. -/
def spUpdateTaskComment (pCommentId : Uuid) (pBody : String) : TaskProc Unit := do
  let _ ← Proc.update (setCommentBody pCommentId pBody)
  return ()

/-- `p_user_id` is not used by the body. -/
def spDeleteTaskComment (pCommentId : Uuid) : TaskProc Unit := do
  let _ ← Proc.update (deleteCommentRow pCommentId)
  return ()

end TaskDb
