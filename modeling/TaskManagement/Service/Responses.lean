import TaskManagement.Service.Tasks

/-!
# The responses of the task endpoints

The mappers of `task_service`.  A row of `fn_get_task`, `fn_get_project_board`, `fn_list_tasks` or
`fn_list_calendar_tasks` becomes a `Task` object (`_build_task`), and `_summary` and `_response`
read the people of a response from the relationships of that object.  `createTask` and `updateTask`
are the services of `Service.Tasks` with the response that they return.

The columns `created_at` and `updated_at` are left out.
-/

namespace Responses

open TaskDb ReadCommitted

/-! ### Rows and objects -/

/-- A row of `SELECT (task).*, project_is_active, comment_count`. -/
structure TaskRow where
  id : Uuid
  task : Task
  projectIsActive : Option Bool
  commentCount : ℕ

/-- A `User` object, as far as the mappers read it. -/
structure UserObject where
  id : Uuid
  username : String
  lastName : Option String
  firstName : Option String
deriving DecidableEq

/-- A `Task` object: its columns and the relationships that the mappers read. -/
structure TaskObject where
  id : Uuid
  columns : Task
  assignee : Option UserObject
  creator : Option UserObject
deriving DecidableEq

structure TaskWithProjectStatus where
  task : TaskObject
  projectIsActive : Option Bool
  commentCount : ℕ
deriving DecidableEq

/-- `_build_task` sets columns only.  A relationship that was not set, of an object that is in no
session, reads as `None`. -/
def buildTask (row : TaskRow) : TaskObject where
  id := row.id
  columns := row.task
  assignee := none
  creator := none

def buildTaskWithProjectStatus (row : TaskRow) : TaskWithProjectStatus where
  task := buildTask row
  projectIsActive := row.projectIsActive
  commentCount := row.commentCount

/-! ### Mappers -/

structure TaskAssignee where
  id : Uuid
  username : String
  displayName : String
deriving DecidableEq

structure TaskCreator where
  id : Uuid
  username : String
  displayName : Option String
deriving DecidableEq

/-- The current user with the name that the mappers read. -/
structure NamedUser extends CurrentUser where
  username : String
deriving DecidableEq

/-- `_display_name`; an empty name is left out like a missing one. -/
def displayName (user : UserObject) : String :=
  let parts := [user.lastName, user.firstName].filterMap fun part => part.filter (· ≠ "")
  let name := " ".intercalate parts
  if name = "" then user.username else name

/-- `_assignee` -/
def assignee (task : TaskObject) : Option TaskAssignee :=
  task.assignee.map fun user => ⟨user.id, user.username, displayName user⟩

/-- `_creator` -/
def creator (task : TaskObject) (currentUser : NamedUser) : TaskCreator :=
  match task.creator with
  | none => ⟨currentUser.id, currentUser.username, none⟩
  | some user => ⟨user.id, user.username, some (displayName user)⟩

structure TaskSummary where
  id : Uuid
  title : String
  description : Option String
  assignee : Option TaskAssignee
  dueAt : Option Timestamp
  position : ℤ
  version : ℤ
  isActive : Bool
  commentCount : ℕ
deriving DecidableEq

/-- `_summary` -/
def summary (task : TaskObject) (commentCount : ℕ) : TaskSummary where
  id := task.id
  title := task.columns.title
  description := task.columns.description
  assignee := assignee task
  dueAt := task.columns.dueAt
  position := task.columns.position
  version := task.columns.version
  isActive := task.columns.isActive
  commentCount := commentCount

structure TaskDetailResponse where
  id : Uuid
  projectId : Option Uuid
  projectIsActive : Option Bool
  title : String
  description : Option String
  status : Status
  assignee : Option TaskAssignee
  createdBy : TaskCreator
  position : ℤ
  version : ℤ
  isActive : Bool
  dueAt : Option Timestamp
  commentCount : ℕ
deriving DecidableEq

/-- `_response` -/
def response (item : TaskWithProjectStatus) (currentUser : NamedUser) : TaskDetailResponse where
  id := item.task.id
  projectId := item.task.columns.projectId
  projectIsActive := item.projectIsActive
  title := item.task.columns.title
  description := item.task.columns.description
  status := item.task.columns.status
  assignee := assignee item.task
  createdBy := creator item.task currentUser
  position := item.task.columns.position
  version := item.task.columns.version
  isActive := item.task.columns.isActive
  dueAt := item.task.columns.dueAt
  commentCount := item.commentCount

/-! ### Services that read a task back -/

/-- `COALESCE(cc.comment_count, 0)` -/
def commentCount (db : Db) (t : Uuid) : ℕ :=
  db.ids.countP fun
    | .comment c => (db.row (.comment c)).any fun r => decide (r.taskId = t)
    | _ => false

/-- `p.is_active` of the project that is joined to a task. -/
def projectIsActive (db : Db) (task : Task) : Option Bool :=
  task.projectId.bind fun p => (db.row (.project p)).map Project.isActive

/-- The row of `fn_get_task`. -/
def taskRow (db : Db) (taskId : Uuid) : Option TaskRow :=
  (db.row (.task taskId)).map fun task =>
    { id := taskId
      task := task
      projectIsActive := projectIsActive db task
      commentCount := commentCount db taskId }

/-- `get_by_id` -/
def getById (taskId : Uuid) : TaskProc (Option TaskWithProjectStatus) :=
  Proc.select fun db => (taskRow db taskId).map buildTaskWithProjectStatus

/-- The end of `create_task` and of `update_task`: the response to the task that is read back. -/
def readBack (taskId : Uuid) (user : NamedUser) : TaskProc TaskDetailResponse := do
  match ← getById taskId with
  | none => .throw .notFound
  | some item => return response item user

def createTask (projectId : Option Uuid) (payload : TaskCreateRequest) (user : NamedUser)
    (day : AppDay) : TaskProc TaskDetailResponse := do
  let taskId ← spCreateTask (payload.call projectId user.toCurrentUser day)
  readBack taskId user

def updateTask (taskId : Uuid) (payload : TaskUpdateRequest) (user : NamedUser) (day : AppDay) :
    TaskProc TaskDetailResponse := do
  match ← fnGetTask taskId with
  | none => .throw .notFound
  | some task => do
    authorizeUpdate task payload user.toCurrentUser
    spUpdateTask (payload.call taskId task day)
    readBack taskId user

/-! ### Without the response -/

/-- The services of `Service.Tasks` end with a plain test for the row that is read back. -/
theorem readBack_bind (taskId : Uuid) (user : NamedUser) :
    (readBack taskId user).bind (fun _ => .ret ()) =
      (fnGetTask taskId).bind fun task => Proc.raiseIf (task = none) .notFound := by
  refine congrArg Proc.query (funext fun db => ?_)
  show Proc.bind (match (taskRow db taskId).map buildTaskWithProjectStatus with
    | none => Proc.throw Error.notFound
    | some item => Proc.ret (response item user)) _ =
      Proc.raiseIf (db.row (.task taskId) = none) Error.notFound
  unfold taskRow
  cases db.row (.task taskId) with
  | none => rfl
  | some task => rfl

theorem createTask_bind (projectId : Option Uuid) (payload : TaskCreateRequest) (user : NamedUser)
    (day : AppDay) : (createTask projectId payload user day).bind (fun _ => .ret ()) =
      TaskDb.createTask projectId payload user.toCurrentUser day := by
  refine (Proc.bind_assoc _ _ _).trans (congrArg (Proc.bind _) (funext fun taskId => ?_))
  exact readBack_bind taskId user

theorem updateTask_bind (taskId : Uuid) (payload : TaskUpdateRequest) (user : NamedUser)
    (day : AppDay) : (updateTask taskId payload user day).bind (fun _ => .ret ()) =
      TaskDb.updateTask taskId payload user.toCurrentUser day := by
  refine (Proc.bind_assoc _ _ _).trans (congrArg (Proc.bind _) (funext fun task => ?_))
  cases task with
  | none => rfl
  | some task =>
    refine (Proc.bind_assoc _ _ _).trans (congrArg (Proc.bind _) (funext fun _ => ?_))
    refine (Proc.bind_assoc _ _ _).trans (congrArg (Proc.bind _) (funext fun _ => ?_))
    exact readBack_bind taskId user

end Responses
