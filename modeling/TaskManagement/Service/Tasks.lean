import TaskManagement.Db.Procedures

/-!
# The task services

The services behind the write endpoints of tasks and comments, with the route dependencies that
they rely on (`getCurrentUser`, `requireProjectMember`, `getTaskForMember`,
`getCommentForMember`), each as the program of the database transaction of the request.  The
responses are the rows that the services read back; `Endpoint` lists the
endpoints and `Request.proc` is the transaction of a request.
-/

namespace TaskDb

open ReadCommitted

/-! ### Payloads -/

/-- The user of a request, as `get_current_user` loads it. -/
structure CurrentUser where
  id : Uuid
  role : Role
deriving DecidableEq, Repr

/-- The bounds in UTC of the current day in the time zone of the application. -/
structure AppDay where
  startUtc : Timestamp
  endUtc : Timestamp
deriving DecidableEq, Repr

/-- `TaskCreateRequest`. -/
structure TaskCreateRequest where
  title : String
  description : Option String := none
  status : Status := .todo
  assigneeId : Option Uuid := none
  dueAt : Option Timestamp := none
deriving DecidableEq, Repr

/-- `TaskCreateFlatRequest`; its validator rejects an assignee without a project. -/
structure TaskCreateFlatRequest extends TaskCreateRequest where
  projectId : Option Uuid := none
  assignee_of_project : projectId = none → assigneeId = none
deriving DecidableEq

/-- `TaskUpdateRequest`: an omitted field is `none`; the fields that may be set to `null` have an
optional value. -/
structure TaskUpdateRequest where
  version : ℤ
  title : Option String := none
  description : Option (Option String) := none
  status : Option Status := none
  assigneeId : Option (Option Uuid) := none
  position : Option ℕ := none
  dueAt : Option (Option Timestamp) := none
  isActive : Option Bool := none
deriving DecidableEq, Repr

/-! ### Authorisation -/

/-- `get_current_user`, for an authenticated user id. -/
def getCurrentUser (userId : Uuid) : TaskProc CurrentUser := do
  match ← fnGetUser userId with
  | none => .throw .unauthenticated
  | some u => do
    Proc.raiseIf (u.isActive = false) .userInactive
    return { id := userId, role := u.role }

/-- `require_project_member`. -/
def requireProjectMember (projectId : Uuid) (user : CurrentUser) : TaskProc Unit := do
  match ← fnGetProject projectId with
  | none => .throw .notFound
  | some _ => do
    let member ← fnIsProjectMember projectId user.id
    Proc.raiseIf (member = false) .notFound

/-- `get_task_for_member`, which only loads the task. -/
def getTaskForMember (taskId : Uuid) : TaskProc Task := do
  match ← fnGetTask taskId with
  | none => .throw .notFound
  | some task => return task

/-- `get_comment_for_member`, which only loads the comment and its task. -/
def getCommentForMember (commentId : Uuid) : TaskProc (TaskComment × Task) := do
  match ← fnGetCommentWithTask commentId with
  | none => .throw .notFound
  | some comment => do
    let task ← getTaskForMember comment.taskId
    return (comment, task)

/-- `require_task_access`. -/
def requireTaskAccess (task : Task) (user : CurrentUser) : TaskProc Unit :=
  if task.isActive = false then .throw .notFound
  else if user.role = .admin then return ()
  else
    match task.projectId with
    | none => Proc.raiseIf (task.createdBy ≠ user.id) .notFound
    | some p => do
      let member ← fnIsProjectMember p user.id
      Proc.raiseIf (member = false) .notFound

/-- `require_comment_editor`. -/
def requireCommentEditor (commentUserId : Uuid) (user : CurrentUser) : TaskProc Unit :=
  Proc.raiseIf (user.role ≠ .admin ∧ commentUserId ≠ user.id) .forbidden

/-- The check of `update_task` on a request that sets `is_active`. -/
def requireActivationRight (task : Task) (payload : TaskUpdateRequest) (user : CurrentUser) :
    TaskProc Unit :=
  if payload.isActive.isSome ∧ user.role ≠ .admin then do
    let project ← (match task.projectId with
      | none => pure none
      | some p => fnGetProject p)
    Proc.raiseIf (task.createdBy ≠ user.id ∧
      ∀ r ∈ project, r.ownerId ≠ user.id) .forbidden
  else return ()

/-! ### `task_service` -/

/-- The call of `sp_create_task` for a payload: the position is always left to the database. -/
def TaskCreateRequest.call (payload : TaskCreateRequest) (projectId : Option Uuid)
    (user : CurrentUser) (day : AppDay) : CreateTask where
  projectId := projectId
  createdBy := user.id
  assigneeId := payload.assigneeId
  title := payload.title
  body := payload.description
  status := payload.status
  dueAt := payload.dueAt
  position := none
  dayStartUtc := day.startUtc
  dayEndUtc := day.endUtc

def createTask (projectId : Option Uuid) (payload : TaskCreateRequest) (user : CurrentUser)
    (day : AppDay) : TaskProc Unit := do
  let taskId ← spCreateTask (payload.call projectId user day)
  let item ← fnGetTask taskId
  Proc.raiseIf (item = none) .notFound

def createTaskFlat (payload : TaskCreateFlatRequest) (user : CurrentUser) (day : AppDay) :
    TaskProc Unit :=
  createTask payload.projectId payload.toTaskCreateRequest user day

/-- The call of `sp_update_task` for a payload: an omitted field is filled with the value that was
read, the position too. -/
def TaskUpdateRequest.call (payload : TaskUpdateRequest) (taskId : Uuid) (task : Task)
    (day : AppDay) : UpdateTask where
  taskId := taskId
  version := payload.version
  title := payload.title.getD task.title.val
  body := payload.description.getD task.description
  status := payload.status.getD task.status
  assigneeId := payload.assigneeId.getD task.assigneeId
  dueAt := payload.dueAt.getD task.dueAt
  position := some ((payload.position.map fun q => (q : ℤ)).getD task.position)
  isActive := payload.isActive
  dayStartUtc := day.startUtc
  dayEndUtc := day.endUtc

/-- The checks of `update_task` before it calls the procedure. -/
def authorizeUpdate (task : Task) (payload : TaskUpdateRequest) (user : CurrentUser) :
    TaskProc Unit := do
  -- a request to reactivate an inactive task skips the access check
  (if task.isActive = true ∨ payload.isActive ≠ some true then requireTaskAccess task user
    else pure ())
  requireActivationRight task payload user

def updateTask (taskId : Uuid) (payload : TaskUpdateRequest) (user : CurrentUser)
    (day : AppDay) : TaskProc Unit := do
  match ← fnGetTask taskId with
  | none => .throw .notFound
  | some task => do
    authorizeUpdate task payload user
    spUpdateTask (payload.call taskId task day)
    let updated ← fnGetTask taskId
    Proc.raiseIf (updated = none) .notFound

def deactivateTask (taskId : Uuid) (user : CurrentUser) : TaskProc Unit := do
  match ← fnGetTask taskId with
  | none => .throw .notFound
  | some task => do
    requireTaskAccess task user
    spDeactivateTask taskId false

def deleteTask (taskId : Uuid) (user : CurrentUser) : TaskProc Unit := deactivateTask taskId user

/-! ### `task_comment_service` -/

def addComment (taskId : Uuid) (task : Task) (body : String) (user : CurrentUser) :
    TaskProc Unit := do
  requireTaskAccess task user
  let commentId ← spAddTaskComment taskId user.id body
  let comment ← fnGetCommentWithTask commentId
  Proc.raiseIf (comment = none) .notFound

def updateComment (commentId : Uuid) (comment : TaskComment) (task : Task) (body : String)
    (user : CurrentUser) : TaskProc Unit := do
  requireTaskAccess task user
  requireCommentEditor comment.userId user
  spUpdateTaskComment commentId body
  let updated ← fnGetCommentWithTask commentId
  Proc.raiseIf (updated = none) .notFound

def deleteComment (commentId : Uuid) (comment : TaskComment) (task : Task) (user : CurrentUser) :
    TaskProc Unit := do
  requireTaskAccess task user
  requireCommentEditor comment.userId user
  spDeleteTaskComment commentId

/-! ### Endpoints -/

/-- The write endpoints of tasks and comments. -/
inductive Endpoint : Type where
  /-- `POST /api/projects/{project_id}/tasks` -/
  | createProjectTask (projectId : Uuid) (payload : TaskCreateRequest)
  /-- `POST /api/tasks` -/
  | createFlatTask (payload : TaskCreateFlatRequest)
  /-- `PATCH /api/tasks/{task_id}` -/
  | updateTask (taskId : Uuid) (payload : TaskUpdateRequest)
  /-- `DELETE /api/tasks/{task_id}` -/
  | deleteTask (taskId : Uuid)
  /-- `POST /api/tasks/{task_id}/comments` -/
  | createTaskComment (taskId : Uuid) (body : String)
  /-- `PATCH /api/comments/{comment_id}` -/
  | updateTaskComment (commentId : Uuid) (body : String)
  /-- `DELETE /api/comments/{comment_id}` -/
  | deleteTaskComment (commentId : Uuid)
deriving DecidableEq

/-- A request of an authenticated user. -/
structure Request where
  userId : Uuid
  endpoint : Endpoint
  day : AppDay
deriving DecidableEq

/-- The transaction of a request: its dependencies, in the order of the route, and its service. -/
def Request.proc (q : Request) : TaskProc Unit :=
  match q.endpoint with
  | .createProjectTask projectId payload => do
    let user ← getCurrentUser q.userId
    requireProjectMember projectId user
    createTask (some projectId) payload user q.day
  | .createFlatTask payload => do
    let user ← getCurrentUser q.userId
    createTaskFlat payload user q.day
  | .updateTask taskId payload => do
    let user ← getCurrentUser q.userId
    TaskDb.updateTask taskId payload user q.day
  | .deleteTask taskId => do
    let user ← getCurrentUser q.userId
    TaskDb.deleteTask taskId user
  | .createTaskComment taskId body => do
    let task ← getTaskForMember taskId
    let user ← getCurrentUser q.userId
    addComment taskId task body user
  | .updateTaskComment commentId body => do
    let (comment, task) ← getCommentForMember commentId
    let user ← getCurrentUser q.userId
    updateComment commentId comment task body user
  | .deleteTaskComment commentId => do
    let (comment, task) ← getCommentForMember commentId
    let user ← getCurrentUser q.userId
    TaskDb.deleteComment commentId comment task user

end TaskDb
