import TaskManagement.Service.Listing
import TaskManagement.Service.Responses

/-!
# The endpoints that read tasks

`get_task_detail`, `list_tasks` and `list_calendar_tasks` with their responses, over the tables of
`Service.Listing`.  `none` is a `NotFoundError`, or the failure of the query of a list.
-/

namespace Listing

open TaskDb (Uuid Timestamp Status)
open Pages

/-! ### Responses -/

/-- The part of a row that `fn_get_task`, `fn_list_tasks` and `fn_list_calendar_tasks` share: a
task, joined with its project and the number of its comments. -/
structure JoinedTask where
  task : Task
  projectIsActive : Option Bool
  commentCount : ℕ

def joinTask (db : Db) (t : Task) : JoinedTask where
  task := t
  projectIsActive := (db.projects.rows.find? fun p => t.projectId == some p.id).map Project.isActive
  commentCount := db.taskComments.countP fun c => c.taskId == t.id

def TaskListRow.joined (row : TaskListRow) : JoinedTask where
  task := row.task
  projectIsActive := row.projectIsActive
  commentCount := row.commentCount

/-- A `TaskDetailResponse` or a `TaskListItem`. -/
structure TaskResponse extends Responses.TaskDetailResponse where
  createdAt : Timestamp
  updatedAt : Timestamp
deriving DecidableEq

/-- `_response` for the current user `user`, who is called `username`. -/
def response (row : JoinedTask) (user : User) (username : String) : TaskResponse where
  toTaskDetailResponse := Responses.response
    (Responses.buildTaskWithProjectStatus
      ⟨row.task.id, row.task.toTask, row.projectIsActive, row.commentCount⟩)
    ⟨⟨user.id, user.role⟩, username⟩
  createdAt := row.task.createdAt
  updatedAt := row.task.updatedAt

/-! ### One task -/

def fnGetTask (db : Db) (taskId : Uuid) : Option JoinedTask :=
  (db.tasks.rows.find? fun t => t.id == taskId).map (joinTask db)

/-- Whether `require_task_access` lets the user pass. -/
def requireTaskAccess (db : Db) (task : Task) (user : User) : Bool :=
  task.isActive && (user.role == .admin ||
    match task.projectId with
    | none => task.createdBy == user.id
    | some p => fnIsProjectMember db p user.id)

/-- `get_task_detail` -/
def getTaskDetail (db : Db) (taskId : Uuid) (user : User) (username : String) :
    Option TaskResponse :=
  (fnGetTask db taskId).bind fun row =>
    if requireTaskAccess db row.task user then some (response row user username) else none

/-! ### Lists -/

/-- `list_tasks` with the responses of its items. -/
def listTaskResponses (o : OrderBy Task.createdAt) (db : Db) (user : User) (username : String)
    (filter : ProjectIdFilter) (status : Option Status) (includeInactive : Bool)
    (page perPage : ℕ) : Option (ListResponse TaskResponse) :=
  (listTasks o db user filter status includeInactive page perPage).toOption.map fun r =>
    ⟨r.items.map fun row => response row.joined user username, r.listMeta⟩

/-- `CalendarScope`, with the project that `project` asks for. -/
inductive CalendarScope : Type where
  | me
  | project (projectId : Uuid)

/-- The time zone of the application: the start of a day in UTC, and the day of a moment. -/
structure Zone where
  midnight : ℤ → Timestamp
  date : Timestamp → ℤ

/-- A `CalendarTaskQuery`; its days are numbered. -/
structure CalendarTaskQuery where
  fromDate : ℤ
  toDate : ℤ
  scope : CalendarScope

/-- The `WHERE` clause of `fn_list_calendar_tasks`. -/
def calendarSelected (userId : Uuid) (fromUtc toUtc : Timestamp) (scope : CalendarScope)
    (t : Task) : Bool :=
  t.isActive && t.dueAt.any (fun due => fromUtc ≤ due && due < toUtc) &&
    match scope with
    | .me => (t.projectId.isNone && t.createdBy == userId) || t.assigneeId == some userId
    | .project p => t.projectId == some p

/-- `ORDER BY t.due_at ASC, t.id ASC`; every selected row has a `due_at`. -/
def calendarOrder (a b : Task) : Bool :=
  match a.dueAt, b.dueAt with
  | some x, some y => x < y || (x == y && a.id ≤ b.id)
  | _, _ => true

def fnListCalendarTasks (db : Db) (userId : Uuid) (fromUtc toUtc : Timestamp)
    (scope : CalendarScope) : List JoinedTask :=
  ((db.tasks.rows.filter (calendarSelected userId fromUtc toUtc scope)).mergeSort
    calendarOrder).map (joinTask db)

structure CalendarTaskItem extends TaskResponse where
  dueDate : ℤ
deriving DecidableEq

/-- Whether `list_calendar_tasks` lets the user pass. -/
def requireCalendarAccess (db : Db) (scope : CalendarScope) (user : User) : Bool :=
  match scope with
  | .me => true
  | .project p => user.role == .admin || fnIsProjectMember db p user.id

/-- `list_calendar_tasks` -/
def listCalendarTasks (zone : Zone) (db : Db) (user : User) (username : String)
    (query : CalendarTaskQuery) : Option (List CalendarTaskItem) :=
  if requireCalendarAccess db query.scope user then
    some ((fnListCalendarTasks db user.id (zone.midnight query.fromDate)
      (zone.midnight (query.toDate + 1)) query.scope).filterMap fun row =>
        row.task.dueAt.map fun due => ⟨response row user username, zone.date due⟩)
  else none

end Listing
