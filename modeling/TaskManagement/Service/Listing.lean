import TaskManagement.Db.Schema
import TaskManagement.Pages

/-!
# The paged lists of tasks, projects and notifications

`list_tasks`, `list_projects` and `list_notifications` of the services over `fn_list_tasks`,
`fn_count_tasks`, `fn_list_projects`, `fn_list_notifications`, `fn_count_notifications` and
`fn_count_unread_notifications`, on a database that does not change.  Each `ORDER BY created_at
DESC` is an `OrderBy`, which says how the query orders rows with equal `created_at`.

`count(*) OVER ()` counts the selected rows before `LIMIT` and `OFFSET`, and it is part of every row
of the page: an empty page carries no total.  Both are parameters of the type `INTEGER`, and no
schema bounds `page`: a query is not sent with a greater offset (`sendWindow`).
-/

namespace Listing

open TaskDb (Uuid Timestamp Status Role)
open Pages

/-! ### The tables -/

structure User where
  id : Uuid
  role : Role
  isActive : Bool
deriving DecidableEq

structure Project where
  id : Uuid
  ownerId : Uuid
  isActive : Bool
  createdAt : Timestamp
deriving DecidableEq

structure ProjectMember where
  projectId : Uuid
  userId : Uuid
deriving DecidableEq

structure Task extends TaskDb.Task where
  id : Uuid
  createdAt : Timestamp
  updatedAt : Timestamp
deriving DecidableEq

structure TaskComment where
  taskId : Uuid
deriving DecidableEq

structure Notification where
  id : Uuid
  userId : Uuid
  taskId : Option Uuid
  readAt : Option Timestamp
  createdAt : Timestamp
deriving DecidableEq

/-- The rows of a table with the primary key `id`. -/
structure Table (ρ : Type) (id : ρ → Uuid) where
  rows : List ρ
  id_nodup : (rows.map id).Nodup

structure Db where
  users : Table User User.id
  projects : Table Project Project.id
  projectMembers : List ProjectMember
  tasks : Table Task Task.id
  taskComments : List TaskComment
  notifications : Table Notification Notification.id

/-- `EXISTS (SELECT 1 FROM users u WHERE u.id = p_user_id AND u.role = 'admin')` -/
def isAdmin (db : Db) (userId : Uuid) : Bool :=
  db.users.rows.any fun u => u.id == userId && u.role == .admin

/-- `EXISTS (SELECT 1 FROM project_members pm WHERE pm.project_id = … AND
pm.user_id = p_user_id)` -/
def isMember (db : Db) (projectId userId : Uuid) : Bool :=
  db.projectMembers.any fun pm => pm.projectId == projectId && pm.userId == userId

def fnIsProjectMember (db : Db) (projectId userId : Uuid) : Bool :=
  db.users.rows.any fun u =>
    u.id == userId && u.isActive && (u.role == .admin || isMember db projectId userId)

/-! ### What a list endpoint answers -/

structure ListMeta where
  page : ℕ
  perPage : ℕ
  total : ℕ
  totalPages : ℕ
deriving DecidableEq

structure ListResponse (ρ : Type) where
  items : List ρ
  listMeta : ListMeta

/-- `(total + per_page - 1) // per_page`, and `ceil(total / per_page) if total else 0` -/
def listMeta (page perPage total : ℕ) : ListMeta :=
  ⟨page, perPage, total, (total + perPage - 1) / perPage⟩

/-- How a list endpoint fails: a `NotFoundError`, or the `DBAPIError` of the driver. -/
inductive ListError : Type where
  | notFound
  | dbapi
deriving DecidableEq, Repr

/-- `p_limit` and `p_offset` are of the type `INTEGER`. -/
def WindowFits (limit offset : ℕ) : Prop :=
  (limit : ℤ) ≤ TaskDb.maxInteger ∧ (offset : ℤ) ≤ TaskDb.maxInteger

instance (limit offset : ℕ) : Decidable (WindowFits limit offset) :=
  inferInstanceAs (Decidable (_ ∧ _))

/-- The driver sends `LIMIT` and `OFFSET`. -/
def sendWindow (limit offset : ℕ) : Except ListError Unit :=
  if WindowFits limit offset then .ok () else .error .dbapi

/-- What comes after a window that is sent. -/
theorem sendWindow_bind {α : Type} (limit offset : ℕ) (x : Except ListError α) :
    (sendWindow limit offset >>= fun _ => x) =
      if WindowFits limit offset then x else .error .dbapi := by
  unfold sendWindow
  split_ifs <;> rfl

/-! ### Tasks -/

/-- The `WHERE` clause of `fn_list_tasks` and of `fn_count_tasks`. -/
def taskSelected (db : Db) (userId : Uuid) (projectId : Option Uuid) (status : Option Status)
    (includeInactive unassigned : Bool) (t : Task) : Bool :=
  (includeInactive || t.isActive) && status.all (t.status == ·) &&
    ((projectId.isNone && unassigned && t.projectId.isNone &&
        (isAdmin db userId || t.createdBy == userId)) ||
      (projectId.isNone && !unassigned &&
        ((t.projectId.isNone && (isAdmin db userId || t.createdBy == userId)) ||
          t.projectId.any fun p => isAdmin db userId || isMember db p userId)) ||
      projectId.any fun p =>
        t.projectId == some p && (isAdmin db userId || isMember db p userId))

/-- A row of `fn_list_tasks`. -/
structure TaskListRow where
  task : Task
  projectIsActive : Option Bool
  commentCount : ℕ
  totalCount : ℕ

def fnListTasks (o : OrderBy Task.createdAt) (db : Db) (userId : Uuid) (projectId : Option Uuid)
    (status : Option Status) (includeInactive : Bool) (limit offset : ℕ) (unassigned : Bool) :
    List TaskListRow :=
  let selected := db.tasks.rows.filter
    (taskSelected db userId projectId status includeInactive unassigned)
  (page limit offset (o.sort selected)).map fun t =>
    { task := t
      projectIsActive :=
        (db.projects.rows.find? fun p => t.projectId == some p.id).map Project.isActive
      commentCount := db.taskComments.countP fun c => c.taskId == t.id
      totalCount := selected.length }

def fnCountTasks (db : Db) (userId : Uuid) (projectId : Option Uuid) (status : Option Status)
    (includeInactive unassigned : Bool) : ℕ :=
  db.tasks.rows.countP (taskSelected db userId projectId status includeInactive unassigned)

/-- `list_for_user_with_total` -/
def listForUserWithTotal (o : OrderBy Task.createdAt) (db : Db) (userId : Uuid)
    (projectId : Option Uuid) (status : Option Status) (includeInactive : Bool)
    (limit offset : ℕ) (unassigned : Bool) : Except ListError (List TaskListRow × ℕ) := do
  sendWindow limit offset
  match fnListTasks o db userId projectId status includeInactive limit offset unassigned with
  | [] => return ([], fnCountTasks db userId projectId status includeInactive unassigned)
  | row :: rows => return (row :: rows, row.totalCount)

/-- The query parameter `project_id`. -/
inductive ProjectIdFilter : Type where
  | all
  | unassigned
  | project (projectId : Uuid)

def ProjectIdFilter.projectId : ProjectIdFilter → Option Uuid
  | .project projectId => some projectId
  | _ => none

def ProjectIdFilter.isUnassigned : ProjectIdFilter → Bool
  | .unassigned => true
  | _ => false

/-- Whether `list_tasks` refuses the user. -/
def refusesList (db : Db) (user : User) (filter : ProjectIdFilter) : Bool :=
  user.role != .admin && filter.projectId.any fun p => !fnIsProjectMember db p user.id

/-- `list_tasks` -/
def listTasks (o : OrderBy Task.createdAt) (db : Db) (user : User) (filter : ProjectIdFilter)
    (status : Option Status) (includeInactive : Bool) (page perPage : ℕ) :
    Except ListError (ListResponse TaskListRow) := do
  if refusesList db user filter then throw .notFound
  let (items, total) ← listForUserWithTotal o db user.id filter.projectId status includeInactive
    perPage ((page - 1) * perPage) filter.isUnassigned
  return ⟨items, listMeta page perPage total⟩

/-! ### Projects -/

/-- The `WHERE` clause of `fn_list_projects`. -/
def projectSelected (db : Db) (userId : Uuid) (includeInactive : Bool) (p : Project) : Bool :=
  (includeInactive || p.isActive) &&
    (isAdmin db userId || (isMember db p.id userId && (p.isActive || p.ownerId == userId)))

/-- A row of `fn_list_projects`. -/
structure ProjectListItem where
  project : Project
  memberCount : ℕ
  taskCountTodo : ℕ
  taskCountInProgress : ℕ
  taskCountDone : ℕ
  totalCount : ℕ

/-- The subqueries for the active tasks of a project. -/
def taskCount (db : Db) (projectId : Uuid) (status : Status) : ℕ :=
  db.tasks.rows.countP fun t => t.projectId == some projectId && t.status == status && t.isActive

/-- The page is sorted again after it is joined with its projects: `o` and `o'` are the two
sorts. -/
def fnListProjects (o o' : OrderBy Project.createdAt) (db : Db) (userId : Uuid)
    (includeInactive : Bool) (limit offset : ℕ) : List ProjectListItem :=
  let selected := db.projects.rows.filter (projectSelected db userId includeInactive)
  (o'.sort (page limit offset (o.sort selected))).map fun p =>
    { project := p
      memberCount := db.projectMembers.countP fun pm => pm.projectId == p.id
      taskCountTodo := taskCount db p.id .todo
      taskCountInProgress := taskCount db p.id .inProgress
      taskCountDone := taskCount db p.id .done
      totalCount := selected.length }

/-- `list_projects` -/
def listProjects (o o' : OrderBy Project.createdAt) (db : Db) (user : User) (page perPage : ℕ)
    (includeInactive : Bool) : Except ListError (ListResponse ProjectListItem) := do
  sendWindow perPage ((page - 1) * perPage)
  let items := fnListProjects o o' db user.id includeInactive perPage ((page - 1) * perPage)
  let total := match items with
    | item :: _ => item.totalCount
    | [] => 0
  return ⟨items, listMeta page perPage total⟩

/-! ### Notifications -/

/-- The `WHERE` clause of `fn_list_notifications` and of `fn_count_notifications`. -/
def notificationSelected (userId : Uuid) (unreadOnly : Bool) (n : Notification) : Bool :=
  n.userId == userId && (!unreadOnly || n.readAt.isNone)

/-- A row of `fn_list_notifications`. -/
structure NotificationListItem where
  notification : Notification
  taskTitle : Option String
  taskProjectId : Option Uuid
  totalCount : ℕ

/-- The page is sorted again after it is joined with the tasks. -/
def fnListNotifications (o o' : OrderBy Notification.createdAt) (db : Db) (userId : Uuid)
    (unreadOnly : Bool) (limit offset : ℕ) : List NotificationListItem :=
  let selected := db.notifications.rows.filter (notificationSelected userId unreadOnly)
  (o'.sort (page limit offset (o.sort selected))).map fun n =>
    let task := db.tasks.rows.find? fun t => n.taskId == some t.id
    { notification := n
      taskTitle := task.map fun t => t.title
      taskProjectId := task.bind fun t => t.projectId
      totalCount := selected.length }

def fnCountNotifications (db : Db) (userId : Uuid) (unreadOnly : Bool) : ℕ :=
  db.notifications.rows.countP (notificationSelected userId unreadOnly)

def fnCountUnreadNotifications (db : Db) (userId : Uuid) : ℕ :=
  db.notifications.rows.countP fun n => n.userId == userId && n.readAt.isNone

structure NotificationListResponse extends ListResponse NotificationListItem where
  unreadCount : ℕ

/-- `list_notifications` -/
def listNotifications (o o' : OrderBy Notification.createdAt) (db : Db) (user : User)
    (page perPage : ℕ) (unreadOnly : Bool) : Except ListError NotificationListResponse := do
  sendWindow perPage ((page - 1) * perPage)
  let rows := fnListNotifications o o' db user.id unreadOnly perPage ((page - 1) * perPage)
  let total := match rows with
    | row :: _ => row.totalCount
    | [] => fnCountNotifications db user.id unreadOnly
  let unreadCount := if unreadOnly then total else fnCountUnreadNotifications db user.id
  return ⟨⟨rows, listMeta page perPage total⟩, unreadCount⟩

end Listing
