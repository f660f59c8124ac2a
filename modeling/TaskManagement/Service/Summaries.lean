import TaskManagement.Service.Listing

/-!
# The summaries of a project

`_summary` and `_counts` of the project service, and what `list_projects`, `get_project_detail` and
`update_project` answer with them: the first counts in `fn_list_projects`, the second counts the rows
of `fn_list_project_members` and `fn_get_project_board`, and the third leaves the arguments of
`_summary` at their defaults.

`_owner(project.owner)` is left out.  `get_by_id` does not load the owner, so `get_project_detail`
and `update_project` can read it only where the session has the owner already, as it has when the
owner is a member whom the request has loaded; otherwise they end with `MissingGreenlet` and have no
response.
-/

namespace Listing

open TaskDb (Uuid Timestamp Status)
open Pages

structure ProjectTaskCounts where
  todo : ℕ
  inProgress : ℕ
  done : ℕ
deriving DecidableEq, Repr

structure ProjectSummaryResponse where
  id : Uuid
  ownerId : Uuid
  memberCount : ℕ
  taskCounts : ProjectTaskCounts
  isOwner : Bool
  isActive : Bool
  createdAt : Timestamp
deriving DecidableEq, Repr

/-- `_summary`; the default of `member_count` is 0, and that of `task_counts` has zeros. -/
def summary (project : Project) (userId : Uuid) (memberCount : ℕ := 0)
    (taskCounts : Option ProjectTaskCounts := none) : ProjectSummaryResponse where
  id := project.id
  ownerId := project.ownerId
  memberCount := memberCount
  taskCounts := taskCounts.getD ⟨0, 0, 0⟩
  isOwner := project.ownerId == userId
  isActive := project.isActive
  createdAt := project.createdAt

/-- `_counts` -/
def counts (item : ProjectListItem) : ProjectTaskCounts where
  todo := item.taskCountTodo
  inProgress := item.taskCountInProgress
  done := item.taskCountDone

/-- The items of the response of `list_projects`, if there is one. -/
def listSummaries (o o' : OrderBy Project.createdAt) (db : Db) (user : User) (page perPage : ℕ)
    (includeInactive : Bool) : List ProjectSummaryResponse :=
  match listProjects o o' db user page perPage includeInactive with
  | .ok r => r.items.map fun item =>
    summary item.project user.id item.memberCount (some (counts item))
  | .error _ => []

/-! ### `get_project_detail` -/

/-- The key of `ORDER BY t.status, t.position`. -/
def boardKey (t : Task) : (Status ×ₗ ℤ)ᵒᵈ := OrderDual.toDual (toLex (t.status, t.position))

/-- The tasks of the rows of `fn_get_project_board`. -/
def fnGetProjectBoard (o : OrderBy boardKey) (db : Db) (projectId : Uuid) (includeInactive : Bool) :
    List Task :=
  o.sort (db.tasks.rows.filter fun t =>
    t.projectId == some projectId && (includeInactive || t.isActive))

/-- An `ORDER BY` of memberships; the column `joined_at` is not among those of `ProjectMember`. -/
structure JoinOrder where
  sort : List ProjectMember → List ProjectMember
  perm : ∀ l, (sort l).Perm l

def fnListProjectMembers (o : JoinOrder) (db : Db) (projectId : Uuid) : List ProjectMember :=
  o.sort (db.projectMembers.filter fun pm => pm.projectId == projectId)

structure ProjectDetailMember where
  userId : Uuid
  isOwner : Bool
deriving DecidableEq, Repr

structure ProjectDetailResponse extends ProjectSummaryResponse where
  members : List ProjectDetailMember
deriving DecidableEq, Repr

def getProjectDetail (joined : JoinOrder) (board : OrderBy boardKey) (db : Db) (project : Project)
    (user : User) : ProjectDetailResponse :=
  let members := fnListProjectMembers joined db project.id
  let tasks := fnGetProjectBoard board db project.id true
  let taskCounts : ProjectTaskCounts :=
    { todo := tasks.countP fun t => t.status == .todo
      inProgress := tasks.countP fun t => t.status == .inProgress
      done := tasks.countP fun t => t.status == .done }
  { toProjectSummaryResponse := summary project user.id members.length (some taskCounts)
    members := members.map fun member =>
      { userId := member.userId, isOwner := member.userId == project.ownerId } }

/-! ### `update_project` -/

/-- What `sp_update_project` and `sp_deactivate_project` write to the columns that are modelled here:
`is_active`, if the payload has it. -/
def Project.update (isActive : Option Bool) (projectId : Uuid) (p : Project) : Project :=
  if p.id = projectId then { p with isActive := isActive.getD p.isActive } else p

theorem Project.update_id (isActive : Option Bool) (projectId : Uuid) (p : Project) :
    (p.update isActive projectId).id = p.id := by
  unfold Project.update
  split_ifs <;> rfl

def Db.updateProject (db : Db) (projectId : Uuid) (isActive : Option Bool) : Db :=
  { db with
    projects :=
      { rows := db.projects.rows.map (Project.update isActive projectId)
        id_nodup := by
          rw [List.map_map, show Project.id ∘ Project.update isActive projectId = Project.id from
            funext (Project.update_id isActive projectId)]
          exact db.projects.id_nodup } }

/-- `update_project`: the rows that it commits, and its response; `none` is a `NotFoundError`. -/
def updateProject (db : Db) (project : Project) (user : User) (isActive : Option Bool) :
    Option (Db × ProjectSummaryResponse) :=
  let db' := db.updateProject project.id isActive
  (db'.projects.rows.find? fun p => p.id == project.id).map fun updated =>
    (db', summary updated user.id)

end Listing
