import TaskManagement.Service.Summaries

/-!
# When the summaries of a project agree

The numbers that `list_projects` reports for a project are those of `get_project_detail` exactly if
all its tasks are active (`list_detail_iff`), and those of the response of `update_project` exactly
if it has no member and no active task (`list_update_iff`): the three agree exactly if neither a
membership nor a task refers to the project (`summaries_agree_iff`).
-/

namespace Listing

open TaskDb (Uuid Timestamp Status)
open Pages

/-- The numbers of a summary. -/
def ProjectSummaryResponse.numbers (r : ProjectSummaryResponse) : ℕ × ProjectTaskCounts :=
  (r.memberCount, r.taskCounts)

/-- A stronger condition counts as many elements if it does not exclude one. -/
theorem countP_and_eq_iff {α : Type} {l : List α} {q r : α → Bool} :
    (l.countP fun a => q a && r a) = l.countP q ↔ ∀ a ∈ l, q a = true → r a = true := by
  induction l with
  | nil => simp
  | cons a l ih =>
    have hle : (l.countP fun a => q a && r a) ≤ l.countP q :=
      List.countP_mono_left fun b _ hb => (Bool.and_eq_true _ _ ▸ hb).1
    rw [List.countP_cons, List.countP_cons, List.forall_mem_cons, ← ih]
    cases hq : q a with
    | false => simp
    | true =>
      cases hr : r a with
      | false =>
        simp only [Bool.and_false, Bool.false_eq_true, if_false, if_true]
        refine iff_of_false (by omega) fun h => ?_
        simp at h
      | true => simp

section

variable {db : Db} {project : Project} {user : User}

/-- The subqueries of `fn_list_projects`. -/
def listNumbers (db : Db) (projectId : Uuid) : ℕ × ProjectTaskCounts :=
  (db.projectMembers.countP fun pm => pm.projectId == projectId,
    ⟨taskCount db projectId .todo, taskCount db projectId .inProgress, taskCount db projectId .done⟩)

/-- The tasks of a project in a status, active or not. -/
def boardCount (db : Db) (projectId : Uuid) (status : Status) : ℕ :=
  db.tasks.rows.countP fun t => t.projectId == some projectId && t.status == status

/-- What `list_projects` reports for its items. -/
theorem numbers_of_mem_listSummaries {o o' : OrderBy Project.createdAt} {page perPage : ℕ}
    {includeInactive : Bool} {item : ProjectSummaryResponse}
    (h : item ∈ listSummaries o o' db user page perPage includeInactive) :
    item.numbers = listNumbers db item.id := by
  unfold listSummaries listProjects at h
  rw [sendWindow_bind] at h
  by_cases hfits : WindowFits perPage ((page - 1) * perPage)
  · rw [if_pos hfits] at h
    obtain ⟨row, hrow, rfl⟩ := List.mem_map.mp h
    obtain ⟨p, -, rfl⟩ := List.mem_map.mp hrow
    rfl
  · rw [if_neg hfits] at h
    cases h

theorem numbers_getProjectDetail (joined : JoinOrder) (board : OrderBy boardKey) :
    (getProjectDetail joined board db project user).numbers =
      (db.projectMembers.countP fun pm => pm.projectId == project.id,
        ⟨boardCount db project.id .todo, boardCount db project.id .inProgress,
          boardCount db project.id .done⟩) := by
  have hboard : ∀ status : Status, ((fnGetProjectBoard board db project.id true).countP
      fun t => t.status == status) = boardCount db project.id status := by
    intro status
    rw [fnGetProjectBoard, (board.perm _).countP_eq, List.countP_filter, boardCount]
    refine List.countP_congr fun t _ => ?_
    simp [and_comm]
  have hmembers : (fnListProjectMembers joined db project.id).length =
      db.projectMembers.countP fun pm => pm.projectId == project.id := by
    rw [fnListProjectMembers, (joined.perm _).length_eq, List.countP_eq_length_filter]
  simp only [getProjectDetail, ProjectSummaryResponse.numbers, summary, hmembers, hboard,
    Option.getD_some]

/-- What `update_project` commits and reports. -/
theorem updateProject_eq_some {isActive : Option Bool} {db' : Db} {r : ProjectSummaryResponse}
    (h : updateProject db project user isActive = some (db', r)) :
    r.numbers = (0, ⟨0, 0, 0⟩) ∧ db'.projectMembers = db.projectMembers ∧ db'.tasks = db.tasks := by
  obtain ⟨updated, -, heq⟩ := Option.map_eq_some_iff.mp h
  obtain ⟨rfl, rfl⟩ := Prod.mk.inj heq
  exact ⟨rfl, rfl, rfl⟩

theorem taskCount_eq_boardCount_iff {projectId : Uuid} {status : Status} :
    taskCount db projectId status = boardCount db projectId status ↔
      ∀ t ∈ db.tasks.rows, t.projectId = some projectId → t.status = status →
        t.isActive = true := by
  rw [taskCount, boardCount, countP_and_eq_iff]
  simp

theorem taskCount_eq_zero_iff {projectId : Uuid} {status : Status} :
    taskCount db projectId status = 0 ↔
      ∀ t ∈ db.tasks.rows, t.projectId = some projectId → t.status = status →
        t.isActive = false := by
  rw [taskCount, List.countP_eq_zero]
  simp

/-- A property of the tasks in each of the three statuses. -/
theorem forall_status_iff {P : Status → Prop} :
    P .todo ∧ P .inProgress ∧ P .done ↔ ∀ status, P status := by
  constructor
  · rintro ⟨h1, h2, h3⟩ status
    cases status
    · exact h1
    · exact h2
    · exact h3
  · intro h
    exact ⟨h .todo, h .inProgress, h .done⟩

/-- The list counts active tasks only, the detail all of them. -/
theorem list_detail_iff (joined : JoinOrder) (board : OrderBy boardKey) :
    listNumbers db project.id = (getProjectDetail joined board db project user).numbers ↔
      ∀ t ∈ db.tasks.rows, t.projectId = some project.id → t.isActive = true := by
  rw [numbers_getProjectDetail]
  simp only [listNumbers, Prod.mk.injEq, true_and, ProjectTaskCounts.mk.injEq]
  rw [forall_status_iff (P := fun s => taskCount db project.id s = boardCount db project.id s)]
  simp only [taskCount_eq_boardCount_iff]
  constructor
  · intro h t ht hp
    exact h t.status t ht hp rfl
  · intro h status t ht hp _
    exact h t ht hp

/-- The response of an update has zeros. -/
theorem list_update_iff {isActive : Option Bool} {db' : Db} {r : ProjectSummaryResponse}
    (h : updateProject db project user isActive = some (db', r)) :
    listNumbers db project.id = r.numbers ↔
      (∀ pm ∈ db.projectMembers, pm.projectId ≠ project.id) ∧
        ∀ t ∈ db.tasks.rows, t.projectId = some project.id → t.isActive = false := by
  rw [(updateProject_eq_some h).1]
  simp only [listNumbers, Prod.mk.injEq, ProjectTaskCounts.mk.injEq, List.countP_eq_zero,
    beq_iff_eq]
  rw [forall_status_iff (P := fun s => taskCount db project.id s = 0)]
  simp only [taskCount_eq_zero_iff]
  refine and_congr_right fun _ => ?_
  constructor
  · intro h t ht hp
    exact h t.status t ht hp rfl
  · intro h status t ht hp _
    exact h t ht hp

end

/-- The three services report the same numbers for a project that the list contains exactly if no
membership and no task refers to it. -/
theorem summaries_agree_iff (db : Db) (user : User) (o o' : OrderBy Project.createdAt)
    (page perPage : ℕ) (includeInactive : Bool) (joined : JoinOrder) (board : OrderBy boardKey)
    (item : ProjectSummaryResponse) (project : Project) (isActive : Option Bool) (db' : Db)
    (updated : ProjectSummaryResponse)
    (hitem : item ∈ listSummaries o o' db user page perPage includeInactive)
    (hid : item.id = project.id)
    (hupdate : updateProject db project user isActive = some (db', updated)) :
    (item.numbers = (getProjectDetail joined board db project user).numbers ∧
        item.numbers = updated.numbers) ↔
      (∀ pm ∈ db.projectMembers, pm.projectId ≠ project.id) ∧
        ∀ t ∈ db.tasks.rows, t.projectId ≠ some project.id := by
  rw [numbers_of_mem_listSummaries hitem, hid, list_detail_iff, list_update_iff hupdate]
  constructor
  · rintro ⟨hactive, hmembers, hinactive⟩
    refine ⟨hmembers, fun t ht hp => ?_⟩
    have htrue := hactive t ht hp
    rw [hinactive t ht hp] at htrue
    cases htrue
  · rintro ⟨hmembers, htasks⟩
    exact ⟨fun t ht hp => absurd hp (htasks t ht), hmembers, fun t ht hp => absurd hp (htasks t ht)⟩

/-! ### Two projects -/

/-- The first page of a user with no more projects than it holds. -/
theorem mem_listSummaries_of_length_le {db : Db} {user : User} {o o' : OrderBy Project.createdAt}
    {includeInactive : Bool} {p : Project} (hp : p ∈ db.projects.rows)
    (hselected : projectSelected db user.id includeInactive p = true)
    (hlength : db.projects.rows.length ≤ 20) :
    summary p user.id (listNumbers db p.id).1 (some (listNumbers db p.id).2) ∈
      listSummaries o o' db user 1 20 includeInactive := by
  have hfits : WindowFits 20 ((1 - 1) * 20) := by decide
  have hpage : p ∈ o'.sort (page 20 ((1 - 1) * 20)
      (o.sort (db.projects.rows.filter (projectSelected db user.id includeInactive)))) := by
    rw [(o'.perm _).mem_iff, page, Nat.sub_self, Nat.zero_mul, List.drop_zero,
      List.take_of_length_le, (o.perm _).mem_iff, List.mem_filter]
    · exact ⟨hp, hselected⟩
    · rw [(o.perm _).length_eq]
      exact (List.length_filter_le _ _).trans hlength
  unfold listSummaries listProjects
  rw [sendWindow_bind, if_pos hfits]
  exact List.mem_map.mpr ⟨_, List.mem_map_of_mem hpage, rfl⟩

/-- The administrator 3 has the project 2, in which nothing is, and the project 4 with the member 5,
a task and a deleted task. -/
def twoProjectsDb : Db where
  users := ⟨[⟨3, .admin, true⟩, ⟨5, .member, true⟩], by decide⟩
  projects := ⟨[⟨2, 3, true, 0⟩, ⟨4, 3, true, 1⟩], by decide⟩
  projectMembers := [⟨4, 3⟩, ⟨4, 5⟩]
  tasks := ⟨[
    { projectId := some 4, title := "task", description := none, status := .todo,
      assigneeId := some 5, createdBy := 3, position := 0, version := 1, dueAt := none,
      isActive := true, id := 6, createdAt := 2, updatedAt := 2 },
    { projectId := some 4, title := "deleted", description := none, status := .done,
      assigneeId := none, createdBy := 3, position := 0, version := 2, dueAt := none,
      isActive := false, id := 7, createdAt := 3, updatedAt := 4 }], by decide⟩
  taskComments := []
  notifications := ⟨[], List.nodup_nil⟩

/-- Without an `ORDER BY`. -/
def JoinOrder.asStored : JoinOrder where
  sort l := l
  perm := List.Perm.refl

/-- What the administrator is told of the projects: the list and the update. -/
def listed (p : Project) : ProjectSummaryResponse :=
  summary p 3 (listNumbers twoProjectsDb p.id).1 (some (listNumbers twoProjectsDb p.id).2)

theorem summaries_agree_iff_twoProjects :
    ((listed ⟨2, 3, true, 0⟩).numbers = (getProjectDetail .asStored (.mergeSort _) twoProjectsDb
        ⟨2, 3, true, 0⟩ ⟨3, .admin, true⟩).numbers ∧
      (listed ⟨2, 3, true, 0⟩).numbers = (summary ⟨2, 3, true, 0⟩ 3).numbers) ∧
    ¬((listed ⟨4, 3, true, 1⟩).numbers = (getProjectDetail .asStored (.mergeSort _) twoProjectsDb
        ⟨4, 3, true, 1⟩ ⟨3, .admin, true⟩).numbers ∧
      (listed ⟨4, 3, true, 1⟩).numbers = (summary ⟨4, 3, true, 1⟩ 3).numbers) := by
  constructor
  · refine (summaries_agree_iff twoProjectsDb ⟨3, .admin, true⟩ (.mergeSort _) (.mergeSort _) 1 20
      false .asStored (.mergeSort _) (listed ⟨2, 3, true, 0⟩) ⟨2, 3, true, 0⟩ none
      (twoProjectsDb.updateProject 2 none) (summary ⟨2, 3, true, 0⟩ 3)
      (mem_listSummaries_of_length_le (by decide) (by decide) (by decide)) rfl rfl).mpr ?_
    exact ⟨by decide, by decide⟩
  · intro h
    have hnone := (summaries_agree_iff twoProjectsDb ⟨3, .admin, true⟩ (.mergeSort _) (.mergeSort _)
      1 20 false .asStored (.mergeSort _) (listed ⟨4, 3, true, 1⟩) ⟨4, 3, true, 1⟩ none
      (twoProjectsDb.updateProject 4 none) (summary ⟨4, 3, true, 1⟩ 3)
      (mem_listSummaries_of_length_le (by decide) (by decide) (by decide)) rfl rfl).mp h
    exact hnone.1 ⟨4, 3⟩ (by decide) rfl

/-- The response of an update says that a project with members has none. -/
theorem summaries_disagree :
    ¬∀ (db : Db) (user : User) (o o' : OrderBy Project.createdAt) (page perPage : ℕ)
      (includeInactive : Bool) (joined : JoinOrder) (board : OrderBy boardKey)
      (item : ProjectSummaryResponse) (project : Project) (isActive : Option Bool) (db' : Db)
      (updated : ProjectSummaryResponse),
      item ∈ listSummaries o o' db user page perPage includeInactive → item.id = project.id →
      updateProject db project user isActive = some (db', updated) →
      item.numbers = (getProjectDetail joined board db project user).numbers ∧
        item.numbers = updated.numbers := by
  intro h
  have hboth := h twoProjectsDb ⟨3, .admin, true⟩ (.mergeSort _) (.mergeSort _) 1 20 false .asStored
    (.mergeSort _) (listed ⟨4, 3, true, 1⟩) ⟨4, 3, true, 1⟩ none
    (twoProjectsDb.updateProject 4 none) (summary ⟨4, 3, true, 1⟩ 3)
    (mem_listSummaries_of_length_le (by decide) (by decide) (by decide)) rfl rfl
  exact absurd hboth.2 (by decide)

end Listing
