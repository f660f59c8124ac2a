import TaskManagement.Service.TaskReads
import TaskManagement.Service.Equiv.Listing

/-!
# The task list and the task detail agree

The access rule of tasks is written three times: in `fn_list_tasks`, in `fn_count_tasks` and in
`require_task_access` with `fn_is_project_member`.  `taskList_agrees`: for an active user the list
without a filter has exactly the tasks that `get_task_detail` answers, with the same responses, a
filter selects the tasks of that list that match it, the rows of `fn_list_tasks` are a page of the
selected tasks as its query sorts them, and the count is the size of the list.

* `Visible` is the rule in terms of the tables;
* `requireTaskAccess_iff` and `taskSelected_iff` say that the two ways to check it decide it.
-/

namespace Listing

open TaskDb (Uuid Timestamp Status Role)
open Pages

variable {db : Db} {user : User} {username : String} {filter : ProjectIdFilter}
  {status : Option Status} {includeInactive : Bool} {t : Task}

/-! ### The rule -/

/-- Who may see a task: an administrator, the members of its project, and without a project the
user who created it. -/
def Visible (db : Db) (user : User) (t : Task) : Prop :=
  user.role = .admin ∨ (t.projectId = none ∧ t.createdBy = user.id) ∨
    ∃ p, t.projectId = some p ∧ isMember db p user.id

/-- The task is one that the filter asks for. -/
def ProjectIdFilter.Matches (filter : ProjectIdFilter) (t : Task) : Prop :=
  match filter with
  | .all => True
  | .unassigned => t.projectId = none
  | .project p => t.projectId = some p

instance (filter : ProjectIdFilter) (t : Task) : Decidable (filter.Matches t) := by
  unfold ProjectIdFilter.Matches
  cases filter <;> infer_instance

/-- `is_admin` of the SQL is the role of the user. -/
theorem isAdmin_eq (huser : user ∈ db.users.rows) :
    isAdmin db user.id = decide (user.role = .admin) := by
  rw [isAdmin, Bool.eq_iff_iff, List.any_eq_true, decide_eq_true_iff]
  constructor
  · rintro ⟨u, hu, h⟩
    obtain ⟨hid, hrole⟩ := Bool.and_eq_true_iff.mp h
    obtain rfl := List.inj_on_of_nodup_map db.users.id_nodup hu huser (beq_iff_eq.mp hid)
    exact beq_iff_eq.mp hrole
  · intro h
    exact ⟨user, huser, by simp [h]⟩

/-- `fn_is_project_member` for an active user. -/
theorem fnIsProjectMember_eq (huser : user ∈ db.users.rows) (hactive : user.isActive) (p : Uuid) :
    fnIsProjectMember db p user.id =
      (decide (user.role = .admin) || isMember db p user.id) := by
  rw [fnIsProjectMember, Bool.eq_iff_iff, List.any_eq_true]
  constructor
  · rintro ⟨u, hu, h⟩
    simp only [Bool.and_eq_true, beq_iff_eq] at h
    obtain rfl := List.inj_on_of_nodup_map db.users.id_nodup hu huser h.1.1
    simpa using h.2
  · intro h
    exact ⟨user, huser, by simpa [hactive] using h⟩

/-- `require_task_access` decides the rule, for active tasks. -/
theorem requireTaskAccess_iff (huser : user ∈ db.users.rows) (hactive : user.isActive) :
    requireTaskAccess db t user = true ↔ t.isActive = true ∧ Visible db user t := by
  unfold requireTaskAccess Visible
  cases hp : t.projectId with
  | none => simp
  | some p => simp [fnIsProjectMember_eq huser hactive]

/-- The `WHERE` clause of the list decides the rule, for the tasks that the filter asks for. -/
theorem taskSelected_iff (huser : user ∈ db.users.rows) :
    taskSelected db user.id filter.projectId status includeInactive filter.isUnassigned t = true ↔
      (includeInactive = true ∨ t.isActive = true) ∧ (∀ s ∈ status, t.status = s) ∧
        filter.Matches t ∧ Visible db user t := by
  unfold taskSelected Visible ProjectIdFilter.Matches
  rw [isAdmin_eq huser]
  have hstatus : status.all (t.status == ·) = true ↔ ∀ s ∈ status, t.status = s := by
    cases status <;> simp
  simp only [Bool.and_eq_true, Bool.or_eq_true, hstatus, and_assoc]
  refine and_congr_right fun _ => and_congr_right fun _ => ?_
  cases filter with
  | all =>
    cases hp : t.projectId with
    | none => simp [ProjectIdFilter.projectId, ProjectIdFilter.isUnassigned]
    | some p => simp [ProjectIdFilter.projectId, ProjectIdFilter.isUnassigned]
  | unassigned =>
    cases hp : t.projectId with
    | none => simp [ProjectIdFilter.projectId, ProjectIdFilter.isUnassigned]
    | some p => simp [ProjectIdFilter.projectId, ProjectIdFilter.isUnassigned]
  | project q =>
    simp only [ProjectIdFilter.projectId, ProjectIdFilter.isUnassigned]
    by_cases hq : t.projectId = some q
    · simp [hq]
    · simp [hq]

/-! ### The list -/

theorem mem_selectedTasks (huser : user ∈ db.users.rows) :
    t ∈ selectedTasks db user filter status includeInactive ↔ t ∈ db.tasks.rows ∧
      (includeInactive = true ∨ t.isActive = true) ∧ (∀ s ∈ status, t.status = s) ∧
        filter.Matches t ∧ Visible db user t := by
  rw [selectedTasks, List.mem_filter, taskSelected_iff huser]

/-- A filter selects the tasks of the whole list that match it. -/
theorem selectedTasks_eq_filter (huser : user ∈ db.users.rows) :
    selectedTasks db user filter status includeInactive =
      (selectedTasks db user .all none includeInactive).filter fun t =>
        decide (filter.Matches t ∧ ∀ s ∈ status, t.status = s) := by
  have hall : ProjectIdFilter.Matches .all = fun _ => True := rfl
  unfold selectedTasks
  rw [List.filter_filter]
  refine List.filter_congr fun t _ => ?_
  rw [Bool.eq_iff_iff, Bool.and_eq_true, decide_eq_true_iff, taskSelected_iff huser,
    taskSelected_iff huser, hall]
  constructor
  · rintro ⟨hactive, hs, hmatch, hvisible⟩
    exact ⟨⟨hmatch, hs⟩, hactive, nofun, trivial, hvisible⟩
  · rintro ⟨⟨hmatch, hs⟩, hactive, -, -, hvisible⟩
    exact ⟨hactive, hs, hmatch, hvisible⟩

theorem fnCountTasks_eq_length :
    fnCountTasks db user.id filter.projectId status includeInactive filter.isUnassigned =
      (selectedTasks db user filter status includeInactive).length :=
  List.countP_eq_length_filter

/-! ### The detail -/

/-- The row of a table that has an id. -/
theorem Table.find?_eq_some_iff {ρ : Type} {id : ρ → Uuid} (table : Table ρ id) {i : Uuid} {r : ρ} :
    (table.rows.find? fun r => id r == i) = some r ↔ r ∈ table.rows ∧ id r = i := by
  have hsome : ∀ {i r}, (table.rows.find? fun r => id r == i) = some r → id r = i := by
    intro i r h
    have hid := List.find?_some h
    simpa using hid
  constructor
  · intro h
    exact ⟨List.mem_of_find?_eq_some h, hsome h⟩
  · rintro ⟨hr, rfl⟩
    cases h : table.rows.find? fun r' => id r' == id r with
    | none => exact absurd (beq_self_eq_true (id r)) (List.find?_eq_none.mp h r hr)
    | some r' =>
      rw [List.inj_on_of_nodup_map table.id_nodup (List.mem_of_find?_eq_some h) hr (hsome h)]

theorem getTaskDetail_eq_some_iff (huser : user ∈ db.users.rows) (hactive : user.isActive)
    {taskId : Uuid} {r : TaskResponse} :
    getTaskDetail db taskId user username = some r ↔
      ∃ t ∈ selectedTasks db user .all none false, t.id = taskId ∧
        r = response (joinTask db t) user username := by
  rw [getTaskDetail, Option.bind_eq_some_iff]
  constructor
  · rintro ⟨row, hrow, h⟩
    obtain ⟨t, ht, rfl⟩ := Option.map_eq_some_iff.mp hrow
    obtain ⟨hmem, hid⟩ := (Table.find?_eq_some_iff db.tasks).mp ht
    split at h
    · rename_i haccess
      obtain ⟨hact, hvisible⟩ := (requireTaskAccess_iff huser hactive).mp haccess
      refine ⟨t, (mem_selectedTasks huser).mpr ⟨hmem, Or.inr hact, nofun, trivial, hvisible⟩, hid, ?_⟩
      exact (Option.some.inj h).symm
    · cases h
  · rintro ⟨t, ht, hid, rfl⟩
    obtain ⟨hmem, hact, -, -, hvisible⟩ := (mem_selectedTasks huser).mp ht
    have haccess : requireTaskAccess db t user = true :=
      (requireTaskAccess_iff huser hactive).mpr ⟨hact.resolve_left Bool.false_ne_true, hvisible⟩
    refine ⟨joinTask db t, ?_, if_pos haccess⟩
    rw [fnGetTask, (Table.find?_eq_some_iff db.tasks).mpr ⟨hmem, hid⟩]
    rfl

/-- An item of the list is the response to a selected task. -/
theorem exists_of_mem_items {o : OrderBy Task.createdAt} {p perPage : ℕ}
    {r : ListResponse TaskResponse} {item : TaskResponse}
    (h : listTaskResponses o db user username filter status includeInactive p perPage = some r)
    (hitem : item ∈ r.items) :
    ∃ t ∈ selectedTasks db user filter status includeInactive,
      item = response (joinTask db t) user username := by
  obtain ⟨l, hl, rfl⟩ := Option.map_eq_some_iff.mp h
  obtain ⟨row, hrow, rfl⟩ := List.mem_map.mp hitem
  by_cases hrefuses : refusesList db user filter = true
  · rw [listTasks, if_pos hrefuses] at hl
    cases hl
  · rw [listTasks, if_neg hrefuses, listForUserWithTotal_eq] at hl
    by_cases hfits : WindowFits perPage ((p - 1) * perPage)
    · rw [if_pos hfits] at hl
      obtain rfl := Option.some.inj hl
      obtain ⟨t, ht, rfl⟩ := List.mem_map.mp hrow
      exact ⟨t, (o.perm _).mem_iff.mp (List.mem_of_mem_drop (List.mem_of_mem_take ht)), rfl⟩
    · rw [if_neg hfits] at hl
      cases hl

/-! ### Agreement -/

/-- **The task list and the task detail agree.** -/
theorem taskList_agrees (db : Db) (username : String) (huser : user ∈ db.users.rows)
    (hactive : user.isActive) :
    (∀ taskId r, getTaskDetail db taskId user username = some r ↔
      ∃ t ∈ selectedTasks db user .all none false, t.id = taskId ∧
        r = response (joinTask db t) user username) ∧
    (∀ o filter status p perPage r,
      listTaskResponses o db user username filter status false p perPage = some r →
        ∀ item ∈ r.items, getTaskDetail db item.id user username = some item) ∧
    (∀ o filter status limit offset, (fnListTasks o db user.id filter.projectId status false limit
        offset filter.isUnassigned).map TaskListRow.task =
      page limit offset (o.sort (selectedTasks db user filter status false))) ∧
    (∀ filter status, selectedTasks db user filter status false =
      (selectedTasks db user .all none false).filter fun t =>
        decide (filter.Matches t ∧ ∀ s ∈ status, t.status = s)) ∧
    ∀ filter status,
      fnCountTasks db user.id filter.projectId status false filter.isUnassigned =
        (selectedTasks db user filter status false).length := by
  refine ⟨fun _ _ => getTaskDetail_eq_some_iff huser hactive, fun o filter status p perPage r h item
    hitem => ?_, fun o filter status => map_task_fnListTasks o db user filter status false,
    fun _ _ => selectedTasks_eq_filter huser, fun _ _ => fnCountTasks_eq_length⟩
  obtain ⟨t, ht, rfl⟩ := exists_of_mem_items h hitem
  rw [selectedTasks_eq_filter huser] at ht
  exact (getTaskDetail_eq_some_iff huser hactive).mpr ⟨t, List.mem_of_mem_filter ht, rfl, rfl⟩

/-- A member of the project 2, which has two tasks, and a task of another user without a project. -/
def memberDb : Db where
  users := ⟨[⟨1, .member, true⟩, ⟨7, .member, true⟩], by decide⟩
  projects := ⟨[⟨2, 7, true, 0⟩], by decide⟩
  projectMembers := [⟨2, 7⟩, ⟨2, 1⟩]
  tasks := ⟨[sameMomentTask 3 "a" 0, { sameMomentTask 4 "b" 1 with isActive := false },
    { sameMomentTask 5 "c" 0 with projectId := none, createdBy := 7 }], by decide⟩
  taskComments := [⟨3⟩, ⟨5⟩, ⟨3⟩]
  notifications := ⟨[], by decide⟩

theorem taskList_agrees_memberDb :
    getTaskDetail memberDb 3 ⟨1, .member, true⟩ "taro" = some
        (response (joinTask memberDb (sameMomentTask 3 "a" 0)) ⟨1, .member, true⟩ "taro") ∧
      getTaskDetail memberDb 5 ⟨1, .member, true⟩ "taro" = none ∧
      selectedTasks memberDb ⟨1, .member, true⟩ (.project 2) none false = [sameMomentTask 3 "a" 0] ∧
      (joinTask memberDb (sameMomentTask 3 "a" 0)).commentCount = 2 := by
  have huser : ⟨1, .member, true⟩ ∈ memberDb.users.rows := by decide
  obtain ⟨hdetail, -⟩ := taskList_agrees memberDb "taro" huser rfl
  exact ⟨(hdetail 3 _).mpr ⟨sameMomentTask 3 "a" 0, by decide, rfl, rfl⟩, by decide, by decide,
    by decide⟩

end Listing
