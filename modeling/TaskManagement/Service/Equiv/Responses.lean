import TaskManagement.Frontend.Board
import TaskManagement.ReadCommitted.Solo
import TaskManagement.Service.Equiv.Checks
import TaskManagement.Service.Equiv.TaskReads

/-!
# What the responses say of people and of the project

`_build_task` leaves the relationships of its `Task` object unset, so `_assignee` never finds an
assignee and `_creator` always falls back to the current user.  `responses_tellPeople_iff`: a
response tells who the assignee and the creator of its task are exactly when the task has no
assignee and was created by the current user, and a board tells whether its project is active
exactly when the project is active or the board has a task.

* `TellsPeople` is what a response with an assignee and a creator promises;
* `solo_createTask` and `solo_updateTask` say which row the two services read back.
-/

namespace Responses

open TaskDb ReadCommitted

/-! ### The mappers -/

/-- The response names the assignee and the creator of the task. -/
structure TaskDetailResponse.TellsPeople (r : TaskDetailResponse) (task : Task) : Prop where
  assignee : r.assignee.map TaskAssignee.id = task.assigneeId
  createdBy : r.createdBy.id = task.createdBy

theorem tellsPeople_response_iff {row : TaskRow} {user : NamedUser} :
    (response (buildTaskWithProjectStatus row) user).TellsPeople row.task ↔
      row.task.assigneeId = none ∧ row.task.createdBy = user.id := by
  constructor
  · intro h
    exact ⟨h.assignee.symm, h.createdBy.symm⟩
  · rintro ⟨hassignee, hcreator⟩
    exact ⟨hassignee.symm, hcreator.symm⟩

/-! ### Tasks that are read back -/

section Solo

variable {db : Db} {user : NamedUser} {day : AppDay}

theorem solo_readBack (taskId : Uuid) {allowed : Error → Prop} (hallowed : allowed .notFound) :
    Solo schema allowed (readBack taskId user) db fun r db' => db' = db ∧
      ∃ row, taskRow db taskId = some row ∧ r = response (buildTaskWithProjectStatus row) user := by
  refine Solo.bind (Solo.select ?_)
  cases h : taskRow db taskId with
  | none => exact Solo.throw hallowed
  | some row => exact Solo.ret ⟨rfl, row, rfl, rfl⟩

/-- A response to the row `row` of the task `r.id`. -/
def RespondsTo (r : TaskDetailResponse) (user : NamedUser) (db : Db) (task : Task) : Prop :=
  ∃ row, taskRow db r.id = some row ∧ row.task = task ∧
    r = response (buildTaskWithProjectStatus row) user

theorem RespondsTo.row {r : TaskDetailResponse} {task : Task} (h : RespondsTo r user db task) :
    db.row (.task r.id) = some task := by
  obtain ⟨row, hrow, rfl, -⟩ := h
  obtain ⟨task, htask, rfl⟩ := Option.map_eq_some_iff.mp hrow
  exact htask

theorem RespondsTo.tellsPeople_iff {r : TaskDetailResponse} {task : Task}
    (h : RespondsTo r user db task) :
    r.TellsPeople task ↔ task.assigneeId = none ∧ task.createdBy = user.id := by
  obtain ⟨row, -, rfl, rfl⟩ := h
  exact tellsPeople_response_iff

/-- `readBack` for a task whose row is known. -/
theorem solo_readBack_of_row {taskId : Uuid} {task : Task} (h : db.row (.task taskId) = some task) :
    Solo schema (fun _ => True) (readBack taskId user) db fun r db' => r.id = taskId ∧
      RespondsTo r user db' task := by
  refine (solo_readBack taskId trivial).mono ?_
  rintro r _ ⟨rfl, row, hrow, rfl⟩
  obtain ⟨task', htask', rfl⟩ := Option.map_eq_some_iff.mp hrow
  obtain rfl := Option.some.inj (htask'.symm.trans h)
  exact ⟨rfl, _, hrow, rfl, rfl⟩

/-- No task row changes. -/
def tasksKept : Effect Row where
  rel
    | .task _, o, o' => o' = o
    | _, _, _ => True
  refl i _ := by
    cases i with
    | task t => rfl
    | _ => trivial

/-- Task rows stay and keep their creator. -/
def creatorsKept : Effect Row where
  rel
    | .task _, o, o' => ∀ r, o = some r → ∃ r', o' = some r' ∧ r'.createdBy = r.createdBy
    | _, _, _ => True
  refl i o := by
    cases i with
    | task t => exact fun r h => ⟨r, h, rfl⟩
    | _ => trivial

theorem conformsShifts_creatorsKept {project : Option Uuid} :
    ConformsShifts creatorsKept project := by
  intro s range _ except δ i o r w h hu
  cases i with
  | task t =>
    simp only [shiftPositions] at hu
    split_ifs at hu
    obtain rfl := Option.some.inj hu
    intro r₀ hr₀
    obtain ⟨r₁, hr₁, hc⟩ := h r₀ hr₀
    obtain rfl := Option.some.inj hr₁
    exact ⟨_, rfl, hc⟩
  | _ => trivial

theorem admitsNotification_tasksKept : AdmitsNotification tasksKept := fun _ _ _ _ _ => trivial

/-- The task that `sp_create_task` inserts. -/
theorem solo_spCreateTask {p : CreateTask} :
    Solo schema (fun _ => True) (spCreateTask p) db fun taskId db' =>
      ∃ n, db'.row (.task taskId) = some (p.task n) := by
  refine Solo.bind ((Solo.of_conforms (Proc.conforms_any _)).mono fun _ db₁ _ => ?_)
  refine Solo.bind (Solo.advisoryLock ?_)
  refine Solo.bind ((Solo.of_conforms (Proc.conforms_any _)).mono fun n db₂ _ => ?_)
  refine Solo.bind (Solo.generate fun taskId _ => ?_)
  refine Solo.bind (Solo.insertOrRaise (fun _ => trivial) (fun _ _ => trivial) fun _ => ?_)
  refine Solo.bind ((Solo.of_conforms admitsNotification_tasksKept.notifyCreated).mono
    fun _ db₃ h => ?_)
  refine Solo.ret ⟨n, (h (.task taskId)).trans ?_⟩
  rw [Store.set_row_self]

/-- `create_task` responds to a task of the payload that the current user created. -/
theorem solo_createTask {projectId : Option Uuid} {payload : TaskCreateRequest} :
    Solo schema (fun _ => True) (createTask projectId payload user day) db fun r db' =>
      ∃ task, RespondsTo r user db' task ∧ task.assigneeId = payload.assigneeId ∧
        task.createdBy = user.id := by
  refine Solo.bind (solo_spCreateTask.mono fun taskId db' h => ?_)
  obtain ⟨n, hrow⟩ := h
  exact (solo_readBack_of_row hrow).mono fun r db'' h => ⟨_, h.2, rfl, rfl⟩

/-- The task row that `sp_update_task` leaves. -/
theorem solo_spUpdateTask_row {p : UpdateTask} {old : Task}
    (hrow : db.row (.task p.taskId) = some old) :
    Solo schema (fun _ => True) (spUpdateTask p) db fun _ db' =>
      ∃ n r, db'.row (.task p.taskId) = some (p.apply n r) ∧ r.createdBy = old.createdBy := by
  have hkept : ∀ {α : Type} {q : TaskProc α} {db₁ : Db} {r : Task},
      db₁.row (.task p.taskId) = some r → q.Conforms creatorsKept →
        Solo schema (fun _ => True) q db₁ fun _ db₂ =>
          ∃ r', db₂.row (.task p.taskId) = some r' ∧ r'.createdBy = r.createdBy :=
    fun hr hq => (Solo.of_conforms hq).mono fun _ _ h => h (.task p.taskId) _ hr
  refine Solo.bind (Solo.select ?_)
  rw [hrow]
  refine Solo.bind ((hkept hrow conforms_lockColumns).mono fun _ db₁ h₁ => ?_)
  obtain ⟨r₁, hr₁, hc₁⟩ := h₁
  refine Solo.bind (Solo.selectForUpdate ?_)
  rw [hr₁]
  refine Solo.bind (Solo.raiseIf (fun _ => trivial) fun hver => ?_)
  refine Solo.bind ((hkept hr₁ (conforms_requireActiveAssignee _)).mono fun _ db₂ h₂ => ?_)
  obtain ⟨r₂, hr₂, hc₂⟩ := h₂
  refine Solo.bind ((hkept hr₂ conformsShifts_creatorsKept.movePositions).mono fun n db₃ h₃ => ?_)
  obtain ⟨r₃, hr₃, hc₃⟩ := h₃
  refine Solo.bind (Solo.update (fun _ _ _ _ _ _ _ => trivial) fun db₄ hup _ => ?_)
  refine Solo.bind (Solo.raiseIf (fun _ => trivial) fun hne => ?_)
  refine (Solo.of_conforms admitsNotification_tasksKept.notifyUpdated).mono fun _ db₅ h₅ => ?_
  -- the final `UPDATE` found the row
  obtain ⟨i, hi⟩ := List.exists_mem_of_length_pos (Nat.pos_of_ne_zero hne)
  obtain ⟨r, w, hr, hw⟩ := Store.mem_matching.mp hi
  have hit : i = .task p.taskId := by
    by_contra hit
    rw [setTask_of_ne r hit] at hw
    cases hw
  subst hit
  obtain rfl := Option.some.inj (hr₃.symm.trans hr)
  have hw' : setTask p.taskId (fun r => r.version = p.version) (p.apply n) (.task p.taskId) r₃ =
      some (some (p.apply n r₃)) := by
    simp only [setTask] at hw ⊢
    split_ifs at hw ⊢
    rfl
  refine ⟨n, r₃, (h₅ (.task p.taskId)).trans ?_, hc₃.trans (hc₂.trans hc₁)⟩
  rw [hup, hr₃, Option.bind_some, hw']
  rfl

/-- `update_task` responds to the task with the assignee of the call and its creator. -/
theorem solo_updateTask {taskId : Uuid} {payload : TaskUpdateRequest} :
    Solo schema (fun _ => True) (updateTask taskId payload user day) db fun r db' =>
      ∃ old task, db.row (.task taskId) = some old ∧ RespondsTo r user db' task ∧
        task.assigneeId = payload.assigneeId.getD old.assigneeId ∧
          task.createdBy = old.createdBy := by
  refine Solo.bind (Solo.select ?_)
  cases hrow : db.row (.task taskId) with
  | none => exact Solo.throw trivial
  | some old =>
    have hconforms : (authorizeUpdate old payload user.toCurrentUser).Conforms tasksKept :=
      conforms_authorizeUpdate
    have hkept := Solo.of_conforms (C := schema) (s := db) hconforms
    refine Solo.bind (hkept.mono fun _ db₁ h₁ => ?_)
    have hrow₁ : db₁.row (.task taskId) = some old := (h₁ (.task taskId)).trans hrow
    refine Solo.bind ((solo_spUpdateTask_row (p := payload.call taskId old day) hrow₁).mono
      fun _ db₂ h₂ => ?_)
    obtain ⟨n, r₂, hrow₂, hc⟩ := h₂
    exact (solo_readBack_of_row hrow₂).mono fun r db₃ h₃ => ⟨old, _, rfl, h₃.2, rfl, hc⟩

end Solo

/-! ### Tasks that are listed -/

section Reads

open Listing (TaskResponse joinTask)

variable {db : Listing.Db} {user : Listing.User} {username : String} {t t' : Listing.Task}

/-- A response to the task `t'` with the id of the task `t`. -/
theorem tellsPeople_joinTask_iff (ht : t ∈ db.tasks.rows) (ht' : t' ∈ db.tasks.rows)
    (hid : t.id = t'.id) :
    (Listing.response (joinTask db t') user username).TellsPeople t.toTask ↔
      t.assigneeId = none ∧ t.createdBy = user.id := by
  obtain rfl := List.inj_on_of_nodup_map db.tasks.id_nodup ht ht' hid
  exact tellsPeople_response_iff

theorem getTaskDetail_tellsPeople_iff {taskId : Uuid} {r : TaskResponse}
    (h : Listing.getTaskDetail db taskId user username = some r) (ht : t ∈ db.tasks.rows)
    (hid : t.id = r.id) :
    r.TellsPeople t.toTask ↔ t.assigneeId = none ∧ t.createdBy = user.id := by
  obtain ⟨row, hrow, hr⟩ := Option.bind_eq_some_iff.mp h
  obtain ⟨t', ht', rfl⟩ := Option.map_eq_some_iff.mp hrow
  split at hr
  · obtain rfl := Option.some.inj hr
    exact tellsPeople_joinTask_iff ht (List.mem_of_find?_eq_some ht') hid
  · cases hr

theorem listTaskResponses_tellsPeople_iff {o : Pages.OrderBy Listing.Task.createdAt}
    {filter : Listing.ProjectIdFilter} {status : Option Status} {includeInactive : Bool}
    {p perPage : ℕ} {r : Listing.ListResponse TaskResponse} {item : TaskResponse}
    (h : Listing.listTaskResponses o db user username filter status includeInactive p perPage =
      some r) (hitem : item ∈ r.items) (ht : t ∈ db.tasks.rows) (hid : t.id = item.id) :
    item.TellsPeople t.toTask ↔ t.assigneeId = none ∧ t.createdBy = user.id := by
  obtain ⟨t', ht', rfl⟩ := Listing.exists_of_mem_items h hitem
  exact tellsPeople_joinTask_iff ht (List.mem_of_mem_filter ht') hid

theorem listCalendarTasks_tellsPeople_iff {zone : Listing.Zone}
    {query : Listing.CalendarTaskQuery} {items : List Listing.CalendarTaskItem}
    {item : Listing.CalendarTaskItem}
    (h : Listing.listCalendarTasks zone db user username query = some items) (hitem : item ∈ items)
    (ht : t ∈ db.tasks.rows) (hid : t.id = item.id) :
    item.TellsPeople t.toTask ↔ t.assigneeId = none ∧ t.createdBy = user.id := by
  unfold Listing.listCalendarTasks at h
  split at h
  · obtain rfl := Option.some.inj h
    obtain ⟨row, hrow, hmap⟩ := List.mem_filterMap.mp hitem
    obtain ⟨due, -, rfl⟩ := Option.map_eq_some_iff.mp hmap
    obtain ⟨t', ht', rfl⟩ := List.mem_map.mp hrow
    have hmem := List.mem_of_mem_filter (List.mem_mergeSort.mp ht')
    exact tellsPeople_joinTask_iff ht hmem hid
  · cases h

end Reads

/-! ### Boards -/

section Board

open Board (getBoard fnGetProjectBoard BoardTask boardTask)

variable {db : Db} {projectId : Uuid} {includeInactive : Bool}

theorem mem_fnGetProjectBoard {row : TaskRow}
    (h : row ∈ fnGetProjectBoard db projectId includeInactive) :
    db.row (.task row.id) = some row.task ∧ row.task.projectId = some projectId ∧
      (includeInactive = true ∨ row.task.isActive = true) ∧
        row.projectIsActive = (db.row (.project projectId)).map Project.isActive := by
  obtain ⟨x, hx, rfl⟩ := List.mem_map.mp h
  rw [List.mem_insertionSort, List.mem_filter] at hx
  obtain ⟨hmem, hcond⟩ := hx
  simp only [Bool.and_eq_true, decide_eq_true_iff, Bool.or_eq_true] at hcond
  exact ⟨mem_tasks.mp hmem, hcond.1, hcond.2, rfl⟩

theorem exists_fnGetProjectBoard {t : Uuid} {task : Task} (hrow : db.row (.task t) = some task)
    (hproject : task.projectId = some projectId)
    (hactive : includeInactive = true ∨ task.isActive = true) :
    ∃ row, row ∈ fnGetProjectBoard db projectId includeInactive := by
  refine ⟨_, List.mem_map_of_mem ((List.mem_insertionSort _).mpr (List.mem_filter.mpr
    (⟨mem_tasks.mpr hrow, ?_⟩ : _ ∧ _)))⟩
  simp [hproject, hactive]

/-- No card of a board has an assignee. -/
theorem getBoard_assignee {status : Status} {item : BoardTask}
    (h : item ∈ (getBoard db projectId includeInactive).columns status) : item.assignee = none := by
  obtain ⟨row, -, rfl⟩ := List.mem_map.mp h
  rfl

/-- The project of a board is reported as active when it is, or when the board has no task. -/
theorem getBoard_projectIsActive_iff {project : Project}
    (hproject : db.row (.project projectId) = some project) :
    (getBoard db projectId includeInactive).projectIsActive = project.isActive ↔
      project.isActive = true ∨ ∃ t task, db.row (.task t) = some task ∧
        task.projectId = some projectId ∧ (includeInactive = true ∨ task.isActive = true) := by
  have hreported : (getBoard db projectId includeInactive).projectIsActive = true ↔
      project.isActive = true ∨ fnGetProjectBoard db projectId includeInactive = [] := by
    show ((fnGetProjectBoard db projectId includeInactive).all
      fun item => item.projectIsActive != some false) = true ↔ _
    rw [List.all_eq_true]
    cases hrows : fnGetProjectBoard db projectId includeInactive with
    | nil => simp
    | cons row rows =>
      have hall : ∀ item ∈ row :: rows, item.projectIsActive = some project.isActive := by
        intro item hitem
        obtain ⟨-, -, -, h⟩ := mem_fnGetProjectBoard (hrows ▸ hitem)
        rw [h, hproject]
        rfl
      constructor
      · intro h
        have hrow := h row List.mem_cons_self
        rw [hall row List.mem_cons_self] at hrow
        exact Or.inl (by simpa using hrow)
      · rintro (h | h)
        · intro item hitem
          rw [hall item hitem, h]
          rfl
        · cases h
  have hshown : fnGetProjectBoard db projectId includeInactive ≠ [] ↔
      ∃ t task, db.row (.task t) = some task ∧ task.projectId = some projectId ∧
        (includeInactive = true ∨ task.isActive = true) := by
    constructor
    · intro h
      obtain ⟨row, hrow⟩ := List.exists_mem_of_ne_nil _ h
      obtain ⟨htask, hp, ha, -⟩ := mem_fnGetProjectBoard hrow
      exact ⟨row.id, row.task, htask, hp, ha⟩
    · rintro ⟨t, task, htask, hp, ha⟩
      obtain ⟨row, hrow⟩ := exists_fnGetProjectBoard htask hp ha
      exact List.ne_nil_of_mem hrow
  rw [← hshown]
  cases hactive : project.isActive with
  | true => simp [hreported, hactive]
  | false =>
    rw [Bool.eq_false_iff, Ne, hreported, hactive]
    simp

end Board

/-! ### All endpoints -/

open Board (getBoard)

/-- `create_task` names the people of the task exactly when the payload assigns no one. -/
theorem createTask_tellsPeople_iff {db : Db} {projectId : Option Uuid} {payload : TaskCreateRequest}
    {user : NamedUser} {day : AppDay}
    {c : Config Unit Row LockKey Uuid Error TaskDetailResponse} {r : TaskDetailResponse}
    (hrun : Reachable schema (.init db fun _ : Unit => createTask projectId payload user day) c)
    (hdone : c.tx () = .done (.ok r)) :
    ∃ task, c.db.row (.task r.id) = some task ∧
      (r.TellsPeople task ↔ payload.assigneeId = none) := by
  have hout := Solo.run solo_createTask hrun
  unfold Solo.Outcome at hout
  rw [hdone] at hout
  obtain ⟨⟨task, hresp, hassignee, hcreator⟩, -⟩ := hout
  refine ⟨task, hresp.row, hresp.tellsPeople_iff.trans ?_⟩
  rw [hassignee]
  exact and_iff_left hcreator

/-- `update_task` names the people of the task exactly when the task is left without an assignee and
the current user created it. -/
theorem updateTask_tellsPeople_iff {db : Db} {taskId : Uuid} {payload : TaskUpdateRequest}
    {user : NamedUser} {day : AppDay}
    {c : Config Unit Row LockKey Uuid Error TaskDetailResponse} {r : TaskDetailResponse}
    (hrun : Reachable schema (.init db fun _ : Unit => updateTask taskId payload user day) c)
    (hdone : c.tx () = .done (.ok r)) :
    ∃ old task, db.row (.task taskId) = some old ∧ c.db.row (.task r.id) = some task ∧
      (r.TellsPeople task ↔
        payload.assigneeId.getD old.assigneeId = none ∧ old.createdBy = user.id) := by
  have hout := Solo.run solo_updateTask hrun
  unfold Solo.Outcome at hout
  rw [hdone] at hout
  obtain ⟨⟨old, task, hold, hresp, hassignee, hcreator⟩, -⟩ := hout
  refine ⟨old, task, hold, hresp.row, hresp.tellsPeople_iff.trans ?_⟩
  rw [hassignee, hcreator]

/-- **When the responses tell the truth about people and the project.** -/
theorem responses_tellPeople_iff (rows : Listing.Db) (db : Db) :
    (∀ taskId (user : Listing.User) username r,
      Listing.getTaskDetail rows taskId user username = some r →
        ∀ t ∈ rows.tasks.rows, t.id = r.id →
          (r.TellsPeople t.toTask ↔ t.assigneeId = none ∧ t.createdBy = user.id)) ∧
    (∀ o (user : Listing.User) username filter status includeInactive p perPage r,
      Listing.listTaskResponses o rows user username filter status includeInactive p perPage =
          some r →
        ∀ item ∈ r.items, ∀ t ∈ rows.tasks.rows, t.id = item.id →
          (item.TellsPeople t.toTask ↔ t.assigneeId = none ∧ t.createdBy = user.id)) ∧
    (∀ zone (user : Listing.User) username query items,
      Listing.listCalendarTasks zone rows user username query = some items →
        ∀ item ∈ items, ∀ t ∈ rows.tasks.rows, t.id = item.id →
          (item.TellsPeople t.toTask ↔ t.assigneeId = none ∧ t.createdBy = user.id)) ∧
    (∀ projectId payload user day c r,
      Reachable schema (.init db fun _ : Unit => createTask projectId payload user day) c →
        c.tx () = .done (.ok r) →
          ∃ task, c.db.row (.task r.id) = some task ∧
            (r.TellsPeople task ↔ payload.assigneeId = none)) ∧
    (∀ taskId payload user day c r,
      Reachable schema (.init db fun _ : Unit => updateTask taskId payload user day) c →
        c.tx () = .done (.ok r) →
          ∃ old task, db.row (.task taskId) = some old ∧ c.db.row (.task r.id) = some task ∧
            (r.TellsPeople task ↔
              payload.assigneeId.getD old.assigneeId = none ∧ old.createdBy = user.id)) ∧
    (∀ projectId includeInactive status,
      ∀ item ∈ (getBoard db projectId includeInactive).columns status,
        ∀ task, db.row (.task item.id) = some task →
          (item.assignee.map TaskAssignee.id = task.assigneeId ↔ task.assigneeId = none)) ∧
    ∀ projectId includeInactive project, db.row (.project projectId) = some project →
      ((getBoard db projectId includeInactive).projectIsActive = project.isActive ↔
        project.isActive = true ∨ ∃ t task, db.row (.task t) = some task ∧
          task.projectId = some projectId ∧ (includeInactive = true ∨ task.isActive = true)) := by
  refine ⟨?_, ?_, ?_, ?_, ?_, ?_, ?_⟩
  · exact fun _ _ _ _ h _ ht hid => getTaskDetail_tellsPeople_iff h ht hid
  · exact fun _ _ _ _ _ _ _ _ _ h _ hitem _ ht hid =>
      listTaskResponses_tellsPeople_iff h hitem ht hid
  · exact fun _ _ _ _ _ h _ hitem _ ht hid => listCalendarTasks_tellsPeople_iff h hitem ht hid
  · exact fun _ _ _ _ _ _ hrun hdone => createTask_tellsPeople_iff hrun hdone
  · exact fun _ _ _ _ _ _ hrun hdone => updateTask_tellsPeople_iff hrun hdone
  · intro projectId includeInactive status item hitem task _
    rw [getBoard_assignee hitem]
    exact eq_comm
  · exact fun _ _ _ hproject => getBoard_projectIsActive_iff hproject

/-! ### Responses of two members -/

/-- A task of the user 1 that is due at the moment 5. -/
def dueTask : Listing.Task := { Listing.sameMomentTask 3 "a" 0 with dueAt := some 5 }

def dueDb : Listing.Db := { Listing.memberDb with tasks := ⟨[dueTask], by decide⟩ }

/-- Days of one microsecond. -/
def shortDays : Listing.Zone where
  midnight := id
  date := id

/-- The task 1, which the user 7 created for the user 8. -/
def assignedTask : Task where
  projectId := some 5
  title := "a"
  description := none
  status := .todo
  assigneeId := some 8
  createdBy := 7
  position := 0
  version := 1
  dueAt := none
  isActive := true

/-- The task 1 in the project 5 with the member 8, and the inactive project 6. -/
def teamDb : Db :=
  ((((Store.empty : Db).set (.user 8) (some { role := .member, isActive := true })).set
    (.member 5 8) (some { invitedBy := some 7 })).set (.task 1) (some assignedTask)).set (.project 6)
    (some
      { ownerId := 7, name := "project", description := none, startAt := none, endAt := none,
        isActive := false })

/-- The user 8. -/
def member : NamedUser where
  id := 8
  role := .member
  username := "taro"

def someDay : AppDay where
  startUtc := 0
  endUtc := 1

/-- The user 8 creates a task. -/
def created : Config Unit Row LockKey Uuid Error TaskDetailResponse :=
  (Config.init teamDb fun _ : Unit => createTask none { title := "b" } member someDay).execTo schema
    (fun _ _ _ => True)
    [((), .go), ((), .go), ((), .gen 2), ((), .go), ((), .go), ((), .go)] (by decide)

/-- The user 8 renames the task 1. -/
def renamed : Config Unit Row LockKey Uuid Error TaskDetailResponse :=
  (Config.init teamDb fun _ : Unit =>
    updateTask 1 { version := 1, title := some "b" } member someDay).execTo schema
    (fun _ _ _ => True)
    [((), .go), ((), .go), ((), .go), ((), .go), ((), .go), ((), .go), ((), .pick (.task 1)),
      ((), .go), ((), .go), ((), .go)] (by decide)

theorem responses_tellPeople_iff_dueDb :
    (∃ r, Listing.getTaskDetail dueDb 3 ⟨1, .member, true⟩ "taro" = some r ∧
      r.TellsPeople dueTask.toTask) ∧
    (∃ r, Listing.listTaskResponses (.mergeSort _) dueDb ⟨1, .member, true⟩ "taro" .all none false
      1 20 = some r ∧ ∀ item ∈ r.items, item.id = 3 → item.TellsPeople dueTask.toTask) ∧
    (∃ items, Listing.listCalendarTasks shortDays dueDb ⟨1, .member, true⟩ "taro"
      ⟨0, 9, .project 2⟩ = some items ∧
        ∀ item ∈ items, item.id = 3 → item.TellsPeople dueTask.toTask) ∧
    (∃ r task, created.tx () = .done (.ok r) ∧ created.db.row (.task r.id) = some task ∧
      r.TellsPeople task) ∧
    (∃ r task, renamed.tx () = .done (.ok r) ∧ renamed.db.row (.task r.id) = some task ∧
      ¬r.TellsPeople task) ∧
    (∀ item ∈ (getBoard teamDb 5 false).columns .todo, item.id = 1 →
      item.assignee.map TaskAssignee.id ≠ assignedTask.assigneeId) ∧
    (getBoard teamDb 6 false).projectIsActive ≠ false := by
  obtain ⟨hdetail, hlist, hcalendar, hcreate, hupdate, hcard, hproject⟩ :=
    responses_tellPeople_iff dueDb teamDb
  refine ⟨⟨_, rfl, ?_⟩, ?_, ⟨_, rfl, ?_⟩, ?_, ?_, ?_, ?_⟩
  · exact (hdetail 3 ⟨1, .member, true⟩ "taro" _ rfl dueTask (by decide) rfl).mpr ⟨rfl, rfl⟩
  · obtain ⟨r, hr⟩ : ∃ r, Listing.listTaskResponses (.mergeSort _) dueDb ⟨1, .member, true⟩ "taro"
        .all none false 1 20 = some r := by
      rw [Listing.listTaskResponses, Listing.listTasks, if_neg (by decide),
        Listing.listForUserWithTotal_eq, if_pos (by decide)]
      exact ⟨_, rfl⟩
    exact ⟨r, hr, fun item hitem hid => (hlist _ _ _ _ _ _ _ _ r hr item hitem dueTask
      (by decide) hid.symm).mpr ⟨rfl, rfl⟩⟩
  · exact fun item hitem hid => (hcalendar shortDays ⟨1, .member, true⟩ "taro"
      ⟨0, 9, .project 2⟩ _ rfl item hitem dueTask (by decide) hid.symm).mpr ⟨rfl, rfl⟩
  · obtain ⟨task, hrow, htells⟩ := hcreate none { title := "b" } member someDay created _
      (run_execTo _) rfl
    exact ⟨_, task, rfl, hrow, htells.mpr rfl⟩
  · obtain ⟨old, task, hold, hrow, htells⟩ := hupdate 1 { version := 1, title := some "b" }
      member someDay renamed _ (run_execTo _) rfl
    obtain rfl : assignedTask = old := Option.some.inj hold
    exact ⟨_, task, rfl, hrow, fun h => absurd (htells.mp h).1 (by decide)⟩
  · intro item hitem hid heq
    have hrow : teamDb.row (.task item.id) = some assignedTask := by
      rw [hid]
      rfl
    exact absurd ((hcard 5 false .todo item hitem assignedTask hrow).mp heq) (by decide)
  · intro h
    rcases (hproject 6 false _ rfl).mp h with h | ⟨t, task, htask, hp, -⟩
    · cases h
    · have hnone : ∀ x ∈ tasks teamDb, x.2.projectId ≠ some 6 := by decide
      exact hnone (t, task) (mem_tasks.mpr htask) hp

/-- The response to the user 8 names neither the assignee of the task, who is the user 8, nor its
creator, and the board of the inactive project without a task is reported as active. -/
theorem responses_not_tellPeople :
    Reachable schema (.init teamDb fun _ : Unit =>
        updateTask 1 { version := 1, title := some "b" } member someDay) renamed ∧
      (∃ r, renamed.tx () = .done (.ok r) ∧ r.id = 1 ∧ r.assignee = none ∧ r.createdBy.id = 8) ∧
      (∃ task, renamed.db.row (.task 1) = some task ∧ task.assigneeId = some 8 ∧
        task.createdBy = 7) ∧
      (getBoard teamDb 6 false).projectIsActive = true ∧
      (teamDb.row (.project 6)).map Project.isActive = some false :=
  ⟨run_execTo _, ⟨_, rfl, rfl, rfl, rfl⟩, ⟨_, rfl, rfl, rfl⟩, rfl, rfl⟩

end Responses
