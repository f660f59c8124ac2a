import TaskManagement.Db.Equiv.Writers
import TaskManagement.Service.Equiv.Checks

/-!
# Assignees and members

The assignee of a task in a project is to be a member of the project.  `sp_create_task` and
`sp_update_task` only check that the assignee is an active user, and `sp_remove_project_member`
only clears the tasks that its `UPDATE` finds.  When the assignee that a request sets is a member
at its commit, and a removal has locked every task of the member at its commit
(`Operation.Ready`), every committed assignee is a member along every run
(`assignees_stay_members`).  Without the condition a task of the project can be assigned to any
active user (`assignees_not_members`).
-/

namespace TaskDb

open ReadCommitted

/-- The assignee of every task in a project is a member of the project. -/
def AssigneesAreMembers (db : Db) : Prop :=
  ∀ t r p u, db.row (.task t) = some r → r.projectId = some p → r.assigneeId = some u →
    isMember db p u = true

theorem assigneesAreMembers_of_noTasks {db : Db} (h : ∀ t, db.row (.task t) = none) :
    AssigneesAreMembers db := by
  intro t r p u hr
  rw [h t] at hr
  cases hr

/-! ### The operations -/

/-- The transactions that touch projects, their members and their tasks. -/
inductive Operation : Type where
  | createProject (p : CreateProject)
  | addMember (projectId userId : Uuid) (invitedBy : Option Uuid)
  | removeMember (projectId userId : Uuid)
  | request (q : Request)
deriving DecidableEq

def Operation.proc : Operation → TaskProc Unit
  | .createProject p => do
    let _ ← spCreateProject p
    return ()
  | .addMember p u invitedBy => spAddProjectMember p u invitedBy
  | .removeMember p u => spRemoveProjectMember p u
  | .request q => q.proc

/-- What an operation does to assignees and members. -/
structure Assigning : Type where
  /-- The project in which tasks are created. -/
  project : Option Uuid := none
  /-- The task that is updated. -/
  task : Option Uuid := none
  /-- The assignee of these tasks. -/
  assignee : Option Uuid := none
  /-- The project and the user of the member that is removed. -/
  removed : Option (Uuid × Uuid) := none
deriving DecidableEq

/-- An update of a task. -/
def Assigning.ofUpdate (taskId : Uuid) (assignee : Option Uuid) : Assigning where
  task := some taskId
  assignee := assignee

/-- The assignee that `update_task` passes: that of the payload, or the one it has read, in the
second statement of the request. -/
def TaskUpdateRequest.assignee (payload : TaskUpdateRequest) (taskId : Uuid) (σ : TaskSession) :
    Option Uuid :=
  payload.assigneeId.getD
    (((σ.snapshot 1).bind (·.row (.task taskId))).bind Task.assigneeId)

/-- The assignments of an operation, which an update takes from what it has read. -/
def Operation.assigning : Operation → TaskSession → Assigning
  | .removeMember p u, _ => { removed := some (p, u) }
  | .request q, σ =>
    match q.endpoint with
    | .createProjectTask projectId payload =>
      { project := some projectId, assignee := payload.assigneeId }
    | .createFlatTask payload => { project := payload.projectId, assignee := payload.assigneeId }
    | .updateTask taskId payload => .ofUpdate taskId (payload.assignee taskId σ)
    | _ => {}
  | _, _ => {}

/-- The condition on a commit over `db`: the assignee is a member of the project of the task, and a
removal that has found its member has locked every task of the member. -/
def Assigning.Ready (x : Assigning) (σ : TaskSession) (db : Db) : Prop :=
  (∀ u ∈ x.assignee, (∀ p ∈ x.project, isMember db p u = true) ∧
    ∀ t ∈ x.task, ∀ r ∈ db.row (.task t), ∀ p ∈ r.projectId, isMember db p u = true) ∧
  ∀ m ∈ x.removed, RowId.member m.1 m.2 ∈ σ.rows → ∀ y ∈ tasks db, y.2.projectId = some m.1 →
    y.2.assigneeId = some m.2 → RowId.task y.1 ∈ σ.rows

instance (x : Assigning) (σ : TaskSession) (db : Db) : Decidable (x.Ready σ db) := by
  unfold Assigning.Ready
  infer_instance

/-- Other transactions may do anything except to locked rows; a commit is `Ready`. -/
def assigneeProtocol : Protocol Operation Row LockKey Error :=
  rowProtocol AssigneesAreMembers fun op o σ db =>
    match o with
    | .commit => (op.assigning σ).Ready σ db
    | _ => True

/-! ### The effect of an operation -/

/-- What may become of a task row: it stays in its project, and its assignee stays, is cleared or is
the one of the operation. -/
def Assigning.Admits (x : Assigning) (t : Uuid) (o : Option Task) (r' : Task) : Prop :=
  match o with
  | some r => r'.projectId = r.projectId ∧ (r'.assigneeId = r.assigneeId ∨ r'.assigneeId = none ∨
      x.task = some t ∧ r'.assigneeId = x.assignee)
  | none => r'.projectId = x.project ∧ (r'.assigneeId = x.assignee ∨ r'.assigneeId = none)

/-- The effect of an operation: tasks as `Admits` says, and no member is lost but the one that is
removed. -/
def assignEffect (x : Assigning) : Effect Row where
  rel
    | .task t, o, o' => (∀ r' ∈ o', x.Admits t o r') ∧ (o.isSome → o'.isSome)
    | .member p u, o, o' => x.removed ≠ some (p, u) → o.isSome → o'.isSome
    | _, _, _ => True
  refl i o := by
    cases i with
    | task t =>
      refine ⟨fun r hr => ?_, id⟩
      obtain rfl := hr
      exact ⟨rfl, Or.inl rfl⟩
    | member p u => exact fun _ => id
    | _ => trivial

variable {x : Assigning}

/-- What may become of a task may afterwards lose its assignee, or get that of the operation. -/
theorem Assigning.Admits.trans {t : Uuid} {o : Option Task} {r r' : Task} (h : x.Admits t o r)
    (hp : r'.projectId = r.projectId)
    (ha : r'.assigneeId = r.assigneeId ∨ r'.assigneeId = none ∨
      x.task = some t ∧ r'.assigneeId = x.assignee) : x.Admits t o r' := by
  cases o with
  | some r₀ =>
    obtain ⟨hp₀, ha₀⟩ := h
    refine ⟨hp.trans hp₀, ?_⟩
    rcases ha with ha | ha | ha
    · rw [ha]
      exact ha₀
    · exact Or.inr (Or.inl ha)
    · exact Or.inr (Or.inr ha)
  | none =>
    obtain ⟨hp₀, ha₀⟩ := h
    refine ⟨hp.trans hp₀, ?_⟩
    rcases ha with ha | ha | ha
    · rw [ha]
      exact ha₀
    · exact Or.inr ha
    · exact Or.inl ha.2

/-- An `UPDATE` of `tasks` conforms when it keeps the project and assigns nobody else. -/
theorem conforms_assignEffect {u : RowUpdate Row}
    (htask : ∀ t r w, u (.task t) r = some w → ∃ r', w = some r' ∧ r'.projectId = r.projectId ∧
      (r'.assigneeId = r.assigneeId ∨ r'.assigneeId = none ∨
        x.task = some t ∧ r'.assigneeId = x.assignee))
    (hmember : ∀ p v r, u (.member p v) r = none) : u.Conforms (assignEffect x) := by
  intro i o r w h hu
  cases i with
  | task t =>
    obtain ⟨r', rfl, hp, ha⟩ := htask t r w hu
    refine ⟨fun r₁ hr₁ => ?_, fun _ => rfl⟩
    obtain rfl := Option.some.inj hr₁
    exact (h.1 r rfl).trans hp ha
  | member p v =>
    rw [hmember p v r] at hu
    cases hu
  | _ => trivial

/-- An `UPDATE` of one task that keeps the project. -/
theorem conforms_setTask_assign {t : Uuid} {where_ : Task → Prop} [DecidablePred where_]
    {set : Task → Task} (hp : ∀ r, (set r).projectId = r.projectId)
    (ha : ∀ r, (set r).assigneeId = r.assigneeId ∨ (set r).assigneeId = none ∨
      x.task = some t ∧ (set r).assigneeId = x.assignee) :
    (setTask t where_ set).Conforms (assignEffect x) := by
  refine conforms_assignEffect (fun t' r w hu => ?_) fun _ _ _ => rfl
  simp only [setTask] at hu
  split_ifs at hu with hif
  obtain rfl := Option.some.inj hu
  obtain ⟨rfl, -⟩ := hif
  exact ⟨_, rfl, hp r, ha r⟩

theorem conformsShifts_assign {p : Option Uuid} : ConformsShifts (assignEffect x) p := by
  intro s range _ except δ
  refine conforms_assignEffect (fun t r w hu => ?_) fun _ _ _ => rfl
  simp only [shiftPositions] at hu
  split_ifs at hu
  obtain rfl := Option.some.inj hu
  exact ⟨_, rfl, rfl, Or.inl rfl⟩

theorem conforms_clearAssignee {p u : Uuid} :
    (clearAssignee p u).Conforms (assignEffect x) := by
  refine conforms_assignEffect (fun t r w hu => ?_) fun _ _ _ => rfl
  simp only [clearAssignee] at hu
  split_ifs at hu
  obtain rfl := Option.some.inj hu
  exact ⟨_, rfl, rfl, Or.inr (Or.inl rfl)⟩

theorem conforms_deleteMember {p u : Uuid} (hx : x.removed = some (p, u)) :
    (deleteMember p u).Conforms (assignEffect x) := by
  intro i o r w _ hu
  cases i with
  | member p' u' =>
    simp only [deleteMember] at hu
    split_ifs at hu with hif
    obtain ⟨rfl, rfl⟩ := hif
    exact fun hne => absurd hx hne
  | task t => cases hu
  | _ => trivial

/-! ### The programs -/

theorem admitsNotification_assign : AdmitsNotification (assignEffect x) := fun _ _ _ _ _ => trivial

theorem conforms_insertTask {t : Uuid} {r : Task} (hp : r.projectId = x.project)
    (ha : r.assigneeId = x.assignee) :
    (Proc.insertOrRaise (.task t) r .duplicateKey : TaskProc Unit).Conforms (assignEffect x) := by
  refine Proc.conforms_insertOrRaise fun o h => ⟨fun r' hr' => ?_, fun _ => rfl⟩
  obtain rfl := Option.some.inj hr'
  cases o with
  | none => exact ⟨hp, Or.inl ha⟩
  | some r₀ => exact absurd (h.2 rfl) (by simp)

theorem conforms_spCreateTask {c : CreateTask} (hp : c.projectId = x.project)
    (ha : c.assigneeId = x.assignee) : (spCreateTask c).Conforms (assignEffect x) := by
  exact (conforms_requireActiveAssignee _).bind fun _ => Proc.conforms_advisoryLock.bind fun _ =>
    conformsShifts_assign.choosePosition.bind fun n => Proc.conforms_generate.bind fun t =>
      (conforms_insertTask (by exact hp) (by exact ha)).bind fun _ =>
        admitsNotification_assign.notifyCreated.bind fun _ => trivial

theorem conforms_createTask {projectId : Option Uuid} {payload : TaskCreateRequest}
    {user : CurrentUser} {day : AppDay} (hp : projectId = x.project)
    (ha : payload.assigneeId = x.assignee) :
    (createTask projectId payload user day).Conforms (assignEffect x) :=
  (conforms_spCreateTask hp ha).bind fun _ => Proc.conforms_select.bind fun _ =>
    Proc.conforms_raiseIf

theorem conforms_spUpdateTask {p : UpdateTask} (ht : x.task = some p.taskId)
    (ha : p.assigneeId = x.assignee) : (spUpdateTask p).Conforms (assignEffect x) := by
  refine Proc.conforms_select.bind fun read => ?_
  cases read with
  | none => trivial
  | some read =>
    refine conforms_lockColumns.bind fun _ => Proc.conforms_selectForUpdate.bind fun old => ?_
    cases old with
    | none => exact (conforms_requireActiveAssignee _).bind fun _ => trivial
    | some old =>
      refine Proc.conforms_raiseIf.bind fun _ => (conforms_requireActiveAssignee _).bind fun _ =>
        conformsShifts_assign.movePositions.bind fun n => (Proc.conforms_update ?_).bind fun _ =>
          Proc.conforms_raiseIf.bind fun _ => admitsNotification_assign.notifyUpdated
      exact conforms_setTask_assign (fun _ => rfl) fun _ => Or.inr (Or.inr ⟨ht, ha⟩)

theorem conforms_spCreateProject {p : CreateProject} :
    (spCreateProject p).Conforms (assignEffect x) :=
  Proc.conforms_raiseIf.bind fun _ => Proc.conforms_generate.bind fun _ =>
    (Proc.conforms_insertOrRaise fun _ _ => trivial).bind fun _ =>
      (Proc.conforms_insertOrRaise fun _ _ _ _ => rfl).bind fun _ => trivial

theorem conforms_spAddProjectMember {p u : Uuid} {invitedBy : Option Uuid} :
    (spAddProjectMember p u invitedBy).Conforms (assignEffect x) :=
  Proc.conforms_select.bind fun _ => Proc.conforms_raiseIf.bind fun _ =>
    Proc.conforms_insertOrRaise fun _ _ _ _ => rfl

theorem conforms_spRemoveProjectMember {p u : Uuid} (hx : x.removed = some (p, u)) :
    (spRemoveProjectMember p u).Conforms (assignEffect x) :=
  Proc.conforms_select.bind fun _ => Proc.conforms_raiseIf.bind fun _ =>
    (Proc.conforms_update conforms_clearAssignee).bind fun _ =>
      (Proc.conforms_update (conforms_deleteMember hx)).bind fun _ => trivial

theorem conforms_spDeactivateTask {t : Uuid} {isActive : Bool} :
    (spDeactivateTask t isActive).Conforms (assignEffect x) := by
  unfold spDeactivateTask
  refine (Proc.conforms_update ?_).bind fun _ => trivial
  exact conforms_setTask_assign (fun _ => rfl) fun _ => Or.inl rfl

theorem conforms_deleteTask {t : Uuid} {user : CurrentUser} :
    (deleteTask t user).Conforms (assignEffect x) := by
  refine Proc.conforms_select.bind fun task => ?_
  cases task with
  | none => trivial
  | some task =>
    exact conforms_requireTaskAccess.bind fun _ => conforms_spDeactivateTask

theorem conforms_spAddTaskComment {t u : Uuid} {body : String} :
    (spAddTaskComment t u body).Conforms (assignEffect x) :=
  Proc.conforms_generate.bind fun _ =>
    (Proc.conforms_insertOrRaise fun _ _ => trivial).bind fun _ => trivial

/-- Comments are not in the effect. -/
theorem conforms_comments {u : RowUpdate Row} (ht : ∀ t r, u (.task t) r = none)
    (hm : ∀ p v r, u (.member p v) r = none) : u.Conforms (assignEffect x) := by
  refine conforms_assignEffect (fun t r w hu => ?_) hm
  rw [ht t r] at hu
  cases hu

theorem conforms_spUpdateTaskComment {c : Uuid} {body : String} :
    (spUpdateTaskComment c body).Conforms (assignEffect x) := by
  unfold spUpdateTaskComment
  refine (Proc.conforms_update ?_).bind fun _ => trivial
  exact conforms_comments (fun _ _ => rfl) fun _ _ _ => rfl

theorem conforms_spDeleteTaskComment {c : Uuid} :
    (spDeleteTaskComment c).Conforms (assignEffect x) := by
  unfold spDeleteTaskComment
  refine (Proc.conforms_update ?_).bind fun _ => trivial
  exact conforms_comments (fun _ _ => rfl) fun _ _ _ => rfl

/-- The requests that do not update a task have the effect of their assignments. -/
theorem Request.conforms_proc {q : Request} {σ : TaskSession}
    (hq : ∀ taskId payload, q.endpoint ≠ .updateTask taskId payload) :
    q.proc.Conforms (assignEffect ((Operation.request q).assigning σ)) := by
  obtain ⟨userId, endpoint, day⟩ := q
  cases endpoint with
  | createProjectTask projectId payload =>
    exact conforms_getCurrentUser.bind fun _ => conforms_requireProjectMember.bind fun _ =>
      conforms_createTask rfl rfl
  | createFlatTask payload =>
    exact conforms_getCurrentUser.bind fun _ => conforms_createTask rfl rfl
  | updateTask taskId payload => exact absurd rfl (hq taskId payload)
  | deleteTask taskId => exact conforms_getCurrentUser.bind fun _ => conforms_deleteTask
  | createTaskComment taskId body =>
    exact conforms_getTaskForMember.bind fun _ => conforms_getCurrentUser.bind fun _ =>
      conforms_requireTaskAccess.bind fun _ => conforms_spAddTaskComment.bind fun _ =>
        Proc.conforms_select.bind fun _ => Proc.conforms_raiseIf
  | updateTaskComment commentId body =>
    exact conforms_getCommentForMember.bind fun _ => conforms_getCurrentUser.bind fun _ =>
      conforms_requireTaskAccess.bind fun _ => conforms_requireCommentEditor.bind fun _ =>
        conforms_spUpdateTaskComment.bind fun _ => Proc.conforms_select.bind fun _ =>
          Proc.conforms_raiseIf
  | deleteTaskComment commentId =>
    exact conforms_getCommentForMember.bind fun _ => conforms_getCurrentUser.bind fun _ =>
      conforms_requireTaskAccess.bind fun _ => conforms_requireCommentEditor.bind fun _ =>
        conforms_spDeleteTaskComment

/-! ### Specifications -/

section Spec

variable {σ : TaskSession} {db : Db} {op : Operation}

/-- A request that updates a task assigns it as its payload and its read say. -/
theorem wp_updateTask_assign {userId taskId : Uuid} {payload : TaskUpdateRequest} {day : AppDay}
    (hi : AssigneesAreMembers db) :
    wp schema assigneeProtocol op (Request.proc ⟨userId, .updateTask taskId payload, day⟩)
      (fun _ σ db => (assignEffect (.ofUpdate taskId (payload.assignee taskId σ))).Holds σ db)
      .start db := by
  refine wp_bind (wp_mono (wp_getCurrentUser hi reading_start) ?_) hi
  rintro user σ₁ db₁ hi₁ ⟨s₀, u, -, -, -, h₁⟩
  refine wp_bind (wp_mono (wp_select_reading h₁) ?_) hi₁
  rintro _ σ₂ db₂ hi₂ ⟨σ₁', db₁', -, -, rfl, h₂⟩
  set s : Db := σ₁'.view db₁' with hs
  cases htask : s.row (.task taskId) with
  | none => trivial
  | some task =>
    have hsnap : σ₂.snapshot 1 = some s := h₂.snapshot_length
    -- what was read is the assignee of a payload that omits it
    have hassignee : ∀ {σ : TaskSession}, σ.snapshot 1 = some s →
        payload.assignee taskId σ = payload.assigneeId.getD task.assigneeId := by
      intro σ h
      unfold TaskUpdateRequest.assignee
      rw [h, Option.bind_some, htask]
      rfl
    refine wp_mono (wp_of_conforms (conforms_authorizeUpdate.bind fun _ =>
      (conforms_spUpdateTask (x := .ofUpdate taskId (payload.assigneeId.getD task.assigneeId))
        rfl rfl).bind fun _ =>
        Proc.conforms_select.bind fun _ => Proc.conforms_raiseIf) (persistent_snapshot 1 s)
      h₂.unchanged.of_unchanged hsnap) ?_
    rintro _ σ₃ db₃ - ⟨h₃, hsnap₃⟩
    rwa [hassignee hsnap₃]

/-- No task that the session has locked is assigned to `u` in `p`. -/
def Cleared (p u : Uuid) (σ : TaskSession) (db : Db) : Prop :=
  ∀ t, RowId.task t ∈ σ.rows → ∀ r, (σ.view db).row (.task t) = some r →
    ¬(r.projectId = some p ∧ r.assigneeId = some u)

theorem cleared_stable {p u : Uuid} : assigneeProtocol.Stable (Cleared p u) where
  rely {σ db db'} h hr _ := by
    intro t ht r hrow
    refine h t ht r ?_
    rwa [← Session.view_row_congr σ (hr _ ht)]
  saw _ h := h

/-- Processing a row keeps it, when a task is left unassigned from `u` in `p`. -/
theorem Cleared.rowStep {p u : Uuid} {v : RowUpdate Row} {i : RowId} {n n' : ℕ}
    {σ' : TaskSession} (h : Cleared p u σ db)
    (hskip : ∀ t r, i = .task t → v (.task t) r = none →
      ¬(r.projectId = some p ∧ r.assigneeId = some u))
    (hwrite : ∀ t r r', i = .task t → v (.task t) r = some (some r') →
      ¬(r'.projectId = some p ∧ r'.assigneeId = some u))
    (hst : σ.rowStep schema v db i n = .ok (n', σ')) : Cleared p u σ' db := by
  intro t ht r hrow
  by_cases hi : i = .task t
  · subst hi
    rcases Session.rowStep_cases hst with
      ⟨-, -, rfl⟩ | ⟨r₀, hr₀, hu, -, rfl⟩ | ⟨r₀, -, -, -, rfl⟩ | ⟨r₀, r', -, hu, -, -, rfl⟩
    · exact h t ht r hrow
    · obtain rfl := Option.some.inj (hr₀.symm.trans hrow)
      exact hskip t _ rfl hu
    · rw [Session.write_view, Store.set_row_self] at hrow
      cases hrow
    · rw [Session.write_view, Store.set_row_self] at hrow
      obtain rfl := Option.some.inj hrow
      exact hwrite t r₀ _ rfl hu
  · -- another row was processed
    have hne : RowId.task t ≠ i := fun he => hi he.symm
    rcases Session.rowStep_cases hst with
      ⟨-, -, rfl⟩ | ⟨r₀, -, -, -, rfl⟩ | ⟨r₀, -, -, -, rfl⟩ | ⟨r₀, r', -, -, -, -, rfl⟩
    · exact h t ht r hrow
    · exact h t (List.mem_of_ne_of_mem hne ht) r hrow
    · rw [Session.write_view, Store.set_row_of_ne _ _ hne] at hrow
      exact h t (List.mem_of_ne_of_mem hne ht) r hrow
    · rw [Session.write_view, Store.set_row_of_ne _ _ hne] at hrow
      exact h t (List.mem_of_ne_of_mem hne ht) r hrow

/-- A statement that leaves every task it processes unassigned from `u` in `p`. -/
theorem wp_update_cleared {p u : Uuid} {v : RowUpdate Row}
    (hskip : ∀ (s : Db) t r, RowId.task t ∈ s.matching v → v (.task t) r = none →
      ¬(r.projectId = some p ∧ r.assigneeId = some u))
    (hwrite : ∀ t r r', v (.task t) r = some (some r') →
      ¬(r'.projectId = some p ∧ r'.assigneeId = some u)) (h : Cleared p u σ db) :
    wp schema assigneeProtocol op (Proc.update v : TaskProc ℕ)
      (fun _ σ db => Cleared p u σ db) σ db := by
  refine wp_update (fun rest _ σ db => (∃ s : Db, ∀ i ∈ rest, i ∈ s.matching v) ∧ Cleared p u σ db)
    ⟨?_, fun _ _ _ => trivial, ?_, fun _ _ _ _ _ => trivial⟩ ?_ fun _ _ _ _ h' => h'.2
  · exact fun h' hr hi => ⟨h'.1, cleared_stable.rely h'.2 hr hi⟩
  · rintro rest n σ db i n' σ' - ⟨⟨s, hs⟩, hc⟩ hi - hst
    refine ⟨⟨s, fun j hj => hs j (List.mem_of_mem_erase hj)⟩, hc.rowStep ?_ ?_ hst⟩
    · rintro t r rfl
      exact hskip s t r (hs _ hi)
    · rintro t r r' rfl
      exact hwrite t r r'
  · intro db' hr hi
    exact ⟨trivial, fun _ => ⟨⟨σ.view db', fun _ hi => hi⟩, cleared_stable.rely h hr hi⟩⟩

theorem wp_spRemoveProjectMember_cleared {p u : Uuid} (hi : AssigneesAreMembers db) :
    wp schema assigneeProtocol op (spRemoveProjectMember p u)
      (fun _ σ db => Cleared p u σ db) .start db := by
  have h₀ : Cleared p u .start db := fun t ht => absurd ht List.not_mem_nil
  refine wp_bind (wp_mono (wp_select_stable cleared_stable (fun _ => trivial) h₀) ?_) hi
  rintro _ σ₁ db₁ hi₁ ⟨h₁, -⟩
  refine wp_bind (wp_mono (wp_raiseIf_stable cleared_stable (fun _ => trivial) h₁) ?_) hi₁
  rintro _ σ₂ db₂ hi₂ ⟨-, h₂⟩
  refine wp_bind (wp_mono (wp_update_cleared ?_ ?_ h₂) ?_) hi₂
  · intro s t r _ hnone hr
    simp only [clearAssignee, if_pos hr] at hnone
    cases hnone
  · intro t r r' hu
    simp only [clearAssignee] at hu
    split_ifs at hu
    obtain rfl := Option.some.inj (Option.some.inj hu)
    rintro ⟨-, hr⟩
    cases hr
  rintro _ σ₃ db₃ hi₃ h₃
  refine wp_bind (wp_mono (wp_update_cleared ?_ ?_ h₃) ?_) hi₃
  · intro s t r ht
    obtain ⟨r₀, w, -, hw⟩ := Store.mem_matching.mp ht
    cases hw
  · intro t r r' hu
    cases hu
  rintro _ σ₄ db₄ hi₄ h₄
  exact wp_ret fun _ hr hi => cleared_stable.rely h₄ hr hi

/-- What an operation has done when it comes to its commit. -/
structure Operation.Done (op : Operation) (σ : TaskSession) (db : Db) : Prop where
  effect : (assignEffect (op.assigning σ)).Holds σ db
  cleared : ∀ m ∈ (op.assigning σ).removed, Cleared m.1 m.2 σ db

/-- An operation without reads that matter, given its effect. -/
theorem Operation.wp_of_conforms {x : Assigning} (hx : ∀ σ, op.assigning σ = x)
    (hremoved : x.removed = none) (hp : op.proc.Conforms (assignEffect x)) :
    wp schema assigneeProtocol op op.proc (fun _ => op.Done) .start db := by
  refine wp_mono (ReadCommitted.wp_of_conforms hp persistent_true
    (Effect.holds_of_view_eq _ rfl) trivial) fun _ σ db _ h => ⟨?_, ?_⟩
  · rw [hx]
    exact h.1
  · rw [hx, hremoved]
    exact nofun

theorem Operation.wp_proc (op : Operation) (hi : AssigneesAreMembers db) :
    wp schema assigneeProtocol op op.proc (fun _ => op.Done) .start db := by
  cases op with
  | createProject p =>
    exact Operation.wp_of_conforms (fun _ => rfl) rfl (conforms_spCreateProject.bind fun _ => trivial)
  | addMember p u invitedBy =>
    exact Operation.wp_of_conforms (fun _ => rfl) rfl conforms_spAddProjectMember
  | removeMember p u =>
    refine wp_mono (wp_and (ReadCommitted.wp_of_conforms (conforms_spRemoveProjectMember rfl)
      persistent_true (Effect.holds_of_view_eq _ rfl) trivial)
      (wp_spRemoveProjectMember_cleared hi)) fun _ σ db _ h => ⟨h.1.1, ?_⟩
    intro m hm
    obtain rfl := Option.some.inj hm
    exact h.2
  | request q =>
    by_cases hq : ∃ taskId payload, q.endpoint = .updateTask taskId payload
    · obtain ⟨userId, endpoint, day⟩ := q
      obtain ⟨taskId, payload, rfl⟩ := hq
      exact wp_mono (wp_updateTask_assign hi) fun _ σ db _ h => ⟨h, nofun⟩
    · refine Operation.wp_of_conforms (x := (Operation.request q).assigning .start) ?_ ?_
        (Request.conforms_proc fun taskId payload h => hq ⟨taskId, payload, h⟩)
      all_goals
        obtain ⟨userId, endpoint, day⟩ := q
        cases endpoint with
        | updateTask taskId payload => exact absurd ⟨taskId, payload, rfl⟩ hq
        | _ => intros; rfl

/-- A commit that is ready keeps assignees members. -/
theorem Operation.Done.assigneesAreMembers (h : op.Done σ db) (hi : AssigneesAreMembers db)
    (hready : (op.assigning σ).Ready σ db) : AssigneesAreMembers (σ.view db) := by
  obtain ⟨hassign, hremoved⟩ := hready
  intro t r' p u hr' hp hu
  obtain ⟨hadmits, -⟩ := h.effect (.task t)
  have hadmits' := hadmits r' hr'
  -- the assignee is a member in the committed database
  have hmember : isMember db p u = true := by
    cases hr : db.row (.task t) with
    | none =>
      rw [hr] at hadmits'
      obtain ⟨hproj, hass | hass⟩ := hadmits'
      · exact (hassign u (hass ▸ hu)).1 p (hproj ▸ hp)
      · rw [hass] at hu
        cases hu
    | some r =>
      rw [hr] at hadmits'
      obtain ⟨hproj, hass | hass | ⟨htask, hass⟩⟩ := hadmits'
      · exact hi t r p u hr (hproj ▸ hp) (hass ▸ hu)
      · rw [hass] at hu
        cases hu
      · exact (hassign u (hass ▸ hu)).2 t htask r hr p (hproj ▸ hp)
  by_cases hm : (op.assigning σ).removed = some (p, u) ∧ RowId.member p u ∈ σ.rows
  · -- the member is removed: its tasks are locked, and cleared
    obtain ⟨hrem, hlocked⟩ := hm
    have hcleared := h.cleared (p, u) hrem
    have ht : RowId.task t ∈ σ.rows := by
      cases hr : db.row (.task t) with
      | none =>
        by_contra hnot
        rw [σ.view_row_of_notMem db hnot, hr] at hr'
        cases hr'
      | some r =>
        by_contra hnot
        rw [σ.view_row_of_notMem db hnot] at hr'
        obtain rfl := Option.some.inj (hr.symm.trans hr')
        exact hnot (hremoved (p, u) hrem hlocked (t, r) (mem_tasks.mpr hr) hp hu)
    exact absurd ⟨hp, hu⟩ (hcleared t ht r' hr')
  · -- the membership stays
    show ((σ.view db).row (.member p u)).isSome = true
    by_cases hrem : (op.assigning σ).removed = some (p, u)
    · rw [σ.view_row_of_notMem db fun hl => hm ⟨hrem, hl⟩]
      exact hmember
    · exact h.effect (.member p u) hrem hmember

end Spec

/-! ### Runs -/

section Run

variable {τ : Type}

/-- A step that commits is ready. -/
def CommitsReady (call : τ → Operation) (c : Config τ Row LockKey Uuid Error Unit) (t : τ) : Prop :=
  match c.tx t with
  | .active (.ret _) σ => ((call t).assigning σ).Ready σ c.db
  | _ => True

instance (call : τ → Operation) (c : Config τ Row LockKey Uuid Error Unit) (t : τ) :
    Decidable (CommitsReady call c t) := by
  unfold CommitsReady
  refine Tx.casesOn (c.tx t) (fun p _ => ?_) (fun _ => inferInstance) inferInstance
  refine Proc.casesOn p ?_ ?_ ?_ ?_ ?_ ?_ ?_ ?_ <;> intros <;> infer_instance

/-- The operations `call`, all at their beginning. -/
def Operation.init (db : Db) (call : τ → Operation) : Config τ Row LockKey Uuid Error Unit :=
  .init db fun t => (call t).proc

theorem CommitsReady.admits {call : τ → Operation} {c : Config τ Row LockKey Uuid Error Unit}
    {t : τ} {ch : Choice RowId Uuid} (h : CommitsReady call c t) :
    assigneeProtocol.Admits call c t ch := by
  intro p σ o ht ho
  cases o with
  | commit =>
    obtain ⟨a, rfl⟩ := Proc.eq_ret_of_op ho
    unfold CommitsReady at h
    rw [ht] at h
    exact h
  | _ => trivial

/-- Along every run whose commits are ready, assignees are members in every committed database. -/
theorem assignees_stay_members [DecidableEq τ] [Fintype τ] {db₀ : Db}
    (h₀ : AssigneesAreMembers db₀) (call : τ → Operation)
    {c : Config τ Row LockKey Uuid Error Unit}
    (hrun : Run schema (fun c t _ => CommitsReady call c t) (Operation.init db₀ call) c) :
    AssigneesAreMembers c.db := by
  have hinit : Sound schema assigneeProtocol call (fun t _ => (call t).Done)
      (Operation.init db₀ call) := sound_init h₀ fun t => (call t).wp_proc h₀
  have hsound := hinit.run (fun t _ σ db hi hdone hready =>
    rowProtocol_commits fun _ => hdone.assigneesAreMembers hi hready)
    (hrun.mono fun _ _ _ h => h.admits)
  exact hsound.inv

end Run

/-! ### An assignee who is no member -/

/-- The users 7 and 8, and no project. -/
def twoUsers : Db :=
  (Store.empty : Db).overlay [⟨.user 8, some { role := .member, isActive := true }⟩,
    ⟨.user 7, some { role := .member, isActive := true }⟩]

/-- User 7 creates a project and in it a task for user 8. -/
def strangerCalls : Fin 2 → Operation
  | 0 => .createProject
    { ownerId := 7, name := "project", description := none, startAt := none, endAt := none }
  | 1 => .request
    ⟨7, .createProjectTask 5 { title := "task", assigneeId := some 8 },
      { startUtc := 0, endUtc := 1 }⟩

/-- One transaction after the other; the project gets the identifier 5, the task 1. -/
def strangerSteps : List (Fin 2 × Choice RowId Uuid) :=
  [(0, .gen 5), (0, .go), (0, .go), (0, .go), (1, .go), (1, .go), (1, .go), (1, .go), (1, .go),
    (1, .go), (1, .gen 1), (1, .go), (1, .go), (1, .go)]

def strangerRun : Config (Fin 2) Row LockKey Uuid Error Unit :=
  (Operation.init twoUsers strangerCalls).execTo schema (fun _ _ _ => True) strangerSteps
    (by decide)

/-- From a database without projects, members and tasks, a task of the project is assigned to a
user who is no member. -/
theorem assignees_not_members :
    (∀ p u, twoUsers.row (.project p) = none ∧ twoUsers.row (.member p u) = none) ∧
      (∀ t, twoUsers.row (.task t) = none) ∧
      Reachable schema (Operation.init twoUsers strangerCalls) strangerRun ∧
      strangerRun.tx 1 = .done (.ok ()) ∧
      (strangerRun.db.row (.task 1)).map (fun r => (r.projectId, r.assigneeId)) =
        some (some 5, some 8) ∧
      isMember strangerRun.db 5 8 = false ∧ ¬AssigneesAreMembers strangerRun.db := by
  refine ⟨fun p u => ⟨rfl, rfl⟩, fun t => rfl, run_execTo _, rfl, rfl, rfl, fun h => ?_⟩
  exact nomatch h 1 _ 5 8 rfl rfl rfl

/-! ### A removal beside an update -/

/-- User 7 creates a project with the member 8 and a task for user 8; the title of the task is then
patched while user 8 is removed from the project. -/
def removalOperations : Fin 5 → Operation
  | 0 => strangerCalls 0
  | 1 => .addMember 5 8 (some 7)
  | 2 => strangerCalls 1
  | 3 => .request
    ⟨7, .updateTask 1 { version := 1, title := some "new" }, { startUtc := 0, endUtc := 1 }⟩
  | 4 => .removeMember 5 8

/-- The removal finds the task unassigned only after it has waited for the patch. -/
def removalSteps : List (Fin 5 × Choice RowId Uuid) :=
  [(0, .gen 5), (0, .go), (0, .go), (0, .go), (1, .go), (1, .go), (1, .go), (2, .go), (2, .go),
    (2, .go), (2, .go), (2, .go), (2, .go), (2, .gen 1), (2, .go), (2, .go), (2, .go), (3, .go),
    (3, .go), (3, .go), (3, .go), (3, .go), (4, .go), (4, .go), (3, .go), (3, .go),
    (3, .pick (.task 1)), (3, .go), (3, .go), (3, .go), (4, .pick (.task 1)), (4, .go), (4, .go),
    (4, .pick (.member 5 8)), (4, .go), (4, .go)]

def removalRun : Config (Fin 5) Row LockKey Uuid Error Unit :=
  (Operation.init twoUsers removalOperations).execTo schema
    (fun c t _ => CommitsReady removalOperations c t) removalSteps (by decide)

theorem assignees_stay_members_removalRun :
    (∀ t, removalRun.tx t = .done (.ok ())) ∧ isMember removalRun.db 5 8 = false ∧
      (removalRun.db.row (.task 1)).map (fun r => (r.title.val, r.assigneeId)) =
        some ("new", none) ∧
      AssigneesAreMembers removalRun.db := by
  refine ⟨?_, rfl, rfl, assignees_stay_members
    (assigneesAreMembers_of_noTasks fun _ => rfl) removalOperations (run_execTo _)⟩
  intro t
  match t with
  | 0 => rfl
  | 1 => rfl
  | 2 => rfl
  | 3 => rfl
  | 4 => rfl

end TaskDb
