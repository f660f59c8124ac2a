import TaskManagement.Service.Equiv.Checks

/-!
# Who may write a task

What the checks of a write endpoint know of its user, for a user who is no admin: whatever
transactions run beside the request, when it commits, a snapshot of its checks showed the user as a
member of the project of the task concerned, or the task has no project and the user created it
(`Request.Authorised`).  Two endpoints make no such check (`Request.Unchecked`): `POST /api/tasks`
with a project, and `PATCH` with `is_active = true` on an inactive task.  A request that commits is
authorised exactly if the check that they lack would have passed (`task_writes_authorised`);
`task_writes_unauthorised` is a request of the first kind by a user who is no member.
-/

namespace TaskDb

open ReadCommitted

/-- The user is no admin in any snapshot of the session. -/
def NotAdmin (userId : Uuid) (σ : TaskSession) : Prop :=
  ∀ s ∈ σ.reads, ∀ u ∈ s.row (.user userId), u.role ≠ .admin

instance (userId : Uuid) (σ : TaskSession) : Decidable (NotAdmin userId σ) := by
  unfold NotAdmin
  infer_instance

namespace Request

/-- The project and the creator of the task concerned: of the task that is created, or of the task
that the request has read. -/
def target (q : Request) (σ : TaskSession) : Option (Option Uuid × Uuid) :=
  let read (k : ℕ) (taskId : Uuid) :=
    ((σ.snapshot k).bind (·.row (.task taskId))).map fun r => (r.projectId, r.createdBy)
  match q.endpoint with
  | .createProjectTask projectId _ => some (some projectId, q.userId)
  | .createFlatTask payload => some (payload.projectId, q.userId)
  | .updateTask taskId _ => read 1 taskId
  | .deleteTask taskId => read 1 taskId
  | .createTaskComment taskId _ => read 0 taskId
  | .updateTaskComment commentId _ | .deleteTaskComment commentId =>
    ((σ.snapshot 0).bind (·.row (.comment commentId))).bind fun comment => read 1 comment.taskId

/-- The number of statements up to the last check of the membership. -/
def checks (q : Request) : ℕ :=
  match q.endpoint with
  | .createFlatTask _ => 1
  | .updateTaskComment _ _ | .deleteTaskComment _ => 4
  | _ => 3

/-- The user is a member of the project in a snapshot of the checks. -/
def Member (q : Request) (σ : TaskSession) (projectId : Uuid) : Prop :=
  ∃ k < q.checks, ∃ s, σ.snapshot k = some s ∧ isMember s projectId q.userId = true

/-- The user is a member of the project of the task concerned, or its creator if it has none. -/
def Authorised (q : Request) (σ : TaskSession) : Prop :=
  ∃ r, q.target σ = some r ∧ (∀ p, r.1 = some p → q.Member σ p) ∧
    (r.1 = none → r.2 = q.userId)

/-- The task concerned is in the project, and the endpoint does not check the membership. -/
def Unchecked (q : Request) (σ : TaskSession) (projectId : Uuid) : Prop :=
  match q.endpoint with
  | .createFlatTask payload => payload.projectId = some projectId
  | .updateTask taskId payload => payload.isActive = some true ∧ ∃ s task, σ.snapshot 1 = some s ∧
      s.row (.task taskId) = some task ∧ task.isActive = false ∧ task.projectId = some projectId
  | _ => False

end Request

/-! ### What the checks establish -/

/-- Statement number `k` saw the user as a member, unless the user is an admin. -/
def MemberAt (k : ℕ) (projectId userId : Uuid) (σ : TaskSession) : Prop :=
  NotAdmin userId σ → ∃ s, σ.snapshot k = some s ∧ isMember s projectId userId = true

/-- What `require_task_access` has checked, with its membership check as statement number `k`. -/
def AccessChecked (task : Task) (k : ℕ) (userId : Uuid) (σ : TaskSession) : Prop :=
  (∀ p, task.projectId = some p → MemberAt k p userId σ) ∧
    (NotAdmin userId σ → task.projectId = none → task.createdBy = userId)

/-- Other transactions may do anything except to locked rows. -/
abbrev anyProtocol : Protocol Unit Row LockKey Error :=
  rowProtocol (fun _ => True) fun _ _ _ _ => True

variable {σ : TaskSession} {db : Db} {l : List Db} {user : CurrentUser} {task : Task}
  {userId projectId : Uuid} {k : ℕ}

theorem NotAdmin.of_saw {s : Db} (h : NotAdmin userId (σ.saw s)) : NotAdmin userId σ :=
  fun s' hs' => h s' (List.mem_cons_of_mem s hs')

theorem MemberAt.saw (h : MemberAt k projectId userId σ) (s' : Db) :
    MemberAt k projectId userId (σ.saw s') := by
  intro hna
  obtain ⟨s, hs, hm⟩ := h hna.of_saw
  exact ⟨s, Session.snapshot_saw hs s', hm⟩

theorem persistent_memberAt :
    Persistent anyProtocol fun σ _ => MemberAt k projectId userId σ where
  rely h _ _ := h
  saw s' h := h.saw s'
  lockKey _ h := h
  lockRow _ h := h
  write _ _ h := h

theorem AccessChecked.saw (h : AccessChecked task k userId σ) (s : Db) :
    AccessChecked task k userId (σ.saw s) :=
  ⟨fun p hp => (h.1 p hp).saw s, fun hna => h.2 hna.of_saw⟩

theorem persistent_accessChecked :
    Persistent anyProtocol fun σ _ => AccessChecked task k userId σ where
  rely h _ _ := h
  saw s h := h.saw s
  lockKey _ h := h
  lockRow _ h := h
  write _ _ h := h

/-- A membership check that passes. -/
theorem wp_checkMember (h : Reading l σ db) :
    wp schema anyProtocol () ((fnIsProjectMember projectId userId).bind fun member =>
      Proc.raiseIf (member = false) Error.notFound)
      (fun _ σ _ => MemberAt l.length projectId userId σ) σ db := by
  refine wp_bind (wp_mono (wp_select_reading h) ?_) trivial
  rintro _ σ₁ db₁ - ⟨σ₀, db₀, -, -, rfl, h₁⟩
  refine wp_mono (wp_raiseIf_reading h₁) ?_
  rintro _ σ₂ db₂ - ⟨hmember, h₂⟩ hna
  set s : Db := σ₀.view db₀
  obtain ⟨u, hu, hcond⟩ := (Option.any_eq_true _ _).mp (Bool.eq_true_of_not_eq_false hmember)
  have hrole : u.role ≠ .admin := hna s (by rw [h₂.reads]; exact List.mem_cons_self) u hu
  rw [decide_eq_false hrole, Bool.false_or, Bool.and_eq_true] at hcond
  exact ⟨s, h₂.snapshot_length, hcond.2⟩

/-- The role of the user was read in one of the snapshots `l`. -/
def RoleRead (l : List Db) (user : CurrentUser) : Prop :=
  ∃ s ∈ l, ∃ u, s.row (.user user.id) = some u ∧ u.role = user.role

theorem RoleRead.ne_admin (hrole : RoleRead l user) (h : Reading l σ db)
    (hna : NotAdmin user.id σ) : user.role ≠ .admin := by
  obtain ⟨s, hs, u, hu, he⟩ := hrole
  rw [← he]
  exact hna s (by rw [h.reads]; exact hs) u hu

theorem wp_requireTaskAccess (hrole : RoleRead l user) (h : Reading l σ db) :
    wp schema anyProtocol () (requireTaskAccess task user)
      (fun _ σ _ => AccessChecked task l.length user.id σ) σ db := by
  unfold requireTaskAccess
  split_ifs with hactive hadmin
  · trivial
  · refine wp_mono (wp_ret_reading h) ?_
    rintro _ σ₁ db₁ - ⟨-, h₁⟩
    exact ⟨fun p hp hna => absurd hadmin (hrole.ne_admin h₁ hna),
      fun hna => absurd hadmin (hrole.ne_admin h₁ hna)⟩
  · cases hp : task.projectId with
    | none =>
      refine wp_mono (wp_raiseIf_reading h) ?_
      rintro _ σ₁ db₁ - ⟨hcreator, -⟩
      refine ⟨fun p hp' => ?_, fun _ _ => not_not.mp hcreator⟩
      rw [hp] at hp'
      cases hp'
    | some p =>
      refine wp_mono (wp_checkMember h) ?_
      intro _ σ₁ db₁ _ hmember
      refine ⟨fun p' hp' => ?_, fun _ hnone => ?_⟩
      · rw [hp] at hp'
        obtain rfl := Option.some.inj hp'
        exact hmember
      · rw [hp] at hnone
        cases hnone

/-- The access check before a part of the transaction that does not matter for it. -/
theorem wp_requireTaskAccess_bind {B : TaskSession → Db → Prop} {p : TaskProc Unit}
    (hB : Persistent anyProtocol B) (hrole : RoleRead l user) (h : Reading l σ db) (hb : B σ db) :
    wp schema anyProtocol () ((requireTaskAccess task user).bind fun _ => p)
      (fun _ σ db => B σ db ∧ AccessChecked task l.length user.id σ) σ db := by
  refine wp_bind (wp_mono (wp_and (wp_of_conforms conforms_requireTaskAccess hB Effect.any_holds hb)
    (wp_requireTaskAccess hrole h)) ?_) trivial
  rintro _ σ₁ db₁ - ⟨⟨-, hb₁⟩, hc₁⟩
  exact wp_mono (wp_of_conforms (Proc.conforms_any _) (hB.and persistent_accessChecked)
    Effect.any_holds ⟨hb₁, hc₁⟩) fun _ _ _ _ h' => h'.2

/-- What the checks of `update_task` have established: the access, except for a request to
reactivate an inactive task, which only the creator may make for a task without a project. -/
def UpdateChecked (task : Task) (payload : TaskUpdateRequest) (k : ℕ) (userId : Uuid)
    (σ : TaskSession) : Prop :=
  (¬(task.isActive = false ∧ payload.isActive = some true) → AccessChecked task k userId σ) ∧
    (NotAdmin userId σ → task.projectId = none → task.createdBy = userId)

theorem persistent_updateChecked {payload : TaskUpdateRequest} :
    Persistent anyProtocol fun σ _ => UpdateChecked task payload k userId σ where
  rely h _ _ := h
  saw s h := ⟨fun hskip => (h.1 hskip).saw s,
    fun hna => h.2 hna.of_saw⟩
  lockKey _ h := h
  lockRow _ h := h
  write _ _ h := h

/-- A request to reactivate a task without a project passes for its creator only. -/
theorem wp_requireActivationRight {payload : TaskUpdateRequest} (hactive : payload.isActive.isSome)
    (hrole : RoleRead l user) (h : Reading l σ db) :
    wp schema anyProtocol () (requireActivationRight task payload user)
      (fun _ σ _ => NotAdmin user.id σ → task.projectId = none → task.createdBy = user.id)
      σ db := by
  unfold requireActivationRight
  split_ifs with hcond
  · cases hp : task.projectId with
    | none =>
      refine wp_mono (wp_raiseIf_reading h) ?_
      rintro _ σ₁ db₁ - ⟨hnot, -⟩ - -
      by_contra hne
      exact hnot ⟨hne, by simp⟩
    | some p =>
      refine wp_mono (wp_of_conforms (Proc.conforms_any _) persistent_true Effect.any_holds
        trivial) ?_
      rintro - - - - - - ⟨⟩
  · refine wp_mono (wp_ret_reading h) ?_
    rintro _ σ₁ db₁ - ⟨-, h₁⟩ hna
    exact absurd ⟨hactive, hrole.ne_admin h₁ hna⟩ hcond

theorem wp_authorizeUpdate {payload : TaskUpdateRequest} (hrole : RoleRead l user)
    (h : Reading l σ db) :
    wp schema anyProtocol () (authorizeUpdate task payload user)
      (fun _ σ _ => UpdateChecked task payload l.length user.id σ) σ db := by
  unfold authorizeUpdate
  split_ifs with hcond
  · refine wp_mono (wp_requireTaskAccess_bind persistent_true hrole h trivial) ?_
    rintro _ σ₁ db₁ - ⟨-, hc⟩
    exact ⟨fun _ => hc, hc.2⟩
  · have hskip : task.isActive = false ∧ payload.isActive = some true := by
      obtain ⟨hinactive, hpayload⟩ := not_or.mp hcond
      exact ⟨Bool.eq_false_of_not_eq_true hinactive, not_not.mp hpayload⟩
    have hsome : payload.isActive.isSome := by
      rw [hskip.2]
      rfl
    refine wp_mono (wp_requireActivationRight hsome hrole h) ?_
    exact fun _ _ _ _ hc => ⟨fun hnot => absurd hskip hnot, hc⟩

/-! ### The endpoints -/

theorem RoleRead.cons (h : RoleRead l user) (s : Db) : RoleRead (s :: l) user := by
  obtain ⟨s', hs', hu⟩ := h
  exact ⟨s', List.mem_cons_of_mem s hs', hu⟩

/-- A request that has passed the access check of its task. -/
theorem authorised_of_access {q : Request} (hk : k < q.checks)
    (htarget : q.target σ = some (task.projectId, task.createdBy))
    (h : AccessChecked task k q.userId σ) (hna : NotAdmin q.userId σ) : q.Authorised σ := by
  refine ⟨_, htarget, fun p hp => ?_, h.2 hna⟩
  obtain ⟨s, hs, hm⟩ := h.1 p hp hna
  exact ⟨k, hk, s, hs, hm⟩

/-- What a request has established when it comes to its commit. -/
def Request.Checked (q : Request) (σ : TaskSession) : Prop :=
  NotAdmin q.userId σ → (∀ p, q.Unchecked σ p → q.Member σ p) → q.Authorised σ

variable {day : AppDay}

theorem wp_createProjectTask {payload : TaskCreateRequest} :
    wp schema anyProtocol () (Request.proc ⟨userId, .createProjectTask projectId payload, day⟩)
      (fun _ σ _ => Request.Checked ⟨userId, .createProjectTask projectId payload, day⟩ σ)
      .start db := by
  refine wp_bind (wp_mono (wp_getCurrentUser trivial reading_start) ?_) trivial
  rintro _ σ₁ db₁ - ⟨s₀, u, hu, -, rfl, h₁⟩
  have hmember : wp schema anyProtocol () (requireProjectMember projectId ⟨userId, u.role⟩)
      (fun _ σ _ => MemberAt 2 projectId userId σ) σ₁ db₁ := by
    refine wp_bind (wp_mono (wp_select_reading h₁) ?_) trivial
    rintro _ σ₂ db₂ - ⟨σ', db', -, -, rfl, h₂⟩
    cases (σ'.view db').row (.project projectId) with
    | none => trivial
    | some p => exact wp_checkMember h₂
  refine wp_bind (wp_mono hmember ?_) trivial
  intro _ σ₃ db₃ _ h₃
  refine wp_mono (wp_of_conforms (Proc.conforms_any _) persistent_memberAt Effect.any_holds h₃) ?_
  rintro _ σ₄ db₄ - ⟨-, h₄⟩ hna -
  obtain ⟨s, hs, hm⟩ := h₄ hna
  refine ⟨_, rfl, fun p hp => ?_, fun hnone => nomatch hnone⟩
  obtain rfl := Option.some.inj hp
  exact ⟨2, Nat.lt_succ_self 2, s, hs, hm⟩

theorem wp_createFlatTask {payload : TaskCreateFlatRequest} :
    wp schema anyProtocol () (Request.proc ⟨userId, .createFlatTask payload, day⟩)
      (fun _ σ _ => Request.Checked ⟨userId, .createFlatTask payload, day⟩ σ) .start db := by
  refine wp_mono (wp_of_conforms (Proc.conforms_any _) persistent_true Effect.any_holds trivial) ?_
  rintro _ σ₁ db₁ - - - hunchecked
  exact ⟨_, rfl, fun p hp => hunchecked p hp, fun _ => rfl⟩

/-- The task that statement number 1 has read. -/
theorem target_of_snapshot {s : Db} {taskId : Uuid} (hs : σ.snapshot k = some s)
    (htask : s.row (.task taskId) = some task) :
    ((σ.snapshot k).bind (·.row (.task taskId))).map (fun r => (r.projectId, r.createdBy)) =
      some (task.projectId, task.createdBy) := by
  rw [hs, Option.bind_some, htask]
  rfl

theorem wp_updateTask {taskId : Uuid} {payload : TaskUpdateRequest} :
    wp schema anyProtocol () (Request.proc ⟨userId, .updateTask taskId payload, day⟩)
      (fun _ σ _ => Request.Checked ⟨userId, .updateTask taskId payload, day⟩ σ) .start db := by
  refine wp_bind (wp_mono (wp_getCurrentUser trivial reading_start) ?_) trivial
  rintro _ σ₁ db₁ - ⟨s₀, u, hu, -, rfl, h₁⟩
  have hrole : RoleRead [s₀] ⟨userId, u.role⟩ := ⟨s₀, List.mem_cons_self, u, hu, rfl⟩
  refine wp_bind (wp_mono (wp_select_reading h₁) ?_) trivial
  rintro _ σ₂ db₂ - ⟨σ', db', -, -, rfl, h₂⟩
  set s : Db := σ'.view db'
  cases htask : s.row (.task taskId) with
  | none => trivial
  | some task =>
    refine wp_bind (wp_mono (wp_and (wp_of_conforms conforms_authorizeUpdate
      (persistent_snapshot 1 s) Effect.any_holds h₂.snapshot_length)
      (wp_authorizeUpdate (hrole.cons s) h₂)) ?_) trivial
    rintro _ σ₃ db₃ - ⟨⟨-, hs₃⟩, hc₃⟩
    refine wp_mono (wp_of_conforms (Proc.conforms_any _)
      ((persistent_snapshot 1 s).and persistent_updateChecked) Effect.any_holds ⟨hs₃, hc₃⟩) ?_
    rintro _ σ₄ db₄ - ⟨-, hs₄, hc₄⟩ hna hunchecked
    by_cases hskip : task.isActive = false ∧ payload.isActive = some true
    · refine ⟨_, target_of_snapshot hs₄ htask, fun p hp => ?_, hc₄.2 hna⟩
      exact hunchecked p ⟨hskip.2, s, task, hs₄, htask, hskip.1, hp⟩
    · exact authorised_of_access (Nat.lt_succ_self 2) (target_of_snapshot hs₄ htask) (hc₄.1 hskip) hna

theorem wp_deleteTask {taskId : Uuid} :
    wp schema anyProtocol () (Request.proc ⟨userId, .deleteTask taskId, day⟩)
      (fun _ σ _ => Request.Checked ⟨userId, .deleteTask taskId, day⟩ σ) .start db := by
  refine wp_bind (wp_mono (wp_getCurrentUser trivial reading_start) ?_) trivial
  rintro _ σ₁ db₁ - ⟨s₀, u, hu, -, rfl, h₁⟩
  have hrole : RoleRead [s₀] ⟨userId, u.role⟩ := ⟨s₀, List.mem_cons_self, u, hu, rfl⟩
  refine wp_bind (wp_mono (wp_select_reading h₁) ?_) trivial
  rintro _ σ₂ db₂ - ⟨σ', db', -, -, rfl, h₂⟩
  set s : Db := σ'.view db'
  cases htask : s.row (.task taskId) with
  | none => trivial
  | some task =>
    refine wp_mono (wp_requireTaskAccess_bind (persistent_snapshot 1 s) (hrole.cons s) h₂
      h₂.snapshot_length) ?_
    rintro _ σ₃ db₃ - ⟨hs₃, hc₃⟩ hna -
    exact authorised_of_access (Nat.lt_succ_self 2) (target_of_snapshot hs₃ htask) hc₃ hna

theorem wp_createTaskComment {taskId : Uuid} {body : String} :
    wp schema anyProtocol () (Request.proc ⟨userId, .createTaskComment taskId body, day⟩)
      (fun _ σ _ => Request.Checked ⟨userId, .createTaskComment taskId body, day⟩ σ)
      .start db := by
  refine wp_bind (wp_mono (wp_getTaskForMember trivial reading_start) ?_) trivial
  rintro task σ₁ db₁ - ⟨s, htask, h₁⟩
  refine wp_bind (wp_mono (wp_and (wp_of_conforms conforms_getCurrentUser (persistent_snapshot 0 s)
    Effect.any_holds h₁.snapshot_length) (wp_getCurrentUser trivial h₁)) ?_) trivial
  rintro _ σ₂ db₂ - ⟨⟨-, hs₂⟩, s₁, u, hu, -, rfl, h₂⟩
  have hrole : RoleRead [s₁, s] ⟨userId, u.role⟩ := ⟨s₁, List.mem_cons_self, u, hu, rfl⟩
  refine wp_mono (wp_requireTaskAccess_bind (persistent_snapshot 0 s) hrole h₂ hs₂) ?_
  rintro _ σ₃ db₃ - ⟨hs₃, hc₃⟩ hna -
  exact authorised_of_access (Nat.lt_succ_self 2) (target_of_snapshot hs₃ htask) hc₃ hna

/-- The routes of a comment load it and its task, then the user, and check the access. -/
theorem wp_commentRoute {commentId : Uuid} {endpoint : Endpoint}
    (rest : TaskComment → CurrentUser → TaskProc Unit)
    (hchecks : 3 < Request.checks ⟨userId, endpoint, day⟩)
    (htarget : ∀ σ : TaskSession, Request.target ⟨userId, endpoint, day⟩ σ =
      ((σ.snapshot 0).bind (·.row (.comment commentId))).bind fun comment =>
        ((σ.snapshot 1).bind (·.row (.task comment.taskId))).map
          fun r => (r.projectId, r.createdBy)) :
    wp schema anyProtocol () ((getCommentForMember commentId).bind fun r =>
        (getCurrentUser userId).bind fun user =>
          (requireTaskAccess r.2 user).bind fun _ => rest r.1 user)
      (fun _ σ _ => Request.Checked ⟨userId, endpoint, day⟩ σ) .start db := by
  refine wp_bind (wp_mono (wp_getCommentForMember trivial reading_start) ?_) trivial
  rintro ⟨comment, task⟩ σ₁ db₁ - ⟨s, s', hcomment, htask, h₁⟩
  have hsnap : σ₁.snapshot 0 = some s ∧ σ₁.snapshot 1 = some s' := by
    refine ⟨?_, h₁.snapshot_length⟩
    show σ₁.reads.reverse[0]? = some s
    rw [h₁.reads]
    rfl
  have hpersistent : Persistent anyProtocol fun (σ : TaskSession) _ =>
      σ.snapshot 0 = some s ∧ σ.snapshot 1 = some s' :=
    (persistent_snapshot 0 s).and (persistent_snapshot 1 s')
  refine wp_bind (wp_mono (wp_and (wp_of_conforms conforms_getCurrentUser hpersistent
    Effect.any_holds hsnap) (wp_getCurrentUser trivial h₁)) ?_) trivial
  rintro _ σ₂ db₂ - ⟨⟨-, hs₂⟩, s₂, u, hu, -, rfl, h₂⟩
  have hrole : RoleRead [s₂, s', s] ⟨userId, u.role⟩ := ⟨s₂, List.mem_cons_self, u, hu, rfl⟩
  refine wp_mono (wp_requireTaskAccess_bind hpersistent hrole h₂ hs₂) ?_
  rintro _ σ₃ db₃ - ⟨⟨hs₃, hs₃'⟩, hc₃⟩ hna -
  refine authorised_of_access hchecks ?_ hc₃ hna
  rw [htarget, hs₃, Option.bind_some, hcomment]
  exact target_of_snapshot hs₃' htask

theorem Request.wp_proc (q : Request) :
    wp schema anyProtocol () q.proc (fun _ σ _ => q.Checked σ) .start db := by
  obtain ⟨userId, endpoint, day⟩ := q
  cases endpoint with
  | createProjectTask projectId payload => exact wp_createProjectTask
  | createFlatTask payload => exact wp_createFlatTask
  | updateTask taskId payload => exact wp_updateTask
  | deleteTask taskId => exact wp_deleteTask
  | createTaskComment taskId body => exact wp_createTaskComment
  | updateTaskComment commentId body =>
    exact wp_commentRoute (fun comment user => do
      requireCommentEditor comment.userId user
      spUpdateTaskComment commentId body
      let updated ← fnGetCommentWithTask commentId
      Proc.raiseIf (updated = none) .notFound) (Nat.lt_succ_self 3) fun _ => rfl
  | deleteTaskComment commentId =>
    exact wp_commentRoute (fun comment user => do
      requireCommentEditor comment.userId user
      spDeleteTaskComment commentId) (Nat.lt_succ_self 3) fun _ => rfl

/-! ### Runs -/

/-- An authorised request would have passed the check that its endpoint lacks. -/
theorem Request.Authorised.member {q : Request} {σ : TaskSession} (h : q.Authorised σ)
    {projectId : Uuid} (hp : q.Unchecked σ projectId) : q.Member σ projectId := by
  obtain ⟨r, hr, hmember, -⟩ := h
  refine hmember projectId ?_
  obtain ⟨userId, endpoint, day⟩ := q
  cases endpoint with
  | createFlatTask payload =>
    obtain rfl := Option.some.inj hr
    exact hp
  | updateTask taskId payload =>
    obtain ⟨-, s, task, hs, htask, -, hproject⟩ := hp
    have ht := target_of_snapshot hs htask
    obtain rfl := Option.some.inj (ht.symm.trans hr)
    exact hproject
  | _ => exact hp.elim

/-- When a request of a user who is no admin commits, whatever the other transactions are, it is
authorised exactly if its user was a member wherever its endpoint does not check that. -/
theorem task_writes_authorised {τ : Type} [DecidableEq τ] [Fintype τ] {db₀ : Db}
    {prog : τ → TaskProc Unit} {q : Request} {t : τ} (ht : prog t = q.proc)
    {c c' : Config τ Row LockKey Uuid Error Unit} {ch : Choice RowId Uuid}
    (hrun : Reachable schema (.init db₀ prog) c) {p : TaskProc Unit} {σ : TaskSession}
    (hact : c.tx t = .active p σ) (hstep : c.step schema t ch = some c')
    (hdone : c'.tx t = .done (.ok ())) (hna : NotAdmin q.userId σ) :
    q.Authorised σ ↔ ∀ projectId, q.Unchecked σ projectId → q.Member σ projectId := by
  set Q : τ → Unit → TaskSession → Db → Prop := fun u _ σ _ => u = t → q.Checked σ
  have hinit : Sound schema anyProtocol (fun _ => ()) Q (.init db₀ prog) := by
    refine sound_init trivial fun u => ?_
    by_cases hu : u = t
    · subst hu
      rw [ht]
      exact wp_mono q.wp_proc fun _ _ _ _ h _ => h
    · exact wp_mono (wp_of_conforms (Proc.conforms_any _) persistent_true Effect.any_holds trivial)
        fun _ _ _ _ _ h => absurd h hu
  have hsound := hinit.run (fun _ _ _ _ _ _ _ => rowProtocol_commits fun _ => trivial)
    (hrun.mono fun _ _ _ _ _ _ _ _ _ => trivial)
  obtain ⟨σ', hact', -, hpost⟩ := hsound.of_commit hstep hdone
  obtain ⟨-, rfl⟩ := Tx.active.inj (hact.symm.trans hact')
  exact ⟨fun h projectId hp => h.member hp, fun h => hpost rfl hna h⟩

/-! ### A task in a foreign project -/

/-- Project 5 of user 7, and user 9, who is no member of it. -/
def foreignProject : Db :=
  (Store.empty : Db).overlay
    [⟨.member 5 7, some { invitedBy := none }⟩,
      ⟨.project 5, some
        { ownerId := 7, name := "project", description := none, startAt := none, endAt := none,
          isActive := true }⟩,
      ⟨.user 9, some { role := .member, isActive := true }⟩,
      ⟨.user 7, some { role := .member, isActive := true }⟩]

/-- `POST /api/tasks` of the user with the project 5. -/
def flatRequest (userId : Uuid) : Request where
  userId := userId
  endpoint := .createFlatTask
    { title := "task", projectId := some 5, assignee_of_project := nofun }
  day := { startUtc := 0, endUtc := 1 }

def flatCalls (userId : Uuid) : Fin 1 → TaskProc Unit
  | 0 => (flatRequest userId).proc

def flatInit (userId : Uuid) : Config (Fin 1) Row LockKey Uuid Error Unit :=
  .init foreignProject (flatCalls userId)

/-- The statements of the request, up to its commit. -/
def flatSteps : List (Fin 1 × Choice RowId Uuid) :=
  [(0, .go), (0, .go), (0, .go), (0, .gen 1), (0, .go), (0, .go)]

def foreignRun : Config (Fin 1) Row LockKey Uuid Error Unit :=
  (flatInit 9).execTo schema (fun _ _ _ => True) flatSteps (by decide)

/-- A user who is no member of the project creates a task in it. -/
theorem task_writes_unauthorised :
    isMember foreignProject 5 9 = false ∧ Reachable schema (flatInit 9) foreignRun ∧
      ∃ p σ c', foreignRun.tx 0 = .active p σ ∧ foreignRun.step schema 0 .go = some c' ∧
        c'.tx 0 = .done (.ok ()) ∧ NotAdmin 9 σ ∧
        (c'.db.row (.task 1)).map (fun r => (r.projectId, r.createdBy)) = some (some 5, 9) ∧
        ¬(flatRequest 9).Authorised σ := by
  refine ⟨rfl, run_execTo _, _, _, _, rfl, rfl, rfl, by decide, rfl, fun h => ?_⟩
  have hunchecked : ∀ σ, (flatRequest 9).Unchecked σ 5 := fun _ => rfl
  obtain ⟨k, hk, s, hs, hm⟩ := h.member (hunchecked _)
  obtain rfl : k = 0 := Nat.lt_one_iff.mp hk
  obtain rfl := Option.some.inj hs
  cases hm

/-! ### A task in the own project -/

def ownRun : Config (Fin 1) Row LockKey Uuid Error Unit :=
  (flatInit 7).execTo schema (fun _ _ _ => True) flatSteps (by decide)

theorem task_writes_authorised_ownRun :
    ∃ p σ, ownRun.tx 0 = .active p σ ∧ (flatRequest 7).Authorised σ := by
  have hstep : (ownRun.step schema 0 .go).isSome = true := rfl
  have hcall : flatCalls 7 0 = (flatRequest 7).proc := rfl
  refine ⟨_, _, rfl, (task_writes_authorised hcall (run_execTo _) rfl
    (Option.some_get hstep).symm rfl (by decide)).mpr fun p hp => ?_⟩
  obtain rfl := Option.some.inj hp
  exact ⟨0, Nat.one_pos, _, rfl, rfl⟩

end TaskDb
