import TaskManagement.Service.Equiv.Checks

/-!
# What a `PATCH` of a task changes

`update_task` fills the fields that a payload omits with what it read before any lock, and the
version in the payload is compared with the locked row, not with that read.  When the row lock
finds what was read (`LocksCurrent`), the commit of an `update_task` changes only the fields that
its payload names, whatever transactions run beside it (`patch_changes_payload_only`).  Otherwise
it writes values back that another transaction has replaced since (`patch_writes_back`): the
removal of a member clears the assignee of a task without a new version.
-/

namespace TaskDb

open ReadCommitted

variable {taskId : Uuid} {payload : TaskUpdateRequest} {day : AppDay} {user : CurrentUser}
  {task old : Task} {vOldStatus : Status}

/-- The payload names neither the status nor the position. -/
def TaskUpdateRequest.KeepsPlace (payload : TaskUpdateRequest) : Prop :=
  payload.status = none ∧ payload.position = none

instance (payload : TaskUpdateRequest) : Decidable payload.KeepsPlace := by
  unfold TaskUpdateRequest.KeepsPlace
  infer_instance

/-- From `r` to `r'`, only the version and the fields of the payload change, and with the status or
the position the position. -/
structure Patched (payload : TaskUpdateRequest) (r r' : Task) : Prop where
  projectId : r'.projectId = r.projectId
  createdBy : r'.createdBy = r.createdBy
  title : payload.title = none → r'.title = r.title
  description : payload.description = none → r'.description = r.description
  status : payload.status = none → r'.status = r.status
  assigneeId : payload.assigneeId = none → r'.assigneeId = r.assigneeId
  dueAt : payload.dueAt = none → r'.dueAt = r.dueAt
  isActive : payload.isActive = none → r'.isActive = r.isActive
  position : payload.KeepsPlace → r'.position = r.position

theorem Patched.refl (payload : TaskUpdateRequest) (r : Task) : Patched payload r r :=
  ⟨rfl, rfl, fun _ => rfl, fun _ => rfl, fun _ => rfl, fun _ => rfl, fun _ => rfl, fun _ => rfl,
    fun _ => rfl⟩

/-- Between two databases, the task changes as the payload says, and without a status or a position
in the payload every task keeps its slot. -/
structure PatchFrame (payload : TaskUpdateRequest) (taskId : Uuid) (db db' : Db) : Prop where
  task : ∀ r, db.row (.task taskId) = some r →
    ∃ r', db'.row (.task taskId) = some r' ∧ Patched payload r r'
  slots : payload.KeepsPlace → ∀ t, slot db' t = slot db t

/-! ### The condition -/

/-- The locked row `old` against the task that `update_task` read and the status that
`sp_update_task` read: they agree on every field that is filled from those reads. -/
def TaskUpdateRequest.Current (payload : TaskUpdateRequest) (task : Task) (vOldStatus : Status)
    (old : Task) : Prop :=
  (payload.title = none → task.title = old.title) ∧
  (payload.description = none → task.description = old.description) ∧
  (payload.status = none → task.status = old.status) ∧
  (payload.assigneeId = none → task.assigneeId = old.assigneeId) ∧
  (payload.dueAt = none → task.dueAt = old.dueAt) ∧
  (payload.KeepsPlace → task.position = old.position ∧ vOldStatus = old.status)

instance (payload : TaskUpdateRequest) (task : Task) (s : Status) (old : Task) :
    Decidable (payload.Current task s old) := by
  unfold TaskUpdateRequest.Current
  infer_instance

/-- The committed row is as the first and the last snapshot of the session show it, if it has the
version of the payload. -/
def TaskUpdateRequest.ReadsCurrent (payload : TaskUpdateRequest) (taskId : Uuid)
    (σ : TaskSession) (db : Db) : Prop :=
  ∀ task ∈ (σ.snapshot 0).bind (·.row (.task taskId)),
    ∀ read ∈ σ.reads.head?.bind (·.row (.task taskId)),
      ∀ old ∈ db.row (.task taskId), old.version = payload.version →
        payload.Current task read.status old

instance (payload : TaskUpdateRequest) (taskId : Uuid) (σ : TaskSession) (db : Db) :
    Decidable (payload.ReadsCurrent taskId σ db) := by
  unfold TaskUpdateRequest.ReadsCurrent
  infer_instance

/-- Other transactions may do anything except to locked rows; the row lock of the transaction `t`
finds what was read. -/
def patchProtocol {τ : Type} (t : τ) (taskId : Uuid) (payload : TaskUpdateRequest) :
    Protocol τ Row LockKey Error :=
  rowProtocol (fun _ => True) fun u o σ db =>
    match o with
    | .lock _ => u = t → payload.ReadsCurrent taskId σ db
    | _ => True

/-! ### The effect of the procedure -/

/-- What `update_task` may do to each row when it has locked the row `old` of its task. -/
def patchEffect (taskId : Uuid) (payload : TaskUpdateRequest) (old : Task) : Effect Row where
  rel
    | .task t, o, o' =>
      if t = taskId then o = some old → ∃ r, o' = some r ∧ Patched payload old r
      else payload.KeepsPlace → o' = o
    | _, _, _ => True
  refl i o := by
    cases i with
    | task t =>
      show if t = taskId then _ else _
      split_ifs
      · exact fun ho => ⟨old, ho, Patched.refl payload old⟩
      · exact fun _ => rfl
    | _ => trivial

/-- An update of `tasks` is admitted when it patches the row of the task and, for a payload that
keeps the place, touches no other row. -/
theorem conforms_patchEffect {u : RowUpdate Row}
    (htask : ∀ r w, Patched payload old r → u (.task taskId) r = some w →
      ∃ r', w = some r' ∧ Patched payload old r')
    (hother : ∀ t r w, t ≠ taskId → u (.task t) r = some w → ¬payload.KeepsPlace) :
    u.Conforms (patchEffect taskId payload old) := by
  intro i o r w h hu
  cases i with
  | task t =>
    by_cases ht : t = taskId
    · subst ht
      simp only [patchEffect] at h ⊢
      intro ho
      obtain ⟨r₁, hr₁, hp⟩ := h ho
      obtain rfl := Option.some.inj hr₁
      exact htask r w hp hu
    · simp only [patchEffect, if_neg ht]
      exact fun hk => absurd hk (hother t r w ht hu)
  | _ => trivial

/-- Renumbering is admitted when the payload names the status or the position. -/
theorem conforms_shiftPositions (hk : ¬payload.KeepsPlace) {p : Option Uuid} {s : Status}
    {range : ℤ → Prop} [DecidablePred range] {except : Option Uuid} {δ : ℤ} :
    (shiftPositions p s range except δ).Conforms (patchEffect taskId payload old) := by
  refine conforms_patchEffect (fun r w hp hu => ?_) fun _ _ _ _ _ => hk
  simp only [shiftPositions] at hu
  split_ifs at hu
  obtain rfl := Option.some.inj hu
  exact ⟨_, rfl, hp.projectId, hp.createdBy, hp.title, hp.description, hp.status, hp.assigneeId,
    hp.dueAt, hp.isActive, fun hk' => absurd hk' hk⟩

/-- The row that the final `UPDATE` writes differs from `old` in the fields of the payload only. -/
theorem Patched.apply {r : Task} {n : ℤ} (h : Patched payload old r)
    (hcur : payload.Current task vOldStatus old) (hn : payload.KeepsPlace → n = old.position) :
    Patched payload old ((payload.call taskId task day).apply n r) := by
  obtain ⟨htitle, hdesc, hstatus, hassignee, hdue, -⟩ := hcur
  refine ⟨h.projectId, h.createdBy, fun he => ?_, fun he => ?_, fun he => ?_, fun he => ?_,
    fun he => ?_, fun he => ?_, hn⟩
  · show Title.assign (payload.title.getD task.title.val) = old.title
    rw [he, Option.getD_none, Title.assign_val]
    exact htitle he
  · show payload.description.getD task.description = old.description
    rw [he]
    exact hdesc he
  · show payload.status.getD task.status = old.status
    rw [he]
    exact hstatus he
  · show payload.assigneeId.getD task.assigneeId = old.assigneeId
    rw [he]
    exact hassignee he
  · show payload.dueAt.getD task.dueAt = old.dueAt
    rw [he]
    exact hdue he
  · show payload.isActive.getD r.isActive = old.isActive
    rw [he]
    exact h.isActive he

theorem conforms_setTask {n : ℤ} (hcur : payload.Current task vOldStatus old)
    (hn : payload.KeepsPlace → n = old.position) :
    (setTask taskId (fun r => r.version = payload.version)
      ((payload.call taskId task day).apply n)).Conforms (patchEffect taskId payload old) := by
  refine conforms_patchEffect (fun r w hp hu => ?_) fun t r w ht hu => ?_
  · simp only [setTask] at hu
    split_ifs at hu
    obtain rfl := Option.some.inj hu
    exact ⟨_, rfl, hp.apply hcur hn⟩
  · simp only [setTask] at hu
    rw [if_neg fun hif => ht hif.1] at hu
    cases hu

/-- A payload that keeps the place renumbers nothing when its row is current. -/
theorem movePositions_of_keepsPlace {p : Option Uuid} (hk : payload.KeepsPlace)
    (hcur : payload.Current task vOldStatus old) :
    (payload.call taskId task day).movePositions p vOldStatus old.position =
      .ret old.position := by
  obtain ⟨-, -, hstatus, -, -, hplace⟩ := hcur
  obtain ⟨hpos, hread⟩ := hplace hk
  have hs : (payload.call taskId task day).status = vOldStatus := by
    show payload.status.getD task.status = vOldStatus
    rw [hk.1, hread]
    exact hstatus hk.1
  have hq : (payload.call taskId task day).position = some old.position := by
    show some ((payload.position.map fun q => (q : ℤ)).getD task.position) = some old.position
    rw [hk.2, ← hpos]
    rfl
  unfold UpdateTask.movePositions
  rw [if_neg (not_not.mpr hs), hq]
  exact if_pos rfl

/-- After its row lock, `sp_update_task` does no more than the payload says when the row is
current. -/
theorem conforms_afterLock {project : Option Uuid}
    (hcur : old.version = payload.version → payload.Current task vOldStatus old) :
    ((payload.call taskId task day).afterLock project vOldStatus old).Conforms
      (patchEffect taskId payload old) := by
  have hwrite : ∀ n, (payload.KeepsPlace → n = old.position) →
      payload.Current task vOldStatus old → Proc.Conforms (patchEffect taskId payload old)
      ((Proc.update (setTask taskId (fun r => r.version = payload.version)
        ((payload.call taskId task day).apply n)) : TaskProc ℕ).bind fun updated =>
          (Proc.raiseIf (updated = 0) Error.taskVersionConflict).bind fun _ =>
            (payload.call taskId task day).notifyUpdated old.dueAt) :=
    fun n hn hc => (Proc.conforms_update (conforms_setTask hc hn)).bind fun _ =>
      Proc.conforms_raiseIf.bind fun _ => AdmitsNotification.notifyUpdated fun _ _ _ _ _ => trivial
  unfold UpdateTask.afterLock
  by_cases hver : old.version = payload.version
  · refine Proc.conforms_raiseIf.bind fun _ => (conforms_requireActiveAssignee _).bind fun _ => ?_
    by_cases hk : payload.KeepsPlace
    · rw [movePositions_of_keepsPlace hk (hcur hver)]
      exact hwrite old.position (fun _ => rfl) (hcur hver)
    · have hshifts : ConformsShifts (patchEffect taskId payload old) project :=
        fun _ _ _ _ _ => conforms_shiftPositions hk
      exact hshifts.movePositions.bind fun n =>
        hwrite n (fun hk' => absurd hk' hk) (hcur hver)
  · -- the version check raises
    show Proc.Conforms _ (Proc.bind (Proc.raiseIf (old.version ≠ payload.version) _) _)
    unfold Proc.raiseIf
    rw [if_pos hver]
    trivial

/-! ### The specification of `update_task` -/

section Spec

variable {τ : Type} {t : τ} {σ : TaskSession} {db : Db}

theorem wp_lockColumns {l : List Db} {p : UpdateTask} {project : Option Uuid} {status : Status}
    {position : ℤ} (h : Reading l σ db) :
    wp schema (patchProtocol t taskId payload) t (p.lockColumns project status position)
      (fun _ σ db => Reading l σ db) σ db := by
  have hkey : ∀ {x : LockKey} {σ db}, Reading l σ db →
      wp schema (patchProtocol t taskId payload) t (Proc.advisoryLock x : TaskProc Unit)
        (fun _ σ db => Reading l σ db) σ db :=
    fun h => wp_advisoryLock_keeps (fun h hr hi => h.rely hr hi)
      (fun h => ⟨trivial, h.unchanged, h.reads⟩) h
  unfold UpdateTask.lockColumns
  dsimp only
  split_ifs
  · exact hkey h
  · exact wp_bind (wp_mono (hkey h) fun _ _ _ _ h' => hkey h') trivial
  · exact wp_bind (wp_mono (hkey h) fun _ _ _ _ h' => hkey h') trivial
  · exact wp_ret fun _ hr hi => h.rely hr hi

/-- What `update_task` has done: nothing, or with its row locked no more than the payload says. -/
def PatchDone (taskId : Uuid) (payload : TaskUpdateRequest) (σ : TaskSession) (db : Db) : Prop :=
  Effect.unchanged.Holds σ db ∨ ∃ old, (patchEffect taskId payload old).Holds σ db ∧
    RowId.task taskId ∈ σ.rows ∧ db.row (.task taskId) = some old

/-- A part of the transaction that conforms to every effect keeps what is done. -/
theorem PatchDone.wp_of_conforms {p : TaskProc Unit} (hp : ∀ R, p.Conforms R)
    (h : PatchDone taskId payload σ db) :
    wp schema (patchProtocol t taskId payload) t p (fun _ σ db => PatchDone taskId payload σ db) σ
      db := by
  rcases h with h | ⟨old, h, hheld⟩
  · exact wp_mono (ReadCommitted.wp_of_conforms (hp _) persistent_true h trivial)
      fun _ _ _ _ h' => Or.inl h'.1
  · exact wp_mono (ReadCommitted.wp_of_conforms (hp _) (persistent_held (.task taskId) old) h hheld)
      fun _ _ _ _ h' => Or.inr ⟨old, h'⟩

/-- From a session whose first snapshot shows the task that fills the payload. -/
theorem wp_spUpdateTask_patch {l : List Db} {s : Db} (htask : s.row (.task taskId) = some task)
    (hfirst : σ.snapshot 0 = some s) (h : Reading l σ db) :
    wp schema (patchProtocol t taskId payload) t (spUpdateTask (payload.call taskId task day))
      (fun _ σ db => PatchDone taskId payload σ db) σ db := by
  refine wp_bind (wp_mono (wp_select_reading h) ?_) trivial
  rintro _ σ₁ db₁ - ⟨σ₀, db₀, h₀, -, rfl, h₁⟩
  set s' : Db := σ₀.view db₀ with hs'
  cases hread : s'.row (.task (payload.call taskId task day).taskId) with
  | none => exact wp_ret fun _ hr hi => Or.inl (h₁.rely hr hi).unchanged
  | some read =>
    refine wp_bind (wp_mono (wp_lockColumns h₁) ?_) trivial
    rintro _ σ₂ db₂ - h₂
    refine wp_bind (wp_selectForUpdate fun db₃ hr₃ hi₃ => ⟨trivial, fun hcur db₄ hr₄ hi₄ => ?_⟩)
      trivial
    have h₃ := h₂.rely hr₃ hi₃
    cases hold : (σ₂.view db₃).row (.task (payload.call taskId task day).taskId) with
    | none =>
      refine wp_bind (wp_mono (wp_of_conforms (conforms_requireActiveAssignee _) persistent_true
        Effect.any_holds trivial) ?_) trivial
      exact fun _ _ _ _ _ => trivial
    | some old =>
      have hlock : σ₂.lockStep db₃ (.task (payload.call taskId task day).taskId) =
          σ₂.lockRow (.task taskId) := by
        unfold Session.lockStep
        rw [hold]
        rfl
      rw [hlock] at hr₄ ⊢
      rw [h₃.view_row] at hold
      have hold₄ : db₄.row (.task taskId) = some old := (hr₄ _ List.mem_cons_self).trans hold
      have hcur' : old.version = payload.version → payload.Current task read.status old := by
        have hfirst' : σ₂.snapshot 0 = some s := by
          show σ₂.reads.reverse[0]? = some s
          rw [h₂.reads, ← h.reads]
          exact Session.snapshot_saw hfirst s'
        refine hcur rfl task ?_ read ?_ old hold
        · rw [hfirst']
          exact htask
        · rw [h₃.reads]
          exact hread
      have h₄ : Reading (s' :: l) (σ₂.lockRow (.task taskId)) db₄ :=
        Reading.rely ⟨h₃.unchanged, h₃.reads⟩ hr₄ hi₄
      exact wp_mono (wp_of_conforms (conforms_afterLock hcur') (persistent_held (.task taskId) old)
        h₄.unchanged.of_unchanged ⟨List.mem_cons_self, hold₄⟩) fun _ _ _ _ h' => Or.inr ⟨old, h'⟩

theorem wp_updateTask_patch :
    wp schema (patchProtocol t taskId payload) t (updateTask taskId payload user day)
      (fun _ σ db => PatchDone taskId payload σ db) .start db := by
  refine wp_bind (wp_mono (wp_select_reading reading_start) ?_) trivial
  rintro _ σ₁ db₁ - ⟨σ₀, db₀, -, -, rfl, h₁⟩
  set s : Db := σ₀.view db₀ with hs
  cases htask : s.row (.task taskId) with
  | none => trivial
  | some task =>
    have hfirst : σ₁.snapshot 0 = some s := h₁.snapshot_length
    refine wp_bind (wp_mono (wp_of_conforms conforms_authorizeUpdate (persistent_snapshot 0 s)
      h₁.unchanged hfirst) ?_) trivial
    rintro _ σ₂ db₂ - ⟨h₂, hfirst₂⟩
    refine wp_bind (wp_mono (wp_spUpdateTask_patch htask hfirst₂ ⟨h₂, rfl⟩) ?_) trivial
    rintro _ σ₃ db₃ - h₃
    exact h₃.wp_of_conforms fun R => Proc.conforms_select.bind fun _ => Proc.conforms_raiseIf

/-- What is done is within the frame of the payload. -/
theorem PatchDone.patchFrame (h : PatchDone taskId payload σ db) :
    PatchFrame payload taskId db (σ.view db) := by
  rcases h with h | ⟨old, h, -, hold⟩
  · exact ⟨fun r hr => ⟨r, (h _).trans hr, Patched.refl payload r⟩, fun _ t => slot_congr (h _)⟩
  · obtain ⟨r', hr', hp⟩ : ∃ r', (σ.view db).row (.task taskId) = some r' ∧
        Patched payload old r' := by
      have ht := h (.task taskId)
      simp only [patchEffect] at ht
      exact ht hold
    refine ⟨fun r hr => ?_, fun hk t => ?_⟩
    · obtain rfl := Option.some.inj (hold.symm.trans hr)
      exact ⟨r', hr', hp⟩
    · by_cases ht : t = taskId
      · subst ht
        rw [slot_of_row hr', slot_of_row hold]
        unfold Task.slot
        rw [hp.projectId, hp.status hk.1, hp.position hk]
      · have ht' := h (.task t)
        simp only [patchEffect, if_neg ht] at ht'
        exact slot_congr (ht' hk)

end Spec

/-! ### Runs -/

section Run

variable {τ : Type} [DecidableEq τ] [Fintype τ]

/-- A row lock that `t` is granted finds what its `update_task` read. -/
def LocksCurrent (payload : TaskUpdateRequest) (taskId : Uuid) (t : τ)
    (c : Config τ Row LockKey Uuid Error Unit) (u : τ) : Prop :=
  match c.tx u with
  | .active (.lock _ _) σ => u = t → payload.ReadsCurrent taskId σ c.db
  | _ => True

instance (payload : TaskUpdateRequest) (taskId : Uuid) (t : τ)
    (c : Config τ Row LockKey Uuid Error Unit) (u : τ) :
    Decidable (LocksCurrent payload taskId t c u) := by
  unfold LocksCurrent
  refine Tx.casesOn (c.tx u) (fun p _ => ?_) (fun _ => inferInstance) inferInstance
  refine Proc.casesOn p ?_ ?_ ?_ ?_ ?_ ?_ ?_ ?_ <;> intros <;> infer_instance

/-- An `update_task` that commits has changed only what its payload names, whatever the other
transactions are, when its row lock found what it had read. -/
theorem patch_changes_payload_only {db₀ : Db} {prog : τ → TaskProc Unit} {t : τ}
    (ht : prog t = updateTask taskId payload user day)
    {c c' : Config τ Row LockKey Uuid Error Unit} {ch : Choice RowId Uuid}
    (hrun : Run schema (fun c u _ => LocksCurrent payload taskId t c u) (.init db₀ prog) c)
    (hstep : c.step schema t ch = some c') (hdone : c'.tx t = .done (.ok ())) :
    PatchFrame payload taskId c.db c'.db := by
  set Q : τ → Unit → TaskSession → Db → Prop :=
    fun u _ σ db => u = t → PatchDone taskId payload σ db
  have hinit : Sound schema (patchProtocol t taskId payload) id Q (.init db₀ prog) := by
    refine sound_init trivial fun u => ?_
    by_cases hu : u = t
    · subst hu
      rw [ht]
      exact wp_mono wp_updateTask_patch fun _ _ _ _ h _ => h
    · exact wp_mono (wp_of_conforms (Proc.conforms_any _) persistent_true Effect.any_holds trivial)
        fun _ _ _ _ _ h => absurd h hu
  have hadmits : ∀ c u ch, LocksCurrent payload taskId t c u →
      (patchProtocol t taskId payload).Admits id c u ch := by
    intro c u ch hok p σ o hu ho
    cases o with
    | lock i =>
      obtain ⟨k, rfl⟩ := Proc.eq_lock_of_op ho
      unfold LocksCurrent at hok
      rw [hu] at hok
      exact hok
    | _ => trivial
  have hsound := hinit.run (fun _ _ _ _ _ _ _ => rowProtocol_commits fun _ => trivial)
    (hrun.mono hadmits)
  obtain ⟨σ, -, hdb, hpost⟩ := hsound.of_commit hstep hdone
  rw [hdb]
  exact (hpost rfl).patchFrame

end Run

/-! ### A stale assignee -/

/-- Project 5 of user 7, whose task 1 is assigned to its member 8. -/
def memberTask : Db :=
  (Store.empty : Db).overlay
    [⟨.task 1, some
        { projectId := some 5, title := "task", description := none, status := .todo,
          assigneeId := some 8, createdBy := 7, position := 0, version := 1, dueAt := none,
          isActive := true }⟩,
      ⟨.member 5 8, some { invitedBy := some 7 }⟩, ⟨.member 5 7, some { invitedBy := none }⟩,
      ⟨.project 5, some
        { ownerId := 7, name := "project", description := none, startAt := none, endAt := none,
          isActive := true }⟩,
      ⟨.user 8, some { role := .member, isActive := true }⟩,
      ⟨.user 7, some { role := .member, isActive := true }⟩]

/-- User 7 patches task 1 while user 8 is removed from the project. -/
def patchCalls (payload : TaskUpdateRequest) : Fin 2 → TaskProc Unit
  | 0 => updateTask 1 payload { id := 7, role := .member } { startUtc := 0, endUtc := 1 }
  | 1 => spRemoveProjectMember 5 8

/-- The patch reads the task; the removal runs to its commit, which clears the assignee; the patch
goes on to its end. -/
def patchSteps : List (Fin 2 × Choice RowId Uuid) :=
  [(0, .go), (0, .go), (1, .go), (1, .go), (1, .pick (.task 1)), (1, .go), (1, .go),
    (1, .pick (.member 5 8)), (1, .go), (1, .go), (0, .go), (0, .go), (0, .go), (0, .go),
    (0, .pick (.task 1)), (0, .go), (0, .go)]

/-- A payload that names only the title. -/
def titlePatch : TaskUpdateRequest := { version := 1, title := some "new" }

/-- The state in which the patch of the title is about to commit. -/
def patchRun : Config (Fin 2) Row LockKey Uuid Error Unit :=
  (Config.init memberTask (patchCalls titlePatch)).execTo schema (fun _ _ _ => True) patchSteps
    (by decide)

/-- A patch of the title assigns the task to the member who has just been removed. -/
theorem patch_writes_back :
    Reachable schema (.init memberTask (patchCalls titlePatch)) patchRun ∧
      ∃ c', patchRun.step schema 0 .go = some c' ∧ c'.tx 0 = .done (.ok ()) ∧
        (patchRun.db.row (.task 1)).map (·.assigneeId) = some none ∧
        (c'.db.row (.task 1)).map (·.assigneeId) = some (some 8) ∧
        ¬PatchFrame titlePatch 1 patchRun.db c'.db := by
  refine ⟨run_execTo _, _, rfl, rfl, rfl, rfl, fun h => ?_⟩
  obtain ⟨r', hr', hp⟩ := h.task _ rfl
  obtain rfl := Option.some.inj hr'
  exact nomatch hp.assigneeId rfl

/-! ### A patch that names the assignee -/

/-- A payload that names the title and the assignee. -/
def reassignPatch : TaskUpdateRequest :=
  { version := 1, title := some "new", assigneeId := some (some 7) }

def reassignRun : Config (Fin 2) Row LockKey Uuid Error Unit :=
  (Config.init memberTask (patchCalls reassignPatch)).execTo schema
    (fun c u _ => LocksCurrent reassignPatch 1 0 c u) patchSteps (by decide)

theorem patch_changes_payload_only_reassignRun :
    ∃ c', reassignRun.step schema 0 .go = some c' ∧
      (reassignRun.db.row (.task 1)).map (·.assigneeId) = some none ∧
      (c'.db.row (.task 1)).map (·.assigneeId) = some (some 7) ∧
      PatchFrame reassignPatch 1 reassignRun.db c'.db := by
  have hcall : patchCalls reassignPatch 0 = updateTask 1 reassignPatch
      { id := 7, role := .member } { startUtc := 0, endUtc := 1 } := rfl
  have hstep : (reassignRun.step schema 0 .go).isSome = true := rfl
  refine ⟨(reassignRun.step schema 0 .go).get hstep, (Option.some_get hstep).symm, rfl, rfl, ?_⟩
  exact patch_changes_payload_only hcall (run_execTo _) (Option.some_get hstep).symm rfl

end TaskDb
