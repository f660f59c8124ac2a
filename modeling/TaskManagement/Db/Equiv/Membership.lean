import TaskManagement.Db.Membership
import TaskManagement.ReadCommitted.Rewrite

/-!
# The members of projects under concurrency

`sp_remove_project_member` checks that it does not remove the owner of a project in one statement
and deletes the membership in a later one, each with its own snapshot.  A project that is created
between the two loses the membership of its owner (`owner_loses_membership`).  As long as the
check of a removal is still current when it commits, the owner of every project is a member, and a
commit with an outdated check is one that breaks this (`membership_store`); pairs stay unique, a
call that raises changes nothing, and a removal clears the assignee of the tasks that its `UPDATE`
sees and deletes the membership that its `DELETE` sees, unless another transaction deletes it before
the row is locked (`GoneMeanwhile`), in every run.
-/

namespace TaskDb

open ReadCommitted

variable {Λ : Type} {ℓ : Λ} {assume : Λ → Op RowId LockKey → TaskSession → Db → Prop}
  {p u v : Uuid} {σ : TaskSession} {db db₀ : Db} {missed : Prop}

/-! ### What the calls have done -/

/-- The calls neither create nor delete tasks. -/
abbrev memberProtocol (db₀ : Db) (assume : Λ → Op RowId LockKey → TaskSession → Db → Prop) :
    Protocol Λ Row LockKey Error :=
  rowProtocol (fun db => ∀ t, (db.row (.task t)).isSome = (db₀.row (.task t)).isSome) assume

/-- The row of a project that is created. -/
def CreateProject.row (p : CreateProject) : Project where
  ownerId := p.ownerId
  name := p.name
  description := p.description
  startAt := p.startAt
  endAt := p.endAt
  isActive := true

/-- `sp_create_project` has inserted the project `v` and the membership of its owner. -/
structure Created (p : CreateProject) (v : Uuid) (σ : TaskSession) (db : Db) : Prop where
  project : Held (.project v) none (some p.row) σ db
  member : Held (.member v p.ownerId) none (some { invitedBy := none }) σ db
  other : ChangesOnly (fun i => i = .project v ∨ i = .member v p.ownerId) σ db

/-- `sp_add_project_member` has inserted the pair. -/
structure Added (p u : Uuid) (invitedBy : Option Uuid) (σ : TaskSession) (db : Db) : Prop where
  member : Held (.member p u) none (some { invitedBy := invitedBy }) σ db
  other : ChangesOnly (· = .member p u) σ db

/-- The tasks of the snapshot `s` that are assigned to `u` in `p` have been processed, the others
have not been changed. -/
structure TasksCleared (p u : Uuid) (s : Db) (σ : TaskSession) (db : Db) : Prop where
  found : ∀ t, .task t ∈ s.matching (clearAssignee p u) → .task t ∈ σ.rows ∧
    (σ.view db).row (.task t) = (db.row (.task t)).bind ((clearAssignee p u).apply (.task t))
  other : ∀ t, .task t ∉ s.matching (clearAssignee p u) →
    (σ.view db).row (.task t) = db.row (.task t)

/-- The `DELETE`, of the snapshot `s`, has deleted the membership, or it has left it alone: because
`s` shows none, or because there was none any more when its row was to be locked, which happens only
if `missed`. -/
structure MemberDeleted (missed : Prop) (p u : Uuid) (s : Db) (σ : TaskSession) (db : Db) :
    Prop where
  shown : RowId.member p u ∈ σ.rows → s.row (.member p u) ≠ none
  found : s.row (.member p u) ≠ none → RowId.member p u ∈ σ.rows ∨ missed
  row : (∃ m, Held (.member p u) (some m) none σ db) ∨
    RowId.member p u ∉ σ.rows ∧ (σ.view db).row (.member p u) = db.row (.member p u)

/-- `sp_remove_project_member` has cleared the assignee of the tasks of its second snapshot, and has
deleted the membership of its third. -/
structure Removed (missed : Prop) (p u : Uuid) (σ : TaskSession) (db : Db) : Prop where
  check : ∃ s, σ.snapshot 0 = some s ∧ isOwner s p u = false
  tasks : ∃ s, σ.snapshot 1 = some s ∧ TasksCleared p u s σ db
  member : ∃ s, σ.snapshot 2 = some s ∧ MemberDeleted missed p u s σ db
  other : ChangesOnly (fun i => i = .member p u ∨ ∃ t, i = .task t) σ db

/-- What a call has done when it comes to its commit. -/
def MemberCall.Done (missed : Prop) : MemberCall → TaskSession → Db → Prop
  | .createProject p, σ, db => ∃ v, Created p v σ db
  | .addMember p u invitedBy, σ, db => Added p u invitedBy σ db
  | .removeMember p u, σ, db => Removed missed p u σ db

/-- Where the row of the `DELETE` is processed, only `missed` lets it find nothing although its
snapshot shows the membership. -/
def MayMiss (missed : Prop) (assume : Op RowId LockKey → TaskSession → Db → Prop) (p u : Uuid) :
    Prop :=
  ∀ {σ db s}, assume (.row (.member p u)) σ db → σ.snapshot 2 = some s →
    s.row (.member p u) ≠ none → db.row (.member p u) = none → missed

/-! ### The specifications of the procedures -/

theorem wp_spCreateProject_created {p : CreateProject} (hi : (memberProtocol db₀ assume).inv db) :
    wp schema (memberProtocol db₀ assume) ℓ (spCreateProject p) (fun v => Created p v) .start db := by
  have hstart : (memberProtocol db₀ assume).Stable (ChangesOnly fun _ => False) :=
    changesOnly_stable rowProtocol_keepsLocked _
  refine wp_bind (wp_mono (wp_raiseIf_stable hstart (fun _ => trivial)
    (changesOnly_of_unchanged reading_start.unchanged)) ?_) hi
  rintro _ σ₁ db₁ hi₁ ⟨-, h₁⟩
  refine wp_bind (wp_generate fun db₂ hr₂ hi₂ v _ _ db₃ hr₃ hi₃ => ?_) hi₁
  have h₂ : ChangesOnly (fun _ => False) σ₁ db₂ := hstart.rely h₁ hr₂ hi₂
  have h₃ : ChangesOnly (fun _ => False) (σ₁.lockRow (.project v)) db₃ := ChangesOnly.rely hr₃ h₂
  refine wp_bind (wp_mono (wp_insertOrRaise_held rowProtocol_keepsLocked
    persistent_true.toStable (fun _ => trivial) (fun _ => trivial) (fun _ _ _ _ _ => trivial) rfl
    trivial h₃ id) ?_) hi₃
  rintro _ σ₄ db₄ hi₄ ⟨hproject, h₄, -⟩
  have hne : RowId.project v ≠ .member v p.ownerId := nofun
  refine wp_bind (wp_mono (wp_insertOrRaise_held rowProtocol_keepsLocked
    (held_stable rowProtocol_keepsLocked (.project v) none (some p.row)) (fun h => h.write hne)
    (fun _ => trivial) (fun _ _ _ _ _ => trivial) rfl hproject h₄ (by simp)) ?_) hi₄
  rintro _ σ₅ db₅ hi₅ ⟨hmember, h₅, hproject₅⟩
  refine wp_ret fun db₆ hr₆ hi₆ => ⟨hproject₅.rely hr₆, hmember.rely hr₆, ?_⟩
  exact (h₅.rely hr₆).mono fun j => by simp

theorem wp_spAddProjectMember_added {invitedBy : Option Uuid}
    (hi : (memberProtocol db₀ assume).inv db) :
    wp schema (memberProtocol db₀ assume) ℓ (spAddProjectMember p u invitedBy)
      (fun _ => Added p u invitedBy) .start db := by
  have hstart : (memberProtocol db₀ assume).Stable (ChangesOnly fun _ => False) :=
    changesOnly_stable rowProtocol_keepsLocked _
  have h₀ : ChangesOnly (fun _ => False) (.start : TaskSession) db := fun _ _ => rfl
  refine wp_bind (wp_mono (wp_select_stable hstart (fun _ => trivial) h₀) ?_) hi
  rintro present σ₁ db₁ hi₁ ⟨h₁, -⟩
  refine wp_bind (wp_mono (wp_raiseIf_stable hstart (fun _ => trivial) h₁) ?_) hi₁
  rintro _ σ₂ db₂ hi₂ ⟨-, h₂⟩
  refine wp_mono (wp_insertOrRaise_held rowProtocol_keepsLocked persistent_true.toStable
    (fun _ => trivial) (fun _ => trivial) (fun _ _ _ _ _ => trivial) rfl trivial h₂ id) ?_
  rintro _ σ₃ db₃ - ⟨hmember, h₃, -⟩
  exact ⟨hmember, h₃.mono fun j => by simp⟩

theorem clearAssignee_matches {i : RowId} {r : Row i} (h : clearAssignee p u i r ≠ none) :
    ∃ t, i = .task t := by
  cases i with
  | task t => exact ⟨t, rfl⟩
  | _ => exact absurd rfl h

theorem exists_task_of_mem_matching {s : Db} {i : RowId}
    (hi : i ∈ s.matching (clearAssignee p u)) : ∃ t, i = .task t := by
  obtain ⟨r, w, -, hw⟩ := Store.mem_matching.mp hi
  refine clearAssignee_matches (p := p) (u := u) (r := r) ?_
  rw [hw]
  exact Option.some_ne_none w

theorem TasksCleared.rely {s db' : Db} (h : TasksCleared p u s σ db)
    (hr : ∀ i ∈ σ.rows, db'.row i = db.row i) : TasksCleared p u s σ db' where
  found t ht := by
    obtain ⟨hmem, hrow⟩ := h.found t ht
    refine ⟨hmem, ?_⟩
    rw [σ.view_row_congr (hr _ hmem), hr _ hmem]
    exact hrow
  other t ht := view_row_rely hr (h.other t ht)

/-- Writing the membership leaves the tasks alone. -/
theorem TasksCleared.write {s : Db} {p' u' : Uuid} {v : Option ProjectMember}
    (h : TasksCleared p u s σ db) : TasksCleared p u s (σ.write (.member p' u') v) db where
  found t ht := by
    have hne : RowId.task t ≠ .member p' u' := nofun
    obtain ⟨hmem, hrow⟩ := h.found t ht
    exact ⟨List.mem_cons_of_mem _ hmem, (Store.set_row_of_ne _ _ hne).trans hrow⟩
  other t ht := by
    have hne : RowId.task t ≠ .member p' u' := nofun
    exact (Store.set_row_of_ne _ _ hne).trans (h.other t ht)

/-- After the `UPDATE` of the tasks, with the snapshots `reads`. -/
structure BeforeDelete (p u : Uuid) (s : Db) (reads : List Db) (σ : TaskSession) (db : Db) :
    Prop where
  reads : σ.reads = reads
  applied : Applied (clearAssignee p u) (s.matching (clearAssignee p u)) σ db

section BeforeDelete

variable {s : Db} {reads : List Db} (h : BeforeDelete p u s reads σ db)

include h

theorem BeforeDelete.rely {db' : Db} (hr : ∀ i ∈ σ.rows, db'.row i = db.row i) :
    BeforeDelete p u s reads σ db' := ⟨h.reads, h.applied.rely hr⟩

theorem BeforeDelete.saw (s' : Db) : BeforeDelete p u s (s' :: reads) (σ.saw s') db :=
  ⟨congrArg (s' :: ·) h.reads, ⟨h.applied.found, h.applied.other, h.applied.rows⟩⟩

theorem BeforeDelete.tasksCleared : TasksCleared p u s σ db :=
  ⟨fun _ ht => h.applied.found _ ht, fun _ ht => h.applied.other _ ht⟩

/-- Only tasks are locked and changed so far. -/
theorem BeforeDelete.member_free :
    RowId.member p u ∉ σ.rows ∧ (σ.view db).row (.member p u) = db.row (.member p u) := by
  have hnot : RowId.member p u ∉ s.matching (clearAssignee p u) := fun hm =>
    nomatch (exists_task_of_mem_matching hm).choose_spec
  exact ⟨fun hm => hnot (h.applied.rows _ hm), h.applied.other _ hnot⟩

theorem BeforeDelete.other :
    ChangesOnly (fun i => i = .member p u ∨ ∃ t, i = .task t) σ db :=
  h.applied.other.mono fun _ hi => Or.inr (exists_task_of_mem_matching hi)

end BeforeDelete

section Removed

variable {s s₀ s₂ : Db}

theorem snapshots_of_reads (h : σ.reads = [s₂, s, s₀]) :
    σ.snapshot 0 = some s₀ ∧ σ.snapshot 1 = some s ∧ σ.snapshot 2 = some s₂ := by
  unfold Session.snapshot
  rw [h]
  exact ⟨rfl, rfl, rfl⟩

/-- The `DELETE` has done nothing. -/
theorem BeforeDelete.removed (h : BeforeDelete p u s [s₂, s, s₀] σ db)
    (hcheck : isOwner s₀ p u = false) (hmissed : s₂.row (.member p u) ≠ none → missed) :
    Removed missed p u σ db := by
  obtain ⟨h₀, h₁, h₂⟩ := snapshots_of_reads h.reads
  exact ⟨⟨s₀, h₀, hcheck⟩, ⟨s, h₁, h.tasksCleared⟩, ⟨s₂, h₂, fun hmem => absurd hmem h.member_free.1,
    fun hs => Or.inr (hmissed hs), Or.inr h.member_free⟩, h.other⟩

/-- The `DELETE` has found, locked and deleted the membership. -/
theorem BeforeDelete.removed_write {m : ProjectMember} (h : BeforeDelete p u s [s₂, s, s₀] σ db)
    (hcheck : isOwner s₀ p u = false) (hshown : s₂.row (.member p u) ≠ none)
    (hm : (σ.view db).row (.member p u) = some m) :
    Removed missed p u (σ.write (.member p u) none) db := by
  obtain ⟨h₀, h₁, h₂⟩ := snapshots_of_reads h.reads
  have hheld : Held (.member p u) (some m) none (σ.write (.member p u) none) db :=
    held_write (h.member_free.2.symm.trans hm) none
  exact ⟨⟨s₀, h₀, hcheck⟩, ⟨s, h₁, h.tasksCleared.write⟩, ⟨s₂, h₂, fun _ => hshown,
    fun _ => Or.inl hheld.mem, Or.inl ⟨m, hheld⟩⟩, h.other.write (Or.inl rfl)⟩

theorem MemberDeleted.rely {db' : Db} (h : MemberDeleted missed p u s σ db)
    (hr : ∀ i ∈ σ.rows, db'.row i = db.row i) : MemberDeleted missed p u s σ db' where
  shown := h.shown
  found := h.found
  row := by
    rcases h.row with ⟨m, hm⟩ | ⟨hfree, hrow⟩
    · exact Or.inl ⟨m, hm.rely hr⟩
    · exact Or.inr ⟨hfree, view_row_rely hr hrow⟩

theorem Removed.rely {db' : Db} (h : Removed missed p u σ db)
    (hr : ∀ i ∈ σ.rows, db'.row i = db.row i) : Removed missed p u σ db' where
  check := h.check
  tasks := by
    obtain ⟨s, hs, h⟩ := h.tasks
    exact ⟨s, hs, h.rely hr⟩
  member := by
    obtain ⟨s, hs, h⟩ := h.member
    exact ⟨s, hs, h.rely hr⟩
  other := h.other.rely hr

/-- The `DELETE` finds the membership exactly if its snapshot shows it. -/
theorem member_mem_matching_iff : RowId.member p u ∈ s.matching (deleteMember p u) ↔
    s.row (.member p u) ≠ none := by
  rw [Store.mem_matching, Option.ne_none_iff_exists']
  constructor
  · rintro ⟨r, -, hr, -⟩
    exact ⟨r, hr⟩
  · rintro ⟨r, hr⟩
    exact ⟨r, none, hr, deleteMember_self r⟩

theorem wp_deleteMember_removed (hmiss : MayMiss missed (assume ℓ) p u)
    (hcheck : isOwner s₀ p u = false) (h : BeforeDelete p u s [s, s₀] σ db) :
    wp schema (memberProtocol db₀ assume) ℓ (Proc.update (deleteMember p u) : TaskProc ℕ)
      (fun _ => Removed missed p u) σ db := by
  refine wp_update_one (i := .member p u)
    (A := fun σ db => ∃ s₂, s₂.row (.member p u) ≠ none ∧ BeforeDelete p u s [s₂, s, s₀] σ db)
    (fun j r hj => deleteMember_of_ne r hj) ?_ (fun _ => trivial) (fun db₁ hr₁ _ => ?_) ?_
  · rintro σ db db' ⟨s₂, hs₂, h⟩ hr -
    exact ⟨s₂, hs₂, h.rely hr⟩
  · have h₁ := (h.rely hr₁).saw (σ.view db₁)
    refine ⟨trivial, fun _ => ⟨fun hnot db₂ hr₂ _ => ?_, fun hshown => ?_⟩⟩
    · exact (h₁.rely hr₂).removed hcheck fun hs => absurd (member_mem_matching_iff.mpr hs) hnot
    · exact ⟨_, member_mem_matching_iff.mp hshown, h₁⟩
  rintro σ₁ db₁ - ⟨s₂, hs₂, h⟩ ha
  refine ⟨fun _ _ => trivial, fun n σ' hst db₂ hr₂ _ => ?_⟩
  rcases Session.rowStep_cases hst with
    ⟨hnone, -, rfl⟩ | ⟨r, -, hu, -, rfl⟩ | ⟨r, hr, -, -, rfl⟩ | ⟨r, w, -, hu, -, -, rfl⟩
  · -- another transaction has deleted it
    exact (h.rely hr₂).removed hcheck fun hs =>
      hmiss ha (snapshots_of_reads h.reads).2.2 hs (h.member_free.2.symm.trans hnone)
  · rw [deleteMember_self] at hu
    cases hu
  · exact (h.removed_write hcheck hs₂ hr).rely hr₂
  · rw [deleteMember_self] at hu
    cases hu

end Removed

theorem wp_spRemoveProjectMember_removed (hmiss : MayMiss missed (assume ℓ) p u)
    (hi : (memberProtocol db₀ assume).inv db) :
    wp schema (memberProtocol db₀ assume) ℓ (spRemoveProjectMember p u)
      (fun _ => Removed missed p u) .start db := by
  refine wp_bind (wp_select fun db₁ hr₁ hi₁ => ⟨trivial, fun _ db₂ hr₂ hi₂ => ?_⟩) hi
  set s₀ : Db := (Session.start : TaskSession).view db₁ with hs₀
  have h₂ : Reading [s₀] (Session.start.saw s₀ : TaskSession) db₂ :=
    (reading_start.saw s₀).rely hr₂ hi₂
  refine wp_bind (wp_raiseIf (fun _ => trivial) fun hcheck db₃ hr₃ hi₃ => ?_) hi₂
  refine wp_bind (wp_mono (wp_update_applied ?_ (h₂.rely hr₃ hi₃) rfl) ?_) hi₃
  · intro i r db db' hi hi' hu hrow
    obtain ⟨t, rfl⟩ := clearAssignee_matches hu
    rw [hi' t, ← hi t]
    exact hrow
  rintro _ σ₄ db₄ hi₄ ⟨s, hs, h₄⟩
  refine wp_bind (wp_mono (wp_deleteMember_removed hmiss (Bool.eq_false_iff.mpr hcheck) ⟨hs, h₄⟩)
    ?_) hi₄
  exact fun _ σ₅ db₅ _ h₅ => wp_ret fun db₆ hr₆ _ => h₅.rely hr₆

theorem MemberCall.wp_proc (call : MemberCall)
    (hmiss : ∀ p u, call = .removeMember p u → MayMiss missed (assume ℓ) p u)
    (hi : (memberProtocol db₀ assume).inv db) :
    wp schema (memberProtocol db₀ assume) ℓ call.proc (fun _ => call.Done missed) .start db := by
  cases call with
  | createProject p =>
    refine wp_bind (wp_mono (wp_spCreateProject_created hi) fun v σ db _ h => ?_) hi
    exact wp_ret fun db' hr _ => ⟨v, h.project.rely hr, h.member.rely hr, h.other.rely hr⟩
  | addMember p u invitedBy => exact wp_spAddProjectMember_added hi
  | removeMember p u => exact wp_spRemoveProjectMember_removed (hmiss p u rfl) hi

/-- What the `UPDATE` makes of a task. -/
theorem clearAssignee_apply (t : Uuid) (r : Task) :
    (clearAssignee p u).apply (.task t) r = some (r.unassign p u) := by
  unfold RowUpdate.apply Task.unassign
  by_cases h : r.AssignedIn p u
  · have hclear : clearAssignee p u (.task t) r = some (some { r with assigneeId := none }) :=
      if_pos h
    rw [hclear, if_pos h]
  · rw [show clearAssignee p u (.task t) r = none from if_neg h, if_neg h]

theorem task_mem_matching_iff {s : Db} {t : Uuid} :
    .task t ∈ s.matching (clearAssignee p u) ↔
      ∃ r, s.row (.task t) = some r ∧ r.AssignedIn p u := by
  rw [Store.mem_matching]
  constructor
  · rintro ⟨r, w, hr, hw⟩
    refine ⟨r, hr, ?_⟩
    by_contra hnot
    rw [show clearAssignee p u (.task t) r = none from if_neg hnot] at hw
    cases hw
  · rintro ⟨r, hr, h⟩
    exact ⟨r, _, hr, if_pos h⟩

theorem TasksCleared.row {s : Db} (h : TasksCleared p u s σ db) (t : Uuid) :
    (σ.view db).row (.task t) =
      if (s.row (.task t)).any (fun r => decide (r.AssignedIn p u)) = true then
        (db.row (.task t)).map (Task.unassign p u)
      else db.row (.task t) := by
  have hiff : (s.row (.task t)).any (fun r => decide (r.AssignedIn p u)) = true ↔
      .task t ∈ s.matching (clearAssignee p u) := by
    rw [task_mem_matching_iff, Option.any_eq_true]
    simp only [decide_eq_true_eq]
  split_ifs with hif
  · rw [(h.found t (hiff.mp hif)).2]
    cases hr : db.row (.task t) with
    | none => rfl
    | some r => exact clearAssignee_apply t r
  · exact h.other t fun hm => hif (hiff.mpr hm)

theorem MemberCall.Done.mono {call : MemberCall} {missed' : Prop} (h : call.Done missed σ db)
    (hmissed : missed → missed') : call.Done missed' σ db := by
  cases call with
  | createProject p => exact h
  | addMember p u invitedBy => exact h
  | removeMember p u =>
    obtain ⟨s, hs, hmember⟩ := h.member
    exact ⟨h.check, h.tasks, ⟨s, hs, hmember.shown, fun hne => (hmember.found hne).imp_right hmissed,
      hmember.row⟩, h.other⟩

theorem MemberCall.Done.inv {call : MemberCall} (h : call.Done missed σ db)
    (hi : (memberProtocol db₀ assume).inv db) : (memberProtocol db₀ assume).inv (σ.view db) := by
  intro t
  rw [← hi t]
  cases call with
  | createProject p =>
    obtain ⟨v, h⟩ := h
    rw [h.other (.task t) (by simp)]
  | addMember p u invitedBy => rw [h.other (.task t) nofun]
  | removeMember p u =>
    obtain ⟨s, -, htasks⟩ := h.tasks
    rw [htasks.row t]
    split_ifs
    · exact Option.isSome_map
    · rfl

/-! ### Commits -/

/-- A removal that has found the membership comes to its commit with its check still current: the
committed database answers the owner check as its first snapshot did. -/
def MemberCall.CheckCurrent (call : MemberCall) (σ : TaskSession) (db : Db) : Prop :=
  match call with
  | .removeMember p u => RowId.member p u ∈ σ.rows →
    isOwner db p u = (σ.snapshot 0).any fun s => isOwner s p u
  | _ => True

instance (call : MemberCall) (σ : TaskSession) (db : Db) : Decidable (call.CheckCurrent σ db) := by
  unfold MemberCall.CheckCurrent
  split <;> infer_instance

theorem isOwner_congr {db' : Db} (h : db'.row (.project p) = db.row (.project p)) :
    isOwner db' p u = isOwner db p u := by
  unfold isOwner
  rw [h]

theorem isMember_congr {db' : Db} (h : db'.row (.member p u) = db.row (.member p u)) :
    isMember db' p u = isMember db p u := by
  unfold isMember
  rw [h]

theorem Created.ownersAreMembers {p : CreateProject} (h : Created p v σ db)
    (hdb : OwnersAreMembers db) : OwnersAreMembers (σ.view db) := by
  intro q u hq
  by_cases hqv : q = v
  · subst hqv
    have hu : p.ownerId = u := by
      unfold isOwner at hq
      rw [h.project.pending] at hq
      exact of_decide_eq_true hq
    subst hu
    unfold isMember
    rw [h.member.pending]
    rfl
  · rw [isOwner_congr (h.other (.project q) (by simp [hqv]))] at hq
    rw [isMember_congr (h.other (.member q u) (by simp [hqv]))]
    exact hdb q u hq

theorem Added.ownersAreMembers {invitedBy : Option Uuid} (h : Added p u invitedBy σ db)
    (hdb : OwnersAreMembers db) : OwnersAreMembers (σ.view db) := by
  intro q w hq
  rw [isOwner_congr (h.other (.project q) nofun)] at hq
  by_cases hqw : RowId.member q w = .member p u
  · unfold isMember
    rw [hqw, h.member.pending]
    rfl
  · rw [isMember_congr (h.other (.member q w) hqw)]
    exact hdb q w hq

/-- The commit of a removal keeps owners members when its check is current. -/
theorem Removed.ownersAreMembers_iff (h : Removed missed p u σ db) (hdb : OwnersAreMembers db) :
    OwnersAreMembers (σ.view db) ↔ (MemberCall.removeMember p u).CheckCurrent σ db := by
  obtain ⟨s, hs, hcheck⟩ := h.check
  have hany : ((σ.snapshot 0).any fun s => isOwner s p u) = false := by
    rw [hs]
    exact hcheck
  have howner : ∀ q w, isOwner (σ.view db) q w = isOwner db q w :=
    fun q w => isOwner_congr (h.other (.project q) (by simp))
  have hmember : ∀ q w, RowId.member q w ≠ .member p u →
      isMember (σ.view db) q w = isMember db q w :=
    fun q w hne => isMember_congr (h.other (.member q w) (by simpa using hne))
  have hcurrent : (MemberCall.removeMember p u).CheckCurrent σ db ↔
      (RowId.member p u ∈ σ.rows → isOwner db p u = false) := by
    show (_ → _ = _) ↔ _
    rw [hany]
  rw [hcurrent]
  obtain ⟨s', -, hdeleted⟩ := h.member
  rcases hdeleted.row with ⟨m, hheld⟩ | ⟨hfree, hrow⟩
  · -- the membership is deleted
    have hgone : isMember (σ.view db) p u = false := by
      unfold isMember
      rw [hheld.pending]
      rfl
    constructor
    · intro hview _
      by_contra hown
      have := hview p u ((howner p u).trans (Bool.eq_true_of_not_eq_false hown))
      rw [hgone] at this
      cases this
    · intro hcur q w hq
      rw [howner] at hq
      by_cases hqw : RowId.member q w = .member p u
      · obtain ⟨rfl, rfl⟩ := RowId.member.inj hqw
        rw [hcur hheld.mem] at hq
        cases hq
      · rw [hmember q w hqw]
        exact hdb q w hq
  · -- there was none
    refine ⟨fun _ hmem => absurd hmem hfree, fun _ q w hq => ?_⟩
    rw [howner] at hq
    by_cases hqw : RowId.member q w = .member p u
    · obtain ⟨rfl, rfl⟩ := RowId.member.inj hqw
      rw [isMember_congr hrow]
      exact hdb _ _ hq
    · rw [hmember q w hqw]
      exact hdb q w hq

theorem MemberCall.Done.ownersAreMembers_iff {call : MemberCall} (h : call.Done missed σ db)
    (hdb : OwnersAreMembers db) : OwnersAreMembers (σ.view db) ↔ call.CheckCurrent σ db := by
  cases call with
  | createProject p =>
    obtain ⟨v, h⟩ := h
    exact iff_of_true (h.ownersAreMembers hdb) trivial
  | addMember p u invitedBy => exact iff_of_true (Added.ownersAreMembers h hdb) trivial
  | removeMember p u => exact Removed.ownersAreMembers_iff h hdb

/-- What the commit of a call has done to the database. -/
structure MemberCall.Effect (missed : Prop) (call : MemberCall) (σ : TaskSession) (db db' : Db) :
    Prop where
  /-- A new project has its owner as its only new member. -/
  create : ∀ p, call = .createProject p → ∃ v, db.row (.project v) = none ∧
    db.row (.member v p.ownerId) = none ∧ db'.row (.project v) = some p.row ∧
    db'.row (.member v p.ownerId) = some { invitedBy := none } ∧
    ∀ i, i ≠ .project v → i ≠ .member v p.ownerId → db'.row i = db.row i
  /-- An added pair was absent. -/
  add : ∀ p u invitedBy, call = .addMember p u invitedBy → db.row (.member p u) = none ∧
    db'.row (.member p u) = some { invitedBy := invitedBy } ∧
    ∀ i, i ≠ .member p u → db'.row i = db.row i
  /-- A removal deletes the membership that its third snapshot, that of the `DELETE`, shows, unless
  it has missed it, and clears the assignee of the tasks that its second snapshot, that of the
  `UPDATE`, shows assigned to the member. -/
  remove : ∀ p u, call = .removeMember p u →
    (∃ s, σ.snapshot 2 = some s ∧ (RowId.member p u ∈ σ.rows → s.row (.member p u) ≠ none) ∧
      (s.row (.member p u) ≠ none → RowId.member p u ∈ σ.rows ∨ missed)) ∧
    db'.row (.member p u) =
      (if RowId.member p u ∈ σ.rows then none else db.row (.member p u)) ∧
    (∃ s, σ.snapshot 1 = some s ∧ ∀ t, db'.row (.task t) =
      if (s.row (.task t)).any (fun r => decide (r.AssignedIn p u)) = true then
        (db.row (.task t)).map (Task.unassign p u)
      else db.row (.task t)) ∧
    ∀ i, i ≠ .member p u → (∀ t, i ≠ .task t) → db'.row i = db.row i

theorem MemberCall.Done.effect {call : MemberCall} (h : call.Done missed σ db) :
    call.Effect missed σ db (σ.view db) where
  create := by
    rintro p rfl
    obtain ⟨v, h⟩ := h
    exact ⟨v, h.project.committed, h.member.committed, h.project.pending, h.member.pending,
      fun i hi hi' => h.other i (not_or.mpr ⟨hi, hi'⟩)⟩
  add := by
    rintro p u invitedBy rfl
    exact ⟨h.member.committed, h.member.pending, h.other⟩
  remove := by
    rintro p u rfl
    obtain ⟨s, hs, htasks⟩ := h.tasks
    obtain ⟨s', hs', hmem⟩ := h.member
    refine ⟨⟨s', hs', hmem.shown, hmem.found⟩, ?_, ⟨s, hs, htasks.row⟩,
      fun i hi hi' => h.other i ?_⟩
    · rcases hmem.row with ⟨m, hheld⟩ | ⟨hfree, hrow⟩
      · rw [if_pos hheld.mem]
        exact hheld.pending
      · rw [if_neg hfree]
        exact hrow
    · rintro (he | ⟨t, ht⟩)
      · exact hi he
      · exact hi' t ht

/-! ### Runs -/

section Run

variable {τ : Type} [DecidableEq τ] [Fintype τ]

/-- The calls, all at their beginning. -/
def MemberCall.init (db : Db) (calls : τ → MemberCall) : Config τ Row LockKey Uuid Error Unit :=
  .init db fun t => (calls t).proc

/-- A step that commits a removal does so with a current check. -/
def ChecksCurrent (calls : τ → MemberCall) (c : Config τ Row LockKey Uuid Error Unit) (t : τ)
    (ch : Choice RowId Uuid) : Prop :=
  match c.step schema t ch, c.tx t with
  | some c', .active _ σ =>
    match c'.tx t with
    | .done (.ok _) => (calls t).CheckCurrent σ c.db
    | _ => True
  | _, _ => True

instance (calls : τ → MemberCall) (c : Config τ Row LockKey Uuid Error Unit) (t : τ)
    (ch : Choice RowId Uuid) : Decidable (ChecksCurrent calls c t ch) := by
  unfold ChecksCurrent
  split
  · split <;> infer_instance
  · infer_instance

variable {calls : τ → MemberCall} {c c' : Config τ Row LockKey Uuid Error Unit} {t : τ}
  {ch : Choice RowId Uuid}

/-- The membership that the `DELETE` of the call shows is still there. -/
def MemberCall.StillShown (call : MemberCall) (σ : TaskSession) (db : Db) : Prop :=
  ∀ p u s, call = .removeMember p u → σ.snapshot 2 = some s → s.row (.member p u) ≠ none →
    db.row (.member p u) ≠ none

/-- Between the snapshot of the `DELETE` of `t` and `c`, the membership that the snapshot shows was
gone from the committed database. -/
def GoneMeanwhile (db₀ : Db) (calls : τ → MemberCall) (c : Config τ Row LockKey Uuid Error Unit)
    (t : τ) : Prop :=
  ∃ c₁ q σ, Reachable schema (MemberCall.init db₀ calls) c₁ ∧ Reachable schema c₁ c ∧
    c₁.tx t = .active q σ ∧ ¬(calls t).StillShown σ c₁.db

theorem memberCall_sound {assume : τ → Op RowId LockKey → TaskSession → Db → Prop}
    (missed : τ → Prop)
    (hmiss : ∀ t p u, calls t = .removeMember p u → MayMiss (missed t) (assume t) p u)
    (hrun : Run schema ((memberProtocol db₀ assume).Admits fun t => t)
      (MemberCall.init db₀ calls) c) :
    Sound schema (memberProtocol db₀ assume) (fun t => t)
      (fun t _ => (calls t).Done (missed t)) c := by
  have hi : (memberProtocol db₀ assume).inv db₀ := fun _ => rfl
  have hinit : Sound schema (memberProtocol db₀ assume) (fun t => t)
      (fun t _ => (calls t).Done (missed t)) (MemberCall.init db₀ calls) :=
    sound_init hi fun t => (calls t).wp_proc (hmiss t) hi
  exact hinit.run (fun _ _ _ _ hi h _ => rowProtocol_commits fun _ => MemberCall.Done.inv h hi) hrun

/-- A step either commits a call that is done, or leaves the database as it is. -/
theorem memberCall_step_cases (hreach : Reachable schema (MemberCall.init db₀ calls) c)
    (hstep : c.step schema t ch = some c') :
    (∃ σ, c.tx t = .active (.ret ()) σ ∧ c'.tx t = .done (.ok ()) ∧ c'.db = σ.view c.db ∧
      (calls t).Done (GoneMeanwhile db₀ calls c t) σ c.db) ∨
    ((∀ a, c'.tx t ≠ .done (.ok a)) ∧ c'.db = c.db) := by
  by_cases hdone : ∃ a, c'.tx t = .done (.ok a)
  · obtain ⟨a, ha⟩ := hdone
    -- the membership stays while `t` is running, or it is gone in between
    rcases hreach.keeps_or_exists ((memberProtocol db₀ fun u _ σ db =>
        u = t → (calls t).StillShown σ db).Admits fun t => t) with
      hrun | ⟨c₁, u, ch₁, h₁, hnot, hrest⟩
    · have hsound := memberCall_sound (· ≠ t) (fun u p u' hu σ db s ha hs hne hnone => by
        rintro rfl
        exact ha rfl p u' s hu hs hne hnone) hrun
      obtain ⟨σ, htx, hdb, hcall⟩ := hsound.of_commit hstep ha
      exact Or.inl ⟨σ, htx, ha, hdb, hcall.mono fun h => absurd rfl h⟩
    · have hgone : GoneMeanwhile db₀ calls c t := by
        simp only [Protocol.Admits, not_forall] at hnot
        obtain ⟨q, σ, o, htx, -, hassume⟩ := hnot
        have hlost : ¬(u = t → (calls t).StillShown σ c₁.db) := hassume
        obtain ⟨rfl, hgone⟩ := Classical.not_imp.mp hlost
        exact ⟨c₁, q, σ, h₁, hrest, htx, hgone⟩
      have hrun : Run schema ((memberProtocol db₀ fun _ _ _ _ => True).Admits fun t => t)
          (MemberCall.init db₀ calls) c := hreach.mono fun _ _ _ _ _ _ _ _ _ => trivial
      have hsound := memberCall_sound (fun _ => True)
        (fun _ _ _ _ _ _ _ _ _ _ _ => trivial) hrun
      obtain ⟨σ, htx, hdb, hcall⟩ := hsound.of_commit hstep ha
      exact Or.inl ⟨σ, htx, ha, hdb, hcall.mono fun _ => hgone⟩
  · have hne : ∀ a, c'.tx t ≠ .done (.ok a) := fun a ha => hdone ⟨a, ha⟩
    exact Or.inr ⟨hne, Config.db_of_not_ok hstep hne⟩

/-- A step from owners that are members keeps them so exactly when its check is current. -/
theorem ownersAreMembers_step_iff (hreach : Reachable schema (MemberCall.init db₀ calls) c)
    (hdb : OwnersAreMembers c.db) (hstep : c.step schema t ch = some c') :
    OwnersAreMembers c'.db ↔ ChecksCurrent calls c t ch := by
  unfold ChecksCurrent
  rw [hstep]
  rcases memberCall_step_cases hreach hstep with ⟨σ, htx, hdone, hdb', hcall⟩ | ⟨hne, hdb'⟩
  · rw [htx, hdb']
    dsimp only
    rw [hdone]
    exact hcall.ownersAreMembers_iff hdb
  · rw [hdb']
    refine iff_of_true hdb ?_
    cases c.tx t with
    | active p σ =>
      dsimp only
      cases hx : c'.tx t with
      | done r =>
        cases r with
        | ok a => exact absurd hx (hne a)
        | error e => trivial
      | _ => trivial
    | _ => trivial

/-- In every run from a database whose owners are members: no pair occurs twice; only a successful
call changes the database, and as `MemberCall.Effect` says; and as long as every check is current at
its commit the owners stay members, which a commit with an outdated check ends. -/
theorem membership_store (h₀ : OwnersAreMembers db₀)
    (hreach : Reachable schema (MemberCall.init db₀ calls) c) :
    (memberPairs c.db).Nodup ∧
    (∀ t ch c', c.step schema t ch = some c' →
      ((∀ a, c'.tx t ≠ .done (.ok a)) → c'.db = c.db) ∧
      (c'.tx t = .done (.ok ()) →
        ∃ σ, c.tx t = .active (.ret ()) σ ∧
          (calls t).Effect (GoneMeanwhile db₀ calls c t) σ c.db c'.db)) ∧
    (Run schema (ChecksCurrent calls) (MemberCall.init db₀ calls) c →
      OwnersAreMembers c.db ∧ ∀ t ch c', c.step schema t ch = some c' →
        (OwnersAreMembers c'.db ↔ ChecksCurrent calls c t ch)) := by
  refine ⟨nodup_memberPairs c.db, fun t ch c' hstep => ⟨Config.db_of_not_ok hstep, fun hdone => ?_⟩,
    fun hrun => ?_⟩
  · rcases memberCall_step_cases hreach hstep with ⟨σ, htx, -, hdb, hcall⟩ | ⟨hne, -⟩
    · refine ⟨σ, htx, ?_⟩
      rw [hdb]
      exact hcall.effect
    · exact absurd hdone (hne ())
  · have howners : OwnersAreMembers c.db := by
      clear hreach
      induction hrun with
      | refl => exact h₀
      | step hrun hcur hstep ih =>
        exact (ownersAreMembers_step_iff (hrun.mono fun _ _ _ _ => trivial) ih hstep).mpr hcur
    exact ⟨howners, fun t ch c' hstep => ownersAreMembers_step_iff hreach howners hstep⟩

end Run

/-! ### A project that is created beside a removal -/

/-- User 7 creates a project while user 7 is removed from the project 5. -/
def createAndRemove : Fin 2 → MemberCall
  | 0 => .createProject
    { ownerId := 7, name := "project", description := none, startAt := none, endAt := none }
  | 1 => .removeMember 5 7

/-- The removal has made its check when the project, with the identifier 5, is created; then it
deletes the membership. -/
def checkedBeforeSteps : List (Fin 2 × Choice RowId Uuid) :=
  [(1, .go), (1, .go), (1, .go), (0, .gen 5), (0, .go), (0, .go), (0, .go), (1, .go),
    (1, .pick (.member 5 7)), (1, .go), (1, .go)]

def checkedBeforeRun : Config (Fin 2) Row LockKey Uuid Error Unit :=
  (MemberCall.init .empty createAndRemove).execTo schema (fun _ _ _ => True) checkedBeforeSteps
    (by decide)

/-- The owner of the new project is no member of it. -/
theorem owner_loses_membership :
    Reachable schema (MemberCall.init .empty createAndRemove) checkedBeforeRun ∧
      (∀ t, checkedBeforeRun.tx t = .done (.ok ())) ∧
      isOwner checkedBeforeRun.db 5 7 = true ∧ isMember checkedBeforeRun.db 5 7 = false ∧
      ¬OwnersAreMembers checkedBeforeRun.db := by
  refine ⟨run_execTo _, fun t => ?_, rfl, rfl, fun h => absurd (h 5 7 rfl) Bool.false_ne_true⟩
  match t with
  | 0 => rfl
  | 1 => rfl

/-! ### A removal beside another call -/

/-- A task of the project 5 that is assigned to user 8. -/
def assignedTask : Task where
  projectId := some 5
  title := "task"
  description := none
  status := .todo
  assigneeId := some 8
  createdBy := 7
  position := 0
  version := 1
  dueAt := none
  isActive := true

/-- The project of user 7. -/
def projectOfOwner : Project where
  ownerId := 7
  name := "project"
  description := none
  startAt := none
  endAt := none
  isActive := true

/-- The project 5 of user 7, with the other member 8. -/
def twoMembers : Db :=
  Store.overlay .empty
    [⟨.project 5, some projectOfOwner⟩, ⟨.member 5 7, some { invitedBy := none }⟩,
      ⟨.member 5 8, some { invitedBy := some 7 }⟩, ⟨.task 1, some assignedTask⟩]

/-- User 9 is added, and user 8 is removed. -/
def addAndRemove : Fin 2 → MemberCall
  | 0 => .addMember 5 9 (some 7)
  | 1 => .removeMember 5 8

/-- The member is added between the `UPDATE` and the `DELETE` of the removal. -/
def addedBetweenSteps : List (Fin 2 × Choice RowId Uuid) :=
  [(1, .go), (1, .go), (0, .go), (1, .pick (.task 1)), (1, .go), (0, .go), (0, .go), (1, .go),
    (1, .pick (.member 5 8)), (1, .go), (1, .go)]

def addedBetweenRun : Config (Fin 2) Row LockKey Uuid Error Unit :=
  (MemberCall.init twoMembers addAndRemove).execTo schema (ChecksCurrent addAndRemove)
    addedBetweenSteps (by decide)

theorem ownersAreMembers_twoMembers : OwnersAreMembers twoMembers := by
  intro p u howner
  by_cases hp : p = 5
  · subst hp
    obtain rfl := of_decide_eq_true (show decide ((7 : Uuid) = u) = true from howner)
    rfl
  · have hnone : twoMembers.row (.project p) = none := by
      refine Store.overlay_row_of_forall_ne .empty fun w hw => ?_
      simp only [List.mem_cons, List.not_mem_nil, or_false] at hw
      rcases hw with rfl | rfl | rfl | rfl <;> intro he <;> cases he
      exact hp rfl
    unfold isOwner at howner
    rw [hnone] at howner
    cases howner

/-- The membership is deleted, its task is assigned to nobody, and the owner stays a member. -/
theorem membership_store_addedBetweenRun :
    (∀ t, addedBetweenRun.tx t = .done (.ok ())) ∧ isMember addedBetweenRun.db 5 8 = false ∧
      addedBetweenRun.db.row (.task 1) = some { assignedTask with assigneeId := none } ∧
      isMember addedBetweenRun.db 5 9 = true ∧ (memberPairs addedBetweenRun.db).Nodup ∧
      OwnersAreMembers addedBetweenRun.db := by
  have hrun : Run schema (ChecksCurrent addAndRemove) (MemberCall.init twoMembers addAndRemove)
      addedBetweenRun := run_execTo _
  obtain ⟨hnodup, -, howners⟩ :=
    membership_store ownersAreMembers_twoMembers (hrun.mono fun _ _ _ _ => trivial)
  refine ⟨fun t => ?_, rfl, rfl, rfl, hnodup, (howners hrun).1⟩
  match t with
  | 0 => rfl
  | 1 => rfl

end TaskDb
