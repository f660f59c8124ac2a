import TaskManagement.Db.Equiv.Parts
import TaskManagement.Service.Tasks

/-!
# The checks of the task services

The checks that the services make before they write (`require_task_access`, ...) only read, so they
conform to every effect.  `wp_getCurrentUser` says what a
request knows of its user.
-/

namespace TaskDb

open ReadCommitted

variable {R : Effect Row} {task : Task} {user : CurrentUser}

theorem conforms_fnIsProjectMember {p u : Uuid} : (fnIsProjectMember p u).Conforms R :=
  Proc.conforms_select

theorem conforms_requireTaskAccess : (requireTaskAccess task user).Conforms R := by
  unfold requireTaskAccess
  split_ifs
  · trivial
  · trivial
  · split
    · exact Proc.conforms_raiseIf
    · exact conforms_fnIsProjectMember.bind fun _ => Proc.conforms_raiseIf

theorem conforms_requireActivationRight {payload : TaskUpdateRequest} :
    (requireActivationRight task payload user).Conforms R := by
  unfold requireActivationRight
  split_ifs
  · refine Proc.Conforms.bind ?_ fun _ => Proc.conforms_raiseIf
    split
    · trivial
    · exact Proc.conforms_select
  · trivial

theorem conforms_authorizeUpdate {payload : TaskUpdateRequest} :
    (authorizeUpdate task payload user).Conforms R := by
  unfold authorizeUpdate
  refine Proc.Conforms.bind ?_ fun _ => conforms_requireActivationRight
  split_ifs
  · exact conforms_requireTaskAccess
  · trivial

theorem conforms_getCurrentUser {userId : Uuid} : (getCurrentUser userId).Conforms R := by
  refine Proc.conforms_select.bind fun u => ?_
  cases u with
  | none => trivial
  | some u => exact Proc.conforms_raiseIf.bind fun _ => trivial

theorem conforms_requireProjectMember {projectId : Uuid} :
    (requireProjectMember projectId user).Conforms R := by
  refine Proc.conforms_select.bind fun p => ?_
  cases p with
  | none => trivial
  | some p => exact conforms_fnIsProjectMember.bind fun _ => Proc.conforms_raiseIf

theorem conforms_getTaskForMember {taskId : Uuid} : (getTaskForMember taskId).Conforms R := by
  refine Proc.conforms_select.bind fun task => ?_
  cases task <;> trivial

theorem conforms_getCommentForMember {commentId : Uuid} :
    (getCommentForMember commentId).Conforms R := by
  refine Proc.conforms_select.bind fun comment => ?_
  cases comment with
  | none => trivial
  | some comment => exact conforms_getTaskForMember.bind fun _ => trivial

theorem conforms_requireCommentEditor {commentUserId : Uuid} :
    (requireCommentEditor commentUserId user).Conforms R := Proc.conforms_raiseIf

/-! ### Specifications -/

section Spec

variable {Λ : Type} {inv : Db → Prop} {assume : Λ → Op RowId LockKey → TaskSession → Db → Prop}
  {ℓ : Λ} {σ : TaskSession} {db : Db} {l : List Db}

/-- The user of a request is active in the snapshot that loads it. -/
theorem wp_getCurrentUser {userId : Uuid} (hi : inv db) (h : Reading l σ db) :
    wp schema (rowProtocol inv assume) ℓ (getCurrentUser userId)
      (fun user σ db => ∃ s u, s.row (.user userId) = some u ∧ u.isActive = true ∧
        user = { id := userId, role := u.role } ∧ Reading (s :: l) σ db) σ db := by
  refine wp_bind (wp_mono (wp_select_reading h) ?_) hi
  rintro _ σ₁ db₁ hi₁ ⟨σ₀, db₀, -, -, rfl, h₁⟩
  cases hu : (σ₀.view db₀).row (.user userId) with
  | none => trivial
  | some u =>
    refine wp_bind (wp_mono (wp_raiseIf_reading h₁) ?_) hi₁
    rintro _ σ₂ db₂ - ⟨hactive, h₂⟩
    exact wp_ret fun db₃ hr₃ hi₃ =>
      ⟨_, u, hu, Bool.eq_true_of_not_eq_false hactive, rfl, h₂.rely hr₃ hi₃⟩

theorem wp_getTaskForMember {taskId : Uuid} (hi : inv db) (h : Reading l σ db) :
    wp schema (rowProtocol inv assume) ℓ (getTaskForMember taskId)
      (fun task σ db => ∃ s, s.row (.task taskId) = some task ∧ Reading (s :: l) σ db) σ db := by
  refine wp_bind (wp_mono (wp_select_reading h) ?_) hi
  rintro _ σ₁ db₁ - ⟨σ₀, db₀, -, -, rfl, h₁⟩
  cases htask : (σ₀.view db₀).row (.task taskId) with
  | none => trivial
  | some task => exact wp_ret fun db₂ hr₂ hi₂ => ⟨_, htask, h₁.rely hr₂ hi₂⟩

theorem wp_getCommentForMember {commentId : Uuid} (hi : inv db) (h : Reading l σ db) :
    wp schema (rowProtocol inv assume) ℓ (getCommentForMember commentId)
      (fun r σ db => ∃ s s', s.row (.comment commentId) = some r.1 ∧
        s'.row (.task r.1.taskId) = some r.2 ∧ Reading (s' :: s :: l) σ db) σ db := by
  refine wp_bind (wp_mono (wp_select_reading h) ?_) hi
  rintro _ σ₁ db₁ hi₁ ⟨σ₀, db₀, -, -, rfl, h₁⟩
  cases hcomment : (σ₀.view db₀).row (.comment commentId) with
  | none => trivial
  | some comment =>
    refine wp_bind (wp_mono (wp_getTaskForMember hi₁ h₁) ?_) hi₁
    rintro task σ₂ db₂ - ⟨s', htask, h₂⟩
    exact wp_ret fun db₃ hr₃ hi₃ => ⟨_, s', hcomment, htask, h₂.rely hr₃ hi₃⟩

end Spec

end TaskDb
