import TaskManagement.ReadCommitted.Effect
import TaskManagement.Db.Procedures

/-!
# The effects of the parts of the procedures

The parts that `sp_create_task` and `sp_update_task` are made of, for any effect: the checks and the
advisory locks conform to every effect, the renumbering conforms when each renumbering `UPDATE`
does, and the notifications when a notification may appear.
-/

namespace TaskDb

open ReadCommitted

variable {R : Effect Row}

theorem conforms_requireActiveAssignee (u : Option Uuid) :
    (requireActiveAssignee u).Conforms R := by
  cases u with
  | none => trivial
  | some u => exact Proc.conforms_select.bind fun _ => Proc.conforms_raiseIf

theorem conforms_lockColumns {p : UpdateTask} {project : Option Uuid} {status : Status}
    {position : ℤ} : (p.lockColumns project status position).Conforms R := by
  unfold UpdateTask.lockColumns
  dsimp only
  split_ifs
  · exact Proc.conforms_advisoryLock
  · exact Proc.conforms_advisoryLock.bind fun _ => Proc.conforms_advisoryLock
  · exact Proc.conforms_advisoryLock.bind fun _ => Proc.conforms_advisoryLock
  · trivial

/-- Every renumbering of the tasks of `project` conforms to `R`. -/
def ConformsShifts (R : Effect Row) (project : Option Uuid) : Prop :=
  ∀ (s : Status) (range : ℤ → Prop) [DecidablePred range] (except : Option Uuid) (δ : ℤ),
    (shiftPositions project s range except δ).Conforms R

theorem ConformsShifts.movePositions {project : Option Uuid} (h : ConformsShifts R project)
    {p : UpdateTask} {status : Status} {position : ℤ} :
    (p.movePositions project status position).Conforms R := by
  have hshift : ∀ {s range except δ} [DecidablePred range],
      (Proc.update (shiftPositions project s range except δ) : TaskProc ℕ).Conforms R :=
    Proc.conforms_update (h _ _ _ _)
  unfold UpdateTask.movePositions
  split_ifs
  · refine hshift.bind fun _ => ?_
    split
    · exact Proc.conforms_select
    · exact hshift.bind fun _ => trivial
  · split
    · trivial
    · split_ifs
      · trivial
      · exact hshift.bind fun _ => trivial
      · exact hshift.bind fun _ => trivial

theorem ConformsShifts.choosePosition {p : CreateTask} (h : ConformsShifts R p.projectId) :
    p.choosePosition.Conforms R := by
  unfold CreateTask.choosePosition
  split
  · exact Proc.conforms_select
  · exact (Proc.conforms_update (h _ _ _ _)).bind fun _ => trivial

/-- A notification may appear. -/
def AdmitsNotification (R : Effect Row) : Prop :=
  ∀ u k o r, R.rel (.notification u k) o none → R.rel (.notification u k) o (some r)

theorem AdmitsNotification.notifyCreated (h : AdmitsNotification R) {p : CreateTask} {t : Uuid} :
    (p.notifyCreated t).Conforms R := by
  unfold CreateTask.notifyCreated
  split
  · split_ifs
    · exact Proc.conforms_insertOrIgnore fun _ => h _ _ _ _
    · trivial
  · trivial

theorem AdmitsNotification.notifyUpdated (h : AdmitsNotification R) {p : UpdateTask}
    {due : Option Timestamp} : (p.notifyUpdated due).Conforms R := by
  unfold UpdateTask.notifyUpdated
  split
  · split_ifs
    · exact Proc.conforms_insertOrIgnore fun _ => h _ _ _ _
    · trivial
  · trivial

end TaskDb
