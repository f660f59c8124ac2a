import TaskManagement.Db.Equiv.Reorder
import TaskManagement.Service.Equiv.Checks
import TaskManagement.Service.TaskWrites

/-!
# A status change without a position

`update_task` fills an omitted position with the one that the task has in its old column, so
`sp_update_task` never gets to append.  `updateTask_appends_iff`: a request that changes the status
and names no position appends the task to its new column exactly when the task happens to be at the
position that is the end of that column.

`solo_updateTask_moved` says what `update_task` does when it runs alone.
-/

namespace TaskDb

open ReadCommitted Columns

variable {db : Db} {taskId : Uuid} {old : Task} {payload : TaskUpdateRequest} {user : CurrentUser}
  {day : AppDay}

/-! ### `update_task` alone -/

/-- The errors of the checks of `update_task`. -/
def Unauthorized (e : Error) : Prop := e = .notFound ∨ e = .forbidden

theorem solo_fnIsProjectMember {allowed : Error → Prop} {projectId userId : Uuid}
    (h : allowed .notFound) {Q : Unit → Db → Prop} (hQ : Q () db) :
    Solo schema allowed ((fnIsProjectMember projectId userId).bind fun member =>
      Proc.raiseIf (member = false) Error.notFound) db Q :=
  Solo.bind (Solo.select (Solo.raiseIf (fun _ => h) fun _ => hQ))

theorem solo_requireTaskAccess {allowed : Error → Prop} (h : allowed .notFound)
    {Q : Unit → Db → Prop} (hQ : Q () db) :
    Solo schema allowed (requireTaskAccess old user) db Q := by
  unfold requireTaskAccess
  split_ifs
  · exact Solo.throw h
  · exact Solo.ret hQ
  · cases old.projectId with
    | none => exact Solo.raiseIf (fun _ => h) fun _ => hQ
    | some p => exact solo_fnIsProjectMember h hQ

theorem solo_requireActivationRight {allowed : Error → Prop} (h : allowed .forbidden)
    {Q : Unit → Db → Prop} (hQ : Q () db) :
    Solo schema allowed (requireActivationRight old payload user) db Q := by
  unfold requireActivationRight
  split_ifs
  · refine Solo.bind ?_
    cases old.projectId with
    | none => exact Solo.ret (Solo.raiseIf (fun _ => h) fun _ => hQ)
    | some p => exact Solo.select (Solo.raiseIf (fun _ => h) fun _ => hQ)
  · exact Solo.ret hQ

theorem solo_authorizeUpdate {allowed : Error → Prop} (h : ∀ e, Unauthorized e → allowed e)
    {Q : Unit → Db → Prop} (hQ : Q () db) :
    Solo schema allowed (authorizeUpdate old payload user) db Q := by
  have hright : Solo schema allowed (requireActivationRight old payload user) db Q :=
    solo_requireActivationRight (h _ (Or.inr rfl)) hQ
  refine Solo.bind ?_
  split_ifs
  · exact solo_requireTaskAccess (h _ (Or.inl rfl)) hright
  · exact Solo.ret hright

theorem TaskUpdateRequest.target_nonneg (h : old.check = none) : 0 ≤ payload.target old := by
  unfold target
  cases payload.position with
  | none => exact (Task.check_eq_none_iff.mp h).1.1
  | some q => exact Int.natCast_nonneg q

/-- `update_task` for a task that exists: it moves the task, or fails in one of its checks or as
`sp_update_task` does. -/
theorem solo_updateTask_moved (hdb : Checked schema db) (hrow : db.row (.task taskId) = some old) :
    Solo schema
      (fun e => Unauthorized e ∨
        (payload.call taskId old day).Refused old (payload.target old) db e)
      (updateTask taskId payload user day) db
      (fun _ db' => old.version = payload.version ∧
        (payload.call taskId old day).Passes old (payload.target old) db ∧
          (payload.call taskId old day).Moved old (payload.target old) db db') := by
  have hcheck : old.check = none := hdb _ _ hrow
  refine Solo.bind (Solo.select ?_)
  rw [hrow]
  refine Solo.bind (solo_authorizeUpdate (fun e => Or.inl) ?_)
  have hmove := UpdateTask.solo_spUpdateTask (p := payload.call taskId old day) hdb hrow rfl
    (payload.target_nonneg hcheck)
  refine Solo.bind ((hmove.allow fun e => Or.inr).mono fun _ db' hmoved => ?_)
  exact Solo.bind (Solo.select (Solo.raiseIf (fun _ => Or.inl (Or.inl rfl)) fun _ => hmoved))

/-! ### Appending -/

/-- The task has been appended to the column of the status `s`: it is the last task there, the other
tasks of both columns are in their order, and both columns are filled. -/
structure Appended (taskId : Uuid) (old : Task) (s : Status) (db db' : Db) : Prop where
  last : slot db' taskId = some ((old.projectId, s), (columnSize db (old.projectId, s) : ℤ))
  order : ∀ t t' c x y x' y', t ≠ taskId → t' ≠ taskId →
    c = (old.projectId, old.status) ∨ c = (old.projectId, s) →
    slot db t = some (c, x) → slot db t' = some (c, y) →
    slot db' t = some (c, x') → slot db' t' = some (c, y') → (x < y ↔ x' < y')
  oldColumn : ∃ n, Fills (slot db') (old.projectId, old.status) n
  newColumn : ∃ n, Fills (slot db') (old.projectId, s) n

/-- The rows that a successful `update_task` leaves. -/
theorem updateTask_moved (hdb : Checked schema db) (hrow : db.row (.task taskId) = some old)
    {c : Config Unit Row LockKey Uuid Error Unit}
    (hrun : Reachable schema (.init db fun _ : Unit => updateTask taskId payload user day) c)
    (hdone : c.tx () = .done (.ok ())) :
    (payload.call taskId old day).Moved old (payload.target old) db c.db := by
  have hout := (solo_updateTask_moved hdb hrow).run hrun
  unfold Solo.Outcome at hout
  rw [hdone] at hout
  exact hout.1.2.2

/-- A successful status change without a position appends the task exactly when its old position is
the number of tasks of the new column. -/
theorem updateTask_appends_iff {s : Status} (hdb : Checked schema db)
    (hcols : Contiguous (slot db)) (hrow : db.row (.task taskId) = some old)
    (hstatus : payload.status = some s) (hs : s ≠ old.status) (hposition : payload.position = none)
    {c : Config Unit Row LockKey Uuid Error Unit}
    (hrun : Reachable schema (.init db fun _ : Unit => updateTask taskId payload user day) c)
    (hdone : c.tx () = .done (.ok ())) :
    Appended taskId old s db c.db ↔
      old.position = (columnSize db (old.projectId, s) : ℤ) := by
  have hmoved := updateTask_moved hdb hrow hrun hdone
  have htarget : payload.target old = old.position := by
    rw [TaskUpdateRequest.target, hposition]
    rfl
  have hcall : (payload.call taskId old day).status = s := by
    show payload.status.getD old.status = s
    rw [hstatus]
    rfl
  rw [htarget] at hmoved
  have hself : slot c.db taskId = some ((old.projectId, s), old.position) := by
    rw [← hcall]
    exact hmoved.slot_self
  constructor
  · intro h
    -- the position is passed on, whatever the new column holds
    have heq := Option.some.inj (hself.symm.trans h.last)
    exact congrArg Prod.snd heq
  · intro hend
    have hin : (payload.call taskId old day).InColumn old old.position db := by
      refine ⟨(Task.check_eq_none_iff.mp (hdb _ _ hrow)).1.1, ?_⟩
      rw [hcall, if_neg hs]
      show old.position ≤ (columnSize db (old.projectId, _) : ℤ)
      rw [hcall]
      exact hend.le
    have hlaw := hmoved.reorders hcols hrow hin
    refine ⟨hself.trans (by rw [hend]), ?_, hlaw.contiguous _, hlaw.contiguous _⟩
    intro t t' d x y x' y' ht ht' _
    exact hlaw.order t t' d x y x' y' ht ht'

/-! ### Two status changes -/

/-- Task 1, the first of `todo`, changes its status. -/
def changeStatus (s : Status) : TaskUpdateRequest where
  version := 1
  status := some s

def changeInit (s : Status) : Config Unit Row LockKey Uuid Error Unit :=
  .init twoColumns fun _ => updateTask 1 (changeStatus s) { id := 7, role := .admin }
    { startUtc := 0, endUtc := 1 }

/-- The steps of the request, with the tasks of the new column that are pushed back. -/
def changeSteps (pushed : List Uuid) : List (Unit × Choice RowId Uuid) :=
  let before : List (Choice RowId Uuid) :=
    [.go, .go, .go, .go, .go, .go, .pick (.task 2), .go, .go]
  let after : List (Choice RowId Uuid) := [.go, .go, .pick (.task 1), .go, .go, .go]
  (before ++ pushed.map (fun t => Choice.pick (RowId.task t)) ++ after).map ((), ·)

/-- Task 1 goes to `in_progress`, which is empty. -/
def started : Config Unit Row LockKey Uuid Error Unit :=
  (changeInit .inProgress).execTo schema (fun _ _ _ => True) (changeSteps []) (by decide)

theorem updateTask_appends_started :
    started.tx () = .done (.ok ()) ∧
      Appended 1 (placedTask .todo 0) .inProgress twoColumns started.db := by
  have hdone : started.tx () = .done (.ok ()) := rfl
  refine ⟨hdone, (updateTask_appends_iff checked_twoColumns contiguous_twoColumns rfl rfl
    (by decide) rfl (run_execTo _) hdone).mpr ?_⟩
  decide

/-- Task 1 goes to `done`, which has two tasks. -/
def finished : Config Unit Row LockKey Uuid Error Unit :=
  (changeInit .done).execTo schema (fun _ _ _ => True) (changeSteps [3, 4]) (by decide)

/-- The task is put in front of the tasks of its new column. -/
theorem not_forall_updateTask_appends :
    ¬∀ (db : Db) (taskId : Uuid) (old : Task) (payload : TaskUpdateRequest) (user : CurrentUser)
        (day : AppDay) (s : Status), Checked schema db → Contiguous (slot db) →
      db.row (.task taskId) = some old → payload.version = old.version →
      payload.status = some s → s ≠ old.status → payload.position = none →
      ∀ c : Config Unit Row LockKey Uuid Error Unit,
        Reachable schema (.init db fun _ : Unit => updateTask taskId payload user day) c →
          c.tx () = .done (.ok ()) → Appended taskId old s db c.db := by
  intro h
  have hlast := (h twoColumns 1 (placedTask .todo 0) (changeStatus .done) _ _ .done
    checked_twoColumns contiguous_twoColumns rfl rfl rfl (by decide) rfl finished (run_execTo _)
    rfl).last
  have hfront : slot finished.db 1 = some ((some 5, .done), 0) := rfl
  have hsize : columnSize twoColumns (some 5, .done) = 2 := by decide
  have hpos := congrArg Prod.snd (Option.some.inj (hfront.symm.trans hlast))
  rw [show ((placedTask .todo 0).projectId, Status.done) = (some 5, Status.done) from rfl,
    hsize] at hpos
  cases hpos

end TaskDb
