import TaskManagement.Batch.DueNotification

/-!
# The due-notification job with its history

The runs of `run_due_notification_job` with the row of `batch_history` that each of them starts,
completes or fails.  The statements on tasks, notifications and locks are those of `Runner.act`;
what is added are the updates of the row, each in a transaction of its own, and the failures of
these transactions.  A job also keeps what it has selected and inserted, which the row is compared
with.
-/

namespace DueNotification

open TaskDb (Uuid Timestamp)
open Listing (Table)

/-! ### `batch_history` -/

/-- `ck_batch_history_status` -/
inductive BatchStatus : Type where
  | inprogress
  | complete
  | error
deriving DecidableEq, Repr

structure BatchHistory where
  batchName : String
  triggerType : String
  slot : String
  status : BatchStatus
  startedAt : Timestamp
  endedAt : Option Timestamp
  errorCode : Option String
  errorDetail : Option String
  targetCount : ℕ
  successCount : ℕ
  skippedCount : ℕ
deriving DecidableEq

/-- `batch_history_repository.start`, with the defaults of the columns. -/
def BatchHistory.start (now : Timestamp) (batchName triggerType slot : String) : BatchHistory where
  batchName := batchName
  triggerType := triggerType
  slot := slot
  status := .inprogress
  startedAt := now
  endedAt := none
  errorCode := none
  errorDetail := none
  targetCount := 0
  successCount := 0
  skippedCount := 0

/-- `batch_history_repository.complete` -/
def BatchHistory.complete (now : Timestamp) (targetCount successCount skippedCount : ℕ)
    (row : BatchHistory) : BatchHistory :=
  { row with
    status := .complete
    endedAt := some now
    targetCount
    successCount
    skippedCount }

/-- `batch_history_repository.fail` -/
def BatchHistory.fail (now : Timestamp) (errorCode errorDetail : String)
    (targetCount successCount skippedCount : ℕ) (row : BatchHistory) : BatchHistory :=
  { row with
    status := .error
    endedAt := some now
    errorCode := some errorCode
    errorDetail := some errorDetail
    targetCount
    successCount
    skippedCount }

/-- What becomes of an `UPDATE` and its commit; `lost` when an exception follows the commit. -/
inductive Update : Type where
  | done
  | lost
  | raised
deriving DecidableEq, Repr

/-- The row after an `UPDATE`; there is none when it has been purged. -/
def Update.apply (u : Update) (f : BatchHistory → BatchHistory) (row : Option BatchHistory) :
    Option BatchHistory :=
  if u = .raised then row else row.map f

/-! ### Jobs -/

/-- What is between a run and the end of its row. -/
inductive Stage : Type where
  /-- The job goes on, or its exception is next. -/
  | working
  /-- `fail` has been called. -/
  | recorded
deriving DecidableEq, Repr

/-- A run: its runner and its row, the tasks that it has selected, those of its committed chunks,
and the notifications that it has inserted and committed. -/
structure Job extends Runner where
  history : Option BatchHistory
  stage : Stage
  selected : List DueTask
  notified : List DueTask
  inserted : List Notification

structure Batch where
  redis : Locks
  tasks : Table Task Task.id
  notifications : List Notification
  jobs : List Job

/-- What the runners see. -/
def Batch.base (b : Batch) : State := ⟨b.redis, b.tasks, b.notifications, b.jobs.map Job.toRunner⟩

/-- What a job does next. -/
inductive JobCall : Type where
  | run (c : RunnerCall)
  /-- `complete` after the purge -/
  | complete (u : Update)
  /-- `complete` when the lock is not acquired -/
  | skip (u : Update)
  /-- The rollback, and `fail` in a session of its own, which may raise as well -/
  | fail (errorDetail : String) (u : Update)

inductive BatchCall : Type where
  /-- As `Call.start`, with an answer to the commit of the row or without. -/
  | start (notificationSlot : String) (settings : BatchSettings) (answered : Bool)
  | job (i : ℕ) (c : JobCall)
  | commit (tasks : Table Task Task.id) (created : List Payload)
  | tick (d : Timestamp)

/-- The calls of a runner that a stage leaves; `complete` and `skip` are calls of the job. -/
def RunnerCall.allowed (stage : Stage) : RunnerCall → Bool
  | .complete | .skip => false
  | .release | .releaseRaises => decide (stage = .recorded)
  | .crash => true
  | _ => decide (stage = .working)

structure JobOutcome where
  redis : Locks
  notifications : List Notification
  job : Job

/-- The job goes on to a phase. -/
def Batch.goto (b : Batch) (j : Job) (phase : Phase) : JobOutcome :=
  ⟨b.redis, b.notifications, { j with phase }⟩

/-- The job after a call of its runner. -/
def Job.after (b : Batch) (o : Outcome) (j : Job) : RunnerCall → Job
  | .page =>
    match j.phase with
    | .paging offset _ _ =>
      let rows := dueTaskQuery j.thresholdUtc j.settings.notifyDueBatchChunkSize.toNat offset
        b.tasks
      { j with phase := o.phase, selected := j.selected ++ rows }
    | _ => { j with phase := o.phase }
  | .createChunk _ =>
    match j.phase with
    | .creating _ rest _ _ =>
      { j with
        phase := o.phase
        notified := j.notified ++ rest.take j.settings.notifyDueBatchChunkSize.toNat
        -- `INSERT` appends what it adds
        inserted := j.inserted ++ o.notifications.drop b.notifications.length }
    | _ => { j with phase := o.phase }
  | _ => { j with phase := o.phase }

/-- What the job `i` does. -/
def Job.act (b : Batch) (i : ℕ) (j : Job) : JobCall → Option JobOutcome
  | .run c =>
    if c.allowed j.stage then
      (j.toRunner.act b.base i c).map fun o => ⟨o.redis, o.notifications, j.after b o c⟩
    else none
  | .complete u =>
    match j.phase, j.stage with
    | .purged targetCount createdCount, .working =>
      let history := u.apply (.complete b.redis.now targetCount createdCount 0) j.history
      let phase := if u = .done then .returned ⟨targetCount, createdCount, 0, true⟩
        else .failing true
      some (b.goto { j with history } phase)
    | _, _ => none
  | .skip u =>
    match j.phase, j.stage with
    | .skipped, .working =>
      let history := u.apply (.complete b.redis.now 0 0 1) j.history
      let phase := if u = .done then .returned ⟨0, 0, 1, false⟩ else .failing false
      some (b.goto { j with history } phase)
    | _, _ => none
  | .fail errorDetail u =>
    match j.phase, j.stage with
    | .failing lockAcquired, .working =>
      let history := u.apply
        (.fail b.redis.now "DUE_NOTIFICATION_FAILED" errorDetail 0 0 0) j.history
      some (b.goto { j with history, stage := .recorded } (.failing lockAcquired))
    | _, _ => none

/-- The start of the retention of `batch_history`, when a call purges it. -/
def Job.retained (b : Batch) (j : Job) : JobCall → Option Timestamp
  | .run (.purge _) =>
    match j.phase with
    | .creating _ [] _ txn =>
      if j.settings.notificationRetentionDays ≤ 0 ∨ j.settings.apiHistoryRetentionDays ≤ 0 ∨
          j.settings.batchHistoryRetentionDays ≤ 0 then
        none
      else some (b.base.transactionNow txn - j.settings.batchHistoryRetentionDays * 86400000000)
    | _ => none
  | _ => none

/-- `sp_purge_batch_history` -/
def Job.purgeHistory (retained : Option Timestamp) (j : Job) : Job :=
  { j with
    history := j.history.filter fun row => retained.all fun t => !decide (row.startedAt < t) }

/-- What the job `i` leaves becomes the state. -/
def Batch.leave (b : Batch) (i : ℕ) (retained : Option Timestamp) (o : JobOutcome) : Batch :=
  { b with
    redis := o.redis
    notifications := o.notifications
    jobs := (b.jobs.set i o.job).map (Job.purgeHistory retained) }

/-- The jobs, interleaved with the transactions of the API. -/
def batch (zone : Zone) : Machine Batch BatchCall Unit where
  step b
    | .start notificationSlot settings answered =>
      if settings.notifyDueTargetHour < 24 then
        let x := runDateAndThreshold zone b.redis.now settings
        let phase := if answered then .started else .failing false
        let history := BatchHistory.start b.redis.now "due_notification" "scheduled"
          notificationSlot
        some ((), { b with
          jobs := b.jobs ++ [{
            runDate := x.1
            thresholdUtc := x.2
            notificationSlot
            settings
            phase
            history := some history
            stage := .working
            selected := []
            notified := []
            inserted := [] }] })
      else none
    | .job i c =>
      b.jobs[i]?.bind fun j => (j.act b i c).map fun o => ((), b.leave i (j.retained b c) o)
    | .commit tasks created =>
      if (∀ t ∈ b.tasks.rows, t.id ∈ tasks.rows.map Task.id) ∧
          ∀ p ∈ created, p.type ≠ .dueSoonBatch ∧ ¬p.dedupeKey.isBatch then
        some ((), { b with
          tasks := tasks
          notifications := bulkCreateIfAbsent b.redis.now b.notifications created })
      else none
    | .tick d => if 0 ≤ d then some ((), { b with redis := b.redis.advance d }) else none

end DueNotification
