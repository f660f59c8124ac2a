import TaskManagement.Db.Schema
import TaskManagement.Keyspace
import TaskManagement.Machine
import TaskManagement.Pages
import TaskManagement.Service.Listing
import Mathlib.Algebra.Order.Group.Int

/-!
# The due-notification job of the batch

`run_due_notification_job` with `acquire_due_notification_lock`, `iter_due_tasks`,
`bulk_create_due_notifications`, `purge_histories` and `release_due_notification_lock`, as runners
execute it: any number of them, each one committed statement or Redis command at a time, between
the committed transactions of the API.

* Every page of `iter_due_tasks` is a statement of its own under READ COMMITTED, and reads what is
  committed at that moment.
* `now()` in a transaction is the time of its first statement: the pages and the first chunk are one
  transaction, since nothing is committed between them.
* The `INSERT` of a chunk and its `COMMIT` are one step: until the commit nobody sees the rows, and
  an `INSERT` with a conflicting key waits for it.
* The updates of the history are steps of their own, also the one of a run that is skipped; their
  rows are those of `Batch`.
* An exception can end a runner at every step, also after a commit or a `SET` whose answer is lost
  (`answered = false`); a crash ends it without a release.

The zone of `APP_TIMEZONE` is a parameter, and the number of a runner is its `runner_id`.
-/

namespace DueNotification

open TaskDb (Uuid Timestamp Status)
open Listing (Table)

/-- A calendar day, by its number. -/
abbrev Date : Type := ℤ

/-- `ZoneInfo`: the day of a moment, and the moment at which an hour of a day begins. -/
structure Zone where
  date : Timestamp → Date
  combine : Date → ℕ → Timestamp

/-- `BatchSettings`, as far as the job reads them. -/
structure BatchSettings where
  redisKeyPrefix : String
  notifyDueTargetHour : ℕ
  notifyDueLockTtlSeconds : ℤ
  notifyDueBatchChunkSize : ℤ
  notificationRetentionDays : ℤ
  apiHistoryRetentionDays : ℤ
  batchHistoryRetentionDays : ℤ

/-! ### The tables -/

structure Task where
  id : Uuid
  title : String
  status : Status
  assigneeId : Option Uuid
  dueAt : Option Timestamp
deriving DecidableEq

/-- `ck_notifications_type` -/
inductive NotificationType : Type where
  | dueSoonBatch
  | dueTodayCreated
  | dueTodayUpdated
deriving DecidableEq

/-- `dedupe_key`: `batch:<date>:<slot>:<task>`, where date and task have texts of a fixed length, or
a key of the API. -/
inductive DedupeKey : Type where
  | batch (runDate : Date) (notificationSlot : String) (taskId : Uuid)
  | api (key : TaskDb.DedupeKey)
deriving DecidableEq

/-- The key is one of the batch. -/
def DedupeKey.isBatch : DedupeKey → Bool
  | .batch _ _ _ => true
  | .api _ => false

/-- What an `INSERT` gives for a notification. -/
structure Payload where
  userId : Uuid
  taskId : Uuid
  type : NotificationType
  title : String
  body : Option String
  dueAt : Timestamp
  dedupeKey : DedupeKey
deriving DecidableEq

structure Notification extends Payload where
  createdAt : Timestamp
deriving DecidableEq

/-- The columns of `uq_notifications_user_dedupe`. -/
def Payload.key (p : Payload) : Uuid × DedupeKey := (p.userId, p.dedupeKey)

/-- `INSERT … ON CONFLICT (user_id, dedupe_key) DO NOTHING` of one row. -/
def insertIfAbsent (now : Timestamp) (notifications : List Notification) (p : Payload) :
    List Notification :=
  if notifications.any fun n => n.key = p.key then notifications
  else notifications ++ [{ p with createdAt := now }]

/-- `bulk_create_if_absent` -/
def bulkCreateIfAbsent (now : Timestamp) (notifications : List Notification)
    (payloads : List Payload) : List Notification :=
  payloads.foldl (insertIfAbsent now) notifications

/-- `sp_purge_notifications`, where the time zone of the session is UTC. -/
def purgeNotifications (now : Timestamp) (retentionDays : ℤ) (notifications : List Notification) :
    List Notification :=
  notifications.filter fun n => ¬n.createdAt < now - retentionDays * 86400000000

/-! ### The due tasks -/

structure DueTask where
  id : Uuid
  title : String
  assigneeId : Uuid
  dueAt : Timestamp
deriving DecidableEq

/-- The `WHERE` clause of `_DUE_TASK_QUERY`, and the columns that it selects. -/
def dueTask (thresholdUtc : Timestamp) (t : Task) : Option DueTask :=
  match t.assigneeId, t.dueAt with
  | some assigneeId, some dueAt =>
    if t.status ≠ .done ∧ dueAt ≤ thresholdUtc then some ⟨t.id, t.title, assigneeId, dueAt⟩
    else none
  | _, _ => none

def dueTasks (thresholdUtc : Timestamp) (tasks : Table Task Task.id) : List DueTask :=
  tasks.rows.filterMap (dueTask thresholdUtc)

/-- `_DUE_TASK_QUERY`: `ORDER BY id LIMIT limit OFFSET offset` -/
def dueTaskQuery (thresholdUtc : Timestamp) (limit offset : ℕ) (tasks : Table Task Task.id) :
    List DueTask :=
  Pages.page limit offset ((dueTasks thresholdUtc tasks).insertionSort fun a b => a.id ≤ b.id)

/-- `_to_notification_payload` -/
def toNotificationPayload (runDate : Date) (notificationSlot : String) (task : DueTask) :
    Payload where
  userId := task.assigneeId
  taskId := task.id
  type := .dueSoonBatch
  title := task.title
  body := some "期限が近いタスクです"
  dueAt := task.dueAt
  dedupeKey := .batch runDate notificationSlot task.id

/-- `_run_date_and_threshold` -/
def runDateAndThreshold (zone : Zone) (now : Timestamp) (settings : BatchSettings) :
    Date × Timestamp :=
  (zone.date now, zone.combine (zone.date now + 1) settings.notifyDueTargetHour)

/-! ### The lock -/

/-- `lock:notify_due:<date>:<slot>` with the prefix of the keys. -/
structure LockKey where
  keyPrefix : String
  runDate : Date
  slot : String
deriving DecidableEq

/-- The locks: the value is a `runner_id`. -/
abbrev Locks : Type := Keyspace Timestamp (fun _ : LockKey => ℕ) Empty Empty

/-- `SET key runner_id EX ttl NX` -/
def setNx (s : Locks) (k : LockKey) (runnerId : ℕ) (ttlSeconds : ℤ) : Bool × Locks :=
  if s.existsKey k then (false, s) else (true, s.setEx k runnerId (ttlSeconds * 1000000))

/-- `_RELEASE_LOCK_SCRIPT` -/
def releaseLock (s : Locks) (k : LockKey) (runnerId : ℕ) : Locks :=
  if s.get k = some runnerId then s.del k else s

/-! ### Runners -/

structure JobResult where
  targetCount : ℕ
  successCount : ℕ
  skippedCount : ℕ
  lockAcquired : Bool
deriving DecidableEq

/-- How far a runner is; `txn` is the time of the first statement of its open transaction. -/
inductive Phase : Type where
  /-- The history is started: the lock is next. -/
  | started
  /-- The lock is not acquired: `complete` of the history is next. -/
  | skipped
  /-- `iter_due_tasks` has yielded `rows`, and the page at `offset` is next. -/
  | paging (offset : ℕ) (rows : List DueTask) (txn : Option Timestamp)
  /-- `bulk_create_due_notifications` has the chunks of `rest` before it. -/
  | creating (targetCount : ℕ) (rest : List DueTask) (createdCount : ℕ) (txn : Option Timestamp)
  /-- The notifications are purged: `complete` of the history is next. -/
  | purged (targetCount createdCount : ℕ)
  /-- An exception is handled: the release of the lock is next, if there is one. -/
  | failing (lockAcquired : Bool)
  | returned (result : JobResult)
  | crashed
deriving DecidableEq

/-- A call of `run_due_notification_job`. -/
structure Runner where
  runDate : Date
  thresholdUtc : Timestamp
  notificationSlot : String
  settings : BatchSettings
  phase : Phase

structure State where
  redis : Locks
  tasks : Table Task Task.id
  notifications : List Notification
  runners : List Runner

/-- What a runner does next. -/
inductive RunnerCall : Type where
  | acquire (answered : Bool)
  /-- The next page of `iter_due_tasks` -/
  | page
  /-- The next chunk of `bulk_create_due_notifications`, with its commit -/
  | createChunk (answered : Bool)
  /-- `purge_histories`, with its commit -/
  | purge (answered : Bool)
  /-- `complete` of the history, with its commit -/
  | complete
  /-- `complete` of the history of a run that has not acquired the lock, with its commit -/
  | skip
  /-- A statement or a command raises. -/
  | raise
  /-- `release_due_notification_lock` and the return after an exception -/
  | release
  /-- The release raises. -/
  | releaseRaises
  /-- The process ends. -/
  | crash

inductive Call : Type where
  /-- `run_due_notification_job` computes the date and the threshold and starts the history. -/
  | start (notificationSlot : String) (settings : BatchSettings)
  | runner (i : ℕ) (c : RunnerCall)
  /-- A transaction of the API commits: it leaves the table `tasks` and has inserted
  notifications. -/
  | commit (tasks : Table Task Task.id) (created : List Payload)
  /-- Time passes. -/
  | tick (d : Timestamp)

def Runner.lockKey (r : Runner) : LockKey :=
  ⟨r.settings.redisKeyPrefix, r.runDate, r.notificationSlot⟩

def init (now : Timestamp) (tasks : Table Task Task.id) : State where
  redis := .empty now
  tasks := tasks
  notifications := []
  runners := []

/-- The phase after a page: `if len(rows) < chunk_size: break`. -/
def afterPage (chunkSize offset : ℕ) (yielded rows : List DueTask) (txn : Timestamp) : Phase :=
  if rows.length < chunkSize then
    .creating (yielded ++ rows).length (yielded ++ rows) 0 (some txn)
  else .paging (offset + rows.length) (yielded ++ rows) (some txn)

/-- The phase in which an exception of the phase is handled; `none` when the runner has returned,
crashed or handles one already. -/
def Phase.raised : Phase → Option Phase
  | .started | .skipped => some (.failing false)
  | .paging _ _ _ | .creating _ _ _ _ | .purged _ _ => some (.failing true)
  | .failing _ | .returned _ | .crashed => none

/-- The runner is executing the job. -/
def Phase.running : Phase → Bool
  | .returned _ | .crashed => false
  | _ => true

/-- What a runner leaves: the locks, the notifications and its phase. -/
structure Outcome where
  redis : Locks
  notifications : List Notification
  phase : Phase

/-- The runner goes on to a phase. -/
def State.goto (s : State) (phase : Phase) : Outcome := ⟨s.redis, s.notifications, phase⟩

/-- `now()` in the transaction of a runner. -/
def State.transactionNow (s : State) (txn : Option Timestamp) : Timestamp := txn.getD s.redis.now

/-- What the runner `i` does. -/
def Runner.act (s : State) (i : ℕ) (r : Runner) : RunnerCall → Option Outcome
  | .acquire answered =>
    match r.phase with
    | .started =>
      -- `_validate_lock_arguments`
      if r.notificationSlot = "" ∨ r.settings.notifyDueLockTtlSeconds ≤ 0 then
        some (s.goto (.failing false))
      else
        let x := setNx s.redis r.lockKey i r.settings.notifyDueLockTtlSeconds
        let phase := if x.1 then .paging 0 [] none else .skipped
        some ⟨x.2, s.notifications, if answered then phase else .failing false⟩
    | _ => none
  | .page =>
    match r.phase with
    | .paging offset yielded txn =>
      let chunkSize := r.settings.notifyDueBatchChunkSize
      if chunkSize ≤ 0 then some (s.goto (.failing true))
      else
        let rows := dueTaskQuery r.thresholdUtc chunkSize.toNat offset s.tasks
        some (s.goto (afterPage chunkSize.toNat offset yielded rows (s.transactionNow txn)))
    | _ => none
  | .createChunk answered =>
    match r.phase with
    | .creating targetCount (task :: rest) createdCount txn =>
      let chunkSize := r.settings.notifyDueBatchChunkSize.toNat
      let payloads := ((task :: rest).take chunkSize).map
        (toNotificationPayload r.runDate r.notificationSlot)
      let notifications := bulkCreateIfAbsent (s.transactionNow txn) s.notifications payloads
      let rowcount := notifications.length - s.notifications.length
      let phase := .creating targetCount ((task :: rest).drop chunkSize) (createdCount + rowcount)
        none
      some ⟨s.redis, notifications, if answered then phase else .failing true⟩
    | _ => none
  | .purge answered =>
    match r.phase with
    | .creating targetCount [] createdCount txn =>
      -- each of the three procedures raises unless its retention is positive
      if r.settings.notificationRetentionDays ≤ 0 ∨ r.settings.apiHistoryRetentionDays ≤ 0 ∨
          r.settings.batchHistoryRetentionDays ≤ 0 then
        some (s.goto (.failing true))
      else
        let notifications := purgeNotifications (s.transactionNow txn)
          r.settings.notificationRetentionDays s.notifications
        let phase := .purged targetCount createdCount
        some ⟨s.redis, notifications, if answered then phase else .failing true⟩
    | _ => none
  | .complete =>
    match r.phase with
    | .purged targetCount createdCount =>
      some (s.goto (.returned ⟨targetCount, createdCount, 0, true⟩))
    | _ => none
  | .skip =>
    match r.phase with
    | .skipped => some (s.goto (.returned ⟨0, 0, 1, false⟩))
    | _ => none
  | .raise => r.phase.raised.map s.goto
  | .release =>
    match r.phase with
    | .failing lockAcquired =>
      let redis := if lockAcquired then releaseLock s.redis r.lockKey i else s.redis
      some ⟨redis, s.notifications, .returned ⟨0, 0, 0, lockAcquired⟩⟩
    | _ => none
  | .releaseRaises =>
    match r.phase with
    | .failing true => some (s.goto (.returned ⟨0, 0, 0, true⟩))
    | _ => none
  | .crash => if r.phase.running then some (s.goto .crashed) else none

/-- What the runner `i` leaves becomes the state. -/
def State.leave (s : State) (i : ℕ) (r : Runner) (o : Outcome) : State :=
  { s with
    redis := o.redis
    notifications := o.notifications
    runners := s.runners.set i { r with phase := o.phase } }

/-- The runners, interleaved with the transactions of the API.  No transaction deletes a task. -/
def machine (zone : Zone) : Machine State Call Unit where
  step s
    | .start notificationSlot settings =>
      -- `time(hour=…)` raises for an hour after 23, before there is a history
      if settings.notifyDueTargetHour < 24 then
        let x := runDateAndThreshold zone s.redis.now settings
        some ((), { s with
          runners := s.runners ++ [⟨x.1, x.2, notificationSlot, settings, .started⟩] })
      else none
    | .runner i c =>
      s.runners[i]?.bind fun r => (r.act s i c).map fun o => ((), s.leave i r o)
    | .commit tasks created =>
      if (∀ t ∈ s.tasks.rows, t.id ∈ tasks.rows.map Task.id) ∧
          ∀ p ∈ created, p.type ≠ .dueSoonBatch ∧ ¬p.dedupeKey.isBatch then
        some ((), { s with
          tasks := tasks
          notifications := bulkCreateIfAbsent s.redis.now s.notifications created })
      else none
    | .tick d => if 0 ≤ d then some ((), { s with redis := s.redis.advance d }) else none

end DueNotification
