import TaskManagement.Batch.DueNotification
import TaskManagement.ReadCommitted.Lifecycle

/-!
# Notifications under READ COMMITTED

The transactions that create notifications, mark them as read and purge them:
`bulk_create_if_absent`, `mark_notification_read` and `mark_all_notifications_read` of the services
with `sp_mark_notification_read`, `sp_mark_all_notifications_read` and
`fn_count_unread_notifications`, and `sp_purge_notifications`.

A row of `notifications` is stored under its generated `id`; `uq_notifications_user_dedupe` is a
table of its own, whose entries are written and deleted together with the rows, so that an `INSERT`
with a conflicting key waits for the transaction that wrote the entry.  No row of `users` or `tasks`
is ever deleted, so that the foreign keys change nothing.
-/

namespace NotificationDb

open ReadCommitted
open TaskDb (Uuid Timestamp)
open DueNotification (Payload DedupeKey)

structure Notification extends Payload where
  readAt : Option Timestamp
  createdAt : Timestamp
deriving DecidableEq

/-- An entry of `uq_notifications_user_dedupe`; it lives as long as its row. -/
structure DedupeEntry where
  createdAt : Timestamp
deriving DecidableEq

/-- The table of a row and its key. -/
inductive RowId : Type where
  | notification (id : Uuid)
  | dedupe (userId : Uuid) (dedupeKey : DedupeKey)
deriving DecidableEq

/-- The rows of each table. -/
@[reducible] def Row : RowId → Type
  | .notification _ => Notification
  | .dedupe _ _ => DedupeEntry

/-- The committed rows. -/
abbrev Db : Type := Store Row

/-- The errors that end a transaction. -/
inductive Error : Type where
  /-- `p_retention_days must be positive` -/
  | retentionDaysNotPositive
deriving DecidableEq, Repr

/-- The values of the columns are typed, so that no row violates a constraint. -/
def schema : Constraints Row Error where
  check _ _ := none
  deferred _ := none

/-- No transaction takes an advisory lock. -/
abbrev NotificationProc : Type → Type := Proc Row Empty Uuid Error

abbrev NotificationSession : Type := Session Row Empty

/-! ### Procedures and functions -/

/-- A statement on the table `notifications` alone. -/
def onNotifications (f : Uuid → Notification → Option (Option Notification)) : RowUpdate Row
  | .notification id, r => f id r
  | .dedupe _ _, _ => none

/-- `INSERT … ON CONFLICT (user_id, dedupe_key) DO NOTHING` of one row; was it inserted? -/
def insertIfAbsent (now : Timestamp) (p : Payload) : NotificationProc Bool := do
  -- `gen_random_uuid()`
  let id ← Proc.generate .notification
  let inserted ← Proc.insert (.dedupe p.userId p.dedupeKey) ⟨now⟩ .ret
  if inserted then
    Proc.insert (.notification id) { p with readAt := none, createdAt := now } .ret
  else .ret false

/-- `bulk_create_if_absent`; the result is the row count. -/
def bulkCreateIfAbsent (now : Timestamp) : List Payload → NotificationProc ℕ
  | [] => .ret 0
  | p :: payloads => do
    let inserted ← insertIfAbsent now p
    let count ← bulkCreateIfAbsent now payloads
    .ret (count + if inserted then 1 else 0)

/-- `SET read_at = COALESCE(read_at, now())` -/
def Notification.read (now : Timestamp) (n : Notification) : Notification :=
  { n with readAt := some (n.readAt.getD now) }

/-- `id = p_notification_id AND user_id = p_user_id` -/
def ownNotification (db : Db) (pNotificationId pUserId : Uuid) : Option Notification :=
  (db.row (.notification pNotificationId)).filter fun n => n.userId = pUserId

/-- The `UPDATE` of `sp_mark_notification_read`. -/
def setRead (now : Timestamp) (pNotificationId pUserId : Uuid) : RowUpdate Row :=
  onNotifications fun id n =>
    if id = pNotificationId ∧ n.userId = pUserId then some (some (n.read now)) else none

/-- `sp_mark_notification_read`; the result is `p_read_at`. -/
def spMarkNotificationRead (now : Timestamp) (pNotificationId pUserId : Uuid) :
    NotificationProc (Option Timestamp) := do
  -- `SELECT … FOR UPDATE` locks the row that its snapshot shows, and checks the newest version
  let found ← Proc.select fun s => ownNotification s pNotificationId pUserId
  if found.isNone then .ret none
  else do
    let locked ← Proc.selectForUpdate (.notification pNotificationId)
    if (locked.filter fun n => n.userId = pUserId).isNone then .ret none
    else do
      let _ ← Proc.update (setRead now pNotificationId pUserId)
      Proc.select fun s => (ownNotification s pNotificationId pUserId).bind Notification.readAt

/-- `user_id = p_user_id AND read_at IS NULL` -/
def Notification.isUnreadOf (pUserId : Uuid) (n : Notification) : Prop :=
  n.userId = pUserId ∧ n.readAt = none

instance (pUserId : Uuid) (n : Notification) : Decidable (n.isUnreadOf pUserId) := by
  unfold Notification.isUnreadOf
  infer_instance

/-- The `UPDATE` of `sp_mark_all_notifications_read`. -/
def setAllRead (now : Timestamp) (pUserId : Uuid) : RowUpdate Row :=
  onNotifications fun _ n =>
    if n.isUnreadOf pUserId then some (some { n with readAt := some now }) else none

/-- `sp_mark_all_notifications_read`; the result is `p_updated_count`. -/
def spMarkAllNotificationsRead (now : Timestamp) (pUserId : Uuid) : NotificationProc ℕ :=
  Proc.update (setAllRead now pUserId)

/-- The rows of `notifications` with their ids. -/
def notifications (db : Db) : List (Uuid × Notification) :=
  db.ids.filterMap fun
    | .notification id => (db.row (.notification id)).map fun n => (id, n)
    | .dedupe _ _ => none

def fnCountUnreadNotifications (pUserId : Uuid) (db : Db) : ℕ :=
  (notifications db).countP fun x => x.2.isUnreadOf pUserId

/-- The `DELETE` of `sp_purge_notifications`, with the entries of the deleted rows; the time zone of
the session is UTC. -/
def deleteCreatedBefore (threshold : Timestamp) : RowUpdate Row
  | .notification _, n => if n.createdAt < threshold then some none else none
  | .dedupe _ _, e => if e.createdAt < threshold then some none else none

def spPurgeNotifications (now : Timestamp) (pRetentionDays : ℤ) : NotificationProc Unit := do
  Proc.raiseIf (pRetentionDays ≤ 0) .retentionDaysNotPositive
  let _ ← Proc.update (deleteCreatedBefore (now - pRetentionDays * 86400000000))
  return ()

/-! ### Transactions -/

/-- A transaction on notifications. -/
inductive NotificationCall : Type where
  | create (payloads : List Payload)
  | markNotificationRead (notificationId userId : Uuid)
  | markAllNotificationsRead (userId : Uuid)
  | purge (retentionDays : ℤ)
deriving DecidableEq

/-- What a transaction answers. -/
inductive Answer : Type where
  | created (count : ℕ)
  /-- `NotFoundError`; nothing has been written, so that the rollback is an empty commit. -/
  | notFound
  | read (readAt : Timestamp) (unreadCount : ℕ)
  | readAll (updatedCount unreadCount : ℕ)
  | purged
deriving DecidableEq, Repr

/-- The transaction of a call, with its `now()`. -/
def NotificationCall.proc (now : Timestamp) : NotificationCall → NotificationProc Answer
  | .create payloads => do
    let count ← bulkCreateIfAbsent now payloads
    return .created count
  | .markNotificationRead notificationId userId => do
    let readAt ← spMarkNotificationRead now notificationId userId
    match readAt with
    | none => return .notFound
    | some readAt => do
      let unreadCount ← Proc.select (fnCountUnreadNotifications userId)
      return .read readAt unreadCount
  | .markAllNotificationsRead userId => do
    let updatedCount ← spMarkAllNotificationsRead now userId
    let after ← Proc.select (fnCountUnreadNotifications userId)
    return .readAll updatedCount after
  | .purge retentionDays => do
    spPurgeNotifications now retentionDays
    return .purged

end NotificationDb
