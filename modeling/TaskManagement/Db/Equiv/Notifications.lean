import TaskManagement.Db.Notifications
import TaskManagement.ReadCommitted.Snapshots

/-!
# Notifications are read once

In every run of the transactions on notifications:

* a notification is deleted when it has expired, and otherwise only its `read_at` changes, once and
  by a call of its owner (`read_once`);
* `mark_notification_read` answers the first `read_at` (`mark_notification_read_answer`), and fails
  for a notification that is not there (`mark_notification_read_notFound`);
* `mark_all_notifications_read` counts what it has marked, and leaves nothing unread that its first
  snapshot shows (`mark_all_notifications_read_answer`).

`changes_of_step` says what each call may do to a row: every statement of its program conforms to
`NotificationCall.effect`.  That a row which is gone does not come back is `lifecycle`, and
`NotificationCall.Ends` what a call knows when it ends.
-/

namespace NotificationDb

open ReadCommitted
open TaskDb (Uuid Timestamp)
open DueNotification (Payload DedupeKey)

variable {db db' s : Db} {id pNotificationId pUserId : Uuid} {n n' : Notification}
  {now : Timestamp} {σ : NotificationSession} {call : NotificationCall}

/-! ### Rows -/

theorem mem_notifications : (id, n) ∈ notifications db ↔ db.row (.notification id) = some n := by
  refine (Store.mem_table_iff RowId.notification (fun id n => (id, n)) (fun _ => rfl)
    fun i b h => ?_).trans ?_
  · cases i with
    | notification id => exact ⟨id, rfl⟩
    | dedupe u k => cases h
  · constructor
    · rintro ⟨id', n', hn, heq⟩
      obtain ⟨rfl, rfl⟩ := Prod.mk.inj heq
      exact hn
    · exact fun hn => ⟨id, n, hn, rfl⟩

/-- The primary key. -/
theorem nodup_notifications (db : Db) : ((notifications db).map Prod.fst).Nodup := by
  refine Store.nodup_table RowId.notification (fun id n => (id, n)) (fun _ => rfl) (fun i b h => ?_)
    Prod.fst fun _ _ => rfl
  cases i with
  | notification id => exact ⟨id, rfl⟩
  | dedupe u k => cases h

/-- Two databases with the same selected ids have the same count. -/
theorem countP_notifications_congr {p q : Uuid × Notification → Prop} [DecidablePred p]
    [DecidablePred q]
    (h : ∀ id, (∃ n, db.row (.notification id) = some n ∧ p (id, n)) ↔
      ∃ n, db'.row (.notification id) = some n ∧ q (id, n)) :
    (notifications db).countP p = (notifications db').countP q := by
  have hids : ∀ {db : Db} {p : Uuid × Notification → Prop} [DecidablePred p] {id : Uuid},
      id ∈ ((notifications db).filter p).map Prod.fst ↔
        ∃ n, db.row (.notification id) = some n ∧ p (id, n) := by
    intro db p _ id
    simp only [List.mem_map, List.mem_filter, decide_eq_true_eq]
    constructor
    · rintro ⟨⟨id', n⟩, ⟨hn, hp⟩, rfl⟩
      exact ⟨n, mem_notifications.mp hn, hp⟩
    · rintro ⟨n, hn, hp⟩
      exact ⟨(id, n), ⟨mem_notifications.mpr hn, hp⟩, rfl⟩
  have hnodup : ∀ {db : Db} {p : Uuid × Notification → Prop} [DecidablePred p],
      (((notifications db).filter p).map Prod.fst).Nodup := by
    intro db p _
    exact (nodup_notifications db).sublist ((List.filter_sublist).map Prod.fst)
  have hperm : (((notifications db).filter p).map Prod.fst).Perm
      (((notifications db').filter q).map Prod.fst) := by
    refine (List.perm_ext_iff_of_nodup hnodup hnodup).mpr fun id => ?_
    rw [hids, hids]
    exact h id
  rw [List.countP_eq_length_filter, List.countP_eq_length_filter]
  simpa using hperm.length_eq

/-! ### The life of a notification -/

/-- Only the mark that a notification has been read changes, and it is set once. -/
structure Ages (n n' : Notification) : Prop where
  payload : n'.toPayload = n.toPayload
  createdAt : n'.createdAt = n.createdAt
  readAt : ∀ t, n.readAt = some t → n'.readAt = some t

theorem Ages.refl (n : Notification) : Ages n n := ⟨rfl, rfl, fun _ h => h⟩

theorem Ages.trans {n'' : Notification} (h : Ages n n') (h' : Ages n' n'') : Ages n n'' :=
  ⟨h'.payload.trans h.payload, h'.createdAt.trans h.createdAt,
    fun t ht => h'.readAt t (h.readAt t ht)⟩

theorem Ages.userId (h : Ages n n') : n'.userId = n.userId := congrArg Payload.userId h.payload

/-- A row of `notifications` ages until it is deleted. -/
def ages : (i : RowId) → Row i → Option (Row i) → Prop
  | .notification _, n, o => ∀ n', o = some n' → Ages n n'
  | .dedupe _ _, _, _ => True

def lifecycle : Lifecycle Row where
  generated i := ∃ id, i = .notification id
  rel := ages
  refl i r := by
    cases i with
    | notification id =>
      rintro n' ⟨⟩
      exact Ages.refl r
    | dedupe u k => trivial
  trans {i r r' o} h h' := by
    cases i with
    | notification id => exact fun n' hn => (h r' rfl).trans (h' n' hn)
    | dedupe u k => trivial

theorem ages_read (now : Timestamp) (n : Notification) : Ages n (n.read now) := by
  refine ⟨rfl, rfl, fun t ht => ?_⟩
  show some (n.readAt.getD now) = some t
  rw [ht]
  rfl

theorem ages_setAllRead : ∀ i r v, lifecycle.generated i →
    setAllRead now pUserId i r = some v → lifecycle.rel i r v := by
  rintro _ n v ⟨id, rfl⟩ hv
  simp only [setAllRead, onNotifications] at hv
  split_ifs at hv with hunread
  obtain rfl := Option.some.inj hv
  rintro n' ⟨⟩
  refine ⟨rfl, rfl, fun t ht => ?_⟩
  rw [hunread.2] at ht
  cases ht

theorem ages_deleteCreatedBefore {threshold : Timestamp} : ∀ i r v, lifecycle.generated i →
    deleteCreatedBefore threshold i r = some v → lifecycle.rel i r v := by
  rintro _ n v ⟨id, rfl⟩ hv
  simp only [deleteCreatedBefore] at hv
  split_ifs at hv
  obtain rfl := Option.some.inj hv
  rintro n' ⟨⟩

/-! ### What each transaction does to a row -/

/-- What the transaction of a call may do to the notification `id`. -/
inductive NotificationCall.Changes (now : Timestamp) (id : Uuid) :
    NotificationCall → Option Notification → Option Notification → Prop
  | created {payloads : List Payload} {p : Payload} (hp : p ∈ payloads) :
      Changes now id (.create payloads) none (some { p with readAt := none, createdAt := now })
  | read {n : Notification} {userId : Uuid} (hu : n.userId = userId) (hn : n.readAt = none) :
      Changes now id (.markNotificationRead id userId) (some n) (some { n with readAt := some now })
  | readAll {n : Notification} {userId : Uuid} (hu : n.userId = userId) (hn : n.readAt = none) :
      Changes now id (.markAllNotificationsRead userId) (some n)
        (some { n with readAt := some now })
  | purged {retentionDays : ℤ} {n : Notification} (hdays : 0 < retentionDays)
      (hn : n.createdAt < now - retentionDays * 86400000000) :
      Changes now id (.purge retentionDays) (some n) none

/-- A row of `notifications` stays as it is, or changes as the call says. -/
def changes (now : Timestamp) (call : NotificationCall) :
    (i : RowId) → Option (Row i) → Option (Row i) → Prop
  | .notification id, o, o' => o' = o ∨ call.Changes now id o o'
  | .dedupe _ _, _, _ => True

def NotificationCall.effect (now : Timestamp) (call : NotificationCall) : Effect Row where
  rel := changes now call
  refl i o := by
    cases i with
    | notification id => exact Or.inl rfl
    | dedupe u k => trivial

theorem conforms_insertIfAbsent {payloads : List Payload} {p : Payload} (hp : p ∈ payloads) :
    (insertIfAbsent now p).Conforms (NotificationCall.effect now (.create payloads)) := by
  refine Proc.Conforms.bind Proc.conforms_generate fun id => ?_
  refine Proc.Conforms.bind ⟨fun _ _ => trivial, fun _ => trivial⟩ fun inserted => ?_
  split_ifs
  · refine ⟨fun o ho => ?_, fun _ => trivial⟩
    -- a row that is absent when it is inserted was absent before the transaction
    have ho : o = none := by
      rcases ho with ho | ho
      · exact ho.symm
      · cases ho
    rw [ho]
    exact Or.inr (.created hp)
  · trivial

theorem conforms_bulkCreateIfAbsent {payloads l : List Payload} (hl : ∀ p ∈ l, p ∈ payloads) :
    (bulkCreateIfAbsent now l).Conforms (NotificationCall.effect now (.create payloads)) := by
  induction l with
  | nil => trivial
  | cons p l ih =>
    refine Proc.Conforms.bind (conforms_insertIfAbsent (hl p List.mem_cons_self)) fun _ => ?_
    refine Proc.Conforms.bind (ih fun p hp => hl p (List.mem_cons_of_mem _ hp)) fun _ => trivial

theorem conforms_setRead : (setRead now pNotificationId pUserId).Conforms
    (NotificationCall.effect now (.markNotificationRead pNotificationId pUserId)) := by
  rintro (id | ⟨u, k⟩) o n w ho hw
  · simp only [setRead, onNotifications] at hw
    split_ifs at hw with hown
    obtain ⟨rfl, hu⟩ := hown
    obtain rfl := Option.some.inj hw
    rcases ho with rfl | ho
    · cases hr : n.readAt with
      | none =>
        have hread : n.read now = { n with readAt := some now } := by
          unfold Notification.read
          rw [hr]
          rfl
        rw [hread]
        exact Or.inr (.read hu hr)
      | some t =>
        have hread : n.read now = n := by
          unfold Notification.read
          rw [hr, Option.getD_some, ← hr]
        rw [hread]
        exact Or.inl rfl
    · -- the row has been read by this transaction before
      cases ho with
      | read hu hr => exact Or.inr (.read hu hr)
  · trivial

theorem conforms_setAllRead : (setAllRead now pUserId).Conforms
    (NotificationCall.effect now (.markAllNotificationsRead pUserId)) := by
  rintro (id | ⟨u, k⟩) o n w ho hw
  · simp only [setAllRead, onNotifications] at hw
    split_ifs at hw with hunread
    obtain ⟨hu, hr⟩ := hunread
    obtain rfl := Option.some.inj hw
    rcases ho with rfl | ho
    · exact Or.inr (.readAll hu hr)
    · cases ho
      cases hr
  · trivial

theorem conforms_deleteCreatedBefore {retentionDays : ℤ} (hdays : 0 < retentionDays) :
    (deleteCreatedBefore (now - retentionDays * 86400000000)).Conforms
      (NotificationCall.effect now (.purge retentionDays)) := by
  rintro (id | ⟨u, k⟩) o n w ho hw
  · simp only [deleteCreatedBefore] at hw
    split_ifs at hw with hold
    obtain rfl := Option.some.inj hw
    rcases ho with rfl | ho
    · exact Or.inr (.purged hdays hold)
    · cases ho
  · trivial

theorem conforms_spMarkNotificationRead :
    (spMarkNotificationRead now pNotificationId pUserId).Conforms
      (NotificationCall.effect now (.markNotificationRead pNotificationId pUserId)) := by
  refine Proc.Conforms.bind Proc.conforms_select fun found => ?_
  split_ifs
  · trivial
  · refine Proc.Conforms.bind Proc.conforms_selectForUpdate fun locked => ?_
    split_ifs
    · trivial
    · exact Proc.Conforms.bind (Proc.conforms_update conforms_setRead) fun _ =>
        Proc.conforms_select

theorem conforms_proc (now : Timestamp) (call : NotificationCall) :
    (call.proc now).Conforms (call.effect now) := by
  cases call with
  | create payloads =>
    exact Proc.Conforms.bind (conforms_bulkCreateIfAbsent fun _ h => h) fun _ => trivial
  | markNotificationRead id u =>
    refine Proc.Conforms.bind conforms_spMarkNotificationRead fun readAt => ?_
    cases readAt with
    | none => trivial
    | some t => exact Proc.Conforms.bind Proc.conforms_select fun _ => trivial
  | markAllNotificationsRead u =>
    exact Proc.Conforms.bind (Proc.conforms_update conforms_setAllRead) fun _ =>
      Proc.Conforms.bind Proc.conforms_select fun _ => trivial
  | purge retentionDays =>
    refine Proc.Conforms.bind ?_ fun _ => trivial
    by_cases hdays : retentionDays ≤ 0
    · show ((Proc.raiseIf (retentionDays ≤ 0) _).bind _).Conforms _
      unfold Proc.raiseIf
      rw [if_pos hdays]
      trivial
    · refine Proc.Conforms.bind Proc.conforms_raiseIf fun _ => ?_
      exact Proc.Conforms.bind
        (Proc.conforms_update (conforms_deleteCreatedBefore (not_le.mp hdays))) fun _ => trivial

/-! ### What each transaction answers -/

abbrev notificationProtocol : Protocol Unit Row Empty Error := lifecycle.protocol

/-- The first snapshot of the session is `s`, and what it shows has aged. -/
def Seen (s : Db) (σ : NotificationSession) (db : Db) : Prop :=
  (∃ l, σ.reads = l ++ [s]) ∧ lifecycle.Follows s db

theorem seen_stable (s : Db) : notificationProtocol.Stable (Seen s) where
  rely h hr _ := ⟨h.1, h.2.trans hr.2⟩
  saw s' h := by
    obtain ⟨⟨l, hl⟩, hf⟩ := h
    exact ⟨⟨s' :: l, congrArg (s' :: ·) hl⟩, hf⟩

/-- A notification that a snapshot shows and that is gone later. -/
theorem row_of_follows (h : lifecycle.Follows s db) (hn : s.row (.notification id) = some n) :
    ∀ n', db.row (.notification id) = some n' → Ages n n' := by
  have hids : RowId.notification id ∈ s.ids := s.mem_ids _ (by rw [hn]; rfl)
  have hl := (h (.notification id) ⟨id, rfl⟩ hids).2
  rw [hn] at hl
  exact hl

/-- Once it is gone, it is gone for good. -/
theorem gone_of_follows (h : lifecycle.Follows s db) (hids : .notification id ∈ s.ids)
    (hn : s.row (.notification id) = none) : db.row (.notification id) = none := by
  have hl := (h (.notification id) ⟨id, rfl⟩ hids).2
  rw [hn] at hl
  exact hl

/-- The notification has been deleted. -/
def Deleted (id : Uuid) (db : Db) : Prop :=
  .notification id ∈ db.ids ∧ db.row (.notification id) = none

theorem Deleted.follows (h : Deleted id db) (hf : lifecycle.Follows db db') : Deleted id db' :=
  ⟨(hf _ ⟨id, rfl⟩ h.1).1, gone_of_follows hf h.1 h.2⟩

theorem ownNotification_eq_some :
    ownNotification s id pUserId = some n ↔
      s.row (.notification id) = some n ∧ n.userId = pUserId := by
  unfold ownNotification
  rw [Option.filter_eq_some_iff, decide_eq_true_iff]

/-- The session holds a notification of the user, which it has not written. -/
def Owns (s : Db) (id pUserId : Uuid) (n : Notification) (σ : NotificationSession) (db : Db) :
    Prop :=
  Held (.notification id) (some n) (some n) σ db ∧ n.userId = pUserId ∧ σ.writes = [] ∧ Seen s σ db

/-- The notification has been marked, and nothing else is written. -/
def Marked (s : Db) (now : Timestamp) (id pUserId : Uuid) (n : Notification)
    (σ : NotificationSession) (db : Db) : Prop :=
  Held (.notification id) (some n) (some (n.read now)) σ db ∧ n.userId = pUserId ∧
    (∀ w ∈ σ.writes, w.1 = .notification id) ∧ Seen s σ db

theorem owns_stable (s : Db) (id pUserId : Uuid) (n : Notification) :
    notificationProtocol.Stable (Owns s id pUserId n) where
  rely h hr hi := ⟨h.1.rely (lifecycle.protocol_keepsLocked hr), h.2.1, h.2.2.1,
    (seen_stable s).rely h.2.2.2 hr hi⟩
  saw s' h := ⟨⟨h.1.mem, h.1.committed, h.1.pending⟩, h.2.1, h.2.2.1,
    (seen_stable s).saw s' h.2.2.2⟩

theorem marked_stable (s : Db) (now : Timestamp) (id pUserId : Uuid) (n : Notification) :
    notificationProtocol.Stable (Marked s now id pUserId n) where
  rely h hr hi := ⟨h.1.rely (lifecycle.protocol_keepsLocked hr), h.2.1, h.2.2.1,
    (seen_stable s).rely h.2.2.2 hr hi⟩
  saw s' h := ⟨⟨h.1.mem, h.1.committed, h.1.pending⟩, h.2.1, h.2.2.1,
    (seen_stable s).saw s' h.2.2.2⟩

theorem Marked.lived {s : Db} (h : Marked s now id pUserId n σ db) : lifecycle.Lived σ db := by
  refine Lifecycle.lived_of_held fun w hw => ?_
  rw [h.2.2.1 w hw]
  refine ⟨n, some (n.read now), ?_, h.1⟩
  rintro n' ⟨⟩
  exact ages_read now n

/-- No notification of the user was found, and nothing is written. -/
def NotFound (s : Db) (id pUserId : Uuid) (σ : NotificationSession) (db : Db) : Prop :=
  σ.writes = [] ∧ Seen s σ db ∧ (ownNotification s id pUserId = none ∨ Deleted id db)

theorem notFound_stable (s : Db) (id pUserId : Uuid) :
    notificationProtocol.Stable (NotFound s id pUserId) where
  rely h hr hi := ⟨h.1, (seen_stable s).rely h.2.1 hr hi,
    h.2.2.imp_right fun hd => hd.follows hr.2⟩
  saw s' h := ⟨h.1, (seen_stable s).saw s' h.2.1, h.2.2⟩

theorem wp_update_setRead {s : Db} (h : Owns s id pUserId n σ db) :
    wp schema notificationProtocol () (Proc.update (setRead now id pUserId) : NotificationProc ℕ)
      (fun _ => Marked s now id pUserId n) σ db := by
  have hself : ∀ {n : Notification}, n.userId = pUserId →
      setRead now id pUserId (.notification id) n = some (some (n.read now)) :=
    fun hu => if_pos ⟨rfl, hu⟩
  refine wp_update_present (i := .notification id) ?_ (owns_stable s id pUserId n)
    (fun _ => ⟨trivial, trivial⟩) h ?_ ?_
  · rintro (id' | ⟨u, k⟩) r hne
    · refine if_neg fun hc => hne ?_
      rw [hc.1]
    · rfl
  · rintro σ db - h
    exact ⟨n, _, h.1.pending, hself h.2.1⟩
  · rintro σ db - h -
    refine ⟨fun _ _ => trivial, fun m σ' hst db' hr hi => ?_⟩
    obtain ⟨-, -, rfl⟩ := Session.rowStep_ok_of_write h.1.pending (hself h.2.1) hst
    refine (marked_stable s now id pUserId n).rely ⟨held_write h.1.committed _, h.2.1, ?_, ?_⟩ hr hi
    · intro w hw
      rw [Session.write_writes, h.2.2.1] at hw
      rw [List.mem_singleton.mp hw]
    · exact h.2.2.2

theorem wp_spMarkNotificationRead (db : Db) :
    wp schema notificationProtocol () (spMarkNotificationRead now id pUserId)
      (fun o σ db => ∃ s, (o = none ∧ NotFound s id pUserId σ db) ∨
        ∃ n, o = some (n.readAt.getD now) ∧ Marked s now id pUserId n σ db) .start db := by
  refine wp_bind (wp_select fun s _ _ => ⟨trivial, fun _ db₁ hr₁ _ => ?_⟩) trivial
  rw [Session.start_view]
  have hseen₁ : Seen s (Session.start.saw s) db₁ := ⟨⟨[], rfl⟩, hr₁.2⟩
  cases hfound : ownNotification s id pUserId with
  | none => exact wp_ret fun db₂ hr₂ hi₂ => ⟨s, Or.inl ⟨rfl, (notFound_stable s id pUserId).rely
      ⟨rfl, hseen₁, Or.inl hfound⟩ hr₂ hi₂⟩⟩
  | some n =>
    obtain ⟨hn, hu⟩ := ownNotification_eq_some.mp hfound
    have hids : RowId.notification id ∈ s.ids := s.mem_ids _ (by rw [hn]; rfl)
    refine wp_bind (wp_selectForUpdate fun db₂ hr₂ hi₂ => ⟨trivial, fun _ db₃ hr₃ hi₃ => ?_⟩)
      trivial
    have hseen₂ := (seen_stable s).rely hseen₁ hr₂ hi₂
    have hview : (Session.start.saw s : NotificationSession).view db₂ = db₂ := rfl
    rw [hview]
    unfold Session.lockStep at hr₃ ⊢
    rw [hview] at hr₃ ⊢
    cases hlocked : db₂.row (.notification id) with
    | none =>
      rw [hlocked] at hr₃
      have hgone : Deleted id db₂ := ⟨(hseen₂.2 _ ⟨id, rfl⟩ hids).1, hlocked⟩
      have hnot : NotFound s id pUserId (Session.start.saw s) db₂ :=
        ⟨rfl, hseen₂, Or.inr hgone⟩
      have hnot₃ := (notFound_stable s id pUserId).rely hnot hr₃ hi₃
      exact wp_ret fun db₄ hr₄ hi₄ =>
        ⟨s, Or.inl ⟨rfl, (notFound_stable s id pUserId).rely hnot₃ hr₄ hi₄⟩⟩
    | some n₂ =>
      rw [hlocked] at hr₃
      -- the owner of a notification does not change
      have hu₂ : n₂.userId = pUserId := (row_of_follows hseen₂.2 hn n₂ hlocked).userId.trans hu
      have howns : Owns s id pUserId n₂ ((Session.start.saw s).lockRow (.notification id)) db₂ :=
        ⟨⟨List.mem_cons_self, hlocked, hlocked⟩, hu₂, rfl, hseen₂⟩
      have howns₃ := (owns_stable s id pUserId n₂).rely howns hr₃ hi₃
      have hmatch : ((some n₂).filter fun n => n.userId = pUserId).isNone = false := by
        simp [hu₂]
      show wp _ _ _ (if ((some n₂).filter fun n => n.userId = pUserId).isNone then _ else _) _ _ _
      rw [hmatch]
      refine wp_bind (wp_mono (wp_update_setRead howns₃) fun _ σ db _ hmarked => ?_) trivial
      refine wp_mono (wp_select_stable (marked_stable s now id pUserId n₂) (fun _ => trivial)
        hmarked) ?_
      rintro o σ' db' - ⟨hmarked', σ₀, db₀, hmarked₀, -, rfl⟩
      refine ⟨s, Or.inr ⟨n₂, ?_, hmarked'⟩⟩
      have hown : ownNotification (σ₀.view db₀) id pUserId = some (n₂.read now) :=
        ownNotification_eq_some.mpr ⟨hmarked₀.1.pending, hu₂⟩
      rw [hown]
      rfl

/-! ### All notifications of a user -/

/-- The session sees no unread notification of the user under an identifier that was in use. -/
def NotUnread (id pUserId : Uuid) (σ : NotificationSession) (db : Db) : Prop :=
  .notification id ∈ db.ids ∧
    ∀ n, (σ.view db).row (.notification id) = some n → ¬n.isUnreadOf pUserId

theorem Ages.not_isUnreadOf (h : Ages n n') (hn : ¬n.isUnreadOf pUserId) :
    ¬n'.isUnreadOf pUserId := by
  rintro ⟨hu, hr⟩
  refine hn ⟨h.userId.symm.trans hu, ?_⟩
  cases hat : n.readAt with
  | none => rfl
  | some t =>
    rw [h.readAt t hat] at hr
    cases hr

theorem NotUnread.rely (h : NotUnread id pUserId σ db) (hr : notificationProtocol.rely σ db db') :
    NotUnread id pUserId σ db' := by
  obtain ⟨hids, hn⟩ := h
  refine ⟨(hr.2 _ ⟨id, rfl⟩ hids).1, fun n' hn' => ?_⟩
  by_cases hrow : RowId.notification id ∈ σ.rows
  · rw [σ.view_row_congr (hr.1 _ hrow).1] at hn'
    exact hn n' hn'
  · rw [σ.view_row_of_notMem db' hrow] at hn'
    rw [σ.view_row_of_notMem db hrow] at hn
    cases hdb : db.row (.notification id) with
    | none =>
      rw [gone_of_follows hr.2 hids hdb] at hn'
      cases hn'
    | some n => exact (row_of_follows hr.2 hdb n' hn').not_isUnreadOf (hn n hdb)

/-- What was in use and is not matched by the snapshot of the `UPDATE` is not unread. -/
def Scanned (now : Timestamp) (pUserId : Uuid) (s : Db) (σ : NotificationSession) (db : Db) :
    Prop :=
  lifecycle.Follows s db ∧ ∀ id, .notification id ∈ s.ids →
    .notification id ∉ s.matching (setAllRead now pUserId) → NotUnread id pUserId σ db

/-- The key of a notification. -/
def RowId.notificationId : RowId → Uuid
  | .notification id => id
  | .dedupe userId _ => userId

theorem setAllRead_notification (now : Timestamp) (pUserId id : Uuid) (n : Notification) :
    setAllRead now pUserId (.notification id) n =
      if n.isUnreadOf pUserId then some (some { n with readAt := some now }) else none := rfl

/-- A row that the `UPDATE` writes is a notification, which is read then. -/
theorem eq_of_setAllRead {i : RowId} {r : Row i} {w : Option (Row i)}
    (h : setAllRead now pUserId i r = some w) :
    ∃ (id : Uuid) (n : Notification), i = .notification id ∧ HEq r n ∧ n.isUnreadOf pUserId ∧
      HEq w (some { n with readAt := some now }) := by
  cases i with
  | notification id =>
    rw [setAllRead_notification] at h
    split_ifs at h with hu
    exact ⟨id, r, rfl, HEq.rfl, hu, heq_of_eq (Option.some.inj h).symm⟩
  | dedupe u k => cases h

theorem not_isUnreadOf_read :
    ¬({ n with readAt := some now } : Notification).isUnreadOf pUserId := by
  rintro ⟨-, hr⟩
  cases hr

/-- Writing a row that the `UPDATE` matches leaves what is not unread as it is. -/
theorem NotUnread.write {i : RowId} {r : Row i} {w : Option (Row i)}
    (hw : setAllRead now pUserId i r = some w) (h : NotUnread id pUserId σ db) :
    NotUnread id pUserId (σ.write i w) db := by
  obtain ⟨id', n, rfl, -, -, hw⟩ := eq_of_setAllRead hw
  obtain rfl := eq_of_heq hw
  refine ⟨h.1, fun n' hn' => ?_⟩
  rw [Session.write_view] at hn'
  by_cases hid : id = id'
  · subst hid
    rw [Store.set_row_self] at hn'
    obtain rfl := Option.some.inj hn'
    exact not_isUnreadOf_read
  · rw [Store.set_row_of_ne _ _ fun he => hid (RowId.notification.inj he)] at hn'
    exact h.2 n' hn'

theorem wp_spMarkAllNotificationsRead (db : Db) :
    wp schema notificationProtocol () (spMarkAllNotificationsRead now pUserId)
      (fun count σ db => ∃ s l, σ.reads = [s] ∧ count = l.length ∧
        Written (setAllRead now pUserId) l σ db ∧ (∀ i ∈ l, i ∈ s.ids) ∧
        lifecycle.Follows s db ∧ ∀ id, .notification id ∈ s.ids → NotUnread id pUserId σ db)
      .start db := by
  refine wp_mono (wp_update_written (A := fun σ _ => σ.rows = [])
    (B := Scanned now pUserId)
    (D := fun i σ db => ∀ id, i = .notification id → NotUnread id pUserId σ db)
    lifecycle.protocol_keepsLocked ⟨fun h _ _ => h, fun _ h => h⟩ ?_ ?_ (fun _ _ _ => trivial)
    (fun _ => trivial) ?_ ?_ ?_ ?_ ?_ rfl rfl) ?_
  · exact fun h hr _ => ⟨h.1.trans hr.2, fun id hid hm => (h.2 id hid hm).rely hr⟩
  · exact fun h hr _ id hid => (h id hid).rely hr
  · -- the snapshot is what is committed
    intro σ db hrows
    have hwrites : σ.writes = [] := by
      refine List.eq_nil_iff_forall_not_mem.mpr fun w hw => ?_
      have hmem := σ.writes_rows w hw
      rw [hrows] at hmem
      exact List.not_mem_nil hmem
    have hview : σ.view db = db := by
      unfold Session.view
      rw [hwrites]
      rfl
    rw [hview]
    refine ⟨Lifecycle.Follows.refl db, fun id hid hm => ⟨hid, fun n hn hu => hm ?_⟩⟩
    rw [Session.saw_view, hview] at hn
    refine Store.mem_matching.mpr ⟨n, some { n with readAt := some now }, hn, ?_⟩
    rw [setAllRead_notification, if_pos hu]
  · exact fun h => ⟨h, fun _ hd => hd⟩
  · rintro s i σ db r w ⟨hf, hs⟩ hm hr hw
    refine ⟨⟨hf, fun id hid hm => (hs id hid hm).write hw⟩, ?_,
      fun j hd id hj => (hd id hj).write hw⟩
    rintro id rfl
    refine ⟨(hf _ ⟨id, rfl⟩ (Store.mem_ids_of_matching hm)).1, fun n hn => ?_⟩
    rw [Session.write_view, Store.set_row_self] at hn
    rw [setAllRead_notification] at hw
    split_ifs at hw
    obtain rfl := Option.some.inj hw
    obtain rfl := Option.some.inj hn
    exact not_isUnreadOf_read
  · rintro s i σ db r ⟨hf, hs⟩ hm hr hw id rfl
    refine ⟨(hf _ ⟨id, rfl⟩ (Store.mem_ids_of_matching hm)).1, fun n hn hu => ?_⟩
    have hnr : n = r := Option.some.inj (hn.symm.trans hr)
    rw [setAllRead_notification, if_pos (hnr ▸ hu)] at hw
    cases hw
  · rintro s i σ db ⟨hf, hs⟩ hm hnone id rfl
    refine ⟨(hf _ ⟨id, rfl⟩ (Store.mem_ids_of_matching hm)).1, fun n hn => ?_⟩
    rw [hnone] at hn
    cases hn
  · rintro count σ db - ⟨s, l, hs, hcount, hw, hl, hd, hf, hscan⟩
    refine ⟨s, l, hs, hcount, hw, fun i hi => Store.mem_ids_of_matching (hl i hi), hf,
      fun id hid => ?_⟩
    by_cases hm : RowId.notification id ∈ s.matching (setAllRead now pUserId)
    · exact hd _ hm id rfl
    · exact hscan id hid hm

/-! ### Every transaction keeps the lifecycle -/

theorem lives_insertIfAbsent (p : Payload) :
    lifecycle.Lives schema (insertIfAbsent now p) := by
  intro σ db h
  refine wp_bind (wp_generate fun db₁ hr₁ hi₁ id hid hσ db₂ hr₂ hi₂ => ?_) trivial
  -- the identifier is reserved until the row is inserted
  have hst : notificationProtocol.Stable fun σ db =>
      lifecycle.Lived σ db ∧ Lifecycle.Reserved (.notification id) σ db :=
    Lifecycle.lived_stable.and (Lifecycle.reserved_stable _)
  have h₁ : lifecycle.Lived σ db₁ := Lifecycle.lived_stable.rely h hr₁ hi₁
  have h₂ := hst.rely (σ := σ.lockRow (.notification id)) ⟨h₁, List.mem_cons_self, hid⟩ hr₂ hi₂
  refine wp_bind (wp_mono (Q := fun _ σ db => lifecycle.Lived σ db ∧
    Lifecycle.Reserved (.notification id) σ db)
    (wp_insert fun db₃ hr₃ hi₃ => ⟨trivial, fun _ => ?_⟩) ?_) trivial
  · have h₃ := hst.rely h₂ hr₃ hi₃
    refine ⟨fun _ => wp_ret fun db₄ hr₄ hi₄ => hst.rely h₃ hr₄ hi₄,
      fun _ => ⟨fun _ _ => trivial, wp_ret fun db₄ hr₄ hi₄ => hst.rely ⟨?_, ?_⟩ hr₄ hi₄⟩⟩
    · refine h₃.1.write ?_
      rintro ⟨id', he⟩
      cases he
    · exact ⟨List.mem_cons_of_mem _ h₃.2.1, h₃.2.2⟩
  · rintro inserted σ' db₃ - h₃
    split_ifs
    · refine wp_insert fun db₄ hr₄ hi₄ => ⟨trivial, fun _ => ?_⟩
      obtain ⟨h₄, hres⟩ := hst.rely h₃ hr₄ hi₄
      refine ⟨fun _ => wp_ret fun db₅ hr₅ hi₅ => Lifecycle.lived_stable.rely h₄ hr₅ hi₅,
        fun _ => ⟨fun _ _ => trivial, wp_ret fun db₅ hr₅ hi₅ => ?_⟩⟩
      exact Lifecycle.lived_stable.rely (h₄.write fun _ hm => absurd hm hres.2) hr₅ hi₅
    · exact wp_ret fun db₄ hr₄ hi₄ => Lifecycle.lived_stable.rely h₃.1 hr₄ hi₄

theorem lives_bulkCreateIfAbsent (payloads : List Payload) :
    lifecycle.Lives schema (bulkCreateIfAbsent now payloads) := by
  induction payloads with
  | nil => exact Lifecycle.Lives.ret
  | cons p payloads ih =>
    exact (lives_insertIfAbsent p).bind fun _ => ih.bind fun _ => Lifecycle.Lives.ret

theorem lives_spPurgeNotifications (retentionDays : ℤ) :
    lifecycle.Lives schema (spPurgeNotifications now retentionDays) :=
  Lifecycle.Lives.raiseIf.bind fun _ =>
    (Lifecycle.Lives.update ages_deleteCreatedBefore).bind fun _ => Lifecycle.Lives.ret

/-- What the session of a call has read and written when it ends. -/
def NotificationCall.Ends (now : Timestamp) (call : NotificationCall) (a : Answer)
    (σ : NotificationSession) (db : Db) : Prop :=
  match call, a with
  | .markNotificationRead id userId, .notFound => ∃ s, NotFound s id userId σ db
  | .markNotificationRead id userId, .read readAt unreadCount =>
    ∃ n s s' l, Marked s now id userId n σ db ∧ readAt = n.readAt.getD now ∧
      σ.reads = s' :: l ∧ s'.row (.notification id) = some (n.read now) ∧
      unreadCount = fnCountUnreadNotifications userId s'
  | .markAllNotificationsRead userId, .readAll updatedCount unreadCount =>
    ∃ s s' l, σ.reads = [s', s] ∧ updatedCount = l.length ∧
      Written (setAllRead now userId) l σ db ∧ (∀ i ∈ l, i ∈ s.ids) ∧
      (∀ id, .notification id ∈ s.ids → NotUnread id userId σ db) ∧
      (∀ id, .notification id ∈ s.ids → ∀ n, s'.row (.notification id) = some n →
        ¬n.isUnreadOf userId) ∧
      unreadCount = fnCountUnreadNotifications userId s'
  | .create _, .created _ => lifecycle.Lived σ db
  | .purge _, .purged => lifecycle.Lived σ db
  | _, _ => False

theorem lived_of_written {l : List RowId} (h : Written (setAllRead now pUserId) l σ db) :
    lifecycle.Lived σ db := by
  refine Lifecycle.lived_of_held fun v hv => ?_
  obtain ⟨r, w, hw, hheld⟩ := h.held v.1 (h.writes v hv)
  refine ⟨r, w, ?_, hheld⟩
  obtain ⟨id, -, hid, -⟩ := eq_of_setAllRead hw
  exact ages_setAllRead v.1 r w ⟨id, hid⟩ hw

/-- The notifications that the `UPDATE` has written, each once. -/
theorem exists_marked {l : List RowId} (h : Written (setAllRead now pUserId) l σ db) :
    ∃ marked : List Uuid, marked.Nodup ∧ l.length = marked.length ∧
      (∀ id ∈ marked, ∃ n, db.row (.notification id) = some n ∧ n.isUnreadOf pUserId ∧
        (σ.view db).row (.notification id) = some { n with readAt := some now }) ∧
      ∀ id, id ∉ marked → (σ.view db).row (.notification id) = db.row (.notification id) := by
  have hids : ∀ i ∈ l, i = .notification i.notificationId := by
    intro i hi
    obtain ⟨r, w, hu, -⟩ := h.held i hi
    obtain ⟨id, -, rfl, -⟩ := eq_of_setAllRead hu
    rfl
  have hmem : ∀ {id}, id ∈ l.map RowId.notificationId → .notification id ∈ l := by
    intro id hid
    obtain ⟨i, hi, rfl⟩ := List.mem_map.mp hid
    rw [← hids i hi]
    exact hi
  refine ⟨l.map RowId.notificationId, h.nodup.map_on fun i hi j hj hij => ?_,
    (List.length_map _).symm, fun id hid => ?_, fun id hid => ?_⟩
  · rw [hids i hi, hids j hj, hij]
  · obtain ⟨n, w, hu, hheld⟩ := h.held _ (hmem hid)
    rw [setAllRead_notification] at hu
    split_ifs at hu with hunread
    obtain rfl := Option.some.inj hu
    exact ⟨n, hheld.committed, hunread, hheld.pending⟩
  · exact h.other _ fun hi => hid (List.mem_map.mpr ⟨_, hi, rfl⟩)

theorem NotificationCall.Ends.lived {call : NotificationCall} {a : Answer}
    (h : call.Ends now a σ db) : lifecycle.Lived σ db := by
  unfold NotificationCall.Ends at h
  split at h
  · obtain ⟨s, hw, -⟩ := h
    exact Lifecycle.lived_of_writes_eq_nil hw
  · obtain ⟨n, s, s', l, hm, -⟩ := h
    exact hm.lived
  · obtain ⟨s, s', l, -, -, hw, -⟩ := h
    exact lived_of_written hw
  · exact h
  · exact h
  · exact h.elim

theorem wp_proc (now : Timestamp) (call : NotificationCall) (db : Db) :
    wp schema notificationProtocol () (call.proc now) (call.Ends now) .start db := by
  cases call with
  | create payloads =>
    refine wp_bind (wp_mono (lives_bulkCreateIfAbsent payloads .start db
      (Lifecycle.lived_start db)) fun count σ db _ h => ?_) trivial
    exact wp_ret fun db' hr hi => Lifecycle.lived_stable.rely h hr hi
  | purge retentionDays =>
    refine wp_bind (wp_mono (lives_spPurgeNotifications retentionDays .start db
      (Lifecycle.lived_start db)) fun _ σ db _ h => ?_) trivial
    exact wp_ret fun db' hr hi => Lifecycle.lived_stable.rely h hr hi
  | markNotificationRead id userId =>
    refine wp_bind (wp_mono (wp_spMarkNotificationRead db) ?_) trivial
    rintro o σ db₁ - ⟨s, ⟨rfl, h⟩ | ⟨n, rfl, h⟩⟩
    · exact wp_ret fun db₂ hr₂ hi₂ => ⟨s, (notFound_stable s id userId).rely h hr₂ hi₂⟩
    · refine wp_bind (wp_select fun db₂ hr₂ hi₂ => ⟨trivial, fun _ db₃ hr₃ hi₃ => ?_⟩) trivial
      have hst := marked_stable s now id userId n
      have h₂ := hst.rely h hr₂ hi₂
      have h₃ := hst.rely (hst.saw (σ.view db₂) h₂) hr₃ hi₃
      exact wp_ret fun db₄ hr₄ hi₄ => ⟨n, s, σ.view db₂, σ.reads, hst.rely h₃ hr₄ hi₄, rfl, rfl,
        h₂.1.pending, rfl⟩
  | markAllNotificationsRead userId =>
    refine wp_bind (wp_mono (wp_spMarkAllNotificationsRead db) ?_) trivial
    rintro count σ db₁ - ⟨s, l, hs, hcount, hw, hl, -, hread⟩
    refine wp_bind (wp_select fun db₂ hr₂ hi₂ => ⟨trivial, fun _ db₃ hr₃ hi₃ => ?_⟩) trivial
    have hP : notificationProtocol.KeepsLocked := Lifecycle.protocol_keepsLocked
    refine wp_ret fun db₄ hr₄ hi₄ => ⟨s, σ.view db₂, l, congrArg _ hs, hcount,
      (((hw.rely (hP hr₂)).saw _).rely (hP hr₃)).rely (hP hr₄), hl, fun id hid => ?_,
      fun id hid => ?_, rfl⟩
    · exact (((hread id hid).rely hr₂).rely (σ := σ.saw _) hr₃).rely hr₄
    · exact ((hread id hid).rely hr₂).2

/-! ### Runs -/

section Run

variable {τ : Type} [DecidableEq τ] [Fintype τ] {calls : τ → NotificationCall}
  {nows : τ → Timestamp} {db₀ : Db} {c c' : Config τ Row Empty Uuid Error Answer} {t : τ}
  {ch : Choice RowId Uuid}

/-- Every transaction at its beginning; `nows` are their `now()`. -/
def start (db : Db) (nows : τ → Timestamp) (calls : τ → NotificationCall) :
    Config τ Row Empty Uuid Error Answer := .init db fun t => (calls t).proc (nows t)

theorem sound_of_reachable (hc : Reachable schema (start db₀ nows calls) c) :
    Sound schema notificationProtocol (fun _ => ()) (fun t => (calls t).Ends (nows t)) c :=
  Lifecycle.sound_of_reachable (fun t db => wp_proc (nows t) (calls t) db)
    (fun _ _ _ _ h => h.lived) hc

theorem follows_of_run (hc : Reachable schema (start db₀ nows calls) c)
    (hc' : Reachable schema c c') : lifecycle.Follows c.db c'.db :=
  Lifecycle.follows_of_run (fun t db => wp_proc (nows t) (calls t) db)
    (fun _ _ _ _ h => h.lived) hc hc'

/-- A step changes a notification as the call of its transaction says, when it commits. -/
theorem changes_of_step (hc : Reachable schema (start db₀ nows calls) c)
    (hst : c.step schema t ch = some c') (id : Uuid) :
    c'.db.row (.notification id) = c.db.row (.notification id) ∨
      c'.Committed t ∧ (calls t).Changes (nows t) id (c.db.row (.notification id))
        (c'.db.row (.notification id)) := by
  -- any protocol will do, as the statements conform to the effect whatever they read
  have hwp : ∀ t, wp schema (rowProtocol (fun _ => True) fun _ _ _ _ => True) ()
      ((calls t).proc (nows t))
      (fun _ σ db => ((calls t).effect (nows t)).Holds σ db ∧ True) .start db₀ := fun t =>
    wp_of_conforms (conforms_proc (nows t) (calls t)) persistent_true
      (Effect.holds_of_view_eq _ rfl) trivial
  have hsound : Sound schema (rowProtocol (fun _ => True) fun _ _ _ _ => True) (fun _ => ())
      (fun t _ σ db => ((calls t).effect (nows t)).Holds σ db ∧ True) c :=
    (sound_init trivial hwp).run (fun _ _ _ _ _ _ _ => rowProtocol_commits fun _ => trivial)
      (hc.mono fun _ _ _ _ _ _ _ _ _ => trivial)
  rcases hsound.step_cases hst with ⟨a, σ, ha, hdb, hholds, -⟩ | ⟨hdb, -⟩
  · rw [hdb]
    exact (hholds (.notification id)).imp_right fun h => ⟨⟨a, ha⟩, h⟩
  · rw [hdb]
    exact Or.inl rfl

/-! ### Three calls, as an example -/

def unreadNotification (key : TaskDb.DedupeKey) : Notification where
  userId := 7
  taskId := 3
  type := .dueTodayCreated
  title := "t"
  body := none
  dueAt := 50
  dedupeKey := .api key
  readAt := none
  createdAt := 10

def twoNotifications : Db :=
  (Store.empty : Db).overlay [⟨.notification 1, some (unreadNotification (.created 3))⟩,
    ⟨.notification 2, some (unreadNotification (.updated 3 50))⟩]

/-- The transactions of the run. -/
inductive Marking
  | one
  | all
  | other
  | sweep
deriving DecidableEq

instance : Fintype Marking where
  elems := {.one, .all, .other, .sweep}
  complete t := by cases t <;> decide

/-- User 7 marks notification 1 and then all notifications; user 8 asks for a notification of
user 7; more than a day later all are purged. -/
def markCalls : Marking → NotificationCall
  | .one => .markNotificationRead 1 7
  | .all => .markAllNotificationsRead 7
  | .other => .markNotificationRead 2 8
  | .sweep => .purge 1

def markTimes : Marking → Timestamp
  | .one => 100
  | .all => 200
  | .other => 300
  | .sweep => 86400000100

abbrev MarkConfig : Type := Config Marking Row Empty Uuid Error Answer

/-- The first call is about to commit; the second one has a snapshot in which both are unread. -/
def markRun : MarkConfig :=
  (start twoNotifications markTimes markCalls).execTo schema (fun _ _ _ => True)
    [(.one, .go), (.one, .go), (.one, .go), (.all, .go), (.one, .pick (.notification 1)),
      (.one, .go), (.one, .go), (.one, .go), (.all, .pick (.notification 2))] (by decide)

def markRunOne : MarkConfig :=
  markRun.execTo schema (fun _ _ _ => True) [(.one, .go)] (by decide)

/-- The second call finds notification 1 marked, and is about to commit. -/
def markRunBefore : MarkConfig :=
  markRunOne.execTo schema (fun _ _ _ => True)
    [(.all, .pick (.notification 1)), (.all, .go), (.all, .go)] (by decide)

def markRunAll : MarkConfig :=
  markRunBefore.execTo schema (fun _ _ _ => True) [(.all, .go)] (by decide)

def markRunOther : MarkConfig :=
  markRunAll.execTo schema (fun _ _ _ => True) [(.other, .go)] (by decide)

theorem reachable_markRunBefore :
    Reachable schema (start twoNotifications markTimes markCalls) markRunBefore :=
  Run.trans (Run.trans (run_execTo _) (run_execTo _)) (run_execTo _)

def markRunEnd : MarkConfig :=
  markRunOther.execTo schema (fun _ _ _ => True) [(.other, .go)] (by decide)

theorem reachable_markRunOther :
    Reachable schema (start twoNotifications markTimes markCalls) markRunOther :=
  Run.trans reachable_markRunBefore (Run.trans (run_execTo _) (run_execTo _))

def markRunPurged : MarkConfig :=
  markRunEnd.execTo schema (fun _ _ _ => True)
    [(.sweep, .go), (.sweep, .pick (.notification 1)), (.sweep, .pick (.notification 2)),
      (.sweep, .go), (.sweep, .go)] (by decide)

theorem reachable_markRunPurged : Reachable schema markRunOther markRunPurged :=
  Run.trans (run_execTo _) (run_execTo _)

/-! ### Marked once -/

/-- What was committed and is not there any more has been deleted. -/
theorem deleted_of_run (hc : Reachable schema (start db₀ nows calls) c)
    (hc' : Reachable schema c c') {id : Uuid} {n : Notification}
    (hn : c.db.row (.notification id) = some n) (hnone : c'.db.row (.notification id) = none) :
    Deleted id c'.db :=
  ⟨(follows_of_run hc hc' _ ⟨id, rfl⟩ (c.db.mem_ids _ (by rw [hn]; rfl))).1, hnone⟩

theorem Deleted.of_run {id : Uuid} (h : Deleted id c.db)
    (hc : Reachable schema (start db₀ nows calls) c) (hc' : Reachable schema c c') :
    Deleted id c'.db :=
  h.follows (follows_of_run hc hc')

/-- What a run has done to a notification: nothing, or a call of its owner has marked it, or a purge
has deleted it. -/
theorem changed_of_run (hc : Reachable schema (start db₀ nows calls) c) (hc' : Reachable schema c c')
    {id : Uuid} {n : Notification} (hn : c.db.row (.notification id) = some n) :
    (c'.db.row (.notification id) = none ∧ ∃ t retentionDays, c'.Committed t ∧
      calls t = .purge retentionDays ∧ 0 < retentionDays ∧
      n.createdAt < nows t - retentionDays * 86400000000) ∨
    c'.db.row (.notification id) = some n ∨
    (n.readAt = none ∧ ∃ t, c'.Committed t ∧
      c'.db.row (.notification id) = some { n with readAt := some (nows t) } ∧
      (calls t = .markNotificationRead id n.userId ∨
        calls t = .markAllNotificationsRead n.userId)) := by
  induction hc' with
  | refl => exact Or.inr (Or.inl hn)
  | step hc' _ hst ih =>
    rename_i c₁ c₂ u ch _
    have hreach : Reachable schema (start db₀ nows calls) c₁ := hc.trans hc'
    have hkeep : ∀ {t}, c₁.Committed t → c₂.Committed t := fun ⟨a, ha⟩ =>
      ⟨a, Config.done_of_step hst ha⟩
    have hchange := changes_of_step hreach hst id
    rcases ih with ⟨hnone, t, days, ht, hrest⟩ | hsame | ⟨hunread, t, ht, hread, hcall⟩
    · have hdel : Deleted id c₂.db :=
        (deleted_of_run hc hc' hn hnone).of_run hreach (.step .refl trivial hst)
      exact Or.inl ⟨hdel.2, t, days, hkeep ht, hrest⟩
    · rcases hchange with hrow | ⟨hu, hrow⟩
      · exact Or.inr (Or.inl (hrow.trans hsame))
      · rw [hsame] at hrow
        generalize hcu : calls u = call at hrow
        generalize hr : c₂.db.row (.notification id) = o at hrow
        cases hrow with
        | read huser hunread =>
          exact Or.inr (Or.inr ⟨hunread, u, hu, rfl, Or.inl (huser ▸ hcu)⟩)
        | readAll huser hunread =>
          exact Or.inr (Or.inr ⟨hunread, u, hu, rfl, Or.inr (huser ▸ hcu)⟩)
        | purged hdays hold => exact Or.inl ⟨rfl, u, _, hu, hcu, hdays, hold⟩
    · rcases hchange with hrow | ⟨hu, hrow⟩
      · exact Or.inr (Or.inr ⟨hunread, t, hkeep ht, hrow.trans hread, hcall⟩)
      · rw [hread] at hrow
        generalize hcu : calls u = call at hrow
        generalize hr : c₂.db.row (.notification id) = o at hrow
        cases hrow with
        | read huser hagain => cases hagain
        | readAll huser hagain => cases hagain
        | purged hdays hold => exact Or.inl ⟨rfl, u, _, hu, hcu, hdays, hold⟩

/-- A notification is marked by its owner, once, and deleted when it has expired; a deleted one does
not come back. -/
theorem read_once (hc : Reachable schema (start db₀ nows calls) c) (hc' : Reachable schema c c')
    {id : Uuid} {n : Notification} (hn : c.db.row (.notification id) = some n) :
    ((c'.db.row (.notification id) = none ∧ ∃ t retentionDays, c'.Committed t ∧
        calls t = .purge retentionDays ∧ 0 < retentionDays ∧
        n.createdAt < nows t - retentionDays * 86400000000) ∨
      c'.db.row (.notification id) = some n ∨
      (n.readAt = none ∧ ∃ t, c'.Committed t ∧
        c'.db.row (.notification id) = some { n with readAt := some (nows t) } ∧
        (calls t = .markNotificationRead id n.userId ∨
          calls t = .markAllNotificationsRead n.userId))) ∧
    (c'.db.row (.notification id) = none →
      ∀ c'', Reachable schema c' c'' → c''.db.row (.notification id) = none) :=
  ⟨changed_of_run hc hc' hn, fun hnone _ hc'' =>
    ((deleted_of_run hc hc' hn hnone).of_run (hc.trans hc') hc'').2⟩

theorem read_once_markRun :
    (∃ t, markRunOther.Committed t ∧
      (markCalls t = .markNotificationRead 1 7 ∨ markCalls t = .markAllNotificationsRead 7)) ∧
    ∀ c'', Reachable schema markRunPurged c'' → c''.db.row (.notification 1) = none := by
  have hn : twoNotifications.row (.notification 1) = some (unreadNotification (.created 3)) := rfl
  constructor
  · rcases (read_once .refl reachable_markRunOther hn).1 with
      ⟨hnone, -⟩ | hsame | ⟨-, t, ht, -, hcall⟩
    · cases hnone
    · exact absurd (congrArg (Option.map Notification.readAt) hsame) (by decide)
    · exact ⟨t, ht, hcall⟩
  · exact (read_once .refl (reachable_markRunOther.trans reachable_markRunPurged) hn).2 rfl

/-- `mark_notification_read` succeeds for a notification of the user only: it answers the moment at
which the notification was first marked, its own if it is the first, writes nothing else, and counts
the other unread notifications that are committed when it counts. -/
theorem mark_notification_read_answer (hc : Reachable schema (start db₀ nows calls) c)
    (hst : c.step schema t ch = some c') {id userId : Uuid}
    (hcall : calls t = .markNotificationRead id userId) {readAt : Timestamp} {unreadCount : ℕ}
    (ht : c'.tx t = .done (.ok (.read readAt unreadCount))) :
    ∃ n, c.db.row (.notification id) = some n ∧ n.userId = userId ∧
      readAt = n.readAt.getD (nows t) ∧
      c'.db.row (.notification id) = some { n with readAt := some readAt } ∧
      (∀ i, i ≠ .notification id → c'.db.row i = c.db.row i) ∧
      ∃ c₁, Reachable schema (start db₀ nows calls) c₁ ∧ Reachable schema c₁ c ∧
        unreadCount = (notifications c₁.db).countP fun x => x.1 ≠ id ∧ x.2.isUnreadOf userId := by
  obtain ⟨σ, hact, hdb, hends⟩ := (sound_of_reachable hc).of_commit hst ht
  simp only [hcall, NotificationCall.Ends] at hends
  obtain ⟨n, s, s', l, ⟨hheld, hu, hwrites, -⟩, hat, hreads, hs', hcount⟩ := hends
  have hother : ∀ {σ' : NotificationSession} {db : Db}, (∀ w ∈ σ'.writes, w.1 = .notification id) →
      ∀ i, i ≠ .notification id → (σ'.view db).row i = db.row i := by
    intro σ' db hw i hi
    exact db.overlay_row_of_forall_ne fun w hm he => hi (he ▸ hw w hm)
  have hreads' : σ.reads = [] ++ s' :: l := hreads
  obtain ⟨c₁, k, σ₁, h₁, h₁c, -, -, hsuffix, rfl⟩ := hc.snapshot hact hreads'
  refine ⟨n, hheld.committed, hu, hat, ?_, ?_, c₁, h₁, h₁c, ?_⟩
  · rw [hdb, hheld.pending, hat]
    rfl
  · rw [hdb]
    exact hother hwrites
  · have hother₁ : ∀ i, i ≠ .notification id → (σ₁.view c₁.db).row i = c₁.db.row i :=
      hother fun w hw => hwrites w (hsuffix.subset hw)
    rw [hcount]
    refine countP_notifications_congr fun id' => ?_
    by_cases hid : id' = id
    · subst hid
      constructor
      · rintro ⟨n', hn', hunread⟩
        obtain rfl := Option.some.inj (hs'.symm.trans hn')
        exact absurd hunread.2 (Option.some_ne_none _)
      · rintro ⟨n, -, hne, -⟩
        exact absurd rfl hne
    · rw [hother₁ (.notification id') fun he => hid (RowId.notification.inj he)]
      exact exists_congr fun n' => and_congr_right fun _ => ⟨fun h => ⟨hid, h⟩, fun h => h.2⟩

theorem mark_notification_read_answer_markRun : markRunOne.tx .one = .done (.ok (.read 100 1)) ∧
    ∃ c₁ : MarkConfig, Reachable schema c₁ markRun ∧
      1 = (notifications c₁.db).countP fun x => x.1 ≠ 1 ∧ x.2.isUnreadOf 7 := by
  have hrun : Reachable schema (start twoNotifications markTimes markCalls) markRun := run_execTo _
  have hst : markRun.step schema .one .go = some markRunOne := rfl
  obtain ⟨n, -, -, -, -, -, c₁, -, hc₁, hcount⟩ := mark_notification_read_answer hrun hst rfl rfl
  exact ⟨rfl, c₁, hc₁, hcount⟩

/-- It fails when its first snapshot shows no such notification of the user, or when the
notification has been deleted since; nothing is written then. -/
theorem mark_notification_read_notFound (hc : Reachable schema (start db₀ nows calls) c)
    (hst : c.step schema t ch = some c') {id userId : Uuid}
    (hcall : calls t = .markNotificationRead id userId) (ht : c'.tx t = .done (.ok .notFound)) :
    c'.db = c.db ∧ ∃ c₁, Reachable schema (start db₀ nows calls) c₁ ∧ Reachable schema c₁ c ∧
      (ownNotification c₁.db id userId = none ∨ Deleted id c.db) := by
  obtain ⟨σ, hact, hdb, hends⟩ := (sound_of_reachable hc).of_commit hst ht
  simp only [hcall, NotificationCall.Ends] at hends
  obtain ⟨s, hwrites, ⟨⟨l, hreads⟩, -⟩, hnone⟩ := hends
  obtain ⟨k₁, hq⟩ : ∃ k, (calls t).proc (nows t) = .query k := by
    rw [hcall]
    exact ⟨_, rfl⟩
  obtain ⟨c₁, h₁, h₁c, rfl⟩ := hc.first_snapshot hq hact hreads
  refine ⟨?_, c₁, h₁, h₁c, hnone⟩
  rw [hdb]
  unfold Session.view
  rw [hwrites]
  rfl

theorem mark_notification_read_notFound_markRun : markRunEnd.tx .other = .done (.ok .notFound) ∧
    markRunEnd.db = markRunOther.db := by
  have hst : markRunOther.step schema .other .go = some markRunEnd := rfl
  exact ⟨rfl, (mark_notification_read_notFound reachable_markRunOther hst rfl rfl).1⟩

/-- `mark_all_notifications_read` marks as many notifications as it answers, all of them unread ones
of the user, and changes nothing else.  What was committed at the snapshot of its `UPDATE`, at `c₁`,
is not unread afterwards; its second number counts the later ones that are committed at `c₂`, where
it counts. -/
theorem mark_all_notifications_read_answer (hc : Reachable schema (start db₀ nows calls) c)
    (hst : c.step schema t ch = some c') {userId : Uuid}
    (hcall : calls t = .markAllNotificationsRead userId) {updatedCount unreadCount : ℕ}
    (ht : c'.tx t = .done (.ok (.readAll updatedCount unreadCount))) :
    (∃ marked : List Uuid, marked.Nodup ∧ updatedCount = marked.length ∧
      (∀ id ∈ marked, ∃ n, c.db.row (.notification id) = some n ∧ n.isUnreadOf userId ∧
        c'.db.row (.notification id) = some { n with readAt := some (nows t) }) ∧
      ∀ id, id ∉ marked → c'.db.row (.notification id) = c.db.row (.notification id)) ∧
    ∃ σ c₁ c₂, (∃ p, c.tx t = .active p σ) ∧ σ.reads.length = 2 ∧
      Reachable schema (start db₀ nows calls) c₁ ∧ Reachable schema c₁ c₂ ∧
      Reachable schema c₂ c ∧ c₁.TakesSnapshot t σ 0 ∧ c₂.TakesSnapshot t σ 1 ∧
      (∀ id n, c'.db.row (.notification id) = some n → n.isUnreadOf userId →
        .notification id ∉ c₁.db.ids) ∧
      unreadCount = (notifications c₂.db).countP fun x =>
        .notification x.1 ∉ c₁.db.ids ∧ x.2.isUnreadOf userId := by
  obtain ⟨σ, hact, hdb, hends⟩ := (sound_of_reachable hc).of_commit hst ht
  simp only [hcall, NotificationCall.Ends] at hends
  obtain ⟨s, s', l, hreads, hcount, hw, hl, hread, hread', hafter⟩ := hends
  obtain ⟨k₁, hq⟩ : ∃ k, (calls t).proc (nows t) = .query k := by
    rw [hcall]
    exact ⟨_, rfl⟩
  obtain ⟨c₂, q₂, σ₂, h₂, h₂c, ht₂, hreads₂, hsuffix, rfl⟩ := hc.snapshot hact (m := []) hreads
  obtain ⟨c₁, q₁, σ₁, h₁, h₁₂, ht₁, hreads₁, -, rfl⟩ := h₂.snapshot ht₂ (m := []) hreads₂
  -- nothing is written before the first snapshot
  obtain ⟨-, rfl⟩ := h₁.eq_start_of_reads hq ht₁ hreads₁
  refine ⟨?_, σ, c₁, c₂, ⟨_, hact⟩, congrArg List.length hreads, h₁, h₁₂, h₂c,
    ⟨q₁, _, ht₁, rfl, Session.snapshot_of_reads (m := [_]) hreads⟩,
    ⟨q₂, σ₂, ht₂, congrArg List.length hreads₂, Session.snapshot_of_reads (m := []) hreads⟩,
    fun id n hn hunread hid => ?_, ?_⟩
  · rw [hdb, hcount]
    exact exists_marked hw
  · rw [hdb] at hn
    exact (hread id hid).2 n hn hunread
  · rw [hafter]
    refine countP_notifications_congr fun id => ?_
    by_cases hid : RowId.notification id ∈ c₁.db.ids
    · constructor
      · rintro ⟨n, hn, hunread⟩
        exact absurd hunread (hread' id hid n hn)
      · rintro ⟨n, -, hnew, -⟩
        exact absurd hid hnew
    · -- a notification that was not in use is not written
      have hrow : (σ₂.view c₂.db).row (.notification id) = c₂.db.row (.notification id) := by
        refine c₂.db.overlay_row_of_forall_ne fun w hm he => hid ?_
        rw [← he]
        exact hl w.1 (hw.writes w (hsuffix.subset hm))
      rw [hrow]
      exact exists_congr fun n => and_congr_right fun _ => ⟨fun h => ⟨hid, h⟩, fun h => h.2⟩

theorem mark_all_notifications_read_answer_markRun :
    markRunAll.tx .all = .done (.ok (.readAll 1 0)) ∧
    ∃ marked : List Uuid, 1 = marked.length ∧ ∀ id ∈ marked, ∃ n,
      markRunBefore.db.row (.notification id) = some n ∧ n.isUnreadOf 7 := by
  have hst : markRunBefore.step schema .all .go = some markRunAll := rfl
  obtain ⟨⟨marked, -, hcount, hmarked, -⟩, -⟩ :=
    mark_all_notifications_read_answer reachable_markRunBefore hst rfl rfl
  refine ⟨rfl, marked, hcount, fun id hid => ?_⟩
  obtain ⟨n, hn, hunread, -⟩ := hmarked id hid
  exact ⟨n, hn, hunread⟩

end Run

end NotificationDb
