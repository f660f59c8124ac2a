import TaskManagement.ReadCommitted.OneRow
import TaskManagement.ReadCommitted.Serial
import TaskManagement.ReadCommitted.Snapshots
import TaskManagement.Service.Equiv.Checks

/-!
# Comments under concurrent requests

The requests on comments take no lock before they write, and read the comment, its task and their
user in snapshots of their own.  Nevertheless, in every run beside other requests, and beside other
transactions that do not write comments:

* the edits of the committed requests, applied one after another in the order of their commits, make
  the comments (`comments_log`): no update is lost, and an update of a comment that is deleted in
  the meantime does not succeed;
* a comment keeps its task and its author, and is changed or deleted only by requests of its author
  or of an administrator (`comment_changes`).

The edit of a request is what it does to the comments when it runs alone and succeeds
(`Request.edits_of_endsAlone`).  Its access checks are not part of it: an update that has passed its
checks commits also after the deletion of the task, when its checks would fail.

A comment that is gone does not come back (`commentLife`), so that a request which has seen a
comment either finds it or finds nothing; `Request.CommentEnds` is what a request knows at its
commit.
-/

namespace TaskDb

open ReadCommitted

/-! ### The life of a comment -/

/-- A comment keeps its task and its author until it is deleted. -/
def keepsAuthor : (i : RowId) → Row i → Option (Row i) → Prop
  | .comment _, m, o => ∀ m', o = some m' → m'.taskId = m.taskId ∧ m'.userId = m.userId
  | _, _, _ => True

def commentLife : Lifecycle Row where
  generated i := ∃ id, i = .comment id
  rel := keepsAuthor
  refl i r := by
    cases i with
    | comment id =>
      rintro m ⟨⟩
      exact ⟨rfl, rfl⟩
    | _ => trivial
  trans {i r r' o} h h' := by
    cases i with
    | comment id =>
      intro m hm
      obtain ⟨ht, hu⟩ := h r' rfl
      obtain ⟨ht', hu'⟩ := h' m hm
      exact ⟨ht'.trans ht, hu'.trans hu⟩
    | _ => trivial

abbrev commentProtocol : Protocol Unit Row LockKey Error := commentLife.protocol

variable {σ σ' : TaskSession} {db db' s : Db} {id userId : Uuid} {m m' : TaskComment}

/-- A comment that a snapshot shows is used for good. -/
theorem mem_ids_of_comment (hf : commentLife.Follows s db) (hm : s.row (.comment id) = some m) :
    .comment id ∈ db.ids :=
  (hf _ ⟨id, rfl⟩ (s.mem_ids _ (by rw [hm]; rfl))).1

/-- What has become of a comment that a snapshot shows. -/
theorem comment_of_follows (hf : commentLife.Follows s db) (hm : s.row (.comment id) = some m)
    (hm' : db.row (.comment id) = some m') : m'.taskId = m.taskId ∧ m'.userId = m.userId := by
  have hl := (hf _ ⟨id, rfl⟩ (s.mem_ids _ (by rw [hm]; rfl))).2
  rw [hm] at hl
  exact hl m' hm'

/-! ### Transactions that write no comment -/

theorem conforms_kept {u : RowUpdate Row} (hu : ∀ id m, u (.comment id) m = none) :
    u.Conforms commentLife.kept := by
  rintro i o r w - hw ⟨id, rfl⟩
  rw [hu id r] at hw
  cases hw

/-- Only comments have generated identifiers. -/
theorem kept_of_ne {i : RowId} (hi : ∀ id, i ≠ .comment id) (o o' : Option (Row i)) :
    commentLife.kept.rel i o o' := fun ⟨id, h⟩ => absurd h (hi id)

theorem conformsShifts_kept {p : Option Uuid} : ConformsShifts commentLife.kept p :=
  fun _ _ _ _ _ => conforms_kept fun _ _ => rfl

theorem admitsNotification_kept : AdmitsNotification commentLife.kept :=
  fun _ _ _ _ _ => kept_of_ne (by simp) _ _

theorem kept_spCreateTask {c : CreateTask} : (spCreateTask c).Conforms commentLife.kept :=
  (conforms_requireActiveAssignee _).bind fun _ => Proc.conforms_advisoryLock.bind fun _ =>
    conformsShifts_kept.choosePosition.bind fun _ => Proc.conforms_generate.bind fun _ =>
      (Proc.conforms_insertOrRaise fun _ _ => kept_of_ne (by simp) _ _).bind fun _ =>
        admitsNotification_kept.notifyCreated.bind fun _ => trivial

theorem kept_createTask {projectId : Option Uuid} {payload : TaskCreateRequest}
    {user : CurrentUser} {day : AppDay} :
    (createTask projectId payload user day).Conforms commentLife.kept :=
  kept_spCreateTask.bind fun _ => Proc.conforms_select.bind fun _ => Proc.conforms_raiseIf

theorem kept_spUpdateTask {p : UpdateTask} : (spUpdateTask p).Conforms commentLife.kept := by
  refine Proc.conforms_select.bind fun read => ?_
  cases read with
  | none => trivial
  | some read =>
    refine conforms_lockColumns.bind fun _ => Proc.conforms_selectForUpdate.bind fun old => ?_
    cases old with
    | none => exact (conforms_requireActiveAssignee _).bind fun _ => trivial
    | some old =>
      exact Proc.conforms_raiseIf.bind fun _ => (conforms_requireActiveAssignee _).bind fun _ =>
        conformsShifts_kept.movePositions.bind fun _ =>
          (Proc.conforms_update (conforms_kept fun _ _ => rfl)).bind fun _ =>
            Proc.conforms_raiseIf.bind fun _ => admitsNotification_kept.notifyUpdated

theorem kept_updateTask {taskId : Uuid} {payload : TaskUpdateRequest} {user : CurrentUser}
    {day : AppDay} : (updateTask taskId payload user day).Conforms commentLife.kept := by
  refine Proc.conforms_select.bind fun task => ?_
  cases task with
  | none => trivial
  | some task =>
    exact conforms_authorizeUpdate.bind fun _ => kept_spUpdateTask.bind fun _ =>
      Proc.conforms_select.bind fun _ => Proc.conforms_raiseIf

theorem kept_deleteTask {taskId : Uuid} {user : CurrentUser} :
    (deleteTask taskId user).Conforms commentLife.kept := by
  refine Proc.conforms_select.bind fun task => ?_
  cases task with
  | none => trivial
  | some task =>
    refine conforms_requireTaskAccess.bind fun _ => ?_
    unfold spDeactivateTask
    exact (Proc.conforms_update (conforms_kept fun _ _ => rfl)).bind fun _ => trivial

/-! ### What a request does to the comments -/

abbrev Comments : Type := Uuid → Option TaskComment

def comments (db : Db) : Comments := fun id => db.row (.comment id)

/-- What a request that has passed its checks makes of the comments. -/
def Request.Edits (q : Request) (f f' : Comments) : Prop :=
  match q.endpoint with
  | .createTaskComment taskId body => ∃ id, f id = none ∧
      f' = Function.update f id (some { taskId := taskId, userId := q.userId, body := body })
  | .updateTaskComment id body => ∃ m, f id = some m ∧
      f' = Function.update f id (some { m with body := body })
  | .deleteTaskComment id => f' = Function.update f id none
  | _ => f' = f

/-- The user was an administrator in a snapshot. -/
def AdminRead (userId : Uuid) (σ : TaskSession) : Prop :=
  ∃ s ∈ σ.reads, ∃ u, s.row (.user userId) = some u ∧ u.role = .admin

/-- The user was the author of the comment, or an administrator, when the request checked it. -/
def Editor (userId id : Uuid) (σ : TaskSession) (db : Db) : Prop :=
  ∃ s m, s.row (.comment id) = some m ∧ commentLife.Follows s db ∧
    (m.userId = userId ∨ AdminRead userId σ)

theorem AdminRead.mono (h : AdminRead userId σ) (hr : ∀ s ∈ σ.reads, s ∈ σ'.reads) :
    AdminRead userId σ' := by
  obtain ⟨s, hs, hu⟩ := h
  exact ⟨s, hr s hs, hu⟩

theorem Editor.mono (h : Editor userId id σ db) (hr : ∀ s ∈ σ.reads, s ∈ σ'.reads)
    (hf : commentLife.Follows db db') : Editor userId id σ' db' := by
  obtain ⟨s, m, hm, hs, hu⟩ := h
  exact ⟨s, m, hm, hs.trans hf, hu.imp_right fun ha => ha.mono hr⟩

theorem editor_stable (userId id : Uuid) : commentProtocol.Stable (Editor userId id) where
  rely h hr _ := h.mono (fun _ h => h) hr.2
  saw s h := h.mono (fun _ hm => List.mem_cons_of_mem s hm) (Lifecycle.Follows.refl _)

/-- What a request has read and written when it comes to its commit. -/
def Request.CommentEnds (q : Request) (σ : TaskSession) (db : Db) : Prop :=
  match q.endpoint with
  | .createTaskComment taskId body => ∃ id, .comment id ∉ db.ids ∧
      OneRow (.comment id) none (some ⟨taskId, q.userId, body⟩) σ db
  | .updateTaskComment id body => Editor q.userId id σ db ∧
      ∃ m : TaskComment, OneRow (.comment id) (some m) (some { m with body := body }) σ db
  | .deleteTaskComment id => Editor q.userId id σ db ∧ (∀ w ∈ σ.writes, w.1 = .comment id) ∧
      (σ.view db).row (.comment id) = none
  | _ => commentLife.kept.Holds σ db

/-- The comments after the write of one of them. -/
theorem comments_of_writes (h : ∀ w ∈ σ.writes, w.1 = .comment id) :
    comments (σ.view db) = Function.update (comments db) id ((σ.view db).row (.comment id)) := by
  ext1 id'
  by_cases hid : id' = id
  · subst hid
    rw [Function.update_self]
    rfl
  · rw [Function.update_of_ne hid]
    exact changesOnly_of_writes h _ fun he => hid (RowId.comment.inj he)

theorem Request.CommentEnds.edits {q : Request} (h : q.CommentEnds σ db) :
    q.Edits (comments db) (comments (σ.view db)) := by
  obtain ⟨userId, endpoint, day⟩ := q
  cases endpoint with
  | createTaskComment taskId body =>
    obtain ⟨id, -, hone⟩ := h
    refine ⟨id, hone.committed, ?_⟩
    rw [comments_of_writes hone.writes, hone.pending]
  | updateTaskComment id body =>
    obtain ⟨-, m, hone⟩ := h
    refine ⟨m, hone.committed, ?_⟩
    rw [comments_of_writes hone.writes, hone.pending]
  | deleteTaskComment id =>
    obtain ⟨-, hwrites, hnone⟩ := h
    show comments (σ.view db) = _
    rw [comments_of_writes hwrites, hnone]
  | _ =>
    have hkept : commentLife.kept.Holds σ db := h
    exact funext fun id => hkept (.comment id) ⟨id, rfl⟩

theorem Request.CommentEnds.lived {q : Request} (h : q.CommentEnds σ db) :
    commentLife.Lived σ db := by
  obtain ⟨userId, endpoint, day⟩ := q
  cases endpoint with
  | createTaskComment taskId body =>
    obtain ⟨id, hid, hone⟩ := h
    exact Lifecycle.lived_of_oneRow hone fun _ hm => absurd hm hid
  | updateTaskComment id body =>
    obtain ⟨-, m, hone⟩ := h
    refine Lifecycle.lived_of_oneRow hone fun _ _ => ?_
    rintro m' ⟨⟩
    exact ⟨rfl, rfl⟩
  | deleteTaskComment id =>
    obtain ⟨-, hwrites, hnone⟩ := h
    rintro i ⟨id', rfl⟩ hi
    refine ⟨Session.mem_view_ids hi, ?_⟩
    by_cases hid : id' = id
    · subst hid
      rw [hnone]
      cases db.row (.comment id') with
      | none => rfl
      | some m => exact nofun
    · rw [changesOnly_of_writes hwrites _ fun he => hid (RowId.comment.inj he)]
      exact Lifecycle.Leads.refl _ _
  | _ => exact Lifecycle.lived_of_kept h

/-! ### Specifications -/

section Spec

variable {task : Task} {user : CurrentUser} {day : AppDay} {commentId taskId : Uuid}
  {body : String}

theorem quiet_getCurrentUser (h : commentLife.Quiet σ db) :
    wp schema commentProtocol () (getCurrentUser userId)
      (fun user σ' db' => ∃ s u, s.row (.user userId) = some u ∧
        user = { id := userId, role := u.role } ∧ σ' = σ.saw s ∧ commentLife.Quiet σ' db')
      σ db := by
  refine wp_bind (wp_mono (Lifecycle.wp_select_quiet h) ?_) trivial
  rintro _ σ₁ db₁ - ⟨s, rfl, rfl, h₁⟩
  cases hu : s.row (.user userId) with
  | none => trivial
  | some u =>
    refine wp_bind (wp_mono (Lifecycle.wp_raiseIf_quiet h₁) ?_) trivial
    rintro _ σ₂ db₂ - ⟨-, rfl, h₂⟩
    exact wp_ret fun db₃ hr₃ _ => ⟨s, u, hu, rfl, rfl, h₂.rely hr₃⟩

theorem quiet_getTaskForMember (h : commentLife.Quiet σ db) :
    wp schema commentProtocol () (getTaskForMember taskId)
      (fun _ σ' db' => ∃ s, σ' = σ.saw s ∧ commentLife.Quiet σ' db') σ db := by
  refine wp_bind (wp_mono (Lifecycle.wp_select_quiet h) ?_) trivial
  rintro _ σ₁ db₁ - ⟨s, rfl, rfl, h₁⟩
  cases s.row (.task taskId) with
  | none => trivial
  | some task => exact wp_ret fun db₂ hr₂ _ => ⟨s, rfl, h₁.rely hr₂⟩

theorem quiet_requireTaskAccess (h : commentLife.Quiet σ db) :
    wp schema commentProtocol () (requireTaskAccess task user)
      (fun _ σ' db' => commentLife.Quiet σ' db' ∧ ∀ s ∈ σ.reads, s ∈ σ'.reads) σ db := by
  unfold requireTaskAccess
  split_ifs
  · trivial
  · exact wp_ret fun db₁ hr₁ _ => ⟨h.rely hr₁, fun _ hs => hs⟩
  · cases task.projectId with
    | none =>
      refine wp_mono (Lifecycle.wp_raiseIf_quiet h) ?_
      rintro _ σ₁ db₁ - ⟨-, rfl, h₁⟩
      exact ⟨h₁, fun _ hs => hs⟩
    | some p =>
      refine wp_bind (wp_mono (Lifecycle.wp_select_quiet h) ?_) trivial
      rintro _ σ₁ db₁ - ⟨s, rfl, rfl, h₁⟩
      refine wp_mono (Lifecycle.wp_raiseIf_quiet h₁) ?_
      rintro _ σ₂ db₂ - ⟨-, rfl, h₂⟩
      exact ⟨h₂, fun _ hs => List.mem_cons_of_mem s hs⟩

/-- The routes of a comment, up to what they write: the user is its author or an administrator. -/
theorem quiet_commentRoute {β : Type} {Q : β → TaskSession → Db → Prop} (rest : TaskProc β)
    (hrest : ∀ σ db, commentLife.Quiet σ db → Editor userId commentId σ db →
      wp schema commentProtocol () rest Q σ db) (db : Db) :
    wp schema commentProtocol () ((getCommentForMember commentId).bind fun r =>
        (getCurrentUser userId).bind fun user => (requireTaskAccess r.2 user).bind fun _ =>
          (requireCommentEditor r.1.userId user).bind fun _ => rest) Q .start db := by
  have hcomment : wp schema commentProtocol () (getCommentForMember commentId)
      (fun r σ db => ∃ s ∈ σ.reads, s.row (.comment commentId) = some r.1 ∧
        commentLife.Quiet σ db) .start db := by
    refine wp_bind (wp_mono (Lifecycle.wp_select_quiet (Lifecycle.quiet_start db)) ?_) trivial
    rintro _ σ₁ db₁ - ⟨s, rfl, rfl, h₁⟩
    cases hm : s.row (.comment commentId) with
    | none => trivial
    | some m =>
      refine wp_bind (wp_mono (quiet_getTaskForMember h₁) ?_) trivial
      rintro task _ db₂ - ⟨s₂, rfl, h₂⟩
      exact wp_ret fun db₃ hr₃ _ =>
        ⟨s, List.mem_cons_of_mem _ List.mem_cons_self, hm, h₂.rely hr₃⟩
  refine wp_bind (wp_mono hcomment ?_) trivial
  rintro ⟨m, task⟩ σ₁ db₁ - ⟨s, hs, hm, h₁⟩
  refine wp_bind (wp_mono (quiet_getCurrentUser h₁) ?_) trivial
  rintro _ _ db₂ - ⟨s₂, u, hu, rfl, rfl, h₂⟩
  refine wp_bind (wp_mono (quiet_requireTaskAccess h₂) ?_) trivial
  rintro _ σ₃ db₃ - ⟨h₃, hreads⟩
  refine wp_bind (wp_mono (Lifecycle.wp_raiseIf_quiet h₃) ?_) trivial
  rintro _ σ₄ db₄ - ⟨hrole, rfl, h₄⟩
  have hs₄ : s ∈ σ₄.reads := hreads s (List.mem_cons_of_mem _ hs)
  refine hrest _ db₄ h₄ ⟨s, m, hm, h₄.reads s hs₄, ?_⟩
  by_cases hadmin : u.role = .admin
  · exact Or.inr ⟨s₂, hreads s₂ List.mem_cons_self, u, hu, hadmin⟩
  · by_contra hne
    exact hrole ⟨hadmin, fun he => hne (Or.inl he)⟩

theorem Editor.mem_ids (h : Editor userId id σ db) : .comment id ∈ db.ids := by
  obtain ⟨s, m, hm, hf, -⟩ := h
  exact mem_ids_of_comment hf hm

/-- The statement has made of the comment what `set` says, or the comment is gone. -/
def EditedOrGone (userId id : Uuid) (set : TaskComment → Option TaskComment) (σ : TaskSession)
    (db : Db) : Prop :=
  Editor userId id σ db ∧ ((σ.writes = [] ∧ db.row (.comment id) = none) ∨
    ∃ m : TaskComment, OneRow (.comment id) (some m) (set m) σ db)

theorem editedOrGone_stable (userId id : Uuid) (set : TaskComment → Option TaskComment) :
    commentProtocol.Stable (EditedOrGone userId id set) where
  rely {σ db db'} h hr hi := by
    obtain ⟨he, hcase⟩ := h
    refine ⟨(editor_stable userId id).rely he hr hi, ?_⟩
    rcases hcase with ⟨hw, hnone⟩ | ⟨m, hone⟩
    · -- what is gone does not come back
      have hl := (hr.2 _ ⟨id, rfl⟩ he.mem_ids).2
      rw [hnone] at hl
      exact Or.inl ⟨hw, hl⟩
    · exact Or.inr ⟨m, hone.rely (commentLife.protocol_keepsLocked hr)⟩
  saw s h := ⟨(editor_stable userId id).saw s h.1, h.2.imp_right fun ⟨m, hone⟩ => ⟨m, hone.saw s⟩⟩

/-- A statement on one comment by a request that may edit it. -/
theorem quiet_update_comment {u : RowUpdate Row} {set : TaskComment → Option TaskComment}
    (hself : ∀ m : TaskComment, u (.comment id) m = some (set m))
    (hother : ∀ j r, j ≠ .comment id → u j r = none) (h : commentLife.Quiet σ db)
    (he : Editor userId id σ db) :
    wp schema commentProtocol () ((Proc.update u : TaskProc ℕ).bind fun _ => .ret ())
      (fun _ => EditedOrGone userId id set) σ db := by
  refine wp_bind (wp_mono (Lifecycle.wp_update_one hself hother ⟨id, rfl⟩ he.mem_ids h) ?_) trivial
  rintro _ σ' db₁ - ⟨hf, ⟨s, hs⟩, hcase⟩
  have hst := editedOrGone_stable userId id set
  refine wp_ret fun db₂ hr hi => hst.rely ⟨he.mono ?_ hf, hcase⟩ hr hi
  intro s' hs'
  rw [hs]
  exact List.mem_cons_of_mem s hs'

theorem wp_updateTaskComment_ends (db : Db) :
    wp schema commentProtocol () (Request.proc ⟨userId, .updateTaskComment commentId body, day⟩)
      (fun _ => Request.CommentEnds ⟨userId, .updateTaskComment commentId body, day⟩)
      .start db := by
  refine quiet_commentRoute ((spUpdateTaskComment commentId body).bind fun _ =>
    (fnGetCommentWithTask commentId).bind fun updated => Proc.raiseIf (updated = none) .notFound)
    (fun σ₁ db₁ h₁ he₁ => ?_) db
  have hst := editedOrGone_stable userId commentId fun m => some { m with body := body }
  refine wp_bind (wp_mono (quiet_update_comment
    (fun m => show setCommentBody commentId body (.comment commentId) m =
      some (some { m with body := body }) from if_pos rfl) ?_ h₁ he₁) ?_) trivial
  · intro j r hj
    cases j with
    | comment id => exact if_neg fun he => hj (congrArg RowId.comment he)
    | _ => rfl
  · intro _ σ₂ db₂ _ h₂
    refine wp_bind (wp_select fun db₃ hr₃ hi₃ => ⟨trivial, fun _ db₄ hr₄ hi₄ => ?_⟩) trivial
    obtain ⟨he₃, ⟨hw₃, hnone⟩ | ⟨m, hone₃⟩⟩ := hst.rely h₂ hr₃ hi₃
    · -- the request reads the comment again, and finds nothing
      have hgone : (σ₂.view db₃).row (.comment commentId) = none := by
        unfold Session.view
        rw [hw₃]
        exact hnone
      exact wp_raiseIf (fun _ => trivial) fun hfound => absurd hgone hfound
    · have hone : commentProtocol.Stable fun σ db => Editor userId commentId σ db ∧
          OneRow (.comment commentId) (some m) (some { m with body := body }) σ db :=
        (editor_stable _ _).and (Lifecycle.oneRow_stable _ _ _)
      refine wp_mono (wp_raiseIf_stable hone (fun _ => trivial)
        (hone.rely (hone.saw (σ₂.view db₃) ⟨he₃, hone₃⟩) hr₄ hi₄)) ?_
      rintro _ σ₅ db₅ - ⟨-, he₅, hone₅⟩
      exact ⟨he₅, m, hone₅⟩

theorem wp_deleteTaskComment_ends (db : Db) :
    wp schema commentProtocol () (Request.proc ⟨userId, .deleteTaskComment commentId, day⟩)
      (fun _ => Request.CommentEnds ⟨userId, .deleteTaskComment commentId, day⟩) .start db := by
  refine quiet_commentRoute (spDeleteTaskComment commentId) (fun σ₁ db₁ h₁ he₁ => ?_) db
  refine wp_mono (quiet_update_comment
    (fun m => show deleteCommentRow commentId (.comment commentId) m = some none from if_pos rfl)
    ?_ h₁ he₁) ?_
  · intro j r hj
    cases j with
    | comment id => exact if_neg fun he => hj (congrArg RowId.comment he)
    | _ => rfl
  · rintro _ σ₂ db₂ - ⟨he₂, ⟨hw₂, hnone⟩ | ⟨m, hone⟩⟩
    · refine ⟨he₂, ?_, ?_⟩
      · rw [hw₂]
        exact fun w hw => absurd hw List.not_mem_nil
      · unfold Session.view
        rw [hw₂]
        exact hnone
    · exact ⟨he₂, hone.writes, hone.pending⟩

theorem wp_createTaskComment_ends (db : Db) :
    wp schema commentProtocol () (Request.proc ⟨userId, .createTaskComment taskId body, day⟩)
      (fun _ => Request.CommentEnds ⟨userId, .createTaskComment taskId body, day⟩) .start db := by
  refine wp_bind (wp_mono (quiet_getTaskForMember (Lifecycle.quiet_start db)) ?_) trivial
  rintro task _ db₁ - ⟨s₁, rfl, h₁⟩
  refine wp_bind (wp_mono (quiet_getCurrentUser h₁) ?_) trivial
  rintro _ _ db₂ - ⟨s₂, u, -, rfl, rfl, h₂⟩
  refine wp_bind (wp_mono (quiet_requireTaskAccess h₂) ?_) trivial
  rintro _ σ₃ db₃ - ⟨h₃, -⟩
  refine wp_bind (wp_mono (Lifecycle.wp_insert_one (f := RowId.comment)
    (r := fun _ => ⟨taskId, userId, body⟩) (fun _ => rfl) h₃) ?_) trivial
  rintro id σ₄ db₄ - ⟨hid, hone⟩
  have hst : commentProtocol.Stable fun σ db => .comment id ∉ db.ids ∧
      OneRow (.comment id) none (some ⟨taskId, userId, body⟩) σ db := by
    refine ⟨fun {σ db db'} h hr hi => ⟨fun hm => h.1 ((hr.1 _ h.2.mem).2 hm), ?_⟩,
      fun s h => ⟨h.1, h.2.saw s⟩⟩
    exact h.2.rely (commentLife.protocol_keepsLocked hr)
  refine wp_bind (wp_mono (wp_select_stable hst (fun _ => trivial) ⟨hid, hone⟩) ?_) trivial
  rintro _ σ₅ db₅ - ⟨h₅, -⟩
  refine wp_mono (wp_raiseIf_stable hst (fun _ => trivial) h₅) ?_
  rintro _ σ₆ db₆ - ⟨-, h₆⟩
  exact ⟨id, h₆⟩

theorem Request.wp_commentEnds (q : Request) (db : Db) :
    wp schema commentProtocol () q.proc (fun _ => q.CommentEnds) .start db := by
  have hstart : commentLife.kept.Holds (.start : TaskSession) db :=
    Effect.holds_of_view_eq _ rfl
  obtain ⟨userId, endpoint, day⟩ := q
  cases endpoint with
  | createProjectTask projectId payload =>
    exact Lifecycle.wp_of_kept (conforms_getCurrentUser.bind fun _ =>
      conforms_requireProjectMember.bind fun _ => kept_createTask) hstart
  | createFlatTask payload =>
    exact Lifecycle.wp_of_kept (conforms_getCurrentUser.bind fun _ => kept_createTask) hstart
  | updateTask taskId payload =>
    exact Lifecycle.wp_of_kept (conforms_getCurrentUser.bind fun _ => kept_updateTask) hstart
  | deleteTask taskId =>
    exact Lifecycle.wp_of_kept (conforms_getCurrentUser.bind fun _ => kept_deleteTask) hstart
  | createTaskComment taskId body => exact wp_createTaskComment_ends db
  | updateTaskComment commentId body => exact wp_updateTaskComment_ends db
  | deleteTaskComment commentId => exact wp_deleteTaskComment_ends db

end Spec

/-! ### Runs -/

/-- A request, or another transaction that writes no comment. -/
inductive CommentCall : Type where
  | request (q : Request)
  | other (p : TaskProc Unit) (h : p.Conforms commentLife.kept)

namespace CommentCall

def proc : CommentCall → TaskProc Unit
  | .request q => q.proc
  | .other p _ => p

def Edits : CommentCall → Comments → Comments → Prop
  | .request q => q.Edits
  | .other _ _ => fun f f' => f' = f

def Ends : CommentCall → TaskSession → Db → Prop
  | .request q => q.CommentEnds
  | .other _ _ => commentLife.kept.Holds

variable {call : CommentCall}

theorem wp_proc (call : CommentCall) (db : Db) :
    wp schema commentProtocol () call.proc (fun _ => call.Ends) .start db := by
  cases call with
  | request q => exact q.wp_commentEnds db
  | other p h => exact Lifecycle.wp_of_kept h (Effect.holds_of_view_eq _ rfl)

theorem Ends.lived (h : call.Ends σ db) : commentLife.Lived σ db := by
  cases call with
  | request q => exact Request.CommentEnds.lived h
  | other p _ => exact Lifecycle.lived_of_kept h

theorem Ends.edits (h : call.Ends σ db) : call.Edits (comments db) (comments (σ.view db)) := by
  cases call with
  | request q => exact Request.CommentEnds.edits h
  | other p _ =>
    have hkept : commentLife.kept.Holds σ db := h
    exact funext fun id => hkept (.comment id) ⟨id, rfl⟩

/-- What a call may do to a comment that is there when it commits. -/
theorem Ends.row (h : call.Ends σ db) (hm : db.row (.comment id) = some m) :
    (σ.view db).row (.comment id) = some m ∨ ∃ q, call = .request q ∧ Editor q.userId id σ db ∧
      (∀ w ∈ σ.writes, w.1 = .comment id) ∧
      ((q.endpoint = .deleteTaskComment id ∧ (σ.view db).row (.comment id) = none) ∨
        ∃ body, q.endpoint = .updateTaskComment id body ∧
          (σ.view db).row (.comment id) = some { m with body := body }) := by
  -- a call that writes another comment
  have hother : ∀ {id'}, (∀ w ∈ σ.writes, w.1 = .comment id') → id ≠ id' →
      (σ.view db).row (.comment id) = some m := by
    intro id' hw hne
    rw [changesOnly_of_writes hw _ fun he => hne (RowId.comment.inj he), hm]
  cases call with
  | other p _ =>
    have hkept : commentLife.kept.Holds σ db := h
    exact Or.inl ((hkept (.comment id) ⟨id, rfl⟩).trans hm)
  | request q =>
    obtain ⟨userId, endpoint, day⟩ := q
    cases endpoint with
    | createTaskComment taskId body =>
      obtain ⟨id', hid', hone⟩ := h
      refine Or.inl (hother hone.writes ?_)
      rintro rfl
      exact hid' (db.mem_ids _ (by rw [hm]; rfl))
    | updateTaskComment id' body =>
      obtain ⟨he, m', hone⟩ := h
      by_cases hid : id = id'
      · subst hid
        obtain rfl := Option.some.inj (hm.symm.trans hone.committed)
        exact Or.inr ⟨_, rfl, he, hone.writes, Or.inr ⟨body, rfl, hone.pending⟩⟩
      · exact Or.inl (hother hone.writes hid)
    | deleteTaskComment id' =>
      obtain ⟨he, hwrites, hnone⟩ := h
      by_cases hid : id = id'
      · subst hid
        exact Or.inr ⟨_, rfl, he, hwrites, Or.inl ⟨rfl, hnone⟩⟩
      · exact Or.inl (hother hwrites hid)
    | _ =>
      have hkept : commentLife.kept.Holds σ db := h
      exact Or.inl ((hkept (.comment id) ⟨id, rfl⟩).trans hm)

end CommentCall

section Run

variable {τ : Type} [DecidableEq τ] [Fintype τ] {calls : τ → CommentCall} {db₀ : Db}
  {c c' : Config τ Row LockKey Uuid Error Unit} {t : τ} {ch : Choice RowId Uuid}

/-- Every transaction at its beginning. -/
def commentStart (db : Db) (calls : τ → CommentCall) : Config τ Row LockKey Uuid Error Unit :=
  .init db fun t => (calls t).proc

theorem sound_of_comments (hc : Reachable schema (commentStart db₀ calls) c) :
    Sound schema commentProtocol (fun _ => ()) (fun t _ => (calls t).Ends) c :=
  Lifecycle.sound_of_reachable (fun t db => (calls t).wp_proc db) (fun _ _ _ _ h => h.lived) hc

theorem follows_of_comments (hc : Reachable schema (commentStart db₀ calls) c)
    (hc' : Reachable schema c c') : commentLife.Follows c.db c'.db :=
  Lifecycle.follows_of_run (fun t db => (calls t).wp_proc db) (fun _ _ _ _ h => h.lived) hc hc'

/-- A step commits a call, or changes nothing. -/
theorem comments_step (hc : Reachable schema (commentStart db₀ calls) c)
    (hst : c.step schema t ch = some c') :
    (∃ p σ, c.tx t = .active p σ ∧ c'.db = σ.view c.db ∧ c'.Committed t ∧
      (calls t).Ends σ c.db) ∨
    (c'.db = c.db ∧ ∀ u, c'.Committed u → c.Committed u) := by
  by_cases hok : c'.Committed t
  · obtain ⟨a, ha⟩ := hok
    obtain ⟨σ, hact, hdb, hends⟩ := (sound_of_comments hc).of_commit hst ha
    exact Or.inl ⟨_, σ, hact, hdb, ⟨a, ha⟩, hends⟩
  · refine Or.inr ⟨Config.db_of_not_ok hst fun a ha => hok ⟨a, ha⟩, fun u hu => ?_⟩
    by_cases hut : u = t
    · subst hut
      exact absurd hu hok
    · obtain ⟨a, ha⟩ := hu
      exact ⟨a, (Config.tx_of_ne hst hut).symm.trans ha⟩

/-! ### Two requests, as an example -/

/-- Comment 3 of user 7 on task 1, and the administrator 8. -/
def oneComment : Db :=
  (Store.empty : Db).overlay
    [⟨.comment 3, some { taskId := 1, userId := 7, body := "old" }⟩,
      ⟨.task 1, some
        { projectId := none, title := "task", description := none, status := .todo,
          assigneeId := none, createdBy := 7, position := 0, version := 1, dueAt := none,
          isActive := true }⟩,
      ⟨.user 7, some { role := .member, isActive := true }⟩,
      ⟨.user 8, some { role := .admin, isActive := true }⟩]

/-- The author replaces the body, and the administrator deletes the comment. -/
def commentCalls : Fin 2 → CommentCall
  | 0 => .request
    { userId := 7, endpoint := .updateTaskComment 3 "new", day := { startUtc := 0, endUtc := 1 } }
  | 1 => .request
    { userId := 8, endpoint := .deleteTaskComment 3, day := { startUtc := 0, endUtc := 1 } }

abbrev CommentConfig : Type := Config (Fin 2) Row LockKey Uuid Error Unit

/-- Both requests have made their checks before one of them writes; the update has committed. -/
def commentRunUpdated : CommentConfig :=
  (commentStart oneComment commentCalls).execTo schema (fun _ _ _ => True)
    [(1, .go), (1, .go), (1, .go), (0, .go), (0, .go), (0, .go), (0, .go), (1, .go),
      (0, .pick (.comment 3)), (0, .go), (0, .go), (0, .go)] (by decide +kernel)

/-- The deletion finds the new body. -/
def commentRunDeleted : CommentConfig :=
  commentRunUpdated.execTo schema (fun _ _ _ => True)
    [(1, .pick (.comment 3)), (1, .go), (1, .go)] (by decide +kernel)

theorem reachable_commentRunUpdated :
    Reachable schema (commentStart oneComment commentCalls) commentRunUpdated := run_execTo _

theorem reachable_commentRunDeleted :
    Reachable schema (commentStart oneComment commentCalls) commentRunDeleted :=
  Run.trans reachable_commentRunUpdated (run_execTo _)

/-! ### The order of the commits -/

theorem comments_commits (hc : Reachable schema (commentStart db₀ calls) c)
    (hst : c.step schema t ch = some c') :
    (c'.Committed t ∧ (calls t).Edits (comments c.db) (comments c'.db)) ∨
      (c'.db = c.db ∧ ∀ u, c'.Committed u → c.Committed u) := by
  rcases comments_step hc hst with ⟨p, σ, -, hdb, ht, hends⟩ | hsame
  · rw [hdb]
    exact Or.inl ⟨ht, hends.edits⟩
  · exact Or.inr hsame

variable (calls) in
theorem exists_commitLog (hc : Reachable schema (commentStart db₀ calls) c) :
    ∃ l, CommitLog (fun t => (calls t).Edits) comments (comments db₀) c l := by
  obtain ⟨l, hl⟩ := commitLog_init.run comments_commits .refl hc
  exact ⟨_, hl⟩

/-- A request that runs alone and succeeds makes its edit. -/
theorem Request.edits_of_endsAlone {q : Request} (h : EndsAlone schema q.proc db (.ok ()) db') :
    q.Edits (comments db) (comments db') := by
  obtain ⟨c, hc, hdone, rfl⟩ := h
  obtain ⟨l, hnodup, hmem, hlog⟩ := exists_commitLog (fun _ : Unit => .request q) hc
  generalize comments c.db = f at hlog ⊢
  cases hlog with
  | nil => exact absurd ((hmem ()).mpr ⟨_, hdone⟩) List.not_mem_nil
  | snoc hlog he =>
    cases hlog with
    | nil => exact he
    | snoc _ _ =>
      -- there is only one transaction
      simp [List.nodup_append] at hnodup

/-! ### Main results -/

/-- The edits of the committed requests of a run, applied one after another in the order of the
commits, have made the comments; the edit of a request is what it does when it runs alone. -/
theorem comments_log (hc : Reachable schema (commentStart db₀ calls) c)
    (hc' : Reachable schema c c') :
    (∃ l l' : List τ, CommitLog (fun t => (calls t).Edits) comments (comments db₀) c l ∧
      CommitLog (fun t => (calls t).Edits) comments (comments db₀) c' (l ++ l')) ∧
    ∀ (q : Request) (db db' : Db), EndsAlone schema q.proc db (.ok ()) db' →
      q.Edits (comments db) (comments db') := by
  obtain ⟨l, hl⟩ := exists_commitLog _ hc
  obtain ⟨l', hl'⟩ := hl.run comments_commits hc hc'
  exact ⟨⟨l, l', hl, hl'⟩, fun q _ _ h => q.edits_of_endsAlone h⟩

theorem comments_log_commentRun : ∃ l l' : List (Fin 2),
    CommitLog (fun t => (commentCalls t).Edits) comments (comments oneComment) commentRunUpdated l ∧
    CommitLog (fun t => (commentCalls t).Edits) comments (comments oneComment) commentRunDeleted
      (l ++ l') :=
  (comments_log reachable_commentRunUpdated (run_execTo _)).1

/-- The user was an administrator in a committed database of the run up to `c`. -/
def WasAdmin (c₀ c : Config τ Row LockKey Uuid Error Unit) (userId : Uuid) : Prop :=
  ∃ c₁, Reachable schema c₀ c₁ ∧ Reachable schema c₁ c ∧
    ∃ u, c₁.db.row (.user userId) = some u ∧ u.role = .admin

/-- The user may change a comment of `author`. -/
def MayEdit (c₀ c : Config τ Row LockKey Uuid Error Unit) (userId author : Uuid) : Prop :=
  userId = author ∨ WasAdmin c₀ c userId

theorem MayEdit.step {c₀ : Config τ Row LockKey Uuid Error Unit} {author : Uuid}
    (h : MayEdit c₀ c userId author) (hst : c.step schema t ch = some c') :
    MayEdit c₀ c' userId author := by
  refine h.imp_right fun ⟨c₁, h₁, hc₁, hu⟩ => ⟨c₁, h₁, ?_, hu⟩
  exact .step hc₁ trivial hst

/-- What a request has read of the author and of its user was committed. -/
theorem Editor.mayEdit {p : TaskProc Unit} (hc : Reachable schema (commentStart db₀ calls) c)
    (hact : c.tx t = .active p σ) (hwrites : ∀ w ∈ σ.writes, w.1 = .comment id)
    (h : Editor userId id σ c.db) (hm : c.db.row (.comment id) = some m) :
    MayEdit (commentStart db₀ calls) c userId m.userId := by
  obtain ⟨s, m₀, hm₀, hf, hu | ⟨s', hs', u, hu, hadmin⟩⟩ := h
  · exact Or.inl (hu.symm.trans (comment_of_follows hf hm₀ hm).2.symm)
  · obtain ⟨l', l, hl⟩ := List.append_of_mem hs'
    obtain ⟨c₁, k, σ₁, h₁, h₁c, -, -, hsuffix, rfl⟩ := hc.snapshot hact hl
    refine Or.inr ⟨c₁, h₁, h₁c, u, ?_, hadmin⟩
    have hsame : ChangesOnly (· = .comment id) σ₁ c₁.db :=
      changesOnly_of_writes fun w hw => hwrites w (hsuffix.subset hw)
    rw [← hu]
    exact (hsame (.user userId) (by simp)).symm

/-- A comment that is gone does not come back. -/
theorem comment_stays_deleted (hc : Reachable schema (commentStart db₀ calls) c)
    (hc' : Reachable schema c c') (hm : c.db.row (.comment id) = some m)
    (hnone : c'.db.row (.comment id) = none) {c'' : Config τ Row LockKey Uuid Error Unit}
    (hc'' : Reachable schema c' c'') : c''.db.row (.comment id) = none := by
  have hids : RowId.comment id ∈ c'.db.ids := mem_ids_of_comment (follows_of_comments hc hc') hm
  have hl := (follows_of_comments (hc.trans hc') hc'' _ ⟨id, rfl⟩ hids).2
  rw [hnone] at hl
  exact hl

/-- What a run has done to a comment: a request has deleted it, or its body is that of the last
request that has replaced it. -/
theorem comment_of_run (hc : Reachable schema (commentStart db₀ calls) c)
    (hc' : Reachable schema c c') (hm : c.db.row (.comment id) = some m) :
    (c'.db.row (.comment id) = none ∧ ∃ t q, c'.Committed t ∧ calls t = .request q ∧
      q.endpoint = .deleteTaskComment id ∧
      MayEdit (commentStart db₀ calls) c' q.userId m.userId) ∨
    ∃ body, c'.db.row (.comment id) = some { m with body := body } ∧
      (body = m.body ∨ ∃ t q, c'.Committed t ∧ calls t = .request q ∧
        q.endpoint = .updateTaskComment id body ∧
        MayEdit (commentStart db₀ calls) c' q.userId m.userId) := by
  induction hc' with
  | refl => exact Or.inr ⟨m.body, hm, Or.inl rfl⟩
  | step hc' _ hst ih =>
    rename_i c₁ c₂ t ch _
    have hreach : Reachable schema (commentStart db₀ calls) c₁ := hc.trans hc'
    have hkeep : ∀ {t}, c₁.Committed t → c₂.Committed t := fun ⟨a, ha⟩ =>
      ⟨a, Config.done_of_step hst ha⟩
    rcases ih with ⟨hnone, t', q, ht', hrest⟩ | ⟨body, hrow, hbody⟩
    · have hgone : c₂.db.row (.comment id) = none :=
        comment_stays_deleted hc hc' hm hnone (.step .refl trivial hst)
      exact Or.inl ⟨hgone, t', q, hkeep ht', hrest.1, hrest.2.1, hrest.2.2.step hst⟩
    · -- the last request that has replaced the body
      have hlast : body = m.body ∨ ∃ t q, c₂.Committed t ∧ calls t = .request q ∧
          q.endpoint = .updateTaskComment id body ∧
          MayEdit (commentStart db₀ calls) c₂ q.userId m.userId :=
        hbody.imp_right fun ⟨t', q, ht', hq, hend, hmay⟩ =>
          ⟨t', q, hkeep ht', hq, hend, hmay.step hst⟩
      rcases comments_step hreach hst with ⟨p, σ, hact, hdb, ht, hends⟩ | ⟨hdb, -⟩
      · rw [hdb]
        rcases hends.row hrow with hsame | ⟨q, hq, he, hwrites, hdel | ⟨body', hend, hrow'⟩⟩
        · exact Or.inr ⟨body, hsame, hlast⟩
        · exact Or.inl ⟨hdel.2, t, q, ht, hq, hdel.1,
            (he.mayEdit hreach hact hwrites hrow).step hst⟩
        · exact Or.inr ⟨body', hrow', Or.inr ⟨t, q, ht, hq, hend,
            (he.mayEdit hreach hact hwrites hrow).step hst⟩⟩
      · rw [hdb]
        exact Or.inr ⟨body, hrow, hlast⟩

/-- A comment keeps its task and its author; it is deleted, or its body is replaced, by requests of
its author or of an administrator only, and once it is deleted it does not come back. -/
theorem comment_changes (hc : Reachable schema (commentStart db₀ calls) c)
    (hc' : Reachable schema c c') (hm : c.db.row (.comment id) = some m) :
    ((c'.db.row (.comment id) = none ∧ ∃ t q, c'.Committed t ∧ calls t = .request q ∧
        q.endpoint = .deleteTaskComment id ∧
        MayEdit (commentStart db₀ calls) c' q.userId m.userId) ∨
      ∃ body, c'.db.row (.comment id) = some { m with body := body } ∧
        (body = m.body ∨ ∃ t q, c'.Committed t ∧ calls t = .request q ∧
          q.endpoint = .updateTaskComment id body ∧
          MayEdit (commentStart db₀ calls) c' q.userId m.userId)) ∧
    (c'.db.row (.comment id) = none →
      ∀ c'', Reachable schema c' c'' → c''.db.row (.comment id) = none) :=
  ⟨comment_of_run hc hc' hm, fun hnone _ hc'' => comment_stays_deleted hc hc' hm hnone hc''⟩

theorem comment_changes_commentRun : ∃ t q, commentRunDeleted.Committed t ∧
    commentCalls t = .request q ∧ q.endpoint = .deleteTaskComment 3 ∧
    MayEdit (commentStart oneComment commentCalls) commentRunDeleted q.userId 7 ∧
    ∀ c'', Reachable schema commentRunDeleted c'' → c''.db.row (.comment 3) = none := by
  have hm : oneComment.row (.comment 3) = some { taskId := 1, userId := 7, body := "old" } := rfl
  have hnone : commentRunDeleted.db.row (.comment 3) = none := by decide +kernel
  obtain ⟨⟨-, t, q, ht, hq, hend, hmay⟩ | ⟨body, hrow, -⟩, hgone⟩ :=
    comment_changes .refl reachable_commentRunDeleted hm
  · exact ⟨t, q, ht, hq, hend, hmay, hgone hnone⟩
  · rw [hnone] at hrow
    cases hrow

end Run

end TaskDb
