import TaskManagement.Frontend.TaskServer
import Mathlib.Data.List.Nodup

/-!
# The server of the task detail store and its log

The comments of a task are those that the writes of the log have left (`Present`), and its version
counts its PATCHes.

* `ServerOk`: what the server holds is what its log says;
* `GoodAnswer`: an answer shows what the first `n` writes have left, and `GoodAnswer.append`: later
  writes do not change that;
* `handle_ok`: the server keeps its log, and its answers are good.
-/

namespace TaskDetailStore

set_option linter.unusedSectionVars false

variable {ι κ D F : Type} [DecidableEq ι] [DecidableEq κ]

/-! ### Comments and the log of the writes -/

/-- The task has had the comment before the first write. -/
def Original (start : Server ι κ D) (taskId : ι) (c : κ) : Prop :=
  ∃ comment ∈ start.comments, comment.id = c ∧ comment.taskId = taskId

/-- With the writes at the places `A`, the comment has been on the task. -/
def Born (start : Server ι κ D) (log : List (Write ι κ)) (A : ℕ → Prop) (taskId : ι) (c : κ) :
    Prop :=
  Original start taskId c ∨ ∃ k, log[k]? = some (.added taskId c) ∧ A k

/-- With the writes at the places `A`, the comment is on the task. -/
def Present (start : Server ι κ D) (log : List (Write ι κ)) (A : ℕ → Prop) (taskId : ι) (c : κ) :
    Prop :=
  Born start log A taskId c ∧ ¬ ∃ k, log[k]? = some (.removed taskId c) ∧ A k

/-- The version of the task before the first write. -/
def base (start : Server ι κ D) (taskId : ι) : ℤ :=
  ((start.tasks taskId).map TaskUpdateResponse.version).getD 0

/-- The same writes to the comments of the task are at the places `A` of the one log and at the
places `B` of the other. -/
def SameWrites (taskId : ι) (log : List (Write ι κ)) (A : ℕ → Prop) (log' : List (Write ι κ))
    (B : ℕ → Prop) : Prop :=
  ∀ k c, (log[k]? = some (.added taskId c) ∧ A k ↔ log'[k]? = some (.added taskId c) ∧ B k) ∧
    (log[k]? = some (.removed taskId c) ∧ A k ↔ log'[k]? = some (.removed taskId c) ∧ B k)

section Present

variable {start : Server ι κ D} {log log' : List (Write ι κ)} {A B : ℕ → Prop} {taskId : ι} {c : κ}

theorem born_congr (h : SameWrites taskId log A log' B) :
    Born start log A taskId c ↔ Born start log' B taskId c :=
  or_congr_right (exists_congr fun k => (h k c).1)

theorem present_congr (h : SameWrites taskId log A log' B) :
    Present start log A taskId c ↔ Present start log' B taskId c :=
  and_congr (born_congr h) (not_congr (exists_congr fun k => (h k c).2))

/-- What the first `n` writes are, later writes do not change. -/
theorem sameWrites_append (taskId : ι) {n : ℕ} (hn : n ≤ log.length) (ws : List (Write ι κ)) :
    SameWrites taskId log (· < n) (log ++ ws) (· < n) := by
  intro k c
  constructor <;>
  · refine and_congr_left fun hk => ?_
    rw [List.getElem?_append_left (Nat.lt_of_lt_of_le hk hn)]

/-- An answered write is one of the first `n`, and the other way around. -/
theorem sameWrites_of_reflects
    (h : ∀ k c, log[k]? = some (.added taskId c) ∨ log[k]? = some (.removed taskId c) →
      (A k ↔ B k)) : SameWrites taskId log A log B := fun k c =>
  ⟨and_congr_right fun hk => h k c (Or.inl hk), and_congr_right fun hk => h k c (Or.inr hk)⟩

theorem patches_append {n : ℕ} (hn : n ≤ log.length) (ws : List (Write ι κ)) :
    patches (log ++ ws) taskId n = patches log taskId n := by
  rw [patches, patches, List.take_append_of_le_length hn]

theorem patches_all (log : List (Write ι κ)) (taskId : ι) :
    patches log taskId log.length = log.count (.patched taskId) := by
  rw [patches, List.take_length]

end Present

/-! ### The server -/

/-- What the server holds is what its log says. -/
structure ServerOk (start server : Server ι κ D) (log : List (Write ι κ)) (ids : List κ) :
    Prop where
  nodup : (server.comments.map TaskComment.id).Nodup
  version : ∀ t task, server.tasks t = some task →
    task.version = base start t + log.count (.patched t)
  present : ∀ t c, (∃ comment ∈ server.comments, comment.id = c ∧ comment.taskId = t) ↔
    Present start log (fun _ => True) t c
  unique : ∀ (k k' : ℕ) t t' c, log[k]? = some (Write.added t c) →
    log[k']? = some (Write.added t' c) → k = k'
  added : ∀ (k : ℕ) t c, log[k]? = some (Write.added t c) → ∀ t', ¬ Original start t' c
  removed : ∀ (k : ℕ) t c, log[k]? = some (Write.removed t c) → Born start log (· < k) t c
  original_ids : ∀ t c, Original start t c → c ∈ ids
  added_ids : ∀ (k : ℕ) t c, log[k]? = some (Write.added t c) → c ∈ ids

section Server

variable {start server : Server ι κ D} {log : List (Write ι κ)} {ids : List κ}

theorem serverOk_init (h : (start.comments.map TaskComment.id).Nodup) :
    ServerOk start start [] (start.comments.map TaskComment.id) where
  nodup := h
  version t task ht := by simp [base, ht]
  present t c := by simp [Present, Born, Original]
  unique k k' t t' c hk := by simp at hk
  added k t c hk := by simp at hk
  removed k t c hk := by simp at hk
  original_ids t c := by
    rintro ⟨comment, hmem, rfl, -⟩
    exact List.mem_map_of_mem hmem
  added_ids k t c hk := by simp at hk

/-- The ids of the comments of a task. -/
theorem mem_commentsOf_ids {t : ι} {c : κ} :
    c ∈ (server.commentsOf t).map TaskComment.id ↔
      ∃ comment ∈ server.comments, comment.id = c ∧ comment.taskId = t := by
  simp only [Server.commentsOf, List.mem_map, List.mem_filter, decide_eq_true_eq]
  constructor
  · rintro ⟨comment, ⟨hmem, ht⟩, hc⟩
    exact ⟨comment, hmem, hc, ht⟩
  · rintro ⟨comment, hmem, hc, ht⟩
    exact ⟨comment, ⟨hmem, ht⟩, hc⟩

theorem commentsOf_ids_nodup (h : (server.comments.map TaskComment.id).Nodup) (t : ι) :
    ((server.commentsOf t).map TaskComment.id).Nodup :=
  h.sublist (List.filter_sublist.map _)

/-- The comments that a read of the server shows are those that its log says. -/
theorem ServerOk.mem_commentsOf (h : ServerOk start server log ids) (t : ι) (c : κ) :
    c ∈ (server.commentsOf t).map TaskComment.id ↔ Present start log (· < log.length) t c := by
  rw [mem_commentsOf_ids, h.present]
  refine present_congr (sameWrites_of_reflects fun k c hk => ?_)
  have hlt : k < log.length := by
    rcases hk with hk | hk <;> exact (List.getElem?_eq_some_iff.mp hk).1
  simp [hlt]

/-- A comment is on one task only. -/
theorem ServerOk.owner_unique (h : ServerOk start server log ids)
    (hstart : (start.comments.map TaskComment.id).Nodup) {A B : ℕ → Prop} {t t' : ι} {c : κ}
    (ht : Born start log A t c) (ht' : Born start log B t' c) : t = t' := by
  rcases ht with ho | ⟨k, hk, -⟩
  · rcases ht' with ho' | ⟨k', hk', -⟩
    · obtain ⟨x, hx, rfl, rfl⟩ := ho
      obtain ⟨y, hy, hid, rfl⟩ := ho'
      rw [List.inj_on_of_nodup_map hstart hx hy hid.symm]
    · exact absurd ho (h.added k' t' c hk' t)
  · rcases ht' with ho' | ⟨k', hk', -⟩
    · exact absurd ho' (h.added k t c hk t')
    · obtain rfl := h.unique k k' t t' c hk hk'
      rw [hk] at hk'
      exact (Write.added.inj (Option.some.inj hk')).1

end Server

/-! ### What the server answers -/

/-- The task as a read of it after the first `n` writes shows it. -/
structure GoodTask (start : Server ι κ D) (log : List (Write ι κ)) (t : ι) (task : TaskDetail ι D)
    (n : ℕ) : Prop where
  le : n ≤ log.length
  version : task.version = base start t + patches log t n
  count : ∃ L : List κ, L.Nodup ∧ (∀ c, c ∈ L ↔ Present start log (· < n) t c) ∧
    task.commentCount = some (L.length : ℤ)

/-- The comments as a read of them after the first `n` writes shows them. -/
structure GoodComments (start : Server ι κ D) (log : List (Write ι κ)) (t : ι)
    (items : List (TaskComment ι κ)) (n : ℕ) : Prop where
  le : n ≤ log.length
  nodup : (items.map TaskComment.id).Nodup
  present : ∀ c, c ∈ items.map TaskComment.id ↔ Present start log (· < n) t c

/-- The answer is one that the server gives after `n` writes. -/
def GoodAnswer (start : Server ι κ D) (log : List (Write ι κ)) :
    Request ι κ F → Answer ι κ D → ℕ → Prop
  | .openTask _ t, .task task, n | .refreshTask t _, .task task, n => GoodTask start log t task n
  | .openComments _ t, .comments items, n | .refreshComments t, .comments items, n =>
    GoodComments start log t items n
  | .updateTask t _ _, .updatedTask task, n =>
    log[n]? = some (.patched t) ∧ task.version = base start t + patches log t (n + 1)
  | .addComment t _, .comment comment, n => log[n]? = some (.added t comment.id)
  | .updateComment _ c _, .comment comment, _ => comment.id = c
  | .removeComment _ c, .done, n => ∃ t, log[n]? = some (.removed t c)
  | _, .failed _, _ => True
  | _, _, _ => False

section Answers

variable {start server : Server ι κ D} {log : List (Write ι κ)} {ids : List κ}

theorem getElem?_snoc_eq_some {α : Type} {l : List α} {a b : α} {k : ℕ} :
    (l ++ [a])[k]? = some b ↔ l[k]? = some b ∨ (k = l.length ∧ a = b) := by
  rcases Nat.lt_trichotomy k l.length with hk | rfl | hk
  · rw [List.getElem?_append_left hk]
    have hne : k ≠ l.length := Nat.ne_of_lt hk
    simp [hne]
  · simp
  · have hne : k ≠ l.length := Nat.ne_of_gt hk
    simp [hne, List.getElem?_eq_none (show l.length ≤ k by omega),
      List.getElem?_eq_none (show (l ++ [a]).length ≤ k by simp; omega)]

theorem GoodTask.append {t : ι} {task : TaskDetail ι D} {n : ℕ} (h : GoodTask start log t task n)
    (ws : List (Write ι κ)) : GoodTask start (log ++ ws) t task n where
  le := Nat.le_trans h.le (by simp)
  version := by rw [patches_append h.le, h.version]
  count := by
    obtain ⟨L, hL, hmem, hcount⟩ := h.count
    refine ⟨L, hL, fun c => ?_, hcount⟩
    rw [hmem, present_congr (sameWrites_append t h.le ws)]

theorem GoodComments.append {t : ι} {items : List (TaskComment ι κ)} {n : ℕ}
    (h : GoodComments start log t items n) (ws : List (Write ι κ)) :
    GoodComments start (log ++ ws) t items n where
  le := Nat.le_trans h.le (by simp)
  nodup := h.nodup
  present c := by rw [h.present, present_congr (sameWrites_append t h.le ws)]

theorem getElem?_append_of_some {α : Type} {l : List α} {a : α} {k : ℕ} (h : l[k]? = some a)
    (l' : List α) : (l ++ l')[k]? = some a := by
  rw [List.getElem?_append_left (List.getElem?_eq_some_iff.mp h).1, h]

theorem GoodAnswer.append {request : Request ι κ F} {answer : Answer ι κ D} {n : ℕ}
    (h : GoodAnswer start log request answer n) (ws : List (Write ι κ)) :
    GoodAnswer start (log ++ ws) request answer n := by
  cases request with
  | openTask _ t | refreshTask t _ =>
    cases answer with
    | task task => exact GoodTask.append h ws
    | _ => exact h
  | openComments _ t | refreshComments t =>
    cases answer with
    | comments items => exact GoodComments.append h ws
    | _ => exact h
  | updateTask t _ _ =>
    cases answer with
    | updatedTask task =>
      have hlt := (List.getElem?_eq_some_iff.mp h.1).1
      refine ⟨getElem?_append_of_some h.1 ws, ?_⟩
      rw [patches_append hlt]
      exact h.2
    | _ => exact h
  | addComment t _ =>
    cases answer with
    | comment comment => exact getElem?_append_of_some h ws
    | _ => exact h
  | removeComment _ c =>
    cases answer with
    | done =>
      obtain ⟨t, ht⟩ := h
      exact ⟨t, getElem?_append_of_some ht ws⟩
    | _ => exact h
  | updateComment _ c _ | removeTask t =>
    cases answer with
    | _ => exact h

/-- The task that a read of the server answers. -/
theorem ServerOk.getTask (h : ServerOk start server log ids) {t : ι}
    {task : TaskUpdateResponse ι D} (ht : server.tasks t = some task) :
    GoodTask start log t
      { task with commentCount := some ((server.commentsOf t).length : ℤ) } log.length where
  le := Nat.le_refl _
  version := by rw [patches_all, ← h.version t task ht]
  count := by
    refine ⟨(server.commentsOf t).map TaskComment.id, commentsOf_ids_nodup h.nodup t, ?_, ?_⟩
    · exact h.mem_commentsOf t
    · rw [List.length_map]

theorem ServerOk.getTaskComments (h : ServerOk start server log ids) (t : ι) :
    GoodComments start log t (server.commentsOf t) log.length :=
  ⟨Nat.le_refl _, commentsOf_ids_nodup h.nodup t, h.mem_commentsOf t⟩

/-! ### What the server does -/

theorem ServerOk.more_ids (h : ServerOk start server log ids) (newId : κ) :
    ServerOk start server log (newId :: ids) :=
  { h with
    original_ids := fun t c hc => List.mem_cons_of_mem _ (h.original_ids t c hc)
    added_ids := fun k t c hk => List.mem_cons_of_mem _ (h.added_ids k t c hk) }

theorem written_snoc {α : Type} {l : List α} {a b : α} :
    (∃ k : ℕ, (l ++ [a])[k]? = some b ∧ True) ↔ (∃ k : ℕ, l[k]? = some b ∧ True) ∨ a = b := by
  simp only [and_true, getElem?_snoc_eq_some, exists_or, exists_eq_left]

/-- A write that is none to the comments of the task leaves its comments as they are. -/
theorem sameWrites_snoc {t : ι} {w : Write ι κ}
    (hw : ∀ c, w ≠ .added t c ∧ w ≠ .removed t c) :
    SameWrites t log (fun _ => True) (log ++ [w]) (fun _ => True) := by
  intro k c
  simp only [and_true, getElem?_snoc_eq_some]
  simp [(hw c).1, (hw c).2]

theorem born_snoc {t : ι} {c : κ} {w : Write ι κ} {k : ℕ} (hk : k ≤ log.length) :
    Born start (log ++ [w]) (· < k) t c ↔ Born start log (· < k) t c :=
  (born_congr (sameWrites_append t hk [w])).symm

theorem ServerOk.born_ids (h : ServerOk start server log ids) {A : ℕ → Prop} {t : ι} {c : κ}
    (hc : Born start log A t c) : c ∈ ids := by
  rcases hc with ho | ⟨k, hk, -⟩
  · exact h.original_ids t c ho
  · exact h.added_ids k t c hk

theorem ServerOk.mem_ids (h : ServerOk start server log ids) {comment : TaskComment ι κ}
    (hmem : comment ∈ server.comments) : comment.id ∈ ids :=
  h.born_ids ((h.present _ _).mp ⟨comment, hmem, rfl, rfl⟩).1

/-- A PATCH of a task. -/
theorem ServerOk.patched (h : ServerOk start server log ids) {t : ι}
    {task : TaskUpdateResponse ι D} (ht : server.tasks t = some task) (data : D) :
    ServerOk start
      { server with
        tasks := Function.update server.tasks t
          (some { task with version := task.version + 1, data := data }) }
      (log ++ [.patched t]) ids where
  nodup := h.nodup
  version t' task' ht' := by
    dsimp only at ht'
    rw [List.count_append]
    by_cases heq : t' = t
    · subst heq
      rw [Function.update_self] at ht'
      obtain rfl := Option.some.inj ht'
      -- one PATCH more
      have hv := h.version t' task ht
      rw [List.count_singleton_self]
      dsimp only
      omega
    · rw [Function.update_of_ne heq] at ht'
      have hne : Write.patched (κ := κ) t ≠ .patched t' := fun hw =>
        heq (Write.patched.inj hw).symm
      rw [h.version t' task' ht', List.count_singleton, if_neg (by simpa using hne)]
      simp
  present t' c := by
    have hsame : SameWrites t' log (fun _ => True) (log ++ [.patched t]) (fun _ => True) :=
      sameWrites_snoc fun c => ⟨by simp, by simp⟩
    rw [h.present, present_congr hsame]
  unique k k' t' t'' c hk hk' := by
    simp only [getElem?_snoc_eq_some, reduceCtorEq, and_false, or_false] at hk hk'
    exact h.unique k k' t' t'' c hk hk'
  added k t' c hk := by
    simp only [getElem?_snoc_eq_some, reduceCtorEq, and_false, or_false] at hk
    exact h.added k t' c hk
  removed k t' c hk := by
    simp only [getElem?_snoc_eq_some, reduceCtorEq, and_false, or_false] at hk
    rw [born_snoc (Nat.le_of_lt (List.getElem?_eq_some_iff.mp hk).1)]
    exact h.removed k t' c hk
  original_ids := h.original_ids
  added_ids k t' c hk := by
    simp only [getElem?_snoc_eq_some, reduceCtorEq, and_false, or_false] at hk
    exact h.added_ids k t' c hk

/-- A comment that is added, under an id that was never used. -/
theorem ServerOk.commentAdded (h : ServerOk start server log ids) {newId : κ} (hnew : newId ∉ ids)
    (t : ι) (body : String) :
    ServerOk start
      { server with comments := server.comments ++ [⟨newId, t, body⟩] }
      (log ++ [.added t newId]) (newId :: ids) where
  nodup := by
    rw [List.map_append, List.nodup_append]
    refine ⟨h.nodup, List.nodup_singleton _, ?_⟩
    rintro c hc c' hc' rfl
    obtain ⟨comment, hmem, rfl⟩ := List.mem_map.mp hc
    have hid : comment.id = newId := List.mem_singleton.mp hc'
    exact hnew (hid ▸ h.mem_ids hmem)
  version t' task ht' := by
    rw [h.version t' task ht', List.count_append, List.count_singleton, if_neg (by simp)]
    simp
  present t' c := by
    -- the comments of a task, with the new one
    have hadded : (∃ comment ∈ server.comments ++ [⟨newId, t, body⟩], comment.id = c ∧
        comment.taskId = t') ↔ Present start log (fun _ => True) t' c ∨ (newId = c ∧ t = t') := by
      simp [← h.present, or_and_right, exists_or]
    rw [hadded, Present, Present, Born, Born, written_snoc, written_snoc, Write.added.injEq]
    constructor
    · rintro (⟨hborn, hnot⟩ | ⟨rfl, rfl⟩)
      · exact ⟨hborn.imp id Or.inl, fun hr => hnot (hr.resolve_right (by simp))⟩
      · refine ⟨Or.inr (Or.inr ⟨rfl, rfl⟩), fun hr => ?_⟩
        -- the new id was never used, so it was not removed before
        obtain ⟨k, hk, -⟩ := hr.resolve_right (by simp)
        exact hnew (h.born_ids (h.removed k t newId hk))
    · rintro ⟨ho | hk | ⟨rfl, rfl⟩, hnot⟩
      · exact Or.inl ⟨Or.inl ho, fun hr => hnot (Or.inl hr)⟩
      · exact Or.inl ⟨Or.inr hk, fun hr => hnot (Or.inl hr)⟩
      · exact Or.inr ⟨rfl, rfl⟩
  unique k k' t' t'' c hk hk' := by
    rw [getElem?_snoc_eq_some] at hk hk'
    rcases hk with hk | ⟨rfl, hw⟩ <;> rcases hk' with hk' | ⟨rfl, hw'⟩
    · exact h.unique k k' t' t'' c hk hk'
    · exact absurd (h.added_ids k t' c hk) ((Write.added.inj hw').2 ▸ hnew)
    · exact absurd (h.added_ids k' t'' c hk') ((Write.added.inj hw).2 ▸ hnew)
    · rfl
  added k t' c hk t'' ho := by
    rw [getElem?_snoc_eq_some] at hk
    rcases hk with hk | ⟨-, hw⟩
    · exact h.added k t' c hk t'' ho
    · exact hnew ((Write.added.inj hw).2 ▸ h.original_ids t'' c ho)
  removed k t' c hk := by
    simp only [getElem?_snoc_eq_some, reduceCtorEq, and_false, or_false] at hk
    rw [born_snoc (Nat.le_of_lt (List.getElem?_eq_some_iff.mp hk).1)]
    exact h.removed k t' c hk
  original_ids t' c hc := List.mem_cons_of_mem _ (h.original_ids t' c hc)
  added_ids k t' c hk := by
    rw [getElem?_snoc_eq_some] at hk
    rcases hk with hk | ⟨-, hw⟩
    · exact List.mem_cons_of_mem _ (h.added_ids k t' c hk)
    · rw [(Write.added.inj hw).2]
      exact List.mem_cons_self

/-- A comment that is removed. -/
theorem ServerOk.commentRemoved (h : ServerOk start server log ids) {comment : TaskComment ι κ}
    (hmem : comment ∈ server.comments) :
    ServerOk start
      { server with comments := server.comments.filter fun x => x.id ≠ comment.id }
      (log ++ [.removed comment.taskId comment.id]) ids where
  nodup := h.nodup.sublist (List.filter_sublist.map _)
  version t task ht := by
    rw [h.version t task ht, List.count_append, List.count_singleton, if_neg (by simp)]
    simp
  present t c := by
    -- the comments of a task, without the removed one
    have hkept : (∃ x ∈ server.comments.filter fun x => x.id ≠ comment.id, x.id = c ∧
        x.taskId = t) ↔ Present start log (fun _ => True) t c ∧ comment.id ≠ c := by
      rw [← h.present]
      simp only [List.mem_filter, decide_eq_true_eq]
      constructor
      · rintro ⟨x, ⟨hx, hne⟩, rfl, rfl⟩
        exact ⟨⟨x, hx, rfl, rfl⟩, Ne.symm hne⟩
      · rintro ⟨⟨x, hx, rfl, rfl⟩, hne⟩
        exact ⟨x, ⟨hx, Ne.symm hne⟩, rfl, rfl⟩
    rw [hkept, Present, Present, Born, Born, written_snoc, written_snoc, Write.removed.injEq]
    constructor
    · rintro ⟨⟨hborn, hnot⟩, hne⟩
      exact ⟨hborn.imp id Or.inl, fun hr => hr.elim hnot fun heq => hne heq.2⟩
    · rintro ⟨hborn, hnot⟩
      have hborn' : Born start log (fun _ => True) t c :=
        hborn.imp id fun hk => hk.resolve_right (by simp)
      refine ⟨⟨hborn', fun hr => hnot (Or.inl hr)⟩, ?_⟩
      rintro rfl
      -- the id belongs to one comment, which is of the task `t`
      obtain ⟨x, hx, hid, rfl⟩ := (h.present t comment.id).mpr
        ⟨hborn', fun hr => hnot (Or.inl hr)⟩
      rw [List.inj_on_of_nodup_map h.nodup hx hmem hid] at hnot
      exact hnot (Or.inr ⟨rfl, rfl⟩)
  unique k k' t' t'' c hk hk' := by
    simp only [getElem?_snoc_eq_some, reduceCtorEq, and_false, or_false] at hk hk'
    exact h.unique k k' t' t'' c hk hk'
  added k t' c hk := by
    simp only [getElem?_snoc_eq_some, reduceCtorEq, and_false, or_false] at hk
    exact h.added k t' c hk
  removed k t c hk := by
    rw [getElem?_snoc_eq_some] at hk
    rcases hk with hk | ⟨rfl, hw⟩
    · rw [born_snoc (Nat.le_of_lt (List.getElem?_eq_some_iff.mp hk).1)]
      exact h.removed k t c hk
    · obtain ⟨rfl, rfl⟩ := Write.removed.inj hw
      rw [born_snoc (Nat.le_refl _)]
      exact ((h.mem_commentsOf _ _).mp (mem_commentsOf_ids.mpr ⟨comment, hmem, rfl, rfl⟩)).1
  original_ids := h.original_ids
  added_ids k t c hk := by
    simp only [getElem?_snoc_eq_some, reduceCtorEq, and_false, or_false] at hk
    exact h.added_ids k t c hk

/-- A comment whose text is changed. -/
theorem ServerOk.commentUpdated (h : ServerOk start server log ids) (c : κ) (body : String) :
    ServerOk start
      { server with
        comments := server.comments.map fun x => if x.id = c then { x with body := body } else x }
      log ids := by
  have hid : ∀ x : TaskComment ι κ,
      (if x.id = c then { x with body := body } else x).id = x.id := by
    intro x
    split <;> rfl
  have ht : ∀ x : TaskComment ι κ,
      (if x.id = c then { x with body := body } else x).taskId = x.taskId := by
    intro x
    split <;> rfl
  refine { h with nodup := ?_, present := fun t c' => ?_ }
  · rw [List.map_map, Function.comp_def]
    simpa only [hid] using h.nodup
  · rw [← h.present]
    simp only [List.mem_map, exists_exists_and_eq_and, hid, ht]

/-- What an API call does to the server and to the log, and what its answer is. -/
structure Handled (start : Server ι κ D) (log : List (Write ι κ)) (ids : List κ)
    (request : Request ι κ F) (x : Answer ι κ D × Server ι κ D × List (Write ι κ)) : Prop where
  server : ServerOk start x.2.1 (log ++ x.2.2) ids
  answer : GoodAnswer start (log ++ x.2.2) request x.1 log.length
  write : (x.2.2 = [] ∧ Flight.write ⟨request, .answered x.1 log.length⟩ = none) ∨
    ∃ w, x.2.2 = [w] ∧ Flight.write ⟨request, .answered x.1 log.length⟩ = some log.length

theorem ServerOk.read (h : ServerOk start server log ids) {request : Request ι κ F}
    {answer : Answer ι κ D} (hanswer : GoodAnswer start log request answer log.length)
    (hwrite : Flight.write ⟨request, .answered answer log.length⟩ = none) :
    Handled start log ids request (answer, server, []) where
  server := by rwa [List.append_nil]
  answer := by rwa [List.append_nil]
  write := Or.inl ⟨rfl, hwrite⟩

theorem handle_ok (apply : F → D → D) (h : ServerOk start server log ids) {newId : κ}
    (hnew : newId ∉ ids) {request : Request ι κ F}
    {x : Answer ι κ D × Server ι κ D × List (Write ι κ)}
    (hx : server.handle apply newId request = some x) :
    Handled start log (newId :: ids) request x := by
  have h' := h.more_ids newId
  cases request with
  | openTask _ t | refreshTask t _ =>
    obtain rfl := Option.some.inj hx
    unfold Server.getTask
    split
    · exact h'.read trivial rfl
    · rename_i task ht
      exact h'.read (h.getTask ht) rfl
  | openComments _ t | refreshComments t =>
    obtain rfl := Option.some.inj hx
    unfold Server.getTaskComments
    split
    · exact h'.read trivial rfl
    · exact h'.read (h.getTaskComments t) rfl
  | updateTask t fields version =>
    simp only [Server.handle] at hx
    split at hx
    · obtain rfl := Option.some.inj hx
      exact h'.read trivial rfl
    · rename_i task ht
      split at hx
      · obtain rfl := Option.some.inj hx
        exact h'.read trivial rfl
      · -- the version is the current one
        rename_i hversion
        obtain rfl := not_not.mp hversion
        obtain rfl := Option.some.inj hx
        have hnow := h'.patched ht (apply fields task.data)
        refine ⟨hnow, ⟨List.getElem?_concat_length, ?_⟩, Or.inr ⟨_, rfl, rfl⟩⟩
        have hlen : log.length + 1 = (log ++ [Write.patched (κ := κ) t]).length := by simp
        rw [hlen, patches_all]
        exact hnow.version t _ (Function.update_self ..)
  | addComment t body =>
    simp only [Server.handle] at hx
    split at hx
    · obtain rfl := Option.some.inj hx
      exact h'.read trivial rfl
    · obtain rfl := Option.some.inj hx
      exact ⟨h.commentAdded hnew t body, List.getElem?_concat_length, Or.inr ⟨_, rfl, rfl⟩⟩
  | updateComment t c body =>
    simp only [Server.handle] at hx
    split at hx
    · obtain rfl := Option.some.inj hx
      exact h'.read trivial rfl
    · rename_i comment hfind
      obtain rfl := Option.some.inj hx
      have hid : comment.id = c := by simpa using List.find?_some hfind
      refine ⟨?_, hid, Or.inl ⟨rfl, rfl⟩⟩
      rw [List.append_nil]
      exact h'.commentUpdated c body
  | removeComment t c =>
    simp only [Server.handle] at hx
    split at hx
    · obtain rfl := Option.some.inj hx
      exact h'.read trivial rfl
    · rename_i comment hfind
      obtain rfl := Option.some.inj hx
      obtain rfl : comment.id = c := by simpa using List.find?_some hfind
      have hmem := List.mem_of_find?_eq_some hfind
      exact ⟨h'.commentRemoved hmem, ⟨_, List.getElem?_concat_length⟩, Or.inr ⟨_, rfl, rfl⟩⟩
  | removeTask t => cases hx

end Answers

end TaskDetailStore
