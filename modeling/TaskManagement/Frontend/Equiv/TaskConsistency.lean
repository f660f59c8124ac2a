import TaskManagement.Frontend.Equiv.TaskDetail
import TaskManagement.Frontend.Equiv.TaskServer
import Mathlib.Data.List.Perm.Basic

/-!
# The task detail store agrees with its server

The store shows the comments that the writes whose answers have arrived leave, as long as every
list that a read puts there holds exactly these.

* `Fits`: what the state shows of a task, with the lemmas for the changes of the state
  (`Fits.quiet`, `Fits.comments`, `Fits.task`, `Fits.add`, `Fits.remove`);
* `Inv`: the invariant of the browser and its server, and the step lemmas `Inv.act`,
  `Inv.handled` and `Inv.arrive`;
* `orderly_consistent`: in every run whose answers all find the state that they were made for, the
  comments that are shown are distinct, the version never decreases, and with no API call under way
  the comments and their number are those of the server;
* `not_consistent`: an answer that comes after the task was opened again shows a comment twice.
-/

namespace TaskDetailStore

set_option linter.unusedSectionVars false

variable {ι κ D F : Type} [DecidableEq ι] [DecidableEq κ]

/-! ### What the state shows -/

/-- The state shows the task and its comments as the writes at the places `A` leave them, with the
first `shown` PATCHes of the task; the list of the comments may be missing after an error. -/
structure Fits (start : Server ι κ D) (log : List (Write ι κ)) (A : ℕ → Prop)
    (state : TaskDetailState ι κ D) (shown : ℕ) (t : ι) : Prop where
  nodup : (state.comments.map TaskComment.id).Nodup
  present : ∀ c ∈ state.comments.map TaskComment.id, Present start log A t c
  complete : state.commentsError = none → ∀ c, Present start log A t c →
    c ∈ state.comments.map TaskComment.id
  version : ∀ task, state.task = some task → task.version = base start t + shown
  count : ∀ task, state.task = some task → ∃ L : List κ, L.Nodup ∧
    (∀ c, c ∈ L ↔ Present start log A t c) ∧ task.commentCount = some (L.length : ℤ)
  born : state.task.isSome ∨ state.commentsError = none →
    ∀ (k : ℕ) c, log[k]? = some (Write.removed t c) → A k → Born start log A t c

/-- The comments, the task and the task id stay as they are. -/
structure Quiet (state state' : TaskDetailState ι κ D) : Prop where
  taskId : state'.taskId = state.taskId
  isLoading : state'.isLoading = state.isLoading
  task : state'.task = state.task
  comments : state'.comments.map TaskComment.id = state.comments.map TaskComment.id
  commentsError : state'.commentsError = none → state.commentsError = none

theorem Quiet.refl (state : TaskDetailState ι κ D) : Quiet state state :=
  ⟨rfl, rfl, rfl, rfl, id⟩

theorem Quiet.trans {state state' state'' : TaskDetailState ι κ D} (h : Quiet state state')
    (h' : Quiet state' state'') : Quiet state state'' :=
  ⟨h'.taskId.trans h.taskId, h'.isLoading.trans h.isLoading, h'.task.trans h.task,
    h'.comments.trans h.comments, fun hn => h.commentsError (h'.commentsError hn)⟩

section Fits

variable {start server : Server ι κ D} {log log' : List (Write ι κ)} {ids : List κ}
  {A B : ℕ → Prop} {state state' : TaskDetailState ι κ D} {shown n : ℕ} {t : ι}

theorem Fits.quiet (h : Fits start log A state shown t) (hq : Quiet state state') :
    Fits start log A state' shown t where
  nodup := by
    rw [hq.comments]
    exact h.nodup
  present := by
    rw [hq.comments]
    exact h.present
  complete hn := by
    rw [hq.comments]
    exact h.complete (hq.commentsError hn)
  version := by
    rw [hq.task]
    exact h.version
  count := by
    rw [hq.task]
    exact h.count
  born hthere := by
    rw [hq.task] at hthere
    exact h.born (hthere.imp_right hq.commentsError)

/-- Writes to other tasks do not matter. -/
theorem Fits.congr (h : Fits start log A state shown t) (hsame : SameWrites t log A log' B) :
    Fits start log' B state shown t where
  nodup := h.nodup
  present c hc := (present_congr hsame).mp (h.present c hc)
  complete hn c hc := h.complete hn c ((present_congr hsame).mpr hc)
  version := h.version
  count task htask := by
    obtain ⟨L, hL, hmem, hcount⟩ := h.count task htask
    exact ⟨L, hL, fun c => (hmem c).trans (present_congr hsame), hcount⟩
  born hthere k c hk hB := by
    obtain ⟨hk', hA⟩ := (hsame k c).2.mpr ⟨hk, hB⟩
    exact (born_congr hsame).mp (h.born hthere k c hk' hA)

/-- The answers to writes up to `n`, and to no others, have arrived: what is removed was there. -/
theorem ServerOk.born_of_sameWrites (h : ServerOk start server log ids)
    (hsame : SameWrites t log (· < n) log A) (k : ℕ) (c : κ)
    (hk : log[k]? = some (.removed t c)) (hA : A k) : Born start log A t c := by
  have hlt := ((hsame k c).2.mpr ⟨hk, hA⟩).2
  rw [← born_congr hsame]
  exact (h.removed k t c hk).imp id fun ⟨j, hj, hjk⟩ => ⟨j, hj, Nat.lt_trans hjk hlt⟩

/-- A task that was read after the first `n` writes. -/
theorem GoodTask.fits {task : TaskDetail ι D} (h : GoodTask start log t task n)
    (hsame : SameWrites t log (· < n) log A) :
    task.version = base start t + patches log t n ∧ ∃ L : List κ, L.Nodup ∧
      (∀ c, c ∈ L ↔ Present start log A t c) ∧ task.commentCount = some (L.length : ℤ) := by
  obtain ⟨L, hL, hmem, hcount⟩ := h.count
  exact ⟨h.version, L, hL, fun c => (hmem c).trans (present_congr hsame), hcount⟩

/-- The comments as they were read after the first `n` writes are shown. -/
theorem Fits.comments {items : List (TaskComment ι κ)} (h : Fits start log A state shown t)
    (hok : ServerOk start server log ids) (hgood : GoodComments start log t items n)
    (hsame : SameWrites t log (· < n) log A)
    (hcomments : state'.comments = items) (htask : state'.task = state.task) :
    Fits start log A state' shown t where
  nodup := hcomments ▸ hgood.nodup
  present c hc := (present_congr hsame).mp ((hgood.present c).mp (hcomments ▸ hc))
  complete _ c hc := by
    rw [hcomments, hgood.present, present_congr hsame]
    exact hc
  version := htask ▸ h.version
  count := htask ▸ h.count
  born _ := hok.born_of_sameWrites hsame

/-- One more answered write: a comment that is added. -/
theorem present_added (hok : ServerOk start server log ids) {c : κ}
    (hn : log[n]? = some (.added t c)) (hnot : ¬ A n)
    (hborn : ∀ (k : ℕ) x, log[k]? = some (Write.removed t x) → A k → Born start log A t x) :
    ¬ Present start log A t c ∧ ∀ x, Present start log (fun k => A k ∨ k = n) t x ↔
      Present start log A t x ∨ x = c := by
  have hunborn : ¬ Born start log A t c := by
    rintro (ho | ⟨k, hk, hA⟩)
    · exact hok.added n t c hn t ho
    · exact hnot (hok.unique k n t t c hk hn ▸ hA)
  refine ⟨fun hp => hunborn hp.1, fun x => ?_⟩
  have hremoved : (∃ k, log[k]? = some (.removed t x) ∧ (A k ∨ k = n)) ↔
      ∃ k, log[k]? = some (.removed t x) ∧ A k := by
    refine exists_congr fun k => and_congr_right fun hk => or_iff_left ?_
    rintro rfl
    simp [hn] at hk
  rw [Present, hremoved]
  constructor
  · rintro ⟨ho | ⟨k, hk, hA | rfl⟩, hrem⟩
    · exact Or.inl ⟨Or.inl ho, hrem⟩
    · exact Or.inl ⟨Or.inr ⟨k, hk, hA⟩, hrem⟩
    · rw [hn] at hk
      exact Or.inr (Write.added.inj (Option.some.inj hk)).2.symm
  · rintro (⟨hb, hrem⟩ | rfl)
    · refine ⟨hb.imp id ?_, hrem⟩
      rintro ⟨k, hk, hA⟩
      exact ⟨k, hk, Or.inl hA⟩
    · refine ⟨Or.inr ⟨n, hn, Or.inr rfl⟩, ?_⟩
      rintro ⟨k, hk, hA⟩
      exact hunborn (hborn k x hk hA)

/-- One more answered write: a comment that is removed. -/
theorem present_removed {c : κ} (hn : log[n]? = some (.removed t c)) (x : κ) :
    Present start log (fun k => A k ∨ k = n) t x ↔ Present start log A t x ∧ x ≠ c := by
  have hborn : Born start log (fun k => A k ∨ k = n) t x ↔ Born start log A t x := by
    refine or_congr_right (exists_congr fun k => and_congr_right fun hk => or_iff_left ?_)
    rintro rfl
    simp [hn] at hk
  rw [Present, Present, hborn]
  constructor
  · rintro ⟨hb, hrem⟩
    refine ⟨⟨hb, ?_⟩, ?_⟩
    · rintro ⟨k, hk, hA⟩
      exact hrem ⟨k, hk, Or.inl hA⟩
    rintro rfl
    exact hrem ⟨n, hn, Or.inr rfl⟩
  · rintro ⟨⟨hb, hrem⟩, hne⟩
    refine ⟨hb, ?_⟩
    rintro ⟨k, hk, hA | rfl⟩
    · exact hrem ⟨k, hk, hA⟩
    · rw [hn] at hk
      exact hne (Write.removed.inj (Option.some.inj hk)).2.symm

/-- A comment is added, and the state shows it. -/
theorem Fits.add (h : Fits start log A state shown t) (hok : ServerOk start server log ids)
    {comment : TaskComment ι κ} (hn : log[n]? = some (.added t comment.id)) (hnot : ¬ A n)
    (hsome : state.task.isSome) (hcomments : state'.comments = state.comments ++ [comment])
    (herror : state'.commentsError = state.commentsError)
    (htask : state'.task = state.task.map fun task =>
      { task with commentCount := task.commentCount.map (· + 1) }) :
    Fits start log (fun k => A k ∨ k = n) state' shown t := by
  -- one write more: the added comment is new
  obtain ⟨hnew, hpresent⟩ := present_added hok hn hnot (h.born (Or.inl hsome))
  have hids : state'.comments.map TaskComment.id =
      state.comments.map TaskComment.id ++ [comment.id] := by
    rw [hcomments, List.map_append]
    rfl
  constructor
  · rw [hids, List.nodup_append]
    refine ⟨h.nodup, List.nodup_singleton _, ?_⟩
    rintro c hc c' hc' rfl
    obtain rfl := List.mem_singleton.mp hc'
    exact hnew (h.present _ hc)
  · intro c hc
    rw [hids, List.mem_append, List.mem_singleton] at hc
    exact (hpresent c).mpr (hc.imp_left (h.present c))
  · intro hnone c hc
    rw [herror] at hnone
    rw [hids, List.mem_append, List.mem_singleton]
    exact ((hpresent c).mp hc).imp_left (h.complete hnone c)
  · intro task' htask'
    rw [htask] at htask'
    obtain ⟨task, hsome, rfl⟩ := Option.map_eq_some_iff.mp htask'
    exact h.version task hsome
  · intro task' htask'
    rw [htask] at htask'
    obtain ⟨task, hsome, rfl⟩ := Option.map_eq_some_iff.mp htask'
    obtain ⟨L, hL, hmem, hcount⟩ := h.count task hsome
    refine ⟨L ++ [comment.id], ?_, fun c => ?_, ?_⟩
    · refine List.nodup_append.mpr ⟨hL, List.nodup_singleton _, ?_⟩
      rintro c hc c' hc' rfl
      obtain rfl := List.mem_singleton.mp hc'
      exact hnew ((hmem _).mp hc)
    · rw [hpresent, List.mem_append, List.mem_singleton, hmem]
    · simp [hcount]
  · intro _ k c hk hA
    have hA' : A k := hA.resolve_right (by rintro rfl; simp [hn] at hk)
    exact (h.born (Or.inl hsome) k c hk hA').imp id fun ⟨j, hj, hAj⟩ => ⟨j, hj, Or.inl hAj⟩

/-- A comment that the state shows is removed. -/
theorem Fits.remove (h : Fits start log A state shown t) {c : κ}
    (hn : log[n]? = some (.removed t c)) (hc : c ∈ state.comments.map TaskComment.id)
    (hcomments : state'.comments = state.comments.filter fun comment => comment.id ≠ c)
    (herror : state'.commentsError = state.commentsError)
    (htask : state'.task = state.task.map lessComment) :
    Fits start log (fun k => A k ∨ k = n) state' shown t := by
  -- one write more: the removed comment is present no longer
  have hpresent : ∀ x, Present start log (fun k => A k ∨ k = n) t x ↔
      Present start log A t x ∧ x ≠ c := present_removed hn
  have hids : ∀ x, x ∈ state'.comments.map TaskComment.id ↔
      x ∈ state.comments.map TaskComment.id ∧ x ≠ c := by
    intro x
    rw [hcomments]
    simp only [List.mem_map, List.mem_filter, decide_eq_true_eq]
    constructor
    · rintro ⟨comment, ⟨hmem, hne⟩, rfl⟩
      exact ⟨⟨comment, hmem, rfl⟩, hne⟩
    · rintro ⟨⟨comment, hmem, rfl⟩, hne⟩
      exact ⟨comment, ⟨hmem, hne⟩, rfl⟩
  constructor
  · rw [hcomments]
    exact h.nodup.sublist (List.filter_sublist.map _)
  · intro x hx
    obtain ⟨hmem, hne⟩ := (hids x).mp hx
    exact (hpresent x).mpr ⟨h.present x hmem, hne⟩
  · intro hnone x hx
    rw [herror] at hnone
    obtain ⟨hp, hne⟩ := (hpresent x).mp hx
    exact (hids x).mpr ⟨h.complete hnone x hp, hne⟩
  · intro task' htask'
    rw [htask] at htask'
    obtain ⟨task, hsome, rfl⟩ := Option.map_eq_some_iff.mp htask'
    exact h.version task hsome
  · intro task' htask'
    rw [htask] at htask'
    obtain ⟨task, hsome, rfl⟩ := Option.map_eq_some_iff.mp htask'
    obtain ⟨L, hL, hmem, hcount⟩ := h.count task hsome
    -- the removed comment was counted
    have hcL : c ∈ L := (hmem c).mpr (h.present c hc)
    refine ⟨L.erase c, hL.erase c, fun x => ?_, ?_⟩
    · rw [hL.mem_erase_iff, hpresent, hmem, and_comm]
    · have hpos := List.length_pos_of_mem hcL
      have hless : max 0 ((L.length : ℤ) - 1) = ((L.length - 1 : ℕ) : ℤ) := by omega
      rw [List.length_erase_of_mem hcL, lessComment, hcount, Option.map_some, hless]
  · intro hthere k x hk hA
    rw [htask, herror, Option.isSome_map] at hthere
    have hb : Born start log A t x := by
      rcases hA with hA | rfl
      · exact h.born hthere k x hk hA
      · rw [hn] at hk
        rw [← (Write.removed.inj (Option.some.inj hk)).2]
        exact (h.present c hc).1
    exact hb.imp id fun ⟨j, hj, hAj⟩ => ⟨j, hj, Or.inl hAj⟩

end Fits

/-! ### One answer -/

/-- An API call that the server has not handled is no write. -/
theorem filterMap_sent (requests : List (Request ι κ F)) :
    (requests.map fun request => (⟨request, .sent⟩ : Flight ι κ D F)).filterMap Flight.write =
      [] := by
  rw [List.filterMap_map]
  refine List.filterMap_eq_nil_iff.mpr fun request _ => ?_
  cases request <;> rfl

/-- A write is answered when its answer arrives. -/
theorem unanswered_arrive {w : World ι κ D F} (hnodup : w.unanswered.Nodup) {i : ℕ}
    {f : Flight ι κ D F} (hf : w.flights[i]? = some f) (nested : List (Request ι κ F)) :
    ((w.flights.eraseIdx i ++ nested.map (Flight.mk · .sent)).filterMap Flight.write).Nodup ∧
      ∀ k, k ∉ (w.flights.eraseIdx i ++ nested.map (Flight.mk · .sent)).filterMap Flight.write ↔
        k ∉ w.unanswered ∨ f.write = some k := by
  obtain ⟨hi, rfl⟩ := List.getElem?_eq_some_iff.mp hf
  have hperm : (w.flights[i].write.toList ++
      (w.flights.eraseIdx i).filterMap Flight.write).Perm w.unanswered := by
    have h := (List.getElem_cons_eraseIdx_perm hi).filterMap Flight.write
    rw [List.filterMap_cons] at h
    cases hw : w.flights[i].write with
    | none =>
      rw [hw] at h
      exact h
    | some k =>
      rw [hw] at h
      exact h
  have hnodup' := hperm.nodup_iff.mpr hnodup
  rw [List.filterMap_append, filterMap_sent, List.append_nil]
  refine ⟨(List.nodup_append.mp hnodup').2.1, fun k => ?_⟩
  rw [← hperm.mem_iff, List.mem_append, Option.mem_toList]
  constructor
  · intro hk
    by_cases hw : w.flights[i].write = some k
    · exact Or.inr hw
    · exact Or.inl fun h => h.elim hw hk
  · rintro (hk | hw) hmem
    · exact hk (Or.inr hmem)
    · exact (List.nodup_append.mp hnodup').2.2 k (Option.mem_toList.mpr hw) k hmem rfl

theorem sameWrites_reflects {w : World ι κ D F} {t : ι} {m : ℕ} (h : w.Reflects t m) :
    SameWrites t w.log (· < m) w.log (· ∉ w.unanswered) :=
  sameWrites_of_reflects fun k c hk => (h k c hk).symm

/-- A write that is none to the comments of the task may be answered. -/
theorem sameWrites_or {t : ι} {log : List (Write ι κ)} {A : ℕ → Prop} {o : Option ℕ}
    (ho : ∀ k, o = some k → ∀ c, log[k]? ≠ some (.added t c) ∧ log[k]? ≠ some (.removed t c)) :
    SameWrites t log A log (fun k => A k ∨ o = some k) := by
  intro k c
  constructor
  · refine and_congr_right fun hk => (or_iff_left fun hok => ?_).symm
    exact (ho k hok c).1 hk
  · refine and_congr_right fun hk => (or_iff_left fun hok => ?_).symm
    exact (ho k hok c).2 hk

/-! ### The invariant -/

/-- What holds of a browser and its server as long as the answers come in order. -/
structure Inv (start : Server ι κ D) (w : World ι κ D F) : Prop where
  server : ServerOk start w.server w.log w.ids
  answers : ∀ request answer n, ⟨request, .answered answer n⟩ ∈ w.flights →
    GoodAnswer start w.log request answer n
  unanswered : w.unanswered.Nodup
  halves : ∀ request phase, ⟨request, phase⟩ ∈ w.flights → ∀ r t, request.half = some (r, t) →
    r ≤ w.store.requestId ∧ (r = w.store.requestId → w.store.state.taskId = some t)
  fresh : ∀ r, w.store.requestId < r →
    w.store.taskResults r = none ∧ w.store.commentsResults r = none
  taskResult : ∀ task t, w.store.taskResults w.store.requestId = some (.ok task) →
    w.store.state.taskId = some t →
    GoodTask start w.log t task (w.taskWrites w.store.requestId)
  commentsResult : ∀ items t, w.store.commentsResults w.store.requestId = some (.ok items) →
    w.store.state.taskId = some t →
    GoodComments start w.log t items (w.commentsWrites w.store.requestId)
  closed : w.store.state.taskId = none → w.store.state.task = none
  fits : ∀ t, w.Shows t →
    Fits start w.log (· ∉ w.unanswered) w.store.state (w.shown t) t

theorem inv_init {start : Server ι κ D} (h : (start.comments.map TaskComment.id).Nodup) :
    Inv start (World.init start : World ι κ D F) where
  server := serverOk_init h
  answers request answer n hf := by cases hf
  unanswered := List.nodup_nil
  halves request phase hf := by cases hf
  fresh r hr := ⟨rfl, rfl⟩
  taskResult task t hr := by cases hr
  commentsResult items t hr := by cases hr
  closed _ := rfl
  fits t hshows := by cases hshows.1

section Step

variable {start : Server ι κ D} {w : World ι κ D F}

theorem half_eq_none_of_numbered {request : Request ι κ F} (h : ∀ n, Numbered n request) :
    request.half = none := by
  cases request with
  | openTask r t | openComments r t =>
    have h₀ : r = 0 := h 0
    have h₁ : r = 1 := h 1
    omega
  | _ => rfl

/-- The store goes on with the same task, and no half of an `open` is sent. -/
theorem Inv.kept (h : Inv start w) {store : Store ι κ D} {flights : List (Flight ι κ D F)}
    {shown : ι → ℕ} (hkept : Kept w.store store)
    (hflights : ∀ f ∈ flights, f ∈ w.flights ∨
      ∃ request, request.half = none ∧ f = ⟨request, .sent⟩)
    (hnodup : (flights.filterMap Flight.write).Nodup)
    (hclosed : w.store.state.taskId = none → store.state.task = w.store.state.task)
    (hfits : ∀ t, w.Shows t →
      Fits start w.log (· ∉ flights.filterMap Flight.write) store.state (shown t) t) :
    Inv start { w with store := store, flights := flights, shown := shown } where
  server := h.server
  answers request answer n hf := by
    rcases hflights _ hf with hf | ⟨request', -, heq⟩
    · exact h.answers request answer n hf
    · cases heq
  unanswered := hnodup
  halves request phase hf r t hr := by
    dsimp only
    rw [hkept.requestId, hkept.taskId]
    rcases hflights _ hf with hf | ⟨request', hnone, heq⟩
    · exact h.halves request phase hf r t hr
    · cases heq
      rw [hnone] at hr
      cases hr
  fresh r hr := by
    dsimp only at hr ⊢
    rw [hkept.requestId] at hr
    rw [hkept.taskResults, hkept.commentsResults]
    exact h.fresh r hr
  taskResult task t hr ht := by
    dsimp only at hr ht ⊢
    rw [hkept.taskResults, hkept.requestId] at hr
    rw [hkept.taskId] at ht
    rw [hkept.requestId]
    exact h.taskResult task t hr ht
  commentsResult items t hr ht := by
    dsimp only at hr ht ⊢
    rw [hkept.commentsResults, hkept.requestId] at hr
    rw [hkept.taskId] at ht
    rw [hkept.requestId]
    exact h.commentsResult items t hr ht
  closed hnone := by
    have hnone' : w.store.state.taskId = none := hkept.taskId ▸ hnone
    exact (hclosed hnone').trans (h.closed hnone')
  fits t hshows := hfits t ⟨hkept.taskId ▸ hshows.1, hkept.isLoading ▸ hshows.2⟩

/-! ### The calls of the user interface -/

theorem startSaving_kept (s : Store ι κ D) : Kept s s.startSaving := Kept.setState rfl rfl

theorem startSaving_quiet (s : Store ι κ D) : Quiet s.state s.startSaving.state :=
  ⟨rfl, rfl, rfl, rfl, id⟩

/-- Apart from `open` and `reset`, a call leaves the task and its comments as they are. -/
theorem act_quiet {s : Store ι κ D} {action : Action ι κ F} (h : action.restarts = false) :
    Kept s (s.act action).1 ∧ Quiet s.state (s.act action).1.state ∧
      ∀ request ∈ (s.act action).2, request.half = none := by
  have hsame : Kept s s ∧ Quiet s.state s.state ∧
      ∀ request ∈ ([] : List (Request ι κ F)), request.half = none :=
    ⟨Kept.refl s, Quiet.refl s.state, by simp⟩
  cases action with
  | reset | openTask _ => cases h
  | updateTask t fields =>
    simp only [Store.act]
    split
    · split
      · exact hsame
      · exact ⟨startSaving_kept s, startSaving_quiet s, by simp [Request.half]⟩
    · exact hsame
  | addComment t body =>
    simp only [Store.act]
    split
    · exact hsame
    · exact ⟨startSaving_kept s, startSaving_quiet s, by simp [Request.half]⟩
  | updateComment _ _ | removeComment _ _ | removeTask _ =>
    exact ⟨startSaving_kept s, startSaving_quiet s, by simp [Store.act, Request.half]⟩
  | requestClose | acknowledgeClose =>
    exact ⟨Kept.setState rfl rfl, ⟨rfl, rfl, rfl, rfl, id⟩, by simp [Store.act]⟩

/-- A call of `open` or `reset` begins a new generation, in which nothing is shown. -/
theorem act_restarts {s : Store ι κ D} {action : Action ι κ F} (h : action.restarts = true) :
    (s.act action).1.requestId = s.requestId + 1 ∧
      (s.act action).1.taskResults = s.taskResults ∧
      (s.act action).1.commentsResults = s.commentsResults ∧
      (∀ t, (s.act action).1.state.taskId = some t → (s.act action).1.state.isLoading = true) ∧
      (s.act action).1.state.task = none ∧
      ∀ request ∈ (s.act action).2, ∃ t, request.half = some (s.requestId + 1, t) ∧
        (s.act action).1.state.taskId = some t := by
  cases action with
  | reset => exact ⟨rfl, rfl, rfl, fun _ => nofun, rfl, by simp [Store.act]⟩
  | openTask t =>
    refine ⟨rfl, rfl, rfl, fun _ _ => rfl, rfl, fun request hr => ⟨t, ?_, rfl⟩⟩
    obtain rfl | rfl : request = .openTask (s.requestId + 1) t ∨
        request = .openComments (s.requestId + 1) t := by
      simpa [Store.act, Store.openTask] using hr
    · rfl
    · rfl
  | _ => cases h

theorem unanswered_act (w : World ι κ D F) (requests : List (Request ι κ F)) :
    (w.flights ++ requests.map (Flight.mk · .sent)).filterMap Flight.write = w.unanswered := by
  rw [List.filterMap_append, filterMap_sent, List.append_nil]
  rfl

theorem Inv.act (h : Inv start w) (action : Action ι κ F) :
    Inv start { w with
      store := (w.store.act action).1
      flights := w.flights ++ (w.store.act action).2.map (Flight.mk · .sent) } := by
  have hun := unanswered_act w (w.store.act action).2
  cases hrestarts : action.restarts with
  | false =>
    -- the action sends requests about the task that is open
    obtain ⟨hkept, hquiet, hhalf⟩ := act_quiet (s := w.store) hrestarts
    refine h.kept hkept ?_ (hun ▸ h.unanswered) (fun _ => hquiet.task) fun t ht => ?_
    · intro f hf
      refine (List.mem_append.mp hf).imp_right fun hf => ?_
      obtain ⟨request, hr, rfl⟩ := List.mem_map.mp hf
      exact ⟨request, hhalf request hr, rfl⟩
    · rw [hun]
      exact (h.fits t ht).quiet hquiet
  | true =>
    -- the action opens a task or closes it: the next request number has no half yet
    obtain ⟨hid, htask, hcomments, hloading, hnone, hhalf⟩ := act_restarts (s := w.store) hrestarts
    have hfresh := h.fresh (w.store.requestId + 1) (Nat.lt_succ_self _)
    constructor
    · exact h.server
    · intro request answer n hf
      rcases List.mem_append.mp hf with hf | hf
      · exact h.answers request answer n hf
      · obtain ⟨_, _, heq⟩ := List.mem_map.mp hf
        cases heq
    · exact (congrArg List.Nodup hun).mpr h.unanswered
    · intro request phase hf r t hr
      dsimp only
      rw [hid]
      rcases List.mem_append.mp hf with hf | hf
      · have hle := (h.halves request phase hf r t hr).1
        exact ⟨by omega, fun heq => by omega⟩
      · obtain ⟨request', hmem, heq⟩ := List.mem_map.mp hf
        obtain rfl := (Flight.mk.inj heq).1
        obtain ⟨t', ht', hid'⟩ := hhalf request' hmem
        rw [ht'] at hr
        obtain ⟨rfl, rfl⟩ := Prod.mk.inj (Option.some.inj hr)
        exact ⟨Nat.le_refl _, fun _ => hid'⟩
    · intro r hr
      dsimp only at hr ⊢
      rw [htask, hcomments]
      exact h.fresh r (by omega)
    · intro task t hr
      dsimp only at hr
      rw [hid, htask, hfresh.1] at hr
      cases hr
    · intro items t hr
      dsimp only at hr
      rw [hid, hcomments, hfresh.2] at hr
      cases hr
    · exact fun _ => hnone
    · -- nothing is shown while the task is loading
      intro t hshows
      have htrue := hloading t hshows.1
      have hfalse := hshows.2
      dsimp only at hfalse
      rw [htrue] at hfalse
      cases hfalse

/-! ### The server -/

theorem Inv.unanswered_lt (h : Inv start w) {k : ℕ} (hk : k ∈ w.unanswered) :
    k < w.log.length := by
  obtain ⟨⟨request, phase⟩, hf, hwrite⟩ := List.mem_filterMap.mp hk
  cases phase with
  | sent => cases request <;> cases hwrite
  | answered answer n =>
    have hgood := h.answers request answer n hf
    cases request with
    | updateTask _ _ _ =>
      cases answer with
      | updatedTask _ =>
        obtain rfl := Option.some.inj hwrite
        exact (List.getElem?_eq_some_iff.mp hgood.1).1
      | _ => cases hwrite
    | addComment _ _ =>
      cases answer with
      | comment _ =>
        obtain rfl := Option.some.inj hwrite
        exact (List.getElem?_eq_some_iff.mp hgood).1
      | _ => cases hwrite
    | removeComment _ _ =>
      cases answer with
      | done =>
        obtain rfl := Option.some.inj hwrite
        obtain ⟨t, ht⟩ := hgood
        exact (List.getElem?_eq_some_iff.mp ht).1
      | _ => cases hwrite
    | _ => cases hwrite

/-- An API call that is handled is a write that is not answered yet, or it is none. -/
theorem unanswered_handle {i : ℕ} {request : Request ι κ F}
    (hf : w.flights[i]? = some ⟨request, .sent⟩) (f : Flight ι κ D F) :
    ((w.flights.set i f).filterMap Flight.write).Perm (f.write.toList ++ w.unanswered) := by
  obtain ⟨hi, heq⟩ := List.getElem?_eq_some_iff.mp hf
  have hsent : w.flights[i].write = none := by
    rw [heq]
    cases request <;> rfl
  have hold := (List.getElem_cons_eraseIdx_perm hi).filterMap Flight.write
  have hnew := (List.set_perm_cons_eraseIdx hi f).filterMap Flight.write
  rw [List.filterMap_cons, hsent] at hold
  rw [List.filterMap_cons] at hnew
  refine hnew.trans ?_
  cases f.write with
  | none => exact hold
  | some k => exact hold.cons k

/-- A write whose answer has not arrived yet does not matter. -/
theorem sameWrites_unanswered {t : ι} {log : List (Write ι κ)} {x : Write ι κ} {un un' : List ℕ}
    (h : ∀ k, k ∈ un' ↔ k = log.length ∨ k ∈ un) :
    SameWrites t log (· ∉ un) (log ++ [x]) (· ∉ un') := by
  have hcase : ∀ k (v : Write ι κ), log[k]? = some v ∧ k ∉ un ↔
      (log ++ [x])[k]? = some v ∧ k ∉ un' := by
    intro k v
    rw [getElem?_snoc_eq_some, h, not_or]
    constructor
    · rintro ⟨hk, hun⟩
      exact ⟨Or.inl hk, Nat.ne_of_lt (List.getElem?_eq_some_iff.mp hk).1, hun⟩
    · rintro ⟨hk | ⟨hk, -⟩, hne, hun⟩
      · exact ⟨hk, hun⟩
      · exact absurd hk hne
  exact fun k c => ⟨hcase k _, hcase k _⟩

theorem Inv.handled (h : Inv start w) {i : ℕ} {request : Request ι κ F}
    (hf : w.flights[i]? = some ⟨request, .sent⟩) {ids : List κ}
    {x : Answer ι κ D × Server ι κ D × List (Write ι κ)}
    (hx : Handled start w.log ids request x) :
    Inv start { w with
      flights := w.flights.set i ⟨request, .answered x.1 w.log.length⟩
      server := x.2.1
      log := w.log ++ x.2.2
      ids := ids } := by
  -- the write of the request, if it makes one, waits for its answer from now on
  have hperm := unanswered_handle hf ⟨request, .answered x.1 w.log.length⟩
  have hmem : ∀ request' phase, ⟨request', phase⟩ ∈
      w.flights.set i ⟨request, .answered x.1 w.log.length⟩ →
      (request' = request ∧ phase = .answered x.1 w.log.length) ∨
        ⟨request', phase⟩ ∈ w.flights := by
    intro request' phase hf'
    exact (List.mem_or_eq_of_mem_set hf').symm.imp_left Flight.mk.inj
  constructor
  · exact hx.server
  · intro request' answer n hf'
    rcases hmem _ _ hf' with ⟨rfl, heq⟩ | hold
    · obtain ⟨rfl, rfl⟩ := Phase.answered.inj heq
      exact hx.answer
    · exact (h.answers request' answer n hold).append x.2.2
  · refine hperm.nodup_iff.mpr ?_
    rcases hx.write with ⟨-, hnone⟩ | ⟨_, -, hsome⟩
    · rw [hnone]
      exact h.unanswered
    · rw [hsome]
      refine List.nodup_cons.mpr ⟨fun hlt => ?_, h.unanswered⟩
      exact Nat.lt_irrefl _ (h.unanswered_lt hlt)
  · intro request' phase hf' r t hr
    rcases hmem _ _ hf' with ⟨rfl, -⟩ | hold
    · exact h.halves request' .sent (List.mem_of_getElem? hf) r t hr
    · exact h.halves request' phase hold r t hr
  · exact h.fresh
  · intro task t hr ht
    exact (h.taskResult task t hr ht).append x.2.2
  · intro items t hr ht
    exact (h.commentsResult items t hr ht).append x.2.2
  · exact h.closed
  · intro t hshows
    refine (h.fits t hshows).congr ?_
    rcases hx.write with ⟨hnil, hnone⟩ | ⟨write, hwrite, hsome⟩
    · rw [hnone] at hperm
      dsimp only
      rw [hnil, List.append_nil]
      exact sameWrites_of_reflects fun k _ _ => not_congr hperm.mem_iff.symm
    · rw [hsome] at hperm
      dsimp only
      rw [hwrite]
      exact sameWrites_unanswered fun k => hperm.mem_iff.trans List.mem_cons

end Step

/-! ### The arrival of an answer -/

section Quiet

variable {s : Store ι κ D}

theorem failedSaving_quiet (state : TaskDetailState ι κ D) (reason : Reason) :
    Quiet state (failedSaving state reason) :=
  ⟨rfl, rfl, rfl, rfl, id⟩

theorem Store.refreshComments_quiet (s : Store ι κ D) (t : ι) :
    Quiet s.state (s.refreshComments (F := F) t).1.state := by
  unfold Store.refreshComments
  split
  · exact Quiet.refl _
  · exact ⟨rfl, rfl, rfl, rfl, id⟩

theorem Store.updateFailed_quiet (s : Store ι κ D) (t : ι) (reason : Reason) :
    Quiet s.state (s.updateFailed (F := F) t reason).1.state := by
  unfold Store.updateFailed
  split
  · exact Quiet.refl _
  · split
    · exact Quiet.refl _
    · exact ⟨rfl, rfl, rfl, rfl, id⟩

theorem Store.saveFailed_quiet (s : Store ι κ D) (t : ι) (reason : Reason) :
    Quiet s.state (s.saveFailed t reason).state := by
  unfold Store.saveFailed
  split
  · exact Quiet.refl _
  · exact ⟨rfl, rfl, rfl, rfl, id⟩

theorem Store.commentFailed_quiet (s : Store ι κ D) (t : Option ι) (reason : Reason) :
    Quiet s.state (s.commentFailed (F := F) t reason).1.state := by
  unfold Store.commentFailed
  split
  · exact Quiet.refl _
  · have hfailed := failedSaving_quiet s.state reason
    cases t with
    | none => exact hfailed
    | some t =>
      dsimp only
      split
      · exact hfailed.trans (Store.refreshComments_quiet (s.setState _) t)
      · exact hfailed

/-- A failure leaves the task and the comments as they are. -/
theorem settle_failed_quiet {request : Request ι κ F} (hhalf : request.half = none)
    {reason : Reason} {x : Store ι κ D × List (Request ι κ F)}
    (hx : s.settle request (.failed reason) = some x) : Quiet s.state x.1.state := by
  cases request with
  | openTask _ _ | openComments _ _ => cases hhalf
  | refreshTask t _ =>
    obtain rfl := Option.some.inj hx
    simp only [Store.taskRefreshed]
    split <;> exact ⟨rfl, rfl, rfl, rfl, id⟩
  | updateTask t _ _ =>
    obtain rfl := Option.some.inj hx
    exact s.updateFailed_quiet t reason
  | addComment t _ | removeTask t =>
    obtain rfl := Option.some.inj hx
    exact s.saveFailed_quiet t reason
  | updateComment t _ _ =>
    obtain rfl := Option.some.inj hx
    exact s.commentFailed_quiet t reason
  | removeComment t _ =>
    obtain rfl := Option.some.inj hx
    exact s.commentFailed_quiet (some t) reason
  | refreshComments t =>
    obtain rfl := Option.some.inj hx
    simp only [Store.commentsRefreshed]
    split
    · exact Quiet.refl _
    · refine ⟨rfl, rfl, rfl, rfl, ?_⟩
      rintro ⟨⟩

/-- While no task is open, no task is put into the state. -/
theorem settle_closed {request : Request ι κ F} (hhalf : request.half = none)
    {answer : Answer ι κ D} {x : Store ι κ D × List (Request ι κ F)}
    (hx : s.settle request answer = some x) (hnone : s.state.taskId = none) :
    x.1.state.task = s.state.task := by
  cases answer with
  | failed reason => exact (settle_failed_quiet hhalf hx).task
  | task _ =>
    cases request with
    | openTask _ _ => cases hhalf
    | refreshTask _ _ =>
      obtain rfl := Option.some.inj hx
      simp [Store.taskRefreshed, Store.setState, hnone]
    | _ => cases hx
  | comments _ =>
    cases request with
    | openComments _ _ => cases hhalf
    | refreshComments _ =>
      obtain rfl := Option.some.inj hx
      simp [Store.commentsRefreshed, hnone]
    | _ => cases hx
  | updatedTask _ =>
    cases request with
    | updateTask _ _ _ =>
      obtain rfl := Option.some.inj hx
      simp [Store.taskUpdated, hnone]
    | _ => cases hx
  | comment _ =>
    cases request with
    | addComment _ _ =>
      obtain rfl := Option.some.inj hx
      simp [Store.commentAdded, hnone]
    | updateComment t _ _ =>
      obtain rfl := Option.some.inj hx
      simp only [Store.commentUpdated]
      split <;> rfl
    | _ => cases hx
  | done =>
    cases request with
    | removeComment _ _ =>
      obtain rfl := Option.some.inj hx
      simp [Store.commentRemoved, hnone]
    | removeTask _ =>
      obtain rfl := Option.some.inj hx
      simp [Store.taskRemoved, hnone]
    | _ => cases hx

/-- The answer to a PATCH of a comment leaves the ids as they are. -/
theorem Store.commentUpdated_quiet (s : Store ι κ D) (t : Option ι) {c : κ}
    {updated : TaskComment ι κ} (hid : updated.id = c) :
    Quiet s.state (s.commentUpdated t c updated).state := by
  unfold Store.commentUpdated
  split
  · exact Quiet.refl _
  · refine ⟨rfl, rfl, rfl, ?_, id⟩
    simp only [Store.setState, List.map_map]
    refine List.map_congr_left fun comment _ => ?_
    dsimp only [Function.comp_apply]
    split
    · rename_i hc
      rw [hid, hc]
    · rfl

/-- Removing a comment that is not in the list leaves the list and the number as they are. -/
theorem Store.commentRemoved_quiet (s : Store ι κ D) (t : ι) {c : κ}
    (hc : c ∉ s.state.comments.map TaskComment.id) :
    Quiet s.state (s.commentRemoved t c).state := by
  have hne : ∀ comment ∈ s.state.comments, comment.id ≠ c := fun comment hmem heq =>
    hc (List.mem_map.mpr ⟨comment, hmem, heq⟩)
  have habsent : (s.state.comments.any fun comment => comment.id = c) = false := by
    simpa using hne
  have hkept : (s.state.comments.filter fun comment => comment.id ≠ c) = s.state.comments :=
    List.filter_eq_self.mpr fun comment hmem => by simpa using hne comment hmem
  unfold Store.commentRemoved
  split
  · exact Quiet.refl _
  · simp only [habsent, hkept]
    exact ⟨rfl, rfl, rfl, rfl, id⟩

end Quiet

section Arrive

variable {start : Server ι κ D} {w : World ι κ D F} {t : ι}

/-- What the state shows of a task when a task of the state is replaced by a newer one. -/
theorem Fits.task {log : List (Write ι κ)} {A : ℕ → Prop} {state state' : TaskDetailState ι κ D}
    {shown shown' : ℕ} (h : Fits start log A state shown t) {task : TaskDetail ι D}
    (htask : state'.task = some task) (hversion : task.version = base start t + shown')
    (hcount : ∃ L : List κ, L.Nodup ∧ (∀ c, c ∈ L ↔ Present start log A t c) ∧
      task.commentCount = some (L.length : ℤ))
    (hborn : ∀ (k : ℕ) c, log[k]? = some (Write.removed t c) → A k → Born start log A t c)
    (hcomments : state'.comments = state.comments)
    (herror : state'.commentsError = state.commentsError) :
    Fits start log A state' shown' t where
  nodup := hcomments ▸ h.nodup
  present := hcomments ▸ h.present
  complete := by
    rw [herror, hcomments]
    exact h.complete
  version task' htask' := by
    rw [htask] at htask'
    obtain rfl := Option.some.inj htask'
    exact hversion
  count task' htask' := by
    rw [htask] at htask'
    obtain rfl := Option.some.inj htask'
    exact hcount
  born _ := hborn

/-- An answer that puts no task into the state leaves what is known of the tasks as it is. -/
theorem note_shown {request : Request ι κ F} {answer : Answer ι κ D} {n : ℕ}
    (h : w.taskTo request answer n = none) : (w.note request answer n).shown = w.shown := by
  simp only [World.note, h]

theorem note_shown_self {request : Request ι κ F} {answer : Answer ι κ D} {n m : ℕ}
    (h : w.taskTo request answer n = some (t, m)) :
    (w.note request answer n).shown t = patches w.log t m := by
  simp only [World.note, h, Function.update_self]

/-- A task that is not shown is not replaced. -/
theorem not_shows {t' : ι} (hshows : w.Shows t) (hne : t' ≠ t) : ¬ w.Shows t' := fun h =>
  hne (Option.some.inj (h.1.symm.trans hshows.1))

/-- The task is read again after a conflict. -/
theorem Inv.refreshTask_fits (h : Inv start w) {t' : ι} {keepConflict : Bool}
    {task : TaskDetail ι D} {n : ℕ}
    (hf : ⟨.refreshTask t' keepConflict, .answered (.task task) n⟩ ∈ w.flights)
    (horderly : w.Orderly (.refreshTask t' keepConflict) (.task task) n) (hshows : w.Shows t) :
    Fits start w.log (· ∉ w.unanswered) (w.store.taskRefreshed t' keepConflict (.ok task)).state
      ((w.note (.refreshTask t' keepConflict) (.task task) n).shown t) t := by
  have hfits := h.fits t hshows
  by_cases ht : t' = t
  · subst ht
    have hto : w.taskTo (.refreshTask t' keepConflict) (.task task) n = some (t', n) := by
      simp only [World.taskTo, if_pos hshows]
    have hsame := sameWrites_reflects (horderly.2.2 t' n hto)
    have hgood : GoodTask start w.log t' task n := h.answers _ _ _ hf
    obtain ⟨hversion, hcount⟩ := hgood.fits hsame
    rw [note_shown_self hto]
    refine hfits.task ?_ hversion hcount (h.server.born_of_sameWrites hsame) ?_ ?_ <;>
      simp [Store.taskRefreshed, Store.setState, hshows.1]
  · have hne : w.store.state.taskId ≠ some t' := fun heq =>
      ht (Option.some.inj (heq.symm.trans hshows.1))
    have hto : w.taskTo (.refreshTask t' keepConflict) (.task task) n = none := by
      simp only [World.taskTo, if_neg (not_shows hshows ht)]
    rw [note_shown hto]
    refine hfits.quiet ?_
    simp only [Store.taskRefreshed, if_pos hne]
    exact ⟨rfl, rfl, rfl, rfl, id⟩

/-- A PATCH of the task has succeeded. -/
theorem Inv.updateTask_fits (h : Inv start w) {t' : ι} {fields : F} {version : ℤ}
    {task : TaskUpdateResponse ι D} {n : ℕ}
    (hf : ⟨.updateTask t' fields version, .answered (.updatedTask task) n⟩ ∈ w.flights)
    (horderly : w.Orderly (.updateTask t' fields version) (.updatedTask task) n)
    (hshows : w.Shows t) :
    Fits start w.log (fun k => k ∉ w.unanswered ∨ some n = some k)
      (w.store.taskUpdated t' task).state
      ((w.note (.updateTask t' fields version) (.updatedTask task) n).shown t) t := by
  obtain ⟨hlog, hversion⟩ : w.log[n]? = some (.patched t') ∧
    task.version = base start t' + patches w.log t' (n + 1) := h.answers _ _ _ hf
  have hsame : SameWrites t w.log (· ∉ w.unanswered) w.log
      (fun k => k ∉ w.unanswered ∨ some n = some k) := by
    refine sameWrites_or fun k hk c => ?_
    obtain rfl := Option.some.inj hk
    simp [hlog]
  have hfits := (h.fits t hshows).congr hsame
  by_cases ht : t' = t
  · subst ht
    have hto : w.taskTo (.updateTask t' fields version) (.updatedTask task) n =
        some (t', n + 1) := by
      simp only [World.taskTo, if_pos hshows]
    obtain ⟨old, hold⟩ := Option.isSome_iff_exists.mp (horderly.2.2 hshows)
    rw [note_shown_self hto]
    have hnew : (w.store.taskUpdated t' task).state.task = some (spread (some old) task) := by
      simp [Store.taskUpdated, Store.setState, hshows.1, hold]
    refine hfits.task hnew hversion (hfits.count old hold)
      (hfits.born (Or.inl (by rw [hold]; rfl))) ?_ ?_ <;>
      simp [Store.taskUpdated, Store.setState, hshows.1]
  · have hne : w.store.state.taskId ≠ some t' := fun heq =>
      ht (Option.some.inj (heq.symm.trans hshows.1))
    have hto : w.taskTo (.updateTask t' fields version) (.updatedTask task) n = none := by
      simp only [World.taskTo, if_neg (not_shows hshows ht)]
    rw [note_shown hto, Store.taskUpdated, if_pos hne]
    exact hfits

/-- A comment has been added. -/
theorem Inv.addComment_fits (h : Inv start w) {t' : ι} {body : String}
    {comment : TaskComment ι κ} {n : ℕ}
    (hf : ⟨.addComment t' body, .answered (.comment comment) n⟩ ∈ w.flights)
    (horderly : w.Orderly (.addComment t' body) (.comment comment) n) (hshows : w.Shows t) :
    Fits start w.log (fun k => k ∉ w.unanswered ∨ some n = some k)
      (w.store.commentAdded t' comment).state (w.shown t) t := by
  have hlog : w.log[n]? = some (.added t' comment.id) := h.answers _ _ _ hf
  have hfits := h.fits t hshows
  by_cases ht : t' = t
  · subst ht
    have hsome := horderly.2.2 hshows
    obtain ⟨old, hold⟩ := Option.isSome_iff_exists.mp hsome
    have hunanswered : n ∈ w.unanswered := List.mem_filterMap.mpr ⟨_, hf, rfl⟩
    simp only [Option.some.injEq, eq_comm (a := n)]
    refine hfits.add h.server hlog (not_not.mpr hunanswered) hsome ?_ ?_ ?_ <;>
      simp [Store.commentAdded, Store.setState, hshows.1, hold]
  · have hne : w.store.state.taskId ≠ some t' := fun heq =>
      ht (Option.some.inj (heq.symm.trans hshows.1))
    rw [Store.commentAdded, if_pos hne]
    refine hfits.congr (sameWrites_or fun k hk c => ?_)
    obtain rfl := Option.some.inj hk
    simp [hlog, ht]

/-- A comment has been removed. -/
theorem Inv.removeComment_fits (h : Inv start w)
    (hstart : (start.comments.map TaskComment.id).Nodup) {t' : ι} {c : κ} {n : ℕ}
    (hf : ⟨.removeComment t' c, .answered .done n⟩ ∈ w.flights)
    (horderly : w.Orderly (.removeComment t' c) .done n) (hshows : w.Shows t) :
    Fits start w.log (fun k => k ∉ w.unanswered ∨ some n = some k)
      (w.store.commentRemoved t' c).state (w.shown t) t := by
  obtain ⟨owner, hlog⟩ : ∃ owner, w.log[n]? = some (.removed owner c) := h.answers _ _ _ hf
  have hfits := h.fits t hshows
  by_cases ht : owner = t
  · subst ht
    obtain ⟨rfl, hmem⟩ := horderly.2.2 owner hlog hshows
    obtain ⟨comment, hcomment, hid⟩ := List.mem_map.mp hmem
    have hpresent : w.store.state.comments.any fun comment => comment.id = c :=
      List.any_eq_true.mpr ⟨comment, hcomment, by simpa using hid⟩
    simp only [Option.some.injEq, eq_comm (a := n)]
    refine hfits.remove hlog hmem ?_ ?_ ?_ <;>
      simp only [Store.commentRemoved, Store.setState, hshows.1, hpresent, ne_eq, not_true_eq_false,
        if_false, if_true]
  · -- the comment of another task is not in the list, whatever task the call named
    have hsame : SameWrites t w.log (· ∉ w.unanswered) w.log
        (fun k => k ∉ w.unanswered ∨ some n = some k) := by
      refine sameWrites_or fun k hk c' => ?_
      obtain rfl := Option.some.inj hk
      simp [hlog, ht]
    have hmem : c ∉ w.store.state.comments.map TaskComment.id := fun hc =>
      ht (h.server.owner_unique hstart (h.server.removed n owner c hlog) (hfits.present c hc).1)
    exact (hfits.congr hsame).quiet (w.store.commentRemoved_quiet t' hmem)

/-- The comments are read again. -/
theorem Inv.refreshComments_fits (h : Inv start w) {t' : ι} {items : List (TaskComment ι κ)}
    {n : ℕ} (hf : ⟨.refreshComments t', .answered (.comments items) n⟩ ∈ w.flights)
    (horderly : w.Orderly (.refreshComments t') (.comments items) n) (hshows : w.Shows t) :
    Fits start w.log (· ∉ w.unanswered) (w.store.commentsRefreshed t' (.ok items)).state
      (w.shown t) t := by
  have hgood : GoodComments start w.log t' items n := h.answers _ _ _ hf
  have hfits := h.fits t hshows
  by_cases ht : t' = t
  · subst ht
    have hto : w.commentsTo (.refreshComments t') (.comments items) n = some (t', n) := by
      simp only [World.commentsTo, if_pos hshows]
    have hsame := sameWrites_reflects (horderly.2.1 t' n hto)
    refine hfits.comments h.server hgood hsame ?_ ?_ <;>
      simp [Store.commentsRefreshed, Store.setState, hshows.1]
  · have hne : w.store.state.taskId ≠ some t' := fun heq =>
      ht (Option.some.inj (heq.symm.trans hshows.1))
    rw [Store.commentsRefreshed, if_pos hne]
    exact hfits

/-- The answer to a request that is no half of an `open`, and that finds the state it was made
for. -/
theorem Inv.settle_fits (h : Inv start w) (hstart : (start.comments.map TaskComment.id).Nodup)
    {request : Request ι κ F} {answer : Answer ι κ D} {n : ℕ}
    (hf : ⟨request, .answered answer n⟩ ∈ w.flights) (horderly : w.Orderly request answer n)
    (hhalf : request.half = none) {x : Store ι κ D × List (Request ι κ F)}
    (hx : w.store.settle request answer = some x) (hshows : w.Shows t) :
    Fits start w.log
      (fun k => k ∉ w.unanswered ∨ Flight.write ⟨request, .answered answer n⟩ = some k)
      x.1.state ((w.note request answer n).shown t) t := by
  -- an answer that is no answer to a write
  have hnone : ∀ {state shown}, Fits start w.log (· ∉ w.unanswered) state shown t →
      Fits start w.log (fun k => k ∉ w.unanswered ∨ none = some k) state shown t := fun hfits =>
    hfits.congr (sameWrites_or fun k hk => absurd hk nofun)
  cases answer with
  | failed reason =>
    have hquiet := settle_failed_quiet hhalf hx
    cases request with
    | openTask _ _ | openComments _ _ => cases hhalf
    | _ => exact hnone ((h.fits t hshows).quiet hquiet)
  | task task =>
    cases request with
    | openTask _ _ => cases hhalf
    | refreshTask t' keepConflict =>
      obtain rfl := Option.some.inj hx
      exact hnone (h.refreshTask_fits hf horderly hshows)
    | _ => cases hx
  | comments items =>
    cases request with
    | openComments _ _ => cases hhalf
    | refreshComments t' =>
      obtain rfl := Option.some.inj hx
      exact hnone (h.refreshComments_fits hf horderly hshows)
    | _ => cases hx
  | updatedTask task =>
    cases request with
    | updateTask _ _ _ =>
      obtain rfl := Option.some.inj hx
      exact h.updateTask_fits hf horderly hshows
    | _ => cases hx
  | comment comment =>
    cases request with
    | addComment _ _ =>
      obtain rfl := Option.some.inj hx
      exact h.addComment_fits hf horderly hshows
    | updateComment t' c body =>
      obtain rfl := Option.some.inj hx
      have hid : comment.id = c := h.answers _ _ _ hf
      exact hnone ((h.fits t hshows).quiet (w.store.commentUpdated_quiet t' hid))
    | _ => cases hx
  | done =>
    cases request with
    | removeComment _ _ =>
      obtain rfl := Option.some.inj hx
      exact h.removeComment_fits hstart hf horderly hshows
    | removeTask _ => exact absurd (h.answers _ _ _ hf) id
    | _ => cases hx

end Arrive

/-! ### The halves of an `open` -/

section Open

variable {start : Server ι κ D} {w : World ι κ D F} {t : ι}

theorem Store.opened_frame (s : Store ι κ D) (r : ℕ) :
    (s.opened r).requestId = s.requestId ∧ (s.opened r).taskResults = s.taskResults ∧
      (s.opened r).commentsResults = s.commentsResults ∧
      (s.opened r).state.taskId = s.state.taskId := by
  unfold Store.opened
  split
  · split <;> exact ⟨rfl, rfl, rfl, rfl⟩
  · exact ⟨rfl, rfl, rfl, rfl⟩

/-- What `open` does with its two halves: nothing while one is missing or in a later generation,
and otherwise it shows what has been read. -/
theorem Store.opened_cases (s : Store ι κ D) (r : ℕ) :
    (s.opened r = s ∧
        ¬ (r = s.requestId ∧ (s.taskResults r).isSome ∧ (s.commentsResults r).isSome)) ∨
      ∃ taskResult commentsResult, r = s.requestId ∧ s.taskResults r = some taskResult ∧
        s.commentsResults r = some commentsResult ∧
        (s.opened r).state.task = taskResult.toOption ∧
        (s.opened r).state.comments = commentsResult.toOption.getD [] ∧
        ((s.opened r).state.commentsError = none → ∃ items, commentsResult = .ok items) := by
  unfold Store.opened
  split
  · rename_i taskResult commentsResult htask hcomments
    split
    · rename_i hr
      exact Or.inl ⟨rfl, fun h => hr h.1⟩
    · rename_i hr
      refine Or.inr ⟨_, _, not_not.mp hr, htask, hcomments, rfl, rfl, fun hnone => ?_⟩
      cases commentsResult with
      | ok items => exact ⟨items, rfl⟩
      | error reason => cases hnone
  · rename_i hnot
    refine Or.inl ⟨rfl, fun h => ?_⟩
    obtain ⟨taskResult, htask⟩ := Option.isSome_iff_exists.mp h.2.1
    obtain ⟨commentsResult, hcomments⟩ := Option.isSome_iff_exists.mp h.2.2
    exact hnot taskResult commentsResult htask hcomments

/-- What `open` shows fits, if the halves were read in order. -/
theorem opened_fits {s : Store ι κ D} {r : ℕ} {server : Server ι κ D} {log : List (Write ι κ)}
    {ids : List κ} {A : ℕ → Prop} {shown : ℕ} (hok : ServerOk start server log ids)
    (hidle : s.opened r = s →
      ¬ (r = s.requestId ∧ (s.taskResults r).isSome ∧ (s.commentsResults r).isSome) →
      Fits start log A s.state shown t)
    (htask : ∀ task, r = s.requestId → s.taskResults r = some (.ok task) →
      (s.commentsResults r).isSome → ∃ m, GoodTask start log t task m ∧
        SameWrites t log (· < m) log A ∧ shown = patches log t m)
    (hcomments : ∀ items, r = s.requestId → (s.taskResults r).isSome →
      s.commentsResults r = some (.ok items) → ∃ m, GoodComments start log t items m ∧
        SameWrites t log (· < m) log A) :
    Fits start log A (s.opened r).state shown t := by
  obtain ⟨heq, hnot⟩ | ⟨taskResult, commentsResult, hr, htaskR, hcommentsR, htask', hcomments',
    herror⟩ := s.opened_cases r
  · rw [heq]
    exact hidle heq hnot
  · have hsomeT : (s.taskResults r).isSome := by rw [htaskR]; rfl
    have hsomeC : (s.commentsResults r).isSome := by rw [hcommentsR]; rfl
    -- what each half has read
    have hread : ∀ items, commentsResult = .ok items → ∃ m, GoodComments start log t items m ∧
        SameWrites t log (· < m) log A := by
      rintro items rfl
      exact hcomments items hr hsomeT hcommentsR
    have htaskRead : ∀ task, (s.opened r).state.task = some task → ∃ m,
        GoodTask start log t task m ∧ SameWrites t log (· < m) log A ∧
          shown = patches log t m := by
      intro task hsome
      rw [htask'] at hsome
      cases taskResult with
      | error reason => cases hsome
      | ok task' =>
        obtain rfl := Option.some.inj hsome
        exact htask task' hr htaskR hsomeC
    constructor
    · -- the comments are distinct
      rw [hcomments']
      cases commentsResult with
      | error reason => exact List.nodup_nil
      | ok items =>
        obtain ⟨m, hgood, -⟩ := hread items rfl
        exact hgood.nodup
    · -- every comment that is shown is present
      intro c hc
      rw [hcomments'] at hc
      cases commentsResult with
      | error reason => cases hc
      | ok items =>
        obtain ⟨m, hgood, hsame⟩ := hread items rfl
        exact (present_congr hsame).mp ((hgood.present c).mp hc)
    · -- without an error every present comment is shown
      intro hnone c hc
      obtain ⟨items, rfl⟩ := herror hnone
      obtain ⟨m, hgood, hsame⟩ := hread items rfl
      rw [hcomments']
      exact (hgood.present c).mpr ((present_congr hsame).mpr hc)
    · -- the version
      intro task hsome
      obtain ⟨m, hgood, -, rfl⟩ := htaskRead task hsome
      exact hgood.version
    · -- the number of comments
      intro task hsome
      obtain ⟨m, hgood, hsame, -⟩ := htaskRead task hsome
      exact (hgood.fits hsame).2
    · -- what is removed was there
      rintro (hsome | hnone)
      · obtain ⟨task, hsome⟩ := Option.isSome_iff_exists.mp hsome
        obtain ⟨m, -, hsame, -⟩ := htaskRead task hsome
        exact hok.born_of_sameWrites hsame
      · obtain ⟨items, rfl⟩ := herror hnone
        obtain ⟨m, -, hsame⟩ := hread items rfl
        exact hok.born_of_sameWrites hsame

end Open

section World

variable {start : Server ι κ D} {w : World ι κ D F}

/-- A half of the `open` number `r` arrives: the store `s` has both the halves there are. -/
theorem Inv.half (h : Inv start w) {s : Store ι κ D} {r : ℕ} {flights : List (Flight ι κ D F)}
    {taskWrites commentsWrites : ℕ → ℕ} {shown : ι → ℕ} (hid : s.requestId = w.store.requestId)
    (hstate : s.state = w.store.state)
    (hother : ∀ r', w.store.requestId < r' → s.taskResults r' = none ∧ s.commentsResults r' = none)
    (htask : ∀ task t, s.taskResults s.requestId = some (.ok task) → s.state.taskId = some t →
      GoodTask start w.log t task (taskWrites s.requestId))
    (hcomments : ∀ items t, s.commentsResults s.requestId = some (.ok items) →
      s.state.taskId = some t → GoodComments start w.log t items (commentsWrites s.requestId))
    (howner : r = s.requestId → s.state.taskId ≠ none)
    (hflights : ∀ f ∈ flights, f ∈ w.flights) (hnodup : (flights.filterMap Flight.write).Nodup)
    (hun : ∀ k, k ∉ flights.filterMap Flight.write ↔ k ∉ w.unanswered)
    (hidle : ¬ (r = s.requestId ∧ (s.taskResults r).isSome ∧ (s.commentsResults r).isSome) →
      shown = w.shown)
    (htaskOrder : ∀ task t, r = s.requestId → s.state.taskId = some t →
      s.taskResults r = some (.ok task) → (s.commentsResults r).isSome →
      w.Reflects t (taskWrites r) ∧ shown t = patches w.log t (taskWrites r))
    (hcommentsOrder : ∀ items t, r = s.requestId → s.state.taskId = some t →
      (s.taskResults r).isSome → s.commentsResults r = some (.ok items) →
      w.Reflects t (commentsWrites r)) :
    Inv start { w with
      store := s.opened r, flights := flights, taskWrites := taskWrites
      commentsWrites := commentsWrites, shown := shown } := by
  -- `open` shows what it has and keeps the halves
  obtain ⟨hid', htasks', hcomments', htaskId'⟩ := s.opened_frame r
  -- an answer that reflects `m` writes has seen exactly the ones that are answered
  have hsame : ∀ {t m}, w.Reflects t m →
      SameWrites t w.log (· < m) w.log (· ∉ flights.filterMap Flight.write) := by
    intro t m hreflects
    exact sameWrites_of_reflects fun k c hk =>
      ((hun k).trans (hreflects k c hk)).symm
  constructor
  · exact h.server
  · intro request answer n hf
    exact h.answers request answer n (hflights _ hf)
  · exact hnodup
  · intro request phase hf r' t hr'
    dsimp only
    rw [hid', htaskId', hid, hstate]
    exact h.halves request phase (hflights _ hf) r' t hr'
  · intro r' hr'
    dsimp only at hr' ⊢
    rw [hid', hid] at hr'
    rw [htasks', hcomments']
    exact hother r' hr'
  · intro task t hr ht
    dsimp only at hr ht ⊢
    rw [htasks', hid'] at hr
    rw [htaskId'] at ht
    rw [hid']
    exact htask task t hr ht
  · intro items t hr ht
    dsimp only at hr ht ⊢
    rw [hcomments', hid'] at hr
    rw [htaskId'] at ht
    rw [hid']
    exact hcomments items t hr ht
  · -- no task is open: nothing was shown
    intro hnone
    dsimp only at hnone ⊢
    rw [htaskId'] at hnone
    obtain ⟨heq, -⟩ | ⟨_, _, hr, -⟩ := s.opened_cases r
    · rw [heq, hstate]
      exact h.closed (hstate ▸ hnone)
    · exact absurd hnone (howner hr)
  · -- what is shown fits: it is unchanged, or both halves have just been read
    intro t hshows
    have ht : s.state.taskId = some t := htaskId' ▸ hshows.1
    refine opened_fits h.server ?_ ?_ ?_
    · intro heq hnot
      have hloading : s.state.isLoading = false := heq ▸ hshows.2
      dsimp only
      rw [hidle hnot, hstate]
      refine (h.fits t ⟨hstate ▸ ht, hstate ▸ hloading⟩).congr ?_
      exact sameWrites_of_reflects fun k _ _ => (hun k).symm
    · rintro task rfl htaskR hsome
      obtain ⟨hreflects, hshown⟩ := htaskOrder task t rfl ht htaskR hsome
      exact ⟨_, htask task t htaskR ht, hsame hreflects, hshown⟩
    · rintro items rfl hsome hcommentsR
      have hreflects := hcommentsOrder items t rfl ht hsome hcommentsR
      exact ⟨_, hcomments items t hcommentsR ht, hsame hreflects⟩

/-- The task half of an `open` arrives. -/
theorem Inv.openTask (h : Inv start w) {i r n : ℕ} {t : ι} {answer : Answer ι κ D}
    (hf : w.flights[i]? = some ⟨.openTask r t, .answered answer n⟩)
    (horderly : w.Orderly (.openTask r t) answer n) {result : Except Reason (TaskDetail ι D)}
    (hresult : ∀ task, result = .ok task → answer = .task task) :
    Inv start { w.note (.openTask r t) answer n with
      store := w.store.settleTask r result
      flights := w.flights.eraseIdx i ++ ([] : List (Request ι κ F)).map (Flight.mk · .sent) } := by
  have hmem := List.mem_of_getElem? hf
  obtain ⟨hle, hshown⟩ := h.halves _ _ hmem r t rfl
  obtain ⟨hnodup, hun⟩ := unanswered_arrive h.unanswered hf []
  have hwrites : (w.note (.openTask r t) answer n).taskWrites = Function.update w.taskWrites r n :=
    rfl
  refine h.half rfl rfl ?_ ?_ h.commentsResult (fun hr => by simp [hshown hr]) ?_ hnodup ?_ ?_
    ?_ ?_
  · -- the halves of a later `open` have not arrived
    intro r' hr'
    have hne : r' ≠ r := by omega
    dsimp only
    rw [Function.update_of_ne hne]
    exact h.fresh r' hr'
  · -- this half is the answer to its request
    intro task t' hr ht
    dsimp only at hr ht ⊢
    rw [hwrites]
    by_cases heq : w.store.requestId = r
    · subst heq
      rw [Function.update_self] at hr ⊢
      obtain rfl := hresult task (Option.some.inj hr)
      obtain rfl := Option.some.inj ((hshown rfl).symm.trans ht)
      exact h.answers _ _ _ hmem
    · rw [Function.update_of_ne heq] at hr ⊢
      exact h.taskResult task t' hr ht
  · intro f hf'
    rw [List.map_nil, List.append_nil] at hf'
    exact List.mem_of_mem_eraseIdx hf'
  · exact fun k => (hun k).trans (or_iff_left nofun)
  · -- nothing new is shown while the other half is missing
    intro hnot
    refine note_shown ?_
    cases answer with
    | task task =>
      refine if_neg fun hboth => hnot ⟨hboth.1, ?_, hboth.2⟩
      dsimp only
      rw [Function.update_self]
      rfl
    | _ => rfl
  · -- this half was read in order
    intro task t' hr ht htaskR hsome
    dsimp only at hr ht htaskR
    rw [Function.update_self] at htaskR
    obtain rfl := hresult task (Option.some.inj htaskR)
    obtain rfl := Option.some.inj ((hshown hr).symm.trans ht)
    have hto : w.taskTo (.openTask r t) (.task task) n = some (t, n) := if_pos ⟨hr, hsome⟩
    rw [hwrites, Function.update_self]
    exact ⟨horderly.2.2 t n hto, note_shown_self hto⟩
  · -- and so was the comments half
    intro items t' hr ht _ hcommentsR
    dsimp only at hr ht hcommentsR
    obtain rfl := Option.some.inj ((hshown hr).symm.trans ht)
    refine horderly.2.1 t _ ?_
    simp only [World.commentsTo, hcommentsR, if_pos hr]
    rfl

/-- The comments half of an `open` arrives. -/
theorem Inv.openComments (h : Inv start w) {i r n : ℕ} {t : ι} {answer : Answer ι κ D}
    (hf : w.flights[i]? = some ⟨.openComments r t, .answered answer n⟩)
    (horderly : w.Orderly (.openComments r t) answer n)
    {result : Except Reason (List (TaskComment ι κ))}
    (hresult : ∀ items, result = .ok items → answer = .comments items) :
    Inv start { w.note (.openComments r t) answer n with
      store := w.store.settleComments r result
      flights := w.flights.eraseIdx i ++ ([] : List (Request ι κ F)).map (Flight.mk · .sent) } := by
  have hmem := List.mem_of_getElem? hf
  obtain ⟨hle, hshown⟩ := h.halves _ _ hmem r t rfl
  obtain ⟨hnodup, hun⟩ := unanswered_arrive h.unanswered hf []
  have hwrites : (w.note (.openComments r t) answer n).commentsWrites =
      Function.update w.commentsWrites r n := rfl
  refine h.half rfl rfl ?_ h.taskResult ?_ (fun hr => by simp [hshown hr]) ?_ hnodup ?_ ?_ ?_ ?_
  · -- the halves of a later `open` have not arrived
    intro r' hr'
    have hne : r' ≠ r := by omega
    dsimp only
    rw [Function.update_of_ne hne]
    exact h.fresh r' hr'
  · -- this half is the answer to its request
    intro items t' hr ht
    dsimp only at hr ht ⊢
    rw [hwrites]
    by_cases heq : w.store.requestId = r
    · subst heq
      rw [Function.update_self] at hr ⊢
      obtain rfl := hresult items (Option.some.inj hr)
      obtain rfl := Option.some.inj ((hshown rfl).symm.trans ht)
      exact h.answers _ _ _ hmem
    · rw [Function.update_of_ne heq] at hr ⊢
      exact h.commentsResult items t' hr ht
  · intro f hf'
    rw [List.map_nil, List.append_nil] at hf'
    exact List.mem_of_mem_eraseIdx hf'
  · exact fun k => (hun k).trans (or_iff_left nofun)
  · -- nothing new is shown while the other half is missing
    intro hnot
    refine note_shown ?_
    simp only [World.taskTo]
    split
    · rename_i task htaskR
      refine if_neg fun hr => hnot ⟨hr, ?_, ?_⟩
      · dsimp only
        rw [htaskR]
        rfl
      · dsimp only
        rw [Function.update_self]
        rfl
    · rfl
  · -- the task half was read in order
    intro task t' hr ht htaskR _
    dsimp only at hr ht htaskR
    obtain rfl := Option.some.inj ((hshown hr).symm.trans ht)
    have hto : w.taskTo (.openComments r t) answer n = some (t, w.taskWrites r) := by
      simp only [World.taskTo, htaskR, if_pos hr]
    refine ⟨?_, note_shown_self hto⟩
    cases answer <;> exact horderly.2.2 t _ hto
  · -- and so was this one
    intro items t' hr ht hsome hcommentsR
    dsimp only at hr ht hcommentsR hsome
    rw [Function.update_self] at hcommentsR
    obtain rfl := hresult items (Option.some.inj hcommentsR)
    obtain rfl := Option.some.inj ((hshown hr).symm.trans ht)
    rw [hwrites, Function.update_self]
    exact horderly.2.1 t n (if_pos ⟨hr, hsome⟩)

/-- The step lemma: an answer that finds the state it was made for. -/
theorem Inv.arrive (h : Inv start w) (hstart : (start.comments.map TaskComment.id).Nodup) {i n : ℕ}
    {request : Request ι κ F} {answer : Answer ι κ D}
    (hf : w.flights[i]? = some ⟨request, .answered answer n⟩)
    (horderly : w.Orderly request answer n) {x : Store ι κ D × List (Request ι κ F)}
    (hx : w.store.settle request answer = some x) :
    Inv start { w.note request answer n with
      store := x.1
      flights := w.flights.eraseIdx i ++ x.2.map (Flight.mk · .sent) } := by
  cases hhalf : request.half with
  | none =>
    -- the store keeps its task, and every request that the answer causes is sent
    obtain ⟨hkept, hnested⟩ := settle_kept hhalf hx
    obtain ⟨hnodup, hun⟩ := unanswered_arrive h.unanswered hf x.2
    have hnote : w.note request answer n =
        { w with shown := (w.note request answer n).shown } := by
      cases request with
      | openTask _ _ | openComments _ _ => cases hhalf
      | _ => rfl
    rw [hnote]
    refine h.kept hkept ?_ hnodup (settle_closed hhalf hx) fun t hshows => ?_
    · intro f hf'
      rcases List.mem_append.mp hf' with hf' | hf'
      · exact Or.inl (List.mem_of_mem_eraseIdx hf')
      · obtain ⟨request', hmem, rfl⟩ := List.mem_map.mp hf'
        exact Or.inr ⟨request', half_eq_none_of_numbered (hnested request' hmem), rfl⟩
    · have hfits := h.settle_fits hstart (List.mem_of_getElem? hf) horderly hhalf hx hshows
      exact hfits.congr (sameWrites_of_reflects fun k _ _ => (hun k).symm)
  | some half =>
    cases request with
    | openTask r t =>
      cases answer with
      | task task =>
        obtain rfl := Option.some.inj hx
        exact h.openTask hf horderly fun task' heq => by rw [Except.ok.inj heq]
      | failed reason =>
        obtain rfl := Option.some.inj hx
        exact h.openTask hf horderly nofun
      | _ => cases hx
    | openComments r t =>
      cases answer with
      | comments items =>
        obtain rfl := Option.some.inj hx
        exact h.openComments hf horderly fun items' heq => by rw [Except.ok.inj heq]
      | failed reason =>
        obtain rfl := Option.some.inj hx
        exact h.openComments hf horderly nofun
      | _ => cases hx
    | _ => cases hhalf

end World

/-! ### Runs -/

section Run

variable {apply : F → D → D} {start : Server ι κ D}
  {l : List (Machine.Event (World ι κ D F) (WorldCall ι κ F) Unit)} {w w' : World ι κ D F}

theorem world_step_inv (hstart : (start.comments.map TaskComment.id).Nodup) (h : Inv start w)
    {c : WorldCall ι κ F} {r : Unit} (hs : (world apply).step w c = some (r, w'))
    (horderly : OrderlyEvent ⟨w, c, r⟩) : Inv start w' := by
  cases c with
  | act action =>
    obtain ⟨-, rfl⟩ := Prod.mk.inj (Option.some.inj hs)
    exact h.act action
  | handle i newId =>
    simp only [world] at hs
    split at hs
    · rename_i request hf
      split at hs
      · cases hs
      · rename_i hnew
        obtain ⟨x, hx, hs⟩ := Option.map_eq_some_iff.mp hs
        obtain ⟨-, rfl⟩ := Prod.mk.inj hs
        exact h.handled hf (handle_ok apply h.server hnew hx)
    · cases hs
  | refuse i reason =>
    simp only [world] at hs
    split at hs
    · rename_i request hf
      obtain ⟨-, rfl⟩ := Prod.mk.inj (Option.some.inj hs)
      have hread : Handled start w.log w.ids request (.failed reason, w.server, []) := by
        refine h.server.read ?_ ?_ <;> cases request <;> trivial
      have hinv := h.handled hf hread
      simpa only [List.append_nil] using hinv
    · cases hs
  | arrive i =>
    simp only [world] at hs
    split at hs
    · rename_i request answer n hf
      obtain ⟨x, hx, hs⟩ := Option.map_eq_some_iff.mp hs
      obtain ⟨-, rfl⟩ := Prod.mk.inj hs
      exact h.arrive hstart hf (horderly i request answer n rfl hf) hx
    · cases hs

/-- What is shown of a task is never replaced by what the server had before. -/
theorem world_step_shown {c : WorldCall ι κ F} {r : Unit}
    (hs : (world apply).step w c = some (r, w')) (horderly : OrderlyEvent ⟨w, c, r⟩) (t : ι) :
    w.shown t ≤ w'.shown t := by
  cases c with
  | act action =>
    obtain ⟨-, rfl⟩ := Prod.mk.inj (Option.some.inj hs)
    exact Nat.le_refl _
  | handle i newId =>
    simp only [world] at hs
    split at hs
    · split at hs
      · cases hs
      · obtain ⟨x, -, hs⟩ := Option.map_eq_some_iff.mp hs
        obtain ⟨-, rfl⟩ := Prod.mk.inj hs
        exact Nat.le_refl _
    · cases hs
  | refuse i reason =>
    simp only [world] at hs
    split at hs
    · obtain ⟨-, rfl⟩ := Prod.mk.inj (Option.some.inj hs)
      exact Nat.le_refl _
    · cases hs
  | arrive i =>
    simp only [world] at hs
    split at hs
    · rename_i request answer n hf
      obtain ⟨x, -, hs⟩ := Option.map_eq_some_iff.mp hs
      obtain ⟨-, rfl⟩ := Prod.mk.inj hs
      have hdate := (horderly i request answer n rfl hf).1
      dsimp only
      -- only an answer that puts a task into the state changes what is shown
      cases hto : w.taskTo request answer n with
      | none =>
        exact Nat.le_of_eq (congrFun (note_shown hto) t).symm
      | some y =>
        obtain ⟨t', m⟩ := y
        by_cases ht : t = t'
        · subst ht
          rw [note_shown_self hto]
          exact hdate t m hto
        · simp only [World.note, hto, Function.update_of_ne ht]
          exact Nat.le_refl _
    · cases hs

theorem run_inv (hstart : (start.comments.map TaskComment.id).Nodup)
    (h : (world apply).Run (World.init start) l w) (horderly : ∀ e ∈ l, OrderlyEvent e) :
    Inv start w := by
  refine h.induction (fun l w => (∀ e ∈ l, OrderlyEvent e) → Inv start w)
    (fun _ => inv_init hstart) ?_ horderly
  intro l w c r w' _ ih hs horderly
  refine world_step_inv hstart (ih fun e he => horderly e ?_) hs (horderly _ ?_)
  · exact List.mem_append_left _ he
  · exact List.mem_append_right _ (List.mem_singleton_self _)

theorem run_shown {w₀ : World ι κ D F} (h : (world apply).Run w₀ l w)
    (horderly : ∀ e ∈ l, OrderlyEvent e) (t : ι) : w₀.shown t ≤ w.shown t := by
  refine h.induction (fun l w => (∀ e ∈ l, OrderlyEvent e) → w₀.shown t ≤ w.shown t)
    (fun _ => Nat.le_refl _) ?_ horderly
  intro l w c r w' _ ih hs horderly
  refine Nat.le_trans (ih fun e he => horderly e ?_) (world_step_shown hs (horderly _ ?_) t)
  · exact List.mem_append_left _ he
  · exact List.mem_append_right _ (List.mem_singleton_self _)

/-- A loaded task is shown. -/
theorem Inv.shows (h : Inv start w) (hloaded : Loaded w.store.state) : ∃ t, w.Shows t := by
  cases htaskId : w.store.state.taskId with
  | none =>
    have htask := hloaded.task
    rw [h.closed htaskId] at htask
    cases htask
  | some t => exact ⟨t, htaskId, hloaded.isLoading⟩

/-- With no API call under way, what is shown is what the server holds. -/
theorem Inv.settled (h : Inv start w) (hloaded : Loaded w.store.state) (hidle : w.flights = []) :
    ∃ t task, w.store.state.taskId = some t ∧ w.store.state.task = some task ∧
      (w.store.state.comments.map TaskComment.id).Perm
        ((w.server.commentsOf t).map TaskComment.id) ∧
      task.commentCount = some (w.store.state.comments.length : ℤ) := by
  obtain ⟨t, hshows⟩ := h.shows hloaded
  obtain ⟨task, htask⟩ := Option.isSome_iff_exists.mp hloaded.task
  have hfits := h.fits t hshows
  have hanswered : SameWrites t w.log (· ∉ w.unanswered) w.log (· < w.log.length) := by
    refine sameWrites_of_reflects fun k c hk => ?_
    have hlt : k < w.log.length := by
      rcases hk with hk | hk <;> exact (List.getElem?_eq_some_iff.mp hk).1
    simp [World.unanswered, hidle, hlt]
  have hids : ∀ c, c ∈ w.store.state.comments.map TaskComment.id ↔
      Present start w.log (· ∉ w.unanswered) t c := fun c =>
    ⟨hfits.present c, hfits.complete hloaded.commentsError c⟩
  refine ⟨t, task, hshows.1, htask, ?_, ?_⟩
  · refine (List.perm_ext_iff_of_nodup hfits.nodup (commentsOf_ids_nodup h.server.nodup t)).mpr ?_
    intro c
    rw [hids, h.server.mem_commentsOf, present_congr hanswered]
  · obtain ⟨L, hL, hmem, hcount⟩ := hfits.count task htask
    have hperm : L.Perm (w.store.state.comments.map TaskComment.id) :=
      (List.perm_ext_iff_of_nodup hL hfits.nodup).mpr fun c => (hmem c).trans (hids c).symm
    rw [hcount, hperm.length_eq, List.length_map]

/-- The browser agrees with its server in every run in which every answer finds the state that it
was made for. -/
theorem orderly_consistent (hstart : (start.comments.map TaskComment.id).Nodup)
    (h : (world apply).Run (World.init start) l w) (horderly : ∀ e ∈ l, OrderlyEvent e) :
    Consistent l w := by
  have hinv := run_inv hstart h horderly
  constructor
  · intro hloaded
    obtain ⟨t, hshows⟩ := hinv.shows hloaded
    exact (hinv.fits t hshows).nodup
  · intro e he task task' hpre hloaded htaskId htask htask'
    obtain ⟨l₁, l₂, rfl⟩ := List.append_of_mem he
    obtain ⟨hrun₁, w₁, hs, hrun₂⟩ := h.split
    have hinv₁ := run_inv hstart hrun₁ fun e he => horderly e (List.mem_append_left _ he)
    obtain ⟨t, hshows⟩ := hinv.shows hloaded
    have hshows₁ : e.pre.Shows t := ⟨htaskId.trans hshows.1, hpre.isLoading⟩
    have hfirst := world_step_shown hs (horderly e he) t
    have hrest := run_shown hrun₂ (fun e he => horderly e
      (List.mem_append_right _ (List.mem_cons_of_mem _ he))) t
    have hversion₁ := (hinv₁.fits t hshows₁).version task htask
    have hversion := (hinv.fits t hshows).version task' htask'
    omega
  · exact hinv.settled

end Run

/-! ### A comment that is shown twice -/

/-- A task with no comments. -/
def emptyServer : Server ℕ ℕ Unit where
  tasks t := if t = 1 then some ⟨1, 1, ()⟩ else none
  comments := []

/-- A comment is added, the task is opened again, and the answer to `addComment` arrives last. -/
def lateAnswerRun : List (Machine.Event (World ℕ ℕ Unit Unit) (WorldCall ℕ ℕ Unit) Unit) ×
    World ℕ ℕ Unit Unit :=
  (world fun _ _ => ()).runOf (World.init emptyServer)
    [.act (.openTask 1), .handle 0 100, .handle 1 101, .arrive 0, .arrive 0,
      .act (.addComment 1 "hello"), .handle 0 7, .act (.openTask 1), .handle 1 102, .handle 2 103,
      .arrive 1, .arrive 1, .arrive 0] (by decide)

theorem not_consistent : ¬ ∀ (start : Server ℕ ℕ Unit)
    (l : List (Machine.Event (World ℕ ℕ Unit Unit) (WorldCall ℕ ℕ Unit) Unit))
    (w : World ℕ ℕ Unit Unit), (start.comments.map TaskComment.id).Nodup →
      (world fun _ _ => ()).Run (World.init start) l w → Consistent l w := by
  intro hall
  have hrun : (world fun _ _ => ()).Run (World.init emptyServer) lateAnswerRun.1 lateAnswerRun.2 :=
    Machine.run_runOf _ _ _ _
  have hdistinct := (hall _ _ _ (by decide) hrun).distinct
    ⟨by decide, by decide, by decide, by decide, by decide⟩
  exact absurd hdistinct (by decide)

/-- The same calls, with the answer to `addComment` before the task is opened again. -/
def promptAnswerRun : List (Machine.Event (World ℕ ℕ Unit Unit) (WorldCall ℕ ℕ Unit) Unit) ×
    World ℕ ℕ Unit Unit :=
  (world fun _ _ => ()).runOf (World.init emptyServer)
    [.act (.openTask 1), .handle 0 100, .handle 1 101, .arrive 0, .arrive 0,
      .act (.addComment 1 "hello"), .handle 0 7, .arrive 0] (by decide)

/-- Before the first write, the halves of `open` are in order. -/
theorem orderly_half {w : World ι κ D F} (hlog : w.log = []) (hshown : ∀ t, w.shown t = 0)
    {request : Request ι κ F} (hhalf : request.half ≠ none) (answer : Answer ι κ D) (n : ℕ) :
    w.Orderly request answer n := by
  have hreflects : ∀ t m, w.Reflects t m := by
    intro t m k c hk
    simp [hlog] at hk
  have hdate : ∀ t m, w.UpToDate t m := fun t m => by
    rw [World.UpToDate, hshown]
    exact Nat.zero_le _
  refine ⟨fun t m _ => hdate t m, fun t m _ => hreflects t m, ?_⟩
  cases request with
  | openTask _ _ | openComments _ _ => cases answer <;> exact fun t m _ => hreflects t m
  | _ => exact absurd rfl hhalf

theorem orderly_promptAnswerRun : ∀ e ∈ promptAnswerRun.1, OrderlyEvent e := by
  intro e he
  obtain ⟨⟨i, hi⟩, rfl⟩ := List.get_of_mem he
  match i, hi with
  | 0, _ | 1, _ | 2, _ | 5, _ | 6, _ => exact nofun
  | 3, _ | 4, _ =>
    intro i request answer n hcall hf
    cases hcall
    cases hf
    refine orderly_half rfl (fun _ => rfl) ?_ _ _
    exact Option.some_ne_none _
  | 7, _ =>
    intro i request answer n hcall hf
    cases hcall
    cases hf
    exact ⟨nofun, nofun, fun _ => rfl⟩

theorem orderly_consistent_promptAnswerRun : Consistent promptAnswerRun.1 promptAnswerRun.2 := by
  have hnodup : (emptyServer.comments.map TaskComment.id).Nodup := by decide
  exact orderly_consistent hnodup
    (Machine.run_runOf _ _ _ _ :
      (world fun _ _ => ()).Run (World.init emptyServer) promptAnswerRun.1 promptAnswerRun.2)
    orderly_promptAnswerRun

end TaskDetailStore
