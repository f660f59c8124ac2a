import TaskManagement.Frontend.TaskDetail

/-!
# Stale answers and the task detail store

An answer is stale when `open` or `reset` was called after the action that it belongs to was
started.  The halves of `open` compare the generation of the call, everything else compares task
ids only, and the end of a save that had a conflict compares nothing.

* `Store.settle_foreign`: an answer to a request that is `Foreign` to the state leaves the state
  as it is, and `Store.settle_changes`: some answer to any other request changes it;
* `restarts_eq`: `requestId` counts the calls of `open` and `reset`;
* `staleArrivals_untouched_iff`: in every run, no stale answer can change the state if and only if
  every stale answer is to a request that is foreign to the state in which it arrives.
-/

namespace TaskDetailStore

set_option linter.unusedSectionVars false

variable {ι κ D F : Type} [DecidableEq ι] [DecidableEq κ]

/-! ### Requests that are foreign to the state -/

/-- The state belongs to another task than the request.  The end of a save that had a conflict
clears `isSaving` whatever the task is, and `open` knows the generation of its call. -/
def Foreign (state : TaskDetailState ι κ D) : Request ι κ F → Prop
  | .openTask _ _ | .openComments _ _ => True
  | .refreshTask taskId _ => state.taskId ≠ some taskId ∧ state.isSaving = false
  | .updateTask taskId _ _ | .addComment taskId _ | .removeComment taskId _ | .removeTask taskId
  | .refreshComments taskId => state.taskId ≠ some taskId
  | .updateComment taskId _ _ => state.taskId ≠ taskId

/-- The request is no half of the `open` that the store waits for. -/
def Outdated (s : Store ι κ D) : Request ι κ F → Prop
  | .openTask requestId _ | .openComments requestId _ => requestId ≠ s.requestId
  | _ => True

/-! ### One answer -/

section Settle

variable {s : Store ι κ D} {taskId : ι}

theorem Store.opened_state {requestId : ℕ} (h : requestId ≠ s.requestId) :
    (s.opened requestId).state = s.state := by
  unfold Store.opened
  split
  · rw [if_pos h]
  · rfl

theorem Store.settleTask_state {requestId : ℕ} (h : requestId ≠ s.requestId)
    (result : Except Reason (TaskDetail ι D)) :
    (s.settleTask requestId result).state = s.state := by
  unfold Store.settleTask
  exact Store.opened_state h

theorem Store.settleComments_state {requestId : ℕ} (h : requestId ≠ s.requestId)
    (result : Except Reason (List (TaskComment ι κ))) :
    (s.settleComments requestId result).state = s.state := by
  unfold Store.settleComments
  exact Store.opened_state h

theorem Store.taskRefreshed_foreign {keepConflict : Bool} (h : s.state.taskId ≠ some taskId)
    (hsaving : s.state.isSaving = false) (result : Except Reason (TaskDetail ι D)) :
    (s.taskRefreshed taskId keepConflict result).state = s.state := by
  have hstate : { s.state with isSaving := false } = s.state := by rw [← hsaving]
  simp only [Store.taskRefreshed, Store.setState, if_pos h, hstate]

/-- An answer to a request that is foreign to the state leaves the state as it is. -/
theorem Store.settle_foreign {request : Request ι κ F} (h : Foreign s.state request)
    (hold : Outdated s request) {answer : Answer ι κ D} {x : Store ι κ D × List (Request ι κ F)}
    (hx : s.settle request answer = some x) : x.1.state = s.state := by
  cases request with
  | openTask requestId t =>
    cases answer with
    | task _ | failed _ =>
      obtain rfl := Option.some.inj hx
      exact Store.settleTask_state hold _
    | _ => cases hx
  | openComments requestId t =>
    cases answer with
    | comments _ | failed _ =>
      obtain rfl := Option.some.inj hx
      exact Store.settleComments_state hold _
    | _ => cases hx
  | refreshTask t keepConflict =>
    cases answer with
    | task _ | failed _ =>
      obtain rfl := Option.some.inj hx
      exact Store.taskRefreshed_foreign h.1 h.2 _
    | _ => cases hx
  | updateTask t fields version =>
    have hne : s.state.taskId ≠ some t := h
    cases answer with
    | updatedTask _ | failed _ =>
      obtain rfl := Option.some.inj hx
      simp [Store.taskUpdated, Store.updateFailed, hne]
    | _ => cases hx
  | addComment t body =>
    have hne : s.state.taskId ≠ some t := h
    cases answer with
    | comment _ | failed _ =>
      obtain rfl := Option.some.inj hx
      simp [Store.commentAdded, Store.saveFailed, hne]
    | _ => cases hx
  | updateComment t commentId body =>
    have hne : s.state.taskId ≠ t := h
    cases answer with
    | comment _ | failed _ =>
      obtain rfl := Option.some.inj hx
      simp [Store.commentUpdated, Store.commentFailed, hne]
    | _ => cases hx
  | removeComment t commentId =>
    have hne : s.state.taskId ≠ some t := h
    cases answer with
    | done | failed _ =>
      obtain rfl := Option.some.inj hx
      simp [Store.commentRemoved, Store.commentFailed, hne]
    | _ => cases hx
  | removeTask t =>
    have hne : s.state.taskId ≠ some t := h
    cases answer with
    | done | failed _ =>
      obtain rfl := Option.some.inj hx
      simp [Store.taskRemoved, Store.saveFailed, hne]
    | _ => cases hx
  | refreshComments t =>
    have hne : s.state.taskId ≠ some t := h
    cases answer with
    | comments _ | failed _ =>
      obtain rfl := Option.some.inj hx
      simp [Store.commentsRefreshed, hne]
    | _ => cases hx

/-- Some `Error` is not the one that the state shows. -/
theorem exists_new_error (shown : Option Reason) : ∃ message, shown ≠ some (.error message) := by
  by_cases h : shown = some (.error "")
  · refine ⟨"API_ERROR", ?_⟩
    rw [h]
    decide
  · exact ⟨"", h⟩

/-- To a request that is not foreign to the state, a failure that the state does not show yet
changes the state. -/
theorem Store.settle_changes {request : Request ι κ F} (h : ¬ Foreign s.state request) :
    ∃ reason x, s.settle request (.failed reason) = some x ∧ x.1.state ≠ s.state := by
  -- a message that neither error shows
  obtain ⟨message, herror⟩ := exists_new_error s.state.error
  obtain ⟨text, hcomments⟩ := exists_new_error s.state.commentsError
  cases request with
  | openTask _ _ | openComments _ _ => exact absurd trivial h
  | refreshTask t keepConflict =>
    refine ⟨.error message, _, rfl, fun heq => h ?_⟩
    have hsaving := congrArg TaskDetailState.isSaving heq
    have herr := congrArg TaskDetailState.error heq
    by_cases ht : s.state.taskId = some t
    · simp [Store.taskRefreshed, Store.setState, ht, asError] at herr
      exact absurd herr.symm herror
    · simp [Store.taskRefreshed, Store.setState, ht] at hsaving
      exact ⟨ht, hsaving⟩
  | updateTask t _ _ =>
    have ht : s.state.taskId = some t := not_not.mp h
    refine ⟨.error message, _, rfl, fun heq => herror ?_⟩
    have herr := congrArg TaskDetailState.error heq
    simpa [Store.updateFailed, failedSaving, Store.setState, ht, asError, isTaskConflict]
      using herr.symm
  | addComment t _ | removeTask t =>
    have ht : s.state.taskId = some t := not_not.mp h
    refine ⟨.error message, _, rfl, fun heq => herror ?_⟩
    have herr := congrArg TaskDetailState.error heq
    simpa [Store.saveFailed, failedSaving, Store.setState, ht, asError]
      using herr.symm
  | updateComment t _ _ =>
    have ht : s.state.taskId = t := not_not.mp h
    refine ⟨.error message, _, rfl, fun heq => herror ?_⟩
    have herr := congrArg TaskDetailState.error heq
    cases t <;>
      simpa [Store.commentFailed, failedSaving, Store.setState, ht, asError, isNotFound]
      using herr.symm
  | removeComment t _ =>
    have ht : s.state.taskId = some t := not_not.mp h
    refine ⟨.error message, _, rfl, fun heq => herror ?_⟩
    have herr := congrArg TaskDetailState.error heq
    simpa [Store.commentFailed, failedSaving, Store.setState, ht, asError, isNotFound]
      using herr.symm
  | refreshComments t =>
    have ht : s.state.taskId = some t := not_not.mp h
    refine ⟨.error text, _, rfl, fun heq => hcomments ?_⟩
    have herr := congrArg TaskDetailState.commentsError heq
    simpa [Store.commentsRefreshed, Store.setState, ht, asError]
      using herr.symm

end Settle

/-! ### The generation of a request -/

/-- The halves of an `open` carry the number of its call. -/
def Numbered (n : ℕ) : Request ι κ F → Prop
  | .openTask requestId _ | .openComments requestId _ => requestId = n
  | _ => True

theorem act_requestId (s : Store ι κ D) (action : Action ι κ F) :
    (s.act action).1.requestId = if action.restarts then s.requestId + 1 else s.requestId := by
  cases action with
  | updateTask t fields =>
    simp only [Store.act]
    split
    · split <;> rfl
    · rfl
  | addComment t body =>
    simp only [Store.act]
    split <;> rfl
  | _ => rfl

theorem act_numbered {s : Store ι κ D} {action : Action ι κ F} {request : Request ι κ F}
    (h : request ∈ (s.act action).2) : Numbered (s.act action).1.requestId request := by
  cases action with
  | openTask t =>
    obtain rfl | rfl : request = .openTask (s.requestId + 1) t ∨
        request = .openComments (s.requestId + 1) t := by
      simpa [Store.act, Store.openTask] using h
    · rfl
    · rfl
  | updateTask t fields =>
    simp only [Store.act] at h
    split at h
    · split at h
      · cases h
      · obtain rfl := List.mem_singleton.mp h
        trivial
    · cases h
  | addComment t body =>
    simp only [Store.act] at h
    split at h
    · cases h
    · obtain rfl := List.mem_singleton.mp h
      trivial
  | updateComment _ _ | removeComment _ _ | removeTask _ =>
    obtain rfl := List.mem_singleton.mp h
    trivial
  | _ => cases h

theorem Store.opened_requestId (s : Store ι κ D) (requestId : ℕ) :
    (s.opened requestId).requestId = s.requestId := by
  unfold Store.opened
  split
  · split <;> rfl
  · rfl

/-- The generation, the settled halves of `open` and the task that the state belongs to. -/
structure Kept (s s' : Store ι κ D) : Prop where
  requestId : s'.requestId = s.requestId
  taskResults : s'.taskResults = s.taskResults
  commentsResults : s'.commentsResults = s.commentsResults
  taskId : s'.state.taskId = s.state.taskId
  isLoading : s'.state.isLoading = s.state.isLoading

theorem Kept.refl (s : Store ι κ D) : Kept s s := ⟨rfl, rfl, rfl, rfl, rfl⟩

theorem Kept.trans {s s' s'' : Store ι κ D} (h : Kept s s') (h' : Kept s' s'') : Kept s s'' :=
  ⟨h'.requestId.trans h.requestId, h'.taskResults.trans h.taskResults,
    h'.commentsResults.trans h.commentsResults, h'.taskId.trans h.taskId,
    h'.isLoading.trans h.isLoading⟩

theorem Kept.setState {s : Store ι κ D} {state : TaskDetailState ι κ D}
    (htaskId : state.taskId = s.state.taskId) (hloading : state.isLoading = s.state.isLoading) :
    Kept s (s.setState state) :=
  ⟨rfl, rfl, rfl, htaskId, hloading⟩

theorem Store.taskRefreshed_kept (s : Store ι κ D) (taskId : ι) (keepConflict : Bool)
    (result : Except Reason (TaskDetail ι D)) :
    Kept s (s.taskRefreshed taskId keepConflict result) := by
  unfold Store.taskRefreshed
  dsimp only
  split
  · exact Kept.setState rfl rfl
  · split <;> exact Kept.setState rfl rfl

theorem Store.taskUpdated_kept (s : Store ι κ D) (taskId : ι)
    (updatedTask : TaskUpdateResponse ι D) : Kept s (s.taskUpdated taskId updatedTask) := by
  unfold Store.taskUpdated
  split
  · exact Kept.refl s
  · exact Kept.setState rfl rfl

theorem Store.saveFailed_kept (s : Store ι κ D) (taskId : ι) (reason : Reason) :
    Kept s (s.saveFailed taskId reason) := by
  unfold Store.saveFailed
  split
  · exact Kept.refl s
  · exact Kept.setState rfl rfl

theorem Store.commentAdded_kept (s : Store ι κ D) (taskId : ι) (added : TaskComment ι κ) :
    Kept s (s.commentAdded taskId added) := by
  unfold Store.commentAdded
  split
  · exact Kept.refl s
  · split
    · exact s.saveFailed_kept taskId typeError
    · exact Kept.setState rfl rfl

theorem Store.commentUpdated_kept (s : Store ι κ D) (taskId : Option ι) (commentId : κ)
    (updated : TaskComment ι κ) : Kept s (s.commentUpdated taskId commentId updated) := by
  unfold Store.commentUpdated
  split
  · exact Kept.refl s
  · exact Kept.setState rfl rfl

theorem Store.commentRemoved_kept (s : Store ι κ D) (taskId : ι) (commentId : κ) :
    Kept s (s.commentRemoved taskId commentId) := by
  unfold Store.commentRemoved
  split
  · exact Kept.refl s
  · exact Kept.setState rfl rfl

theorem Store.taskRemoved_kept (s : Store ι κ D) (taskId : ι) : Kept s (s.taskRemoved taskId) := by
  unfold Store.taskRemoved
  split
  · exact Kept.refl s
  · exact Kept.setState rfl rfl

theorem Store.commentsRefreshed_kept (s : Store ι κ D) (taskId : ι)
    (result : Except Reason (List (TaskComment ι κ))) :
    Kept s (s.commentsRefreshed taskId result) := by
  unfold Store.commentsRefreshed
  split
  · exact Kept.refl s
  · split <;> exact Kept.setState rfl rfl

/-- A failed PATCH of a task keeps the generation; the API call that it makes is no half of an
`open`. -/
theorem Store.updateFailed_kept (s : Store ι κ D) (taskId : ι) (reason : Reason) :
    Kept s (s.updateFailed (F := F) taskId reason).1 ∧
      ∀ request ∈ (s.updateFailed (F := F) taskId reason).2, ∀ n, Numbered n request := by
  unfold Store.updateFailed
  split
  · exact ⟨Kept.refl s, by simp⟩
  · split
    · exact ⟨Kept.refl s, by simp [Numbered]⟩
    · exact ⟨Kept.setState rfl rfl, by simp⟩

/-- So does a failed PATCH or DELETE of a comment. -/
theorem Store.commentFailed_kept (s : Store ι κ D) (taskId : Option ι) (reason : Reason) :
    Kept s (s.commentFailed (F := F) taskId reason).1 ∧
      ∀ request ∈ (s.commentFailed (F := F) taskId reason).2, ∀ n, Numbered n request := by
  have hfailed : Kept s (s.setState (failedSaving s.state reason)) := Kept.setState rfl rfl
  unfold Store.commentFailed Store.refreshComments
  split
  · exact ⟨Kept.refl s, by simp⟩
  · cases taskId with
    | none => exact ⟨hfailed, by simp⟩
    | some t =>
      dsimp only
      split
      · split
        · exact ⟨hfailed, by simp⟩
        · exact ⟨hfailed.trans (Kept.setState rfl rfl), by simp [Numbered]⟩
      · exact ⟨hfailed, by simp⟩

/-- A half of an `open`, with the number of its call and its task. -/
def Request.half : Request ι κ F → Option (ℕ × ι)
  | .openTask requestId taskId | .openComments requestId taskId => some (requestId, taskId)
  | _ => none

/-- An answer to a request that is no half of an `open`. -/
theorem settle_kept {s : Store ι κ D} {request : Request ι κ F} (hhalf : request.half = none)
    {answer : Answer ι κ D} {x : Store ι κ D × List (Request ι κ F)}
    (hx : s.settle request answer = some x) :
    Kept s x.1 ∧ ∀ r ∈ x.2, ∀ n, Numbered n r := by
  -- most answers cause no request
  have hnone : ∀ r ∈ ([] : List (Request ι κ F)), ∀ n, Numbered n r := by simp
  cases request with
  | openTask _ _ | openComments _ _ => cases hhalf
  | refreshTask t keepConflict =>
    cases answer with
    | task _ | failed _ =>
      obtain rfl := Option.some.inj hx
      refine ⟨?_, hnone⟩
      dsimp only
      exact s.taskRefreshed_kept t keepConflict _
    | _ => cases hx
  | updateTask t _ _ =>
    cases answer with
    | updatedTask updatedTask =>
      obtain rfl := Option.some.inj hx
      exact ⟨s.taskUpdated_kept t updatedTask, hnone⟩
    | failed reason =>
      obtain rfl := Option.some.inj hx
      -- a conflict reads the task again
      exact s.updateFailed_kept t reason
    | _ => cases hx
  | addComment t _ =>
    cases answer with
    | comment added =>
      obtain rfl := Option.some.inj hx
      exact ⟨s.commentAdded_kept t added, hnone⟩
    | failed reason =>
      obtain rfl := Option.some.inj hx
      exact ⟨s.saveFailed_kept t reason, hnone⟩
    | _ => cases hx
  | updateComment t commentId _ =>
    cases answer with
    | comment updated =>
      obtain rfl := Option.some.inj hx
      exact ⟨s.commentUpdated_kept t commentId updated, hnone⟩
    | failed reason =>
      obtain rfl := Option.some.inj hx
      -- a comment that is not found has the comments read again
      exact s.commentFailed_kept t reason
    | _ => cases hx
  | removeComment t commentId =>
    cases answer with
    | done =>
      obtain rfl := Option.some.inj hx
      exact ⟨s.commentRemoved_kept t commentId, hnone⟩
    | failed reason =>
      obtain rfl := Option.some.inj hx
      exact s.commentFailed_kept (some t) reason
    | _ => cases hx
  | removeTask t =>
    cases answer with
    | done =>
      obtain rfl := Option.some.inj hx
      exact ⟨s.taskRemoved_kept t, hnone⟩
    | failed reason =>
      obtain rfl := Option.some.inj hx
      exact ⟨s.saveFailed_kept t reason, hnone⟩
    | _ => cases hx
  | refreshComments t =>
    cases answer with
    | comments _ | failed _ =>
      obtain rfl := Option.some.inj hx
      refine ⟨?_, hnone⟩
      dsimp only
      exact s.commentsRefreshed_kept t _
    | _ => cases hx

/-- An answer leaves the generation as it is, and the API calls that it leads to are no halves of
an `open`. -/
theorem settle_spec {s : Store ι κ D} {request : Request ι κ F} {answer : Answer ι κ D}
    {x : Store ι κ D × List (Request ι κ F)} (hx : s.settle request answer = some x) :
    x.1.requestId = s.requestId ∧ ∀ r ∈ x.2, ∀ n, Numbered n r := by
  cases request with
  | openTask _ _ =>
    cases answer with
    | task _ | failed _ =>
      obtain rfl := Option.some.inj hx
      exact ⟨Store.opened_requestId _ _, by simp⟩
    | _ => cases hx
  | openComments _ _ =>
    cases answer with
    | comments _ | failed _ =>
      obtain rfl := Option.some.inj hx
      exact ⟨Store.opened_requestId _ _, by simp⟩
    | _ => cases hx
  | _ =>
    obtain ⟨hkept, hn⟩ := settle_kept rfl hx
    exact ⟨hkept.requestId, hn⟩

/-! ### Runs -/

/-- `requestId` counts the calls of `open` and `reset`, and the halves of an `open` carry the
number of its call. -/
structure Counted (s : Session ι κ D F) : Prop where
  requestId : s.store.requestId = s.restarts
  numbered : ∀ p ∈ s.pending, Numbered p.started p.request

theorem counted_init : Counted (Session.init : Session ι κ D F) :=
  ⟨rfl, by simp [Session.init]⟩

theorem step_counted {s s' : Session ι κ D F} {c : Call ι κ D F} {r : Unit} (h : Counted s)
    (hs : machine.step s c = some (r, s')) : Counted s' := by
  cases c with
  | act action =>
    obtain ⟨-, rfl⟩ := Prod.mk.inj (Option.some.inj hs)
    have hid := act_requestId s.store action
    rw [h.requestId] at hid
    refine ⟨hid, fun p hp => ?_⟩
    obtain hp | hp := List.mem_append.mp hp
    · exact h.numbered p hp
    · obtain ⟨request, hrequest, rfl⟩ := List.mem_map.mp hp
      have hn := act_numbered hrequest
      rwa [hid] at hn
  | settle i answer =>
    simp only [machine] at hs
    split at hs
    · cases hs
    · rename_i p hp
      obtain ⟨x, hx, hs⟩ := Option.map_eq_some_iff.mp hs
      obtain ⟨-, rfl⟩ := Prod.mk.inj hs
      obtain ⟨hid, hn⟩ := settle_spec hx
      refine ⟨hid.trans h.requestId, fun q hq => ?_⟩
      obtain hq | hq := List.mem_append.mp hq
      · exact h.numbered q (List.mem_of_mem_eraseIdx hq)
      · obtain ⟨request, hrequest, rfl⟩ := List.mem_map.mp hq
        exact hn request hrequest _

theorem run_counted {l : List (Machine.Event (Session ι κ D F) (Call ι κ D F) Unit)}
    {s : Session ι κ D F} (h : machine.Run Session.init l s) : Counted s :=
  h.induction (fun _ s => Counted s) counted_init fun _ _ _ _ _ _ hs hstep =>
    step_counted hs hstep

/-- Every event of a run happened in a state in which the generations are counted. -/
theorem run_counted_pre {l : List (Machine.Event (Session ι κ D F) (Call ι κ D F) Unit)}
    {s : Session ι κ D F} (h : machine.Run Session.init l s)
    {e : Machine.Event (Session ι κ D F) (Call ι κ D F) Unit} (he : e ∈ l) : Counted e.pre := by
  obtain ⟨l₁, l₂, rfl⟩ := List.append_of_mem he
  exact run_counted h.split.1

/-! ### Stale answers -/

/-- The event is the arrival of the answer to the request number `i`, which was made on behalf of
an action that was started before the latest call of `open` or `reset`. -/
def StaleArrival (e : Machine.Event (Session ι κ D F) (Call ι κ D F) Unit) (i : ℕ)
    (p : Pending ι κ F) : Prop :=
  (∃ answer, e.call = .settle i answer) ∧ e.pre.pending[i]? = some p ∧ p.started < e.pre.restarts

/-- No answer to the request number `i` changes the state. -/
def Untouched (s : Session ι κ D F) (i : ℕ) : Prop :=
  ∀ answer r s', machine.step s (.settle i answer) = some (r, s') → s'.store.state = s.store.state

theorem outdated_of_counted {s : Session ι κ D F} {p : Pending ι κ F} (h : Counted s)
    (hp : p ∈ s.pending) (hstarted : p.started < s.restarts) : Outdated s.store p.request := by
  have hn := h.numbered p hp
  rw [← h.requestId] at hstarted
  obtain ⟨request, started⟩ := p
  cases request with
  | openTask requestId t | openComments requestId t =>
    have heq : requestId = started := hn
    rw [Outdated, heq]
    exact Nat.ne_of_lt hstarted
  | _ => trivial

/-- The step lemma: the answers to a stale request change nothing if and only if it is foreign to
the state. -/
theorem untouched_iff_foreign {s : Session ι κ D F} {i : ℕ} {p : Pending ι κ F} (h : Counted s)
    (hp : s.pending[i]? = some p) (hstarted : p.started < s.restarts) :
    Untouched s i ↔ Foreign s.store.state p.request := by
  constructor
  · intro hun
    by_contra hforeign
    obtain ⟨reason, x, hx, hne⟩ := Store.settle_changes hforeign
    have hs : machine.step s (.settle i (.failed reason)) = some ((), { s with
        store := x.1
        pending := s.pending.eraseIdx i ++ x.2.map (⟨·, p.started⟩) }) := by
      simp only [machine, hp, hx, Option.map_some]
    exact hne (hun _ _ _ hs)
  · intro hforeign answer r s' hs
    simp only [machine, hp] at hs
    obtain ⟨x, hx, hs⟩ := Option.map_eq_some_iff.mp hs
    obtain ⟨-, rfl⟩ := Prod.mk.inj hs
    have hold := outdated_of_counted h (List.mem_of_getElem? hp) hstarted
    exact Store.settle_foreign hforeign hold hx

/-- No stale answer of a run can change the state if and only if every stale answer is to a request
that is foreign to the state in which it arrives. -/
theorem staleArrivals_untouched_iff
    {l : List (Machine.Event (Session ι κ D F) (Call ι κ D F) Unit)} {s : Session ι κ D F}
    (h : machine.Run Session.init l s) :
    (∀ e ∈ l, ∀ i p, StaleArrival e i p → Untouched e.pre i) ↔
      ∀ e ∈ l, ∀ i p, StaleArrival e i p → Foreign e.pre.store.state p.request := by
  have hiff : ∀ e ∈ l, ∀ i p, StaleArrival e i p →
      (Untouched e.pre i ↔ Foreign e.pre.store.state p.request) := by
    intro e he i p hstale
    exact untouched_iff_foreign (run_counted_pre h he) hstale.2.1 hstale.2.2
  constructor
  · intro hall e he i p hstale
    exact (hiff e he i p hstale).mp (hall e he i p hstale)
  · intro hall e he i p hstale
    exact (hiff e he i p hstale).mpr (hall e he i p hstale)

/-! ### A task that is opened again -/

/-- A comment is added, and the task is opened again before the answer arrives.  The list that
`open` loads holds the new comment already. -/
def reopenRun :
    List (Machine.Event (Session ℕ ℕ Unit Unit) (Call ℕ ℕ Unit Unit) Unit) ×
      Session ℕ ℕ Unit Unit :=
  machine.runOf Session.init
    [.act (.openTask 1), .settle 0 (.task ⟨⟨1, 1, ()⟩, some 0⟩), .settle 0 (.comments []),
      .act (.addComment 1 "hello"), .act (.openTask 1), .settle 1 (.task ⟨⟨1, 1, ()⟩, some 1⟩),
      .settle 1 (.comments [⟨7, 1, "hello"⟩]), .settle 0 (.comment ⟨7, 1, "hello"⟩)] (by decide)

/-- The answer to `addComment` shows the comment a second time. -/
theorem staleArrivals_not_untouched :
    ¬ ∀ (l : List (Machine.Event (Session ℕ ℕ Unit Unit) (Call ℕ ℕ Unit Unit) Unit))
        (s : Session ℕ ℕ Unit Unit), machine.Run Session.init l s →
      ∀ e ∈ l, ∀ i p, StaleArrival e i p → Untouched e.pre i := by
  intro hall
  have hrun : machine.Run Session.init reopenRun.1 reopenRun.2 := Machine.run_runOf _ _ _ _
  let e := reopenRun.1.get ⟨7, by decide⟩
  have hstale : StaleArrival e 0 ⟨.addComment 1 "hello", 1⟩ := ⟨⟨_, rfl⟩, by decide, by decide⟩
  have hun := hall _ _ hrun e (List.get_mem _ _) 0 _ hstale
  have htwice : (machine.step e.pre e.call).map (fun x => x.2.store.state.comments.length) =
      some 2 := by decide
  obtain ⟨⟨r, s'⟩, hs, hlen⟩ := Option.map_eq_some_iff.mp htwice
  have hstate : s'.store.state = e.pre.store.state := hun _ r s' hs
  rw [hstate] at hlen
  exact absurd hlen (by decide)

/-- A comment is added, and another task is opened before the answer arrives. -/
def switchRun :
    List (Machine.Event (Session ℕ ℕ Unit Unit) (Call ℕ ℕ Unit Unit) Unit) ×
      Session ℕ ℕ Unit Unit :=
  machine.runOf Session.init
    [.act (.openTask 1), .settle 0 (.task ⟨⟨1, 1, ()⟩, some 0⟩), .settle 0 (.comments []),
      .act (.addComment 1 "hello"), .act (.openTask 2), .settle 0 (.comment ⟨7, 1, "hello"⟩)]
    (by decide)

theorem staleArrivals_untouched_iff_switchRun :
    (∀ e ∈ switchRun.1, ∀ i p, StaleArrival e i p → Untouched e.pre i) ↔
      ∀ e ∈ switchRun.1, ∀ i p, StaleArrival e i p → Foreign e.pre.store.state p.request :=
  staleArrivals_untouched_iff
    (Machine.run_runOf _ _ _ _ : machine.Run Session.init switchRun.1 switchRun.2)

end TaskDetailStore
