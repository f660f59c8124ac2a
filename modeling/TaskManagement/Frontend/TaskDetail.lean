import TaskManagement.Machine
import Mathlib.Data.Int.Notation
import Mathlib.Logic.Function.Basic

/-!
# The store of the task detail modal

`taskDetailStore.ts`: the state that the modal shows, what each method does up to its first
`await` (`Store.act`), and what the rest of the method does when the API call that it waits for is
answered (`Store.settle`).  The promises of a method are the `Request`s it has sent; the two halves
of `open` are collected by `Promise.allSettled`.  `machine` lets the methods be called and the
requests be answered in any order, with any answers.

The ids are those of a type with decidable equality; `D` is what `TaskDetail` holds besides its id,
its version and its number of comments, and `F` is the type of `TaskUpdateFields`.
-/

namespace TaskDetailStore

/-! ### The records -/

/-- The `reason` of a rejected promise. -/
inductive Reason : Type where
  /-- A `TaskDetailApiError` with its `status` and its `code`. -/
  | apiError (status : Option ℕ) (code : String)
  /-- Another `Error`. -/
  | error (message : String)
  /-- A value that is no `Error`. -/
  | value
deriving DecidableEq

/-- `isNotFound` -/
def isNotFound : Reason → Bool
  | .apiError status code => status == some 404 || code == "NOT_FOUND"
  | _ => false

/-- `asError` -/
def asError : Reason → Reason
  | .value => .error "API_ERROR"
  | reason => reason

/-- `isApiError(reason) && reason.status === 409 && reason.code === "TASK_CONFLICT"` -/
def isTaskConflict : Reason → Bool
  | .apiError status code => status == some 409 && code == "TASK_CONFLICT"
  | _ => false

/-- The `TypeError` of reading `comment_count` of `null`; the text is that of the engine. -/
def typeError : Reason := .error "Cannot read properties of null"

/-- The answer to a PATCH: a `TaskDetail` without `comment_count`. -/
structure TaskUpdateResponse (ι D : Type) where
  id : ι
  version : ℤ
  data : D
deriving DecidableEq

/-- A `TaskDetail`; a `commentCount` of `none` is `undefined` or `NaN`. -/
structure TaskDetail (ι D : Type) extends TaskUpdateResponse ι D where
  commentCount : Option ℤ
deriving DecidableEq

structure TaskComment (ι κ : Type) where
  id : κ
  taskId : ι
  body : String
deriving DecidableEq

structure TaskDetailState (ι κ D : Type) where
  taskId : Option ι
  task : Option (TaskDetail ι D)
  comments : List (TaskComment ι κ)
  isLoading : Bool
  isCommentsLoading : Bool
  isSaving : Bool
  error : Option Reason
  commentsError : Option Reason
  notFound : Bool
  conflictBannerVisible : Bool
  closeRequested : Bool
  boardRefreshToken : ℕ
deriving DecidableEq

/-- `INITIAL_STATE` -/
def initialState {ι κ D : Type} : TaskDetailState ι κ D where
  taskId := none
  task := none
  comments := []
  isLoading := false
  isCommentsLoading := false
  isSaving := false
  error := none
  commentsError := none
  notFound := false
  conflictBannerVisible := false
  closeRequested := false
  boardRefreshToken := 0

/-- The store, and the halves of `open` that have settled, under the `requestId` of their call. -/
structure Store (ι κ D : Type) where
  state : TaskDetailState ι κ D
  requestId : ℕ
  taskResults : ℕ → Option (Except Reason (TaskDetail ι D))
  commentsResults : ℕ → Option (Except Reason (List (TaskComment ι κ)))

/-- A call of a method by the user interface. -/
inductive Action (ι κ F : Type) : Type where
  | reset
  | openTask (taskId : ι)
  | updateTask (taskId : ι) (fields : F)
  | addComment (taskId : ι) (body : String)
  | updateComment (commentId : κ) (body : String)
  | removeComment (taskId : ι) (commentId : κ)
  | removeTask (taskId : ι)
  | requestClose
  | acknowledgeClose

/-- An API call that is not answered yet, and the rest of the method that waits for it. -/
inductive Request (ι κ F : Type) : Type where
  /-- `getTask` of `open`, with the `requestId` of its call. -/
  | openTask (requestId : ℕ) (taskId : ι)
  /-- `getTaskComments` of `open`. -/
  | openComments (requestId : ℕ) (taskId : ι)
  /-- `getTask` of `refreshTask` inside `updateTask`. -/
  | refreshTask (taskId : ι) (keepConflict : Bool)
  | updateTask (taskId : ι) (fields : F) (version : ℤ)
  | addComment (taskId : ι) (body : String)
  /-- `patchComment`, with the `taskId` that the state had at the call. -/
  | updateComment (taskId : Option ι) (commentId : κ) (body : String)
  | removeComment (taskId : ι) (commentId : κ)
  | removeTask (taskId : ι)
  | refreshComments (taskId : ι)
deriving DecidableEq

/-- How an API call is settled. -/
inductive Answer (ι κ D : Type) : Type where
  | task (task : TaskDetail ι D)
  | comments (items : List (TaskComment ι κ))
  | updatedTask (updatedTask : TaskUpdateResponse ι D)
  | comment (comment : TaskComment ι κ)
  | done
  | failed (reason : Reason)
deriving DecidableEq

section Store

variable {ι κ D F : Type} [DecidableEq ι] [DecidableEq κ]

/-! ### The calls -/

/-- The store of a page that has just been loaded. -/
def Store.init : Store ι κ D where
  state := initialState
  requestId := 0
  taskResults _ := none
  commentsResults _ := none

/-- `setState` -/
def Store.setState (s : Store ι κ D) (state : TaskDetailState ι κ D) : Store ι κ D :=
  { s with state := state }

def Store.reset (s : Store ι κ D) : Store ι κ D :=
  { s with requestId := s.requestId + 1, state := initialState }

/-- `open` up to `Promise.allSettled`. -/
def Store.openTask (s : Store ι κ D) (taskId : ι) : Store ι κ D × List (Request ι κ F) :=
  let requestId := s.requestId + 1
  ({ s with
      requestId := requestId
      state := { s.state with
        taskId := some taskId
        task := none
        comments := []
        isLoading := true
        isCommentsLoading := true
        isSaving := false
        error := none
        commentsError := none
        notFound := false
        conflictBannerVisible := false
        closeRequested := false } },
    [.openTask requestId taskId, .openComments requestId taskId])

/-- `setState({ isSaving: true, error: null })` -/
def Store.startSaving (s : Store ι κ D) : Store ι κ D :=
  s.setState { s.state with isSaving := true, error := none }

/-- `refreshComments` up to its API call. -/
def Store.refreshComments (s : Store ι κ D) (taskId : ι) : Store ι κ D × List (Request ι κ F) :=
  if s.state.taskId ≠ some taskId then (s, [])
  else (s.setState { s.state with isCommentsLoading := true }, [.refreshComments taskId])

/-- What a method does up to its first `await`, and the API calls that it makes. -/
def Store.act (s : Store ι κ D) : Action ι κ F → Store ι κ D × List (Request ι κ F)
  | .reset => (s.reset, [])
  | .openTask taskId => s.openTask taskId
  | .updateTask taskId fields =>
    match s.state.task with
    | some task =>
      if s.state.taskId ≠ some taskId then (s, [])
      else (s.startSaving, [.updateTask taskId fields task.version])
    | none => (s, [])
  | .addComment taskId body =>
    if s.state.taskId ≠ some taskId || s.state.task.isNone then (s, [])
    else (s.startSaving, [.addComment taskId body])
  | .updateComment commentId body =>
    (s.startSaving, [.updateComment s.state.taskId commentId body])
  | .removeComment taskId commentId => (s.startSaving, [.removeComment taskId commentId])
  | .removeTask taskId => (s.startSaving, [.removeTask taskId])
  | .requestClose => (s.setState { s.state with closeRequested := true }, [])
  | .acknowledgeClose => (s.setState { s.state with closeRequested := false }, [])

/-! ### The answers -/

/-- `open` after `Promise.allSettled`, once both halves are there. -/
def Store.opened (s : Store ι κ D) (requestId : ℕ) : Store ι κ D :=
  match s.taskResults requestId, s.commentsResults requestId with
  | some taskResult, some commentsResult =>
    if requestId ≠ s.requestId then s
    else
      let taskReason := match taskResult with | .ok _ => none | .error reason => some reason
      let commentsReason := match commentsResult with | .ok _ => none | .error reason => some reason
      s.setState { s.state with
        task := taskResult.toOption
        comments := commentsResult.toOption.getD []
        isLoading := false
        isCommentsLoading := false
        error := taskReason.map asError
        commentsError := commentsReason.map asError
        notFound := taskReason.any isNotFound || commentsReason.any isNotFound
        closeRequested := false }
  | _, _ => s

/-- `{ ...this.state.task, ...updatedTask }` -/
def spread (task : Option (TaskDetail ι D)) (updatedTask : TaskUpdateResponse ι D) :
    TaskDetail ι D :=
  { updatedTask with commentCount := task.bind TaskDetail.commentCount }

/-- The `setState` of a failed action. -/
def failedSaving (state : TaskDetailState ι κ D) (reason : Reason) : TaskDetailState ι κ D :=
  { state with isSaving := false, error := some (asError reason) }

/-- The end of `refreshTask` and the `setState` of `updateTask` after it. -/
def Store.taskRefreshed (s : Store ι κ D) (taskId : ι) (keepConflict : Bool)
    (result : Except Reason (TaskDetail ι D)) : Store ι κ D :=
  let state :=
    if s.state.taskId ≠ some taskId then s.state
    else match result with
      | .ok task => { s.state with
          task := some task, error := none, notFound := false
          conflictBannerVisible := keepConflict }
      | .error reason => { s.state with
          error := some (asError reason), notFound := isNotFound reason, closeRequested := false }
  s.setState { state with isSaving := false }

/-- The `then` half of `updateTask`. -/
def Store.taskUpdated (s : Store ι κ D) (taskId : ι) (updatedTask : TaskUpdateResponse ι D) :
    Store ι κ D :=
  if s.state.taskId ≠ some taskId then s
  else s.setState { s.state with
    task := some (spread s.state.task updatedTask)
    isSaving := false
    conflictBannerVisible := false
    boardRefreshToken := s.state.boardRefreshToken + 1 }

/-- The `catch` half of `updateTask`. -/
def Store.updateFailed (s : Store ι κ D) (taskId : ι) (reason : Reason) :
    Store ι κ D × List (Request ι κ F) :=
  if s.state.taskId ≠ some taskId then (s, [])
  else if isTaskConflict reason then (s, [.refreshTask taskId true])
  else
    (s.setState { failedSaving s.state reason with
      closeRequested := false, notFound := isNotFound reason }, [])

/-- The `catch` half of `addComment` and of `removeTask`. -/
def Store.saveFailed (s : Store ι κ D) (taskId : ι) (reason : Reason) : Store ι κ D :=
  if s.state.taskId ≠ some taskId then s
  else s.setState { failedSaving s.state reason with
    notFound := isNotFound reason, closeRequested := false }

/-- The `then` half of `addComment`; with no task, reading `comment_count` throws. -/
def Store.commentAdded (s : Store ι κ D) (taskId : ι) (added : TaskComment ι κ) : Store ι κ D :=
  if s.state.taskId ≠ some taskId then s
  else match s.state.task with
    | none => s.saveFailed taskId typeError
    | some task => s.setState { s.state with
        task := some { task with commentCount := task.commentCount.map (· + 1) }
        comments := s.state.comments ++ [added]
        isSaving := false
        boardRefreshToken := s.state.boardRefreshToken + 1 }

/-- The `then` half of `updateComment`. -/
def Store.commentUpdated (s : Store ι κ D) (taskId : Option ι) (commentId : κ)
    (updated : TaskComment ι κ) : Store ι κ D :=
  if s.state.taskId ≠ taskId then s
  else s.setState { s.state with
    comments := s.state.comments.map fun comment =>
      if comment.id = commentId then updated else comment
    isSaving := false }

/-- The `catch` half of `updateComment` and of `removeComment`. -/
def Store.commentFailed (s : Store ι κ D) (taskId : Option ι) (reason : Reason) :
    Store ι κ D × List (Request ι κ F) :=
  if s.state.taskId ≠ taskId then (s, [])
  else
    let s' := s.setState (failedSaving s.state reason)
    match taskId with
    | some taskId => if isNotFound reason then s'.refreshComments taskId else (s', [])
    | none => (s', [])

/-- `{ ...this.state.task, comment_count: Math.max(0, this.state.task.comment_count - 1) }` -/
def lessComment (task : TaskDetail ι D) : TaskDetail ι D :=
  { task with commentCount := task.commentCount.map fun count => max 0 (count - 1) }

/-- The `then` half of `removeComment`. -/
def Store.commentRemoved (s : Store ι κ D) (taskId : ι) (commentId : κ) : Store ι κ D :=
  if s.state.taskId ≠ some taskId then s
  else
    let wasPresent := s.state.comments.any fun comment => comment.id = commentId
    s.setState { s.state with
      task := if wasPresent then s.state.task.map lessComment else s.state.task
      comments := s.state.comments.filter fun comment => comment.id ≠ commentId
      isSaving := false
      boardRefreshToken := s.state.boardRefreshToken + 1 }

/-- The `then` half of `removeTask`. -/
def Store.taskRemoved (s : Store ι κ D) (taskId : ι) : Store ι κ D :=
  if s.state.taskId ≠ some taskId then s
  else s.setState { s.state with
    isSaving := false
    closeRequested := true
    boardRefreshToken := s.state.boardRefreshToken + 1 }

/-- `refreshComments` after its API call. -/
def Store.commentsRefreshed (s : Store ι κ D) (taskId : ι)
    (result : Except Reason (List (TaskComment ι κ))) : Store ι κ D :=
  if s.state.taskId ≠ some taskId then s
  else match result with
    | .ok items => s.setState { s.state with
        comments := items, isCommentsLoading := false, commentsError := none }
    | .error reason => s.setState { s.state with
        isCommentsLoading := false, commentsError := some (asError reason) }

/-- A half of `open` has settled. -/
def Store.settleTask (s : Store ι κ D) (requestId : ℕ) (result : Except Reason (TaskDetail ι D)) :
    Store ι κ D :=
  Store.opened { s with taskResults := Function.update s.taskResults requestId (some result) }
    requestId

def Store.settleComments (s : Store ι κ D) (requestId : ℕ)
    (result : Except Reason (List (TaskComment ι κ))) : Store ι κ D :=
  Store.opened
    { s with commentsResults := Function.update s.commentsResults requestId (some result) }
    requestId

/-- The rest of the method that waits for the request, and the API calls that it makes in turn;
`none` for an answer that the API call does not have. -/
def Store.settle (s : Store ι κ D) :
    Request ι κ F → Answer ι κ D → Option (Store ι κ D × List (Request ι κ F))
  | .openTask requestId _, .task task => some (s.settleTask requestId (.ok task), [])
  | .openTask requestId _, .failed reason => some (s.settleTask requestId (.error reason), [])
  | .openComments requestId _, .comments items => some (s.settleComments requestId (.ok items), [])
  | .openComments requestId _, .failed reason =>
    some (s.settleComments requestId (.error reason), [])
  | .refreshTask taskId keepConflict, .task task =>
    some (s.taskRefreshed taskId keepConflict (.ok task), [])
  | .refreshTask taskId keepConflict, .failed reason =>
    some (s.taskRefreshed taskId keepConflict (.error reason), [])
  | .updateTask taskId _ _, .updatedTask updatedTask => some (s.taskUpdated taskId updatedTask, [])
  | .updateTask taskId _ _, .failed reason => some (s.updateFailed taskId reason)
  | .addComment taskId _, .comment added => some (s.commentAdded taskId added, [])
  | .addComment taskId _, .failed reason => some (s.saveFailed taskId reason, [])
  | .updateComment taskId commentId _, .comment updated =>
    some (s.commentUpdated taskId commentId updated, [])
  | .updateComment taskId _ _, .failed reason => some (s.commentFailed taskId reason)
  | .removeComment taskId commentId, .done => some (s.commentRemoved taskId commentId, [])
  | .removeComment taskId _, .failed reason => some (s.commentFailed (some taskId) reason)
  | .removeTask taskId, .done => some (s.taskRemoved taskId, [])
  | .removeTask taskId, .failed reason => some (s.saveFailed taskId reason, [])
  | .refreshComments taskId, .comments items => some (s.commentsRefreshed taskId (.ok items), [])
  | .refreshComments taskId, .failed reason =>
    some (s.commentsRefreshed taskId (.error reason), [])
  | _, _ => none

/-! ### The machine -/

/-- A request that is not answered yet, and how many calls of `open` and `reset` there were when
the action that it belongs to was started, that action included. -/
structure Pending (ι κ F : Type) where
  request : Request ι κ F
  started : ℕ
deriving DecidableEq

/-- The store, the requests that are not answered yet, and the number of calls of `open` and
`reset` so far. -/
structure Session (ι κ D F : Type) where
  store : Store ι κ D
  pending : List (Pending ι κ F)
  restarts : ℕ

inductive Call (ι κ D F : Type) : Type where
  | act (action : Action ι κ F)
  /-- The answer to the request number `i` arrives. -/
  | settle (i : ℕ) (answer : Answer ι κ D)

def Session.init : Session ι κ D F where
  store := .init
  pending := []
  restarts := 0

/-- The calls that make everything that was started before stale. -/
def Action.restarts : Action ι κ F → Bool
  | .reset | .openTask _ => true
  | _ => false

def machine : Machine (Session ι κ D F) (Call ι κ D F) Unit where
  step s
    | .act action =>
      let x := s.store.act action
      let n := if action.restarts then s.restarts + 1 else s.restarts
      some ((), {
        store := x.1
        pending := s.pending ++ x.2.map (⟨·, n⟩)
        restarts := n })
    | .settle i answer =>
      match s.pending[i]? with
      | none => none
      | some p => (s.store.settle p.request answer).map fun x => ((), { s with
          store := x.1
          pending := s.pending.eraseIdx i ++ x.2.map (⟨·, p.started⟩) })

end Store

end TaskDetailStore
