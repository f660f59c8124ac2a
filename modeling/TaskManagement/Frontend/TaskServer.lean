import TaskManagement.Frontend.TaskDetail
import Mathlib.Data.List.Count

/-!
# The task detail store and its server

One browser with the store of the task detail modal, and the server that handles its API calls one
at a time, in any order.  The server may also refuse a call; an answer carries the state of the
server just after its call, and the answers arrive in any order.  The deletion of a task is never
carried out here.

`Server.handle` is what the server does with a call, `world` is the machine.  The log of the writes
and the place of every answer in it are not part of the program: they say which writes an answer
reflects.
-/

namespace TaskDetailStore

variable {ι κ D F : Type} [DecidableEq ι] [DecidableEq κ]

/-! ### The server -/

/-- The tasks, without their number of comments, and the comments. -/
structure Server (ι κ D : Type) where
  tasks : ι → Option (TaskUpdateResponse ι D)
  comments : List (TaskComment ι κ)

/-- A write that the server has carried out. -/
inductive Write (ι κ : Type) : Type where
  | patched (taskId : ι)
  | added (taskId : ι) (commentId : κ)
  | removed (taskId : ι) (commentId : κ)
deriving DecidableEq

/-- 404 `NOT_FOUND` -/
def notFound : Reason := .apiError (some 404) "NOT_FOUND"

/-- 409 `TASK_CONFLICT` -/
def taskConflict : Reason := .apiError (some 409) "TASK_CONFLICT"

/-- The comments of a task. -/
def Server.commentsOf (server : Server ι κ D) (taskId : ι) : List (TaskComment ι κ) :=
  server.comments.filter fun comment => comment.taskId = taskId

/-- The answer to `getTask`. -/
def Server.getTask (server : Server ι κ D) (taskId : ι) : Answer ι κ D :=
  match server.tasks taskId with
  | none => .failed notFound
  | some task => .task { task with commentCount := some (server.commentsOf taskId).length }

/-- The answer to `getTaskComments`. -/
def Server.getTaskComments (server : Server ι κ D) (taskId : ι) : Answer ι κ D :=
  match server.tasks taskId with
  | none => .failed notFound
  | some _ => .comments (server.commentsOf taskId)

/-- What the server does with an API call: the answer, its state after it, and the write that it
has carried out.  `newId` is the id of the comment if one is added. -/
def Server.handle (apply : F → D → D) (server : Server ι κ D) (newId : κ) :
    Request ι κ F → Option (Answer ι κ D × Server ι κ D × List (Write ι κ))
  | .openTask _ taskId | .refreshTask taskId _ => some (server.getTask taskId, server, [])
  | .openComments _ taskId | .refreshComments taskId =>
    some (server.getTaskComments taskId, server, [])
  | .updateTask taskId fields version =>
    match server.tasks taskId with
    | none => some (.failed notFound, server, [])
    | some task =>
      if task.version ≠ version then some (.failed taskConflict, server, [])
      else
        let updated := { task with version := version + 1, data := apply fields task.data }
        some (.updatedTask updated,
          { server with tasks := Function.update server.tasks taskId (some updated) },
          [.patched taskId])
  | .addComment taskId body =>
    match server.tasks taskId with
    | none => some (.failed notFound, server, [])
    | some _ =>
      let added := { id := newId, taskId := taskId, body := body }
      some (.comment added, { server with comments := server.comments ++ [added] },
        [.added taskId newId])
  | .updateComment _ commentId body =>
    match server.comments.find? fun comment => comment.id = commentId with
    | none => some (.failed notFound, server, [])
    | some comment =>
      some (.comment { comment with body := body },
        { server with
          comments := server.comments.map fun comment =>
            if comment.id = commentId then { comment with body := body } else comment }, [])
  | .removeComment _ commentId =>
    match server.comments.find? fun comment => comment.id = commentId with
    | none => some (.failed notFound, server, [])
    | some comment =>
      some (.done,
        { server with
          comments := server.comments.filter fun comment => comment.id ≠ commentId },
        [.removed comment.taskId commentId])
  | .removeTask _ => none

/-! ### The world -/

/-- How far an API call is. -/
inductive Phase (ι κ D : Type) : Type where
  | sent
  /-- Handled when the server had carried out `writes` writes; the answer is on its way. -/
  | answered (answer : Answer ι κ D) (writes : ℕ)

/-- An API call whose answer has not arrived yet. -/
structure Flight (ι κ D F : Type) where
  request : Request ι κ F
  phase : Phase ι κ D

/-- The store, its API calls, the server with the writes that it has carried out and the ids that
it has used, and what is known about the answers that the store holds: how many writes the halves
of `open` reflect, and how many PATCHes of a task the task that was shown last reflects. -/
structure World (ι κ D F : Type) where
  store : Store ι κ D
  flights : List (Flight ι κ D F)
  server : Server ι κ D
  log : List (Write ι κ)
  ids : List κ
  taskWrites : ℕ → ℕ
  commentsWrites : ℕ → ℕ
  shown : ι → ℕ

inductive WorldCall (ι κ F : Type) : Type where
  | act (action : Action ι κ F)
  /-- The server handles the API call number `i`. -/
  | handle (i : ℕ) (newId : κ)
  /-- The server refuses the API call number `i`, or the call never gets there. -/
  | refuse (i : ℕ) (reason : Reason)
  /-- The answer to the API call number `i` arrives. -/
  | arrive (i : ℕ)

/-- A browser that has just loaded the page. -/
def World.init (server : Server ι κ D) : World ι κ D F where
  store := .init
  flights := []
  server := server
  log := []
  ids := server.comments.map TaskComment.id
  taskWrites _ := 0
  commentsWrites _ := 0
  shown _ := 0

/-- The number of PATCHes of the task among the first `n` writes. -/
def patches (log : List (Write ι κ)) (taskId : ι) (n : ℕ) : ℕ :=
  (log.take n).count (.patched taskId)

/-- The task is shown, and `open` is not loading it. -/
def World.Shows (w : World ι κ D F) (taskId : ι) : Prop :=
  w.store.state.taskId = some taskId ∧ w.store.state.isLoading = false

instance (w : World ι κ D F) (taskId : ι) : Decidable (w.Shows taskId) := by
  unfold World.Shows
  infer_instance

/-- A task that an answer puts into the state, and how many writes it reflects.  An `open` puts its
task into the state when both its halves are there. -/
def World.taskTo (w : World ι κ D F) : Request ι κ F → Answer ι κ D → ℕ → Option (ι × ℕ)
  | .openTask requestId taskId, .task _, n =>
    if requestId = w.store.requestId ∧ (w.store.commentsResults requestId).isSome then
      some (taskId, n)
    else none
  | .openComments requestId taskId, _, _ =>
    match w.store.taskResults requestId with
    | some (.ok _) =>
      if requestId = w.store.requestId then some (taskId, w.taskWrites requestId) else none
    | _ => none
  | .refreshTask taskId _, .task _, n => if w.Shows taskId then some (taskId, n) else none
  | .updateTask taskId _ _, .updatedTask _, n =>
    if w.Shows taskId then some (taskId, n + 1) else none
  | _, _, _ => none

/-- A list of comments that an answer puts into the state, and how many writes it reflects. -/
def World.commentsTo (w : World ι κ D F) : Request ι κ F → Answer ι κ D → ℕ → Option (ι × ℕ)
  | .openComments requestId taskId, .comments _, n =>
    if requestId = w.store.requestId ∧ (w.store.taskResults requestId).isSome then some (taskId, n)
    else none
  | .openTask requestId taskId, _, _ =>
    match w.store.commentsResults requestId with
    | some (.ok _) =>
      if requestId = w.store.requestId then some (taskId, w.commentsWrites requestId) else none
    | _ => none
  | .refreshComments taskId, .comments _, n => if w.Shows taskId then some (taskId, n) else none
  | _, _, _ => none

/-- What is known after the answer has arrived. -/
def World.note (w : World ι κ D F) (request : Request ι κ F) (answer : Answer ι κ D) (n : ℕ) :
    World ι κ D F :=
  { w with
    taskWrites := match request with
      | .openTask requestId _ => Function.update w.taskWrites requestId n
      | _ => w.taskWrites
    commentsWrites := match request with
      | .openComments requestId _ => Function.update w.commentsWrites requestId n
      | _ => w.commentsWrites
    shown := match w.taskTo request answer n with
      | some (taskId, m) => Function.update w.shown taskId (patches w.log taskId m)
      | none => w.shown }

/-- The browser and its server. -/
def world (apply : F → D → D) : Machine (World ι κ D F) (WorldCall ι κ F) Unit where
  step w
    | .act action =>
      let x := w.store.act action
      some ((), { w with
        store := x.1
        flights := w.flights ++ x.2.map (⟨·, .sent⟩) })
    | .handle i newId =>
      match w.flights[i]? with
      | some ⟨request, .sent⟩ =>
        if newId ∈ w.ids then none
        else (w.server.handle apply newId request).map fun x => ((), { w with
          flights := w.flights.set i ⟨request, .answered x.1 w.log.length⟩
          server := x.2.1
          log := w.log ++ x.2.2
          ids := newId :: w.ids })
      | _ => none
    | .refuse i reason =>
      match w.flights[i]? with
      | some ⟨request, .sent⟩ => some ((), { w with
          flights := w.flights.set i ⟨request, .answered (.failed reason) w.log.length⟩ })
      | _ => none
    | .arrive i =>
      match w.flights[i]? with
      | some ⟨request, .answered answer n⟩ =>
        (w.store.settle request answer).map fun x => ((), { w.note request answer n with
          store := x.1
          flights := w.flights.eraseIdx i ++ x.2.map (⟨·, .sent⟩) })
      | _ => none

/-! ### Answers that come in order -/

/-- The place in the log of the write that an answer on its way belongs to. -/
def Flight.write : Flight ι κ D F → Option ℕ
  | ⟨.updateTask _ _ _, .answered (.updatedTask _) n⟩ => some n
  | ⟨.addComment _ _, .answered (.comment _) n⟩ => some n
  | ⟨.removeComment _ _, .answered .done n⟩ => some n
  | _ => none

/-- The places in the log of the writes whose answers have not arrived yet. -/
def World.unanswered (w : World ι κ D F) : List ℕ :=
  w.flights.filterMap Flight.write

/-- Of the writes to the comments of the task, the first `n` writes hold exactly those whose
answers have arrived. -/
def World.Reflects (w : World ι κ D F) (taskId : ι) (n : ℕ) : Prop :=
  ∀ k commentId,
    w.log[k]? = some (.added taskId commentId) ∨ w.log[k]? = some (.removed taskId commentId) →
      (k ∉ w.unanswered ↔ k < n)

/-- The first `n` writes hold every PATCH of the task that the task shown last reflects. -/
def World.UpToDate (w : World ι κ D F) (taskId : ι) (n : ℕ) : Prop :=
  w.shown taskId ≤ patches w.log taskId n

/-- An answer finds the state that it was made for: what it puts into the state is not older than
what is there, a list or a number of comments reflects exactly the writes whose answers have
arrived, and a successful write finds the task, or the comment, that it changes. -/
def World.Orderly (w : World ι κ D F) (request : Request ι κ F) (answer : Answer ι κ D) (n : ℕ) :
    Prop :=
  (∀ taskId m, w.taskTo request answer n = some (taskId, m) → w.UpToDate taskId m) ∧
    (∀ taskId m, w.commentsTo request answer n = some (taskId, m) → w.Reflects taskId m) ∧
    match request, answer with
    | .updateTask taskId _ _, .updatedTask _ | .addComment taskId _, .comment _ =>
      w.Shows taskId → w.store.state.task.isSome
    | .removeComment taskId commentId, .done =>
      ∀ owner, w.log[n]? = some (.removed owner commentId) → w.Shows owner →
        owner = taskId ∧ commentId ∈ w.store.state.comments.map TaskComment.id
    | _, _ =>
      ∀ taskId m, w.taskTo request answer n = some (taskId, m) → w.Reflects taskId m

/-- Every answer that arrives finds the state that it was made for. -/
def OrderlyEvent (e : Machine.Event (World ι κ D F) (WorldCall ι κ F) Unit) : Prop :=
  ∀ i request answer n, e.call = .arrive i →
    e.pre.flights[i]? = some ⟨request, .answered answer n⟩ → e.pre.Orderly request answer n

/-- The task and its comments are loaded without error. -/
structure Loaded (state : TaskDetailState ι κ D) : Prop where
  task : state.task.isSome
  isLoading : state.isLoading = false
  isCommentsLoading : state.isCommentsLoading = false
  error : state.error = none
  commentsError : state.commentsError = none

/-- What a run keeps: whenever the task and its comments are loaded, the comments are distinct; the
version of a task is not lower than it was when the task was loaded before; and with no API call
under way the comments and their number are those of the server. -/
structure Consistent (l : List (Machine.Event (World ι κ D F) (WorldCall ι κ F) Unit))
    (w : World ι κ D F) : Prop where
  distinct : Loaded w.store.state → (w.store.state.comments.map TaskComment.id).Nodup
  version : ∀ e ∈ l, ∀ task task', Loaded e.pre.store.state → Loaded w.store.state →
    e.pre.store.state.taskId = w.store.state.taskId → e.pre.store.state.task = some task →
    w.store.state.task = some task' → task.version ≤ task'.version
  settled : Loaded w.store.state → w.flights = [] →
    ∃ t task, w.store.state.taskId = some t ∧ w.store.state.task = some task ∧
      (w.store.state.comments.map TaskComment.id).Perm
        ((w.server.commentsOf t).map TaskComment.id) ∧
      task.commentCount = some (w.store.state.comments.length : ℤ)

end TaskDetailStore
