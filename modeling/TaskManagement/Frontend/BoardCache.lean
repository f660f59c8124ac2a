import TaskManagement.Frontend.Board
import TaskManagement.Machine

/-!
# The cached board

The query `["board", projectId]` and the mutations of `useUpdateTaskMutation.ts`.  `machine`
executes the steps of any number of moves, of the server and of the network in any order.  `τ`
identifies the moves, and `apply` is what the server makes of the board when it accepts one.

A run begins when the board is shown.  At most one fetch of the query is running:
`invalidateQueries` cancels the running one and starts another, and a cancelled fetch leaves the
cached data as it is.
-/

namespace BoardCache

open Board (BoardResponse TaskMoveInput moveTask)

/-- How the `PATCH` of a move ends. -/
inductive Outcome : Type where
  | success
  /-- `TASK_CONFLICT` -/
  | conflict
  /-- Any other failure. -/
  | failure
deriving DecidableEq, Repr

/-- How far a mutation is; `previous` is its context. -/
inductive Phase : Type where
  | idle
  /-- `onMutate` awaits `cancelQueries`. -/
  | cancelling (move : TaskMoveInput)
  /-- The request is on its way. -/
  | sent (move : TaskMoveInput) (previous : Option BoardResponse)
  /-- The response is on its way. -/
  | answered (outcome : Outcome) (previous : Option BoardResponse)
  | settled

structure State (τ : Type) where
  server : BoardResponse
  cache : Option BoardResponse
  /-- The running fetch, with the board that the server has read for it, if it has. -/
  fetch : Option (Option BoardResponse)
  mutations : τ → Phase

inductive Call (τ : Type) : Type where
  /-- `mutate`, up to the `await` of `onMutate`. -/
  | mutate (t : τ) (move : TaskMoveInput)
  /-- The rest of `onMutate`; then `mutationFn` sends the request. -/
  | sendMove (t : τ)
  /-- The server handles the request. -/
  | serve (t : τ) (outcome : Outcome)
  /-- The response arrives: `onError` and `onSettled`. -/
  | settle (t : τ)
  /-- The server reads the board for the running fetch. -/
  | read
  /-- The response of the running fetch arrives. -/
  | fetched

variable {τ : Type}

def cancelQueries (s : State τ) : State τ := { s with fetch := none }

def invalidateQueries (s : State τ) : State τ := { s with fetch := some none }

/-- `onError` -/
def onError (s : State τ) (outcome : Outcome) (previous : Option BoardResponse) : State τ :=
  match outcome with
  | .success => s
  | .conflict => invalidateQueries s
  | .failure =>
    match previous with
    | some board => { s with cache := some board }
    | none => s

/-- `onSettled` -/
def onSettled (s : State τ) (outcome : Outcome) : State τ :=
  if outcome = .success then invalidateQueries s else s

variable [DecidableEq τ]

def setPhase (s : State τ) (t : τ) (x : Phase) : State τ :=
  { s with mutations := Function.update s.mutations t x }

def machine (apply : BoardResponse → TaskMoveInput → BoardResponse) :
    Machine (State τ) (Call τ) Unit where
  step s
    | .mutate t move =>
      match s.mutations t with
      | .idle => some ((), setPhase (cancelQueries s) t (.cancelling move))
      | _ => none
    | .sendMove t =>
      match s.mutations t with
      | .cancelling move =>
        some ((), setPhase { s with cache := s.cache.map (moveTask · move) } t
          (.sent move s.cache))
      | _ => none
    | .serve t outcome =>
      match s.mutations t with
      | .sent move previous =>
        some ((), setPhase
          { s with server := if outcome = .success then apply s.server move else s.server } t
          (.answered outcome previous))
      | _ => none
    | .settle t =>
      match s.mutations t with
      | .answered outcome previous =>
        some ((), onSettled (onError (setPhase s t .settled) outcome previous) outcome)
      | _ => none
    | .read =>
      match s.fetch with
      | some none => some ((), { s with fetch := some (some s.server) })
      | _ => none
    | .fetched =>
      match s.fetch with
      | some (some board) => some ((), { s with cache := some board, fetch := none })
      | _ => none

/-- The board of the server is shown, and no mutation has begun. -/
def init (board : BoardResponse) : State τ where
  server := board
  cache := some board
  fetch := none
  mutations _ := .idle

end BoardCache
