import TaskManagement.Frontend.Board

/-!
# The optimistic move, field by field

`moveTask` of `useUpdateTaskMutation.ts` on the types of `types.ts`, with the loops and the calls
of `splice` as they stand there.  Of a task it reads and sets the identifier, the status and the
position; everything else (`ρ` for a task, `β` for the board) it copies.

`Board.moveTask` is this function for the columns of a board that the server sends
(`moveTask_ofBoard`).
-/

namespace MoveTask

open TaskDb (Status)
open Board (taskStatuses)

/-! ### `splice` -/

section Splice

variable {α : Type}

/-- The index that `start` stands for: a negative one counts from the end, and both are clamped. -/
def spliceStart (start : ℤ) (length : ℕ) : ℕ :=
  if start < 0 then (length + start).toNat else min start.toNat length

/-- `array.splice(start, deleteCount, ...items)`: the deleted elements, and what `array` becomes. -/
def splice (array : List α) (start : ℤ) (deleteCount : ℕ) (items : List α) : List α × List α :=
  let index := spliceStart start array.length
  ((array.drop index).take deleteCount,
    array.take index ++ items ++ array.drop (index + deleteCount))

end Splice

/-! ### The board -/

structure BoardTask (ι ρ : Type) where
  id : ι
  status : Status
  position : ℤ
  /-- `project_id`, `title`, `description`, `assignee`, `version`, `due_at`, `is_active`,
  `created_by`, `comment_count`, `created_at` and `updated_at`. -/
  rest : ρ
deriving DecidableEq

abbrev BoardColumns (ι ρ : Type) : Type := Status → List (BoardTask ι ρ)

structure BoardResponse (ι ρ β : Type) where
  /-- `project_id` and `project_is_active`. -/
  rest : β
  columns : BoardColumns ι ρ

structure UpdateTaskVariables (ι : Type) where
  taskId : ι
  status : Status
  position : ℤ
  version : ℤ
deriving DecidableEq

/-! ### `moveTask` -/

variable {ι ρ β : Type} [DecidableEq ι]

/-- The loop that looks for the task in the columns `statuses`: it takes the task out of the first
column that holds it, and stops there.  The result is `moved`, with the columns that are left. -/
def takeOut (taskId : ι) (columns : BoardColumns ι ρ) :
    List Status → Option (BoardTask ι ρ) × BoardColumns ι ρ
  | [] => (none, columns)
  | status :: statuses =>
    let tasks := columns status
    match tasks.findIdx? fun task => task.id == taskId with
    | some index =>
      let spliced := splice tasks index 1 []
      (spliced.1[0]?, Function.update columns status spliced.2)
    | none => takeOut taskId columns statuses

/-- `tasks.forEach((task, index) => { task.position = index; })` -/
def renumber (tasks : List (BoardTask ι ρ)) : List (BoardTask ι ρ) :=
  tasks.mapIdx fun index task => { task with position := index }

/-- `columns` is a copy, so that `board` itself is not changed. -/
def moveTask (board : BoardResponse ι ρ β) (vars : UpdateTaskVariables ι) :
    BoardResponse ι ρ β :=
  match takeOut vars.taskId board.columns taskStatuses with
  | (none, _) => board
  | (some moved, columns) =>
    let target := columns vars.status
    let spliced := splice target (min vars.position target.length) 0
      [{ moved with status := vars.status }]
    let columns := Function.update columns vars.status spliced.2
    { board with columns := fun status => renumber (columns status) }

end MoveTask
