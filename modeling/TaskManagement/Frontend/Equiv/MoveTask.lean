import TaskManagement.Frontend.MoveTask
import Mathlib.Data.List.Nodup
import Mathlib.Data.List.Pairwise

/-!
# `moveTask` is an order-preserving move

On a board whose tasks have distinct identifiers the search finds the only task with the
identifier, and the columns that it leaves are those without that task (`takeOut_eq`).  The task is
then put into the column of its new status, between the others, and the columns are numbered
(`moveTask_eq`): `moveTask_isMove`.
-/

namespace MoveTask

open TaskDb (Status Uuid)
open Board (taskStatuses)

variable {ι ρ β : Type} {columns : BoardColumns ι ρ} {taskId : ι}
  {status : Status} {task moved : BoardTask ι ρ}

/-! ### The tasks of a board -/

/-- The tasks of the columns, one column after the other. -/
def allTasks (columns : BoardColumns ι ρ) : List (BoardTask ι ρ) := taskStatuses.flatMap columns

/-- No two tasks share an identifier. -/
def DistinctIds (columns : BoardColumns ι ρ) : Prop :=
  ((allTasks columns).map BoardTask.id).Nodup

theorem mem_taskStatuses (status : Status) : status ∈ taskStatuses := by
  cases status <;> decide

theorem map_id_allTasks (columns : BoardColumns ι ρ) : (allTasks columns).map BoardTask.id =
    taskStatuses.flatMap fun status => (columns status).map BoardTask.id :=
  List.map_flatMap

theorem DistinctIds.column (h : DistinctIds columns) (status : Status) :
    ((columns status).map BoardTask.id).Nodup := by
  rw [DistinctIds, map_id_allTasks, List.nodup_flatMap] at h
  exact h.1 status (mem_taskStatuses status)

/-- A task is in one column only. -/
theorem DistinctIds.status_eq (h : DistinctIds columns) {status' : Status}
    {task' : BoardTask ι ρ} (ht : task ∈ columns status) (ht' : task' ∈ columns status')
    (hid : task.id = task'.id) : status = status' := by
  rw [DistinctIds, map_id_allTasks, List.nodup_flatMap] at h
  by_contra hne
  have hsymm : Std.Symm (Function.onFun List.Disjoint fun status : Status =>
      (columns status).map BoardTask.id) := ⟨fun _ _ hd => hd.symm⟩
  have hdisjoint := h.2.forall (mem_taskStatuses status) (mem_taskStatuses status') hne
  exact hdisjoint (List.mem_map_of_mem ht) (hid ▸ List.mem_map_of_mem ht')

variable [DecidableEq ι]

/-- The tasks of a column other than `taskId`. -/
def others (columns : BoardColumns ι ρ) (taskId : ι) (status : Status) : List (BoardTask ι ρ) :=
  (columns status).filter fun task => task.id ≠ taskId

theorem others_eq_self (h : ∀ task ∈ columns status, task.id ≠ taskId) :
    others columns taskId status = columns status :=
  List.filter_eq_self.mpr fun task ht => decide_eq_true (h task ht)

/-! ### `splice` -/

section Splice

variable {α : Type} (array : List α)

theorem splice_delete {index : ℕ} (h : index < array.length) :
    splice array index 1 [] = ([array[index]], array.eraseIdx index) := by
  have hstart : spliceStart index array.length = index := by
    rw [spliceStart, if_neg (by omega), Int.toNat_natCast, min_eq_left h.le]
  rw [splice, hstart]
  refine Prod.ext ?_ ?_
  · show (array.drop index).take 1 = [array[index]]
    rw [List.drop_eq_getElem_cons h]
    rfl
  · show array.take index ++ [] ++ array.drop (index + 1) = array.eraseIdx index
    rw [List.append_nil, List.eraseIdx_eq_take_drop_succ]

theorem splice_insert {index : ℕ} (h : index ≤ array.length) (x : α) :
    (splice array index 0 [x]).2 = array.take index ++ x :: array.drop index := by
  have hstart : spliceStart index array.length = index := by
    rw [spliceStart, if_neg (by omega), Int.toNat_natCast, min_eq_left h]
  rw [splice, hstart]
  exact List.append_assoc _ _ _

end Splice

/-! ### The search -/

/-- What is deleted is the only task with the identifier. -/
theorem eraseIdx_of_findIdx? {tasks : List (BoardTask ι ρ)}
    (hnodup : (tasks.map BoardTask.id).Nodup) {index : ℕ}
    (h : (tasks.findIdx? fun task => task.id == taskId) = some index) :
    ∃ hi : index < tasks.length, tasks[index].id = taskId ∧
      tasks.eraseIdx index = tasks.filter fun task => task.id ≠ taskId := by
  obtain ⟨hi, hid, -⟩ := List.findIdx?_eq_some_iff_getElem.mp h
  have hid : tasks[index].id = taskId := eq_of_beq hid
  refine ⟨hi, hid, ?_⟩
  have hsplit : tasks = tasks.take index ++ tasks[index] :: tasks.drop (index + 1) := by
    rw [← List.drop_eq_getElem_cons hi, List.take_append_drop]
  have hne : ∀ task ∈ tasks.take index ++ tasks.drop (index + 1), task.id ≠ taskId := by
    rw [hsplit, List.map_append, List.map_cons] at hnodup
    have hnotMem := (List.nodup_middle.mp hnodup).notMem
    intro task ht htask
    refine hnotMem ?_
    rw [hid, ← htask, ← List.map_append]
    exact List.mem_map_of_mem ht
  rw [List.eraseIdx_eq_take_drop_succ]
  conv_rhs => rw [hsplit]
  rw [List.filter_append, List.filter_cons_of_neg (by simpa using hid), ← List.filter_append]
  exact (List.filter_eq_self.mpr fun task ht => decide_eq_true (hne task ht)).symm

theorem takeOut_of_notMem (h : ∀ status, ∀ task ∈ columns status, task.id ≠ taskId)
    (statuses : List Status) : takeOut taskId columns statuses = (none, columns) := by
  induction statuses with
  | nil => rfl
  | cons status statuses ih =>
    have hnone : ((columns status).findIdx? fun task => task.id == taskId) = none :=
      List.findIdx?_eq_none_iff.mpr fun task ht => beq_false_of_ne (h status task ht)
    rw [takeOut, hnone]
    exact ih

/-- The search takes the task out of its column, and the other columns do not hold it. -/
theorem takeOut_eq (h : DistinctIds columns) (hmem : moved ∈ columns status)
    (hid : moved.id = taskId) {statuses : List Status} (hstatus : status ∈ statuses) :
    takeOut taskId columns statuses = (some moved, others columns taskId) := by
  have honly : ∀ s, s ≠ status → ∀ task ∈ columns s, task.id ≠ taskId :=
    fun s hs task ht htask => hs (h.status_eq ht hmem (htask.trans hid.symm))
  induction statuses with
  | nil => cases hstatus
  | cons s statuses ih =>
    cases hfind : (columns s).findIdx? fun task => task.id == taskId with
    | none =>
      have hs : s ≠ status := by
        rintro rfl
        have hne := List.findIdx?_eq_none_iff.mp hfind moved hmem
        rw [hid, beq_self_eq_true] at hne
        cases hne
      rw [takeOut, hfind]
      exact ih ((List.mem_cons.mp hstatus).resolve_left hs.symm)
    | some index =>
      obtain ⟨hi, hindex, hrest⟩ := eraseIdx_of_findIdx? (h.column s) hfind
      have hfound : (columns s)[index] ∈ columns s := List.getElem_mem hi
      obtain rfl : s = status := h.status_eq hfound hmem (hindex.trans hid.symm)
      have hmoved : (columns s)[index] = moved :=
        List.inj_on_of_nodup_map (h.column s) hfound hmem (hindex.trans hid.symm)
      rw [takeOut, hfind]
      simp only [splice_delete _ hi, hrest, hmoved]
      refine Prod.ext rfl (funext fun s' => ?_)
      by_cases hs' : s' = s
      · subst hs'
        exact Function.update_self ..
      · exact (Function.update_of_ne hs' ..).trans (others_eq_self (honly s' hs')).symm

/-! ### The columns after the move -/

/-- The index of the moved task. -/
def place (columns : BoardColumns ι ρ) (vars : UpdateTaskVariables ι) : ℕ :=
  min vars.position.toNat (others columns vars.taskId vars.status).length

/-- The columns after the move, before they are numbered. -/
def movedColumns (columns : BoardColumns ι ρ) (vars : UpdateTaskVariables ι)
    (moved : BoardTask ι ρ) (status : Status) : List (BoardTask ι ρ) :=
  let tasks := others columns vars.taskId status
  if status = vars.status then
    tasks.take (place columns vars) ++
      { moved with status := vars.status } :: tasks.drop (place columns vars)
  else tasks

variable {board : BoardResponse ι ρ β} {vars : UpdateTaskVariables ι}

theorem moveTask_eq (h : DistinctIds board.columns) (hmem : moved ∈ board.columns status)
    (hid : moved.id = vars.taskId) (hposition : 0 ≤ vars.position) :
    moveTask board vars = { board with
      columns := fun status => renumber (movedColumns board.columns vars moved status) } := by
  have hplace : min vars.position (others board.columns vars.taskId vars.status).length =
      (place board.columns vars : ℕ) := by
    rw [place]
    omega
  have hle : place board.columns vars ≤ (others board.columns vars.taskId vars.status).length :=
    min_le_right ..
  rw [moveTask, takeOut_eq h hmem hid (mem_taskStatuses status)]
  simp only [hplace, splice_insert _ hle]
  refine congrArg (BoardResponse.mk board.rest) (funext fun s => congrArg renumber ?_)
  by_cases hs : s = vars.status
  · subst hs
    rw [Function.update_self, movedColumns, if_pos rfl]
  · rw [Function.update_of_ne hs, movedColumns, if_neg hs]

/-! ### What is left as it was -/

/-- A task without its position. -/
def BoardTask.unplaced (task : BoardTask ι ρ) : BoardTask ι ρ := { task with position := 0 }

omit [DecidableEq ι] in
theorem getElem?_renumber (tasks : List (BoardTask ι ρ)) (index : ℕ) :
    (renumber tasks)[index]? = tasks[index]?.map fun task => { task with position := index } :=
  List.getElem?_mapIdx

omit [DecidableEq ι] in
/-- Numbering changes the positions only. -/
theorem map_renumber {α : Type} {f : BoardTask ι ρ → α}
    (hf : ∀ task : BoardTask ι ρ, ∀ position, f { task with position := position } = f task)
    (tasks : List (BoardTask ι ρ)) : (renumber tasks).map f = tasks.map f := by
  refine List.ext_getElem? fun index => ?_
  rw [List.getElem?_map, List.getElem?_map, getElem?_renumber, Option.map_map]
  exact Option.map_congr fun task _ => hf task index

/-- The tasks other than `taskId`, without their positions. -/
theorem map_unplaced_filter (tasks : List (BoardTask ι ρ)) (taskId : ι) :
    ((renumber tasks).filter fun task => task.id ≠ taskId).map BoardTask.unplaced =
      (tasks.filter fun task => task.id ≠ taskId).map BoardTask.unplaced := by
  have hfilter : ∀ l : List (BoardTask ι ρ),
      (l.filter fun task => task.id ≠ taskId).map BoardTask.unplaced =
        (l.map BoardTask.unplaced).filter fun task => task.id ≠ taskId :=
    fun l => (List.filter_map (f := BoardTask.unplaced)
      (p := fun task : BoardTask ι ρ => task.id ≠ taskId)).symm
  rw [hfilter, hfilter, map_renumber fun _ _ => rfl]

theorem others_movedColumns (hid : moved.id = vars.taskId) (status : Status) :
    (movedColumns board.columns vars moved status).filter (fun task => task.id ≠ vars.taskId) =
      others board.columns vars.taskId status := by
  have hothers : ∀ l : List (BoardTask ι ρ), (∀ task ∈ l,
      task ∈ others board.columns vars.taskId status) →
      l.filter (fun task => task.id ≠ vars.taskId) = l :=
    fun l hl => List.filter_eq_self.mpr fun task ht => (List.mem_filter.mp (hl task ht)).2
  rw [movedColumns]
  split_ifs with hs
  · rw [List.filter_append, List.filter_cons_of_neg (by simpa using hid),
      hothers _ fun _ => List.mem_of_mem_take, hothers _ fun _ => List.mem_of_mem_drop,
      List.take_append_drop]
  · exact hothers _ fun _ ht => ht

/-! ### The tasks of the board after the move -/

/-- One more element in one of the lists. -/
theorem flatMap_perm_cons {α κ : Type} [DecidableEq κ] {f g : κ → List α} {k : κ} {x : α}
    (hk : (g k).Perm (x :: f k)) (hother : ∀ j, j ≠ k → g j = f j) {keys : List κ}
    (hnodup : keys.Nodup) (hmem : k ∈ keys) :
    (keys.flatMap g).Perm (x :: keys.flatMap f) := by
  induction keys with
  | nil => cases hmem
  | cons j keys ih =>
    obtain ⟨hj, hnodup⟩ := List.nodup_cons.mp hnodup
    rw [List.flatMap_cons, List.flatMap_cons]
    by_cases hjk : j = k
    · subst hjk
      have hrest : keys.flatMap g = keys.flatMap f :=
        List.flatMap_congr fun i hi => hother i fun hij => hj (hij ▸ hi)
      rw [hrest]
      exact hk.append_right _
    · rw [hother j hjk]
      have htail := ih hnodup ((List.mem_cons.mp hmem).resolve_left (Ne.symm hjk))
      exact (htail.append_left (f j)).trans List.perm_middle

theorem nodup_taskStatuses : taskStatuses.Nodup := by decide

/-- Apart from the one task, the identifiers of a column are those of the others. -/
theorem perm_others (h : DistinctIds columns) (hmem : moved ∈ columns status)
    (hid : moved.id = taskId) : ((columns status).map BoardTask.id).Perm
      (taskId :: (others columns taskId status).map BoardTask.id) := by
  have herase : (others columns taskId status).map BoardTask.id =
      ((columns status).map BoardTask.id).erase taskId := by
    rw [(h.column status).erase_eq_filter, List.filter_map]
    refine congrArg _ (List.filter_congr fun task _ => ?_)
    by_cases htask : task.id = taskId <;> simp [htask]
  rw [herase]
  exact List.perm_cons_erase (hid ▸ List.mem_map_of_mem hmem)

theorem perm_ids (h : DistinctIds board.columns) (hmem : moved ∈ board.columns status)
    (hid : moved.id = vars.taskId) :
    ((allTasks fun status => renumber (movedColumns board.columns vars moved status)).map
      BoardTask.id).Perm ((allTasks board.columns).map BoardTask.id) := by
  have hnew := flatMap_perm_cons (x := vars.taskId) (k := vars.status)
    (f := fun status => (others board.columns vars.taskId status).map BoardTask.id)
    (g := fun status =>
      (renumber (movedColumns board.columns vars moved status)).map BoardTask.id)
    ?_ ?_ nodup_taskStatuses (mem_taskStatuses _)
  have hold := flatMap_perm_cons (x := vars.taskId) (k := status)
    (f := fun status => (others board.columns vars.taskId status).map BoardTask.id)
    (g := fun status => (board.columns status).map BoardTask.id)
    (perm_others h hmem hid) ?_ nodup_taskStatuses (mem_taskStatuses _)
  · rw [map_id_allTasks, map_id_allTasks]
    exact hnew.trans hold.symm
  · intro s hs
    rw [others_eq_self]
    exact fun task ht htask => hs (h.status_eq ht hmem (htask.trans hid.symm))
  · rw [map_renumber fun _ _ => rfl, movedColumns, if_pos rfl, List.map_append, List.map_cons]
    refine List.perm_middle.trans ?_
    rw [← List.map_append, List.take_append_drop, hid]
  · intro s hs
    rw [map_renumber fun _ _ => rfl, movedColumns, if_neg hs]

/-! ### Main theorem -/

/-- The task `moved` goes to the column of its new status, to the index `position` or to the end of
the column; the other tasks stay in their columns and in their order; and nothing else changes but
the positions, which are the indices. -/
structure IsMove (board board' : BoardResponse ι ρ β) (vars : UpdateTaskVariables ι)
    (moved : BoardTask ι ρ) : Prop where
  tasks : ((allTasks board'.columns).map BoardTask.id).Perm
    ((allTasks board.columns).map BoardTask.id)
  moved : ∃ index : ℕ, (index : ℤ) =
      min vars.position (others board.columns vars.taskId vars.status).length ∧
    (board'.columns vars.status)[index]? =
      some { moved with status := vars.status, position := index }
  others : ∀ status, (others board'.columns vars.taskId status).map BoardTask.unplaced =
    (others board.columns vars.taskId status).map BoardTask.unplaced
  position : ∀ status (index : ℕ) task, (board'.columns status)[index]? = some task →
    task.position = index
  rest : board'.rest = board.rest

/-- On a board whose tasks have distinct identifiers `moveTask` moves the task, if there is one. -/
theorem moveTask_isMove (board : BoardResponse ι ρ β) (vars : UpdateTaskVariables ι)
    (hdistinct : DistinctIds board.columns) (hposition : 0 ≤ vars.position) :
    ((∀ status, ∀ task ∈ board.columns status, task.id ≠ vars.taskId) →
      moveTask board vars = board) ∧
    ∀ status, ∀ moved ∈ board.columns status, moved.id = vars.taskId →
      IsMove board (moveTask board vars) vars moved := by
  refine ⟨fun hnone => ?_, fun status moved hmem hid => ?_⟩
  · rw [moveTask, takeOut_of_notMem hnone]
  rw [moveTask_eq hdistinct hmem hid hposition]
  refine ⟨perm_ids hdistinct hmem hid, ⟨place board.columns vars, ?_, ?_⟩, fun s => ?_,
    fun s index task htask => ?_, rfl⟩
  · rw [place]
    omega
  · have hlength : ((others board.columns vars.taskId vars.status).take
        (place board.columns vars)).length = place board.columns vars :=
      List.length_take_of_le (min_le_right ..)
    rw [getElem?_renumber, movedColumns, if_pos rfl, List.getElem?_append_right hlength.le, hlength,
      Nat.sub_self]
    rfl
  · exact (map_unplaced_filter _ _).trans
      (congrArg (List.map BoardTask.unplaced) (others_movedColumns hid s))
  · rw [getElem?_renumber] at htask
    obtain ⟨t, -, rfl⟩ := Option.map_eq_some_iff.mp htask
    rfl

/-- One task to do, and one in progress. -/
def twoTasks : BoardResponse String String String where
  rest := "project-1"
  columns
    | .todo => [⟨"task-1", .todo, 0, "移動"⟩]
    | .inProgress => [⟨"task-2", .inProgress, 0, "既存"⟩]
    | .done => []

/-- The first task goes below the second. -/
theorem moveTask_isMove_twoTasks :
    IsMove twoTasks (moveTask twoTasks ⟨"task-1", .inProgress, 1, 1⟩)
      ⟨"task-1", .inProgress, 1, 1⟩ ⟨"task-1", .todo, 0, "移動"⟩ :=
  (moveTask_isMove twoTasks ⟨"task-1", .inProgress, 1, 1⟩ (by unfold DistinctIds; decide)
    (by decide)).2 .todo _ (List.mem_singleton.mpr rfl) rfl

/-! ### The boards that the server sends -/

theorem insertIdx_eq_append {α : Type} (l : List α) (x : α) {index : ℕ} (h : index ≤ l.length) :
    l.insertIdx index x = l.take index ++ x :: l.drop index := by
  induction l generalizing index with
  | nil =>
    obtain rfl : index = 0 := Nat.le_zero.mp h
    rfl
  | cons a l ih =>
    cases index with
    | zero => rfl
    | succ index =>
      rw [List.insertIdx_succ_cons, ih (Nat.le_of_succ_le_succ h)]
      rfl

/-- The other fields of the task are those of the task itself. -/
def ofBoardTask (task : Board.BoardTask) : BoardTask Uuid Board.BoardTask :=
  ⟨task.id, task.status, task.position, task⟩

def toBoardTask (task : BoardTask Uuid Board.BoardTask) : Board.BoardTask :=
  { task.rest with id := task.id, status := task.status, position := task.position }

def ofBoard (board : Board.BoardResponse) :
    BoardResponse Uuid Board.BoardTask Board.BoardResponse :=
  ⟨board, fun status => (board.columns status).map ofBoardTask⟩

def toBoard (board : BoardResponse Uuid Board.BoardTask Board.BoardResponse) :
    Board.BoardResponse :=
  { board.rest with columns := fun status => (board.columns status).map toBoardTask }

def ofMove (move : Board.TaskMoveInput) : UpdateTaskVariables Uuid :=
  ⟨move.taskId, move.status, move.position, move.version⟩

theorem map_toBoardTask (tasks : List Board.BoardTask) :
    (tasks.map ofBoardTask).map toBoardTask = tasks := by
  rw [List.map_map]
  exact List.map_id _

theorem toBoard_ofBoard (board : Board.BoardResponse) : toBoard (ofBoard board) = board :=
  congrArg (Board.BoardResponse.mk board.projectId board.projectIsActive)
    (funext fun status => map_toBoardTask (board.columns status))

/-- The search and the deletion, as `Board.moveTask` has them. -/
theorem takeOut_ofBoardTask (columns : Board.BoardColumns) (taskId : Uuid)
    (statuses : List Status) :
    takeOut taskId (fun status => (columns status).map ofBoardTask) statuses =
      match statuses.findSome? fun status =>
        ((columns status).findIdx? fun task => task.id == taskId).map (status, ·) with
      | none => (none, fun status => (columns status).map ofBoardTask)
      | some (status, index) => ((columns status)[index]?.map ofBoardTask, fun s =>
        (Function.update columns status ((columns status).eraseIdx index) s).map ofBoardTask) := by
  induction statuses with
  | nil => rfl
  | cons status statuses ih =>
    have hfind : (((columns status).map ofBoardTask).findIdx? fun task => task.id == taskId) =
        (columns status).findIdx? fun task => task.id == taskId := List.findIdx?_map
    rw [takeOut, hfind, List.findSome?_cons]
    cases hindex : (columns status).findIdx? fun task => task.id == taskId with
    | none => exact ih
    | some index =>
      obtain ⟨hi, -⟩ := List.findIdx?_eq_some_iff_getElem.mp hindex
      have hi' : index < ((columns status).map ofBoardTask).length := by
        rw [List.length_map]
        exact hi
      have hdelete : splice ((columns status).map ofBoardTask) index 1 [] =
          ([ofBoardTask (columns status)[index]],
            ((columns status).eraseIdx index).map ofBoardTask) := by
        rw [splice_delete _ hi', List.getElem_map, List.eraseIdx_map]
      simp only [hdelete, Option.map_some, List.getElem?_eq_getElem hi]
      refine Prod.ext rfl (funext fun s => ?_)
      exact (Function.apply_update (fun _ => List.map ofBoardTask) columns status _ s).symm

theorem map_toBoardTask_renumber (tasks : List (BoardTask Uuid Board.BoardTask)) :
    (renumber tasks).map toBoardTask = Board.renumber (tasks.map toBoardTask) := by
  refine List.ext_getElem? fun index => ?_
  rw [List.getElem?_map, getElem?_renumber, Board.renumber, List.getElem?_mapIdx,
    List.getElem?_map, Option.map_map, Option.map_map]
  rfl

/-- The insertion, as `Board.moveTask` has it. -/
theorem splice_ofBoardTask (tasks : List Board.BoardTask) (move : Board.TaskMoveInput)
    (moved : Board.BoardTask) :
    (splice (tasks.map ofBoardTask) (min (move.position : ℤ) (tasks.map ofBoardTask).length) 0
        [{ ofBoardTask moved with status := move.status }]).2.map toBoardTask =
      tasks.insertIdx (min move.position tasks.length) { moved with status := move.status } := by
  have hmin : min (move.position : ℤ) (tasks.map ofBoardTask).length =
      (min move.position tasks.length : ℕ) := by
    rw [List.length_map]
    omega
  have hle : min move.position tasks.length ≤ (tasks.map ofBoardTask).length := by
    rw [List.length_map]
    exact min_le_right ..
  rw [hmin, splice_insert _ hle, insertIdx_eq_append _ _ (min_le_right ..), List.map_append,
    List.map_cons, List.map_take, List.map_drop, map_toBoardTask]
  rfl

/-- `Board.moveTask` is `moveTask` for the boards of the server. -/
theorem moveTask_ofBoard (board : Board.BoardResponse) (move : Board.TaskMoveInput) :
    toBoard (moveTask (ofBoard board) (ofMove move)) = Board.moveTask board move := by
  have hout := takeOut_ofBoardTask board.columns move.taskId taskStatuses
  rw [moveTask, Board.moveTask]
  change takeOut (ofMove move).taskId (ofBoard board).columns taskStatuses =
    (match Board.findColumn board.columns move.taskId with
      | none => (none, (ofBoard board).columns)
      | some (status, index) => ((board.columns status)[index]?.map ofBoardTask, fun s =>
        (Function.update board.columns status ((board.columns status).eraseIdx index) s).map
          ofBoardTask)) at hout
  rw [hout]
  cases hfind : Board.findColumn board.columns move.taskId with
  | none => exact toBoard_ofBoard board
  | some found =>
    obtain ⟨status, index⟩ := found
    dsimp only
    cases hmoved : (board.columns status)[index]? with
    | none => exact toBoard_ofBoard board
    | some moved =>
      dsimp only [Option.map_some]
      refine congrArg (Board.BoardResponse.mk board.projectId board.projectIsActive)
        (funext fun s => ?_)
      refine (map_toBoardTask_renumber _).trans (congrArg Board.renumber ?_)
      rw [← splice_ofBoardTask]
      refine (Function.apply_update (fun _ => List.map toBoardTask) _ _ _ s).trans ?_
      simp only [map_toBoardTask]
      rfl

end MoveTask
