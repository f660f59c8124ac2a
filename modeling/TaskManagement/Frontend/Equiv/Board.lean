import TaskManagement.Frontend.Board
import TaskManagement.Db.ColumnLocks
import TaskManagement.Db.Equiv.UpdateAlone
import TaskManagement.Ranks

/-!
# The optimistic move and the board after it

A board shows the active tasks of a project, each column in the order of their positions
(`mem_columnIds`, `pairwise_columnIds`).  `moveTask` takes the task out of its column and inserts it
at the place of the drop (`columnIds_moveTask`); `sp_update_task` inserts it at the rank that the
place, taken as a position, has among the positions of the other tasks (`Drop.columnIds_after`).

* `moveTask_eq_board_iff`: in every state of the database the two are the same exactly when the call
  is not refused and there is no gap in the positions up to the place of the drop (`MoveFits`);
* `moveTask_ne_board_gapRun`: below an inactive task, which keeps its position, they differ.
-/

namespace Board

open TaskDb ReadCommitted Columns Ranks
open Pages (before before_perm)

variable {db db' : Db} {projectId : Uuid} {status : Status} {t : Uuid}

/-! ### The columns of a board -/

/-- The board shows the task in the column. -/
def Shown (db : Db) (projectId : Uuid) (status : Status) (t : Uuid) : Prop :=
  ∃ r, db.row (.task t) = some r ∧ r.projectId = some projectId ∧ r.isActive = true ∧
    r.status = status

/-- The position of a task. -/
def position (db : Db) (t : Uuid) : ℤ := ((db.row (.task t)).map Task.position).getD 0

theorem position_of_row {r : Task} (h : db.row (.task t) = some r) :
    position db t = r.position := by
  rw [position, h]
  rfl

instance : Std.Total boardOrder where
  total a b := by
    unfold boardOrder
    rcases lt_trichotomy a.2.status b.2.status with h | h | h
    · exact Or.inl (Or.inl h)
    · rcases le_total a.2.position b.2.position with hp | hp
      · exact Or.inl (Or.inr ⟨h, hp⟩)
      · exact Or.inr (Or.inr ⟨h.symm, hp⟩)
    · exact Or.inr (Or.inl h)

instance : IsTrans (Uuid × Task) boardOrder where
  trans a b c := by
    unfold boardOrder
    rintro (h | ⟨h, hp⟩) (h' | ⟨h', hp'⟩)
    · exact Or.inl (h.trans h')
    · exact Or.inl (h' ▸ h)
    · exact Or.inl (h ▸ h')
    · exact Or.inr ⟨h.trans h', hp.trans hp'⟩

/-- The tasks of a column of the board, from top to bottom. -/
def shownTasks (db : Db) (projectId : Uuid) (status : Status) : List (Uuid × Task) :=
  let rows := (tasks db).filter fun x =>
    decide (x.2.projectId = some projectId) && (false || x.2.isActive)
  (rows.insertionSort boardOrder).filter fun x => decide (x.2.status = status)

theorem columns_getBoard : (getBoard db projectId false).columns status =
    (shownTasks db projectId status).map fun x => boardTask
      { id := x.1
        task := x.2
        projectIsActive := (db.row (.project projectId)).map TaskDb.Project.isActive
        commentCount := Responses.commentCount db x.1 } := by
  unfold getBoard fnGetProjectBoard shownTasks
  dsimp only
  rw [List.filter_map, List.map_map]
  rfl

theorem columnIds_getBoard : columnIds (getBoard db projectId false) status =
    (shownTasks db projectId status).map Prod.fst := by
  unfold columnIds
  rw [columns_getBoard, List.map_map]
  rfl

theorem mem_shownTasks {r : Task} : (t, r) ∈ shownTasks db projectId status ↔
    db.row (.task t) = some r ∧ r.projectId = some projectId ∧ r.isActive = true ∧
      r.status = status := by
  unfold shownTasks
  rw [List.mem_filter, List.mem_insertionSort, List.mem_filter, mem_tasks]
  simp [and_assoc]

theorem mem_columnIds :
    t ∈ columnIds (getBoard db projectId false) status ↔ Shown db projectId status t := by
  rw [columnIds_getBoard, List.mem_map]
  constructor
  · rintro ⟨⟨u, r⟩, h, rfl⟩
    exact ⟨r, mem_shownTasks.mp h⟩
  · rintro ⟨r, h⟩
    exact ⟨(t, r), mem_shownTasks.mpr h, rfl⟩

/-- The tasks of a column are shown in the order of their positions, which are distinct. -/
theorem pairwise_columnIds (hd : Valid schema db) :
    (columnIds (getBoard db projectId false) status).Pairwise
      fun a b => position db a < position db b := by
  have hnodup : (shownTasks db projectId status).Pairwise fun x y => x.1 ≠ y.1 := by
    refine List.pairwise_map.mp (((((tasks db).filter _).perm_insertionSort boardOrder).map
      Prod.fst).nodup_iff.mpr ?_ |>.sublist (List.filter_sublist.map Prod.fst))
    exact (nodup_tasks db).sublist (List.filter_sublist.map Prod.fst)
  have hsorted : (shownTasks db projectId status).Pairwise boardOrder :=
    (List.pairwise_insertionSort boardOrder _).filter _
  rw [columnIds_getBoard, List.pairwise_map]
  refine (hnodup.and hsorted).imp_of_mem ?_
  rintro ⟨a, r⟩ ⟨b, r'⟩ ha hb ⟨hne, hord⟩
  obtain ⟨hr, hproj, -, hs⟩ := mem_shownTasks.mp ha
  obtain ⟨hr', hproj', -, hs'⟩ := mem_shownTasks.mp hb
  rw [position_of_row hr, position_of_row hr']
  have hle : r.position ≤ r'.position := by
    rcases hord with h | h
    · exact absurd (hs.trans hs'.symm) h.ne
    · exact h.2
  refine lt_of_le_of_ne hle fun heq => hne ?_
  have hslot : ∀ {t r₀}, db.row (.task t) = some r₀ → r₀.projectId = some projectId →
      r₀.status = status → boardSlot db t = some ((some projectId, status), r₀.position) := by
    rintro t r₀ hr₀ hp rfl
    exact boardSlot_eq_some.mpr ⟨(slot_of_row hr₀).trans (by rw [Task.slot, hp]), rfl⟩
  exact (ordered_boardSlot hd).distinct (hslot hr hproj hs) (heq ▸ hslot hr' hproj' hs')

/-! ### The optimistic move -/

section

variable {board : BoardResponse} {m : TaskMoveInput}

theorem findIdx?_id (tasks : List BoardTask) (t : Uuid) :
    (tasks.findIdx? fun task => task.id == t) = (tasks.map BoardTask.id).idxOf? t := by
  rw [List.idxOf?, List.findIdx?_map]
  rfl

theorem map_id_renumber (tasks : List BoardTask) :
    (renumber tasks).map BoardTask.id = tasks.map BoardTask.id := by
  refine List.ext_getElem (by simp [renumber]) fun i _ _ => ?_
  simp [renumber]

/-- `findColumn` finds the only column of the task. -/
theorem findColumn_of_mem (hmem : t ∈ columnIds board status)
    (honly : ∀ s, t ∈ columnIds board s → s = status) :
    ∃ i, findColumn board.columns t = some (status, i) ∧
      (columnIds board status).idxOf? t = some i := by
  unfold findColumn
  cases h : taskStatuses.findSome? fun status =>
      ((board.columns status).findIdx? fun task => task.id == t).map (status, ·) with
  | none =>
    have hnone := List.findSome?_eq_none_iff.mp h status (by cases status <;> decide)
    rw [Option.map_eq_none_iff, findIdx?_id, List.idxOf?_eq_none_iff] at hnone
    exact absurd hmem hnone
  | some x =>
    obtain ⟨s, -, hs⟩ := List.exists_of_findSome?_eq_some h
    obtain ⟨i, hi, rfl⟩ := Option.map_eq_some_iff.mp hs
    rw [findIdx?_id] at hi
    have hsome : ((columnIds board s).idxOf? t).isSome = true := by
      rw [columnIds, hi]
      rfl
    obtain rfl := honly s (List.isSome_idxOf?.mp hsome)
    exact ⟨i, rfl, hi⟩

/-- The move takes the task out of its column and inserts it in the target column. -/
theorem columnIds_moveTask (hmem : m.taskId ∈ columnIds board status)
    (honly : ∀ s, m.taskId ∈ columnIds board s → s = status) (s : Status) :
    columnIds (moveTask board m) s =
      if s = m.status then
        ((columnIds board s).erase m.taskId).insertIdx
          (min m.position ((columnIds board s).erase m.taskId).length) m.taskId
      else (columnIds board s).erase m.taskId := by
  obtain ⟨i, hfind, hi⟩ := findColumn_of_mem hmem honly
  obtain ⟨hlt, hid, -⟩ := List.idxOf?_eq_some_iff.mp hi
  rw [columnIds, List.length_map] at hlt
  have hmoved : (board.columns status)[i]? = some (board.columns status)[i] :=
    List.getElem?_eq_getElem hlt
  have herased : ∀ s, (Function.update board.columns status
      ((board.columns status).eraseIdx i) s).map BoardTask.id =
        (columnIds board s).erase m.taskId := by
    intro s
    by_cases hs : s = status
    · subst hs
      rw [Function.update_self, List.erase_eq_eraseIdx, hi]
      exact (List.eraseIdx_map _ _ _).symm
    · rw [Function.update_of_ne hs, List.erase_of_not_mem fun h => hs (honly s h)]
      rfl
  unfold moveTask
  simp only [hfind, hmoved]
  rw [columnIds, map_id_renumber]
  split_ifs with hs
  · subst hs
    rw [Function.update_self, List.map_insertIdx, ← herased, List.length_map]
    simp only [columnIds, List.getElem_map] at hid
    rw [hid]
  · rw [Function.update_of_ne hs, herased]

/-! ### Drops -/

/-- What a resolved drop tells about the columns. -/
theorem resolveTaskMove_eq_some {event : TaskDropEvent} {columns : BoardColumns}
    (h : resolveTaskMove event columns = some m) :
    ∃ s task, task ∈ columns s ∧ m.taskId = task.id ∧ m.version = task.version ∧
      m.position ≤ (columns m.status).length ∧
      (m.status = task.status → m.position < (columns m.status).length ∧
        ((columns task.status).findIdx? fun x => x.id == task.id) ≠ some m.position) := by
  unfold resolveTaskMove at h
  obtain ⟨overTarget, -, h⟩ := Option.bind_eq_some_iff.mp h
  obtain ⟨task, htask, h⟩ := Option.bind_eq_some_iff.mp h
  obtain ⟨targetStatus, -, h⟩ := Option.bind_eq_some_iff.mp h
  obtain ⟨s, -, hs⟩ := List.mem_flatMap.mp (List.mem_of_find?_eq_some htask)
  dsimp only at h
  -- whatever the position is, it is that of a card or the end of the column
  have hkey : ∀ position : ℤ, position ≤ (columns targetStatus).length →
      (targetStatus = task.status → position < (columns targetStatus).length) →
      (if position < 0 ∨ (targetStatus = task.status ∧
          ((columns task.status).findIdx? fun x => x.id == task.id) = some position.toNat) then none
        else some ⟨task.id, targetStatus, position.toNat, task.version⟩) = some m →
      m.taskId = task.id ∧ m.version = task.version ∧
        m.position ≤ (columns m.status).length ∧
        (m.status = task.status → m.position < (columns m.status).length ∧
          ((columns task.status).findIdx? fun x => x.id == task.id) ≠ some m.position) := by
    intro position hle hlt hm
    split_ifs at hm with hout
    obtain rfl := Option.some.inj hm
    rw [not_or, not_and, not_lt] at hout
    refine ⟨rfl, rfl, ?_, fun heq => ⟨?_, hout.2 heq⟩⟩
    · show position.toNat ≤ (columns targetStatus).length
      omega
    · have := hlt heq
      show position.toNat < (columns targetStatus).length
      omega
  refine ⟨s, task, hs, hkey _ ?_ ?_ h⟩
  · split
    · rename_i index hindex
      obtain ⟨hlt, -⟩ := List.findIdx?_eq_some_iff_getElem.mp hindex
      omega
    · split_ifs <;> omega
  · intro heq
    split
    · rename_i index hindex
      obtain ⟨hlt, -⟩ := List.findIdx?_eq_some_iff_getElem.mp hindex
      omega
    · rw [if_pos heq]
      omega

end

/-- A drop on the board moves a task that is shown there, with its version, to a place of a column,
and within its column to another place than it has. -/
structure Drop (db : Db) (projectId : Uuid) (m : TaskMoveInput) (r : Task) : Prop where
  row : db.row (.task m.taskId) = some r
  inProject : r.projectId = some projectId
  isActive : r.isActive = true
  version : m.version = r.version
  le_length : m.position ≤ (columnIds (getBoard db projectId false) m.status).length
  within : m.status = r.status →
    m.position < (columnIds (getBoard db projectId false) m.status).length ∧
      (columnIds (getBoard db projectId false) m.status).idxOf? m.taskId ≠ some m.position

variable {m : TaskMoveInput} {r : Task}

theorem drop_of_resolveTaskMove {event : TaskDropEvent}
    (h : resolveTaskMove event (getBoard db projectId false).columns = some m) :
    ∃ r, Drop db projectId m r := by
  obtain ⟨s, task, hmem, hid, hversion, hle, hwithin⟩ := resolveTaskMove_eq_some h
  rw [columns_getBoard] at hmem
  obtain ⟨⟨t, r⟩, hshown, rfl⟩ := List.mem_map.mp hmem
  obtain ⟨hrow, hproj, hactive, hs⟩ := mem_shownTasks.mp hshown
  have hlen : (columnIds (getBoard db projectId false) m.status).length =
      ((getBoard db projectId false).columns m.status).length := List.length_map _
  refine ⟨r, hid ▸ hrow, hproj, hactive, hversion, hlen ▸ hle, fun hstatus => ?_⟩
  obtain ⟨hlt, hne⟩ := hwithin hstatus
  rw [findIdx?_id] at hne
  refine ⟨hlen ▸ hlt, ?_⟩
  rw [hid, hstatus]
  exact hne

namespace Drop

theorem shown_iff (h : Drop db projectId m r) :
    Shown db projectId status m.taskId ↔ status = r.status := by
  constructor
  · rintro ⟨r', hr', -, -, rfl⟩
    obtain rfl := Option.some.inj (h.row.symm.trans hr')
    rfl
  · rintro rfl
    exact ⟨r, h.row, h.inProject, h.isActive, rfl⟩

/-- The column of the board without the task. -/
theorem length_erase (h : Drop db projectId m r) :
    m.position ≤ ((columnIds (getBoard db projectId false) m.status).erase m.taskId).length := by
  by_cases hs : m.status = r.status
  · have hmem := mem_columnIds.mpr (h.shown_iff.mpr hs)
    have hlt := (h.within hs).1
    rw [List.length_erase_of_mem hmem]
    omega
  · rw [List.erase_of_not_mem fun hmem => hs (h.shown_iff.mp (mem_columnIds.mp hmem))]
    exact h.le_length

/-- The board after the optimistic move. -/
theorem columnIds_moveTask (h : Drop db projectId m r) (s : Status) :
    columnIds (moveTask (getBoard db projectId false) m) s =
      if s = m.status then
        ((columnIds (getBoard db projectId false) s).erase m.taskId).insertIdx m.position m.taskId
      else (columnIds (getBoard db projectId false) s).erase m.taskId := by
  rw [Board.columnIds_moveTask (mem_columnIds.mpr (h.shown_iff.mpr rfl))
    fun s hs => h.shown_iff.mp (mem_columnIds.mp hs)]
  split_ifs with hs
  · subst hs
    rw [min_eq_left h.length_erase]
  · rfl

theorem slot_eq (h : Drop db projectId m r) :
    r.slot = ((some projectId, r.status), r.position) := by
  rw [Task.slot, h.inProject]

/-- The other tasks of the board are not in the slot of the task. -/
theorem slot_ne (h : Drop db projectId m r) (hd : Valid schema db) (ht : t ≠ m.taskId)
    (hshown : Shown db projectId status t) :
    ((some projectId, status), position db t) ≠ r.slot := by
  obtain ⟨r', hr', hproj', -, rfl⟩ := hshown
  have hslot : boardSlot db t = some r'.slot :=
    boardSlot_eq_some.mpr ⟨slot_of_row hr', by rw [Task.slot, hproj']; rfl⟩
  have hself : boardSlot db m.taskId = some r.slot :=
    boardSlot_eq_some.mpr ⟨slot_of_row h.row, by rw [h.slot_eq]; rfl⟩
  rw [position_of_row hr']
  intro heq
  have hr'slot : r'.slot = r.slot := by
    rw [← heq, Task.slot, hproj']
  exact ht ((ordered_boardSlot hd).distinct (hr'slot ▸ hslot) hself)

/-! ### The board after the call -/

variable {day : AppDay}

theorem shown_self (h : Drop db projectId m r)
    (hm : (m.call r day).Moved r m.position db db') :
    Shown db' projectId status m.taskId ↔ status = m.status := by
  have hrow : db'.row (.task m.taskId) = some ((m.call r day).apply m.position r) := hm.self
  constructor
  · rintro ⟨r', hr', -, -, rfl⟩
    obtain rfl := Option.some.inj (hrow.symm.trans hr')
    rfl
  · rintro rfl
    exact ⟨_, hrow, h.inProject, h.isActive, rfl⟩

theorem position_self (hm : (m.call r day).Moved r m.position db db') :
    position db' m.taskId = m.position := position_of_row hm.self

theorem shown_other (hm : (m.call r day).Moved r m.position db db') (ht : t ≠ m.taskId) :
    Shown db' projectId status t ↔ Shown db projectId status t := by
  unfold Shown
  rw [hm.other t ht]
  constructor
  · rintro ⟨r', hr', hprops⟩
    obtain ⟨r₀, hr₀, rfl⟩ := Option.map_eq_some_iff.mp hr'
    exact ⟨r₀, hr₀, hprops⟩
  · rintro ⟨r₀, hr₀, hprops⟩
    exact ⟨_, Option.map_eq_some_iff.mpr ⟨r₀, hr₀, rfl⟩, hprops⟩

theorem position_other (hm : (m.call r day).Moved r m.position db db') (ht : t ≠ m.taskId)
    (hshown : Shown db projectId status t) :
    position db' t =
      ((m.call r day).neighbours r m.position ((some projectId, status), position db t)).2 := by
  obtain ⟨r₀, hr₀, hproj, -, rfl⟩ := hshown
  have hr' := hm.other t ht
  rw [hr₀, Option.map_some] at hr'
  rw [position_of_row hr', position_of_row hr₀, Task.rearrange, Task.slot, hproj]

/-- The other tasks of a column. -/
abbrev others (db : Db) (projectId : Uuid) (m : TaskMoveInput) (s : Status) : List Uuid :=
  (columnIds (getBoard db projectId false) s).erase m.taskId

theorem nodup_columnIds (hd : Valid schema db) (s : Status) :
    (columnIds (getBoard db projectId false) s).Nodup := nodup_of_pairwise (pairwise_columnIds hd)

theorem mem_others (hd : Valid schema db) {s : Status} :
    t ∈ others db projectId m s ↔ t ≠ m.taskId ∧ Shown db projectId s t := by
  rw [others, (nodup_columnIds hd s).mem_erase_iff, mem_columnIds]

/-- The call keeps the order of the other tasks. -/
theorem pairwise_others (h : Drop db projectId m r) (hd : Valid schema db)
    (hm : (m.call r day).Moved r m.position db db') (s : Status) :
    (others db projectId m s).Pairwise fun a b => position db' a < position db' b := by
  refine ((pairwise_columnIds hd).sublist List.erase_sublist).imp_of_mem ?_
  intro a b ha hb hab
  obtain ⟨ha, hashown⟩ := (mem_others hd).mp ha
  obtain ⟨hb, hbshown⟩ := (mem_others hd).mp hb
  rw [position_other hm ha hashown, position_other hm hb hbshown]
  exact UpdateTask.neighbours_lt (h.slot_ne hd ha hashown) (h.slot_ne hd hb hbshown) hab

/-- The call makes room for the task. -/
theorem position_others_ne (h : Drop db projectId m r) (hd : Valid schema db)
    (hm : (m.call r day).Moved r m.position db db') :
    ∀ a ∈ others db projectId m m.status, position db' a ≠ position db' m.taskId := by
  intro a ha
  obtain ⟨ha, hshown⟩ := (mem_others hd).mp ha
  rw [position_self hm, position_other hm ha hshown]
  have hnonneg : 0 ≤ r.position :=
    (Task.check_eq_none_iff.mp (hd.checked (.task m.taskId) r h.row)).1.1
  have hfrees : Frees {s | s ≠ r.slot} ((m.call r day).neighbours r m.position)
      ((r.projectId, m.status), (m.position : ℤ)) :=
    UpdateTask.frees_neighbours hnonneg fun hr => hr rfl
  have havoids := hfrees.avoids _ (h.slot_ne hd ha hshown)
  rw [h.inProject] at havoids
  intro heq
  exact havoids (Prod.ext (UpdateTask.neighbours_fst _ _ _ _) heq)

/-- The rank of the task among the other tasks of the target column. -/
def rank (db : Db) (projectId : Uuid) (m : TaskMoveInput) (r : Task) (day : AppDay) : ℕ :=
  before (position db) (others db projectId m m.status) ((m.call r day).bound r m.position)

theorem before_others (h : Drop db projectId m r) (hd : Valid schema db)
    (hm : (m.call r day).Moved r m.position db db') :
    before (position db') (others db projectId m m.status) m.position =
      rank db projectId m r day := by
  refine List.countP_congr fun t ht => ?_
  obtain ⟨ht, hshown⟩ := (mem_others hd).mp ht
  have hslot := h.slot_ne hd ht hshown
  rw [decide_eq_true_eq, decide_eq_true_eq, position_other hm ht hshown]
  rw [← h.inProject] at hslot ⊢
  exact UpdateTask.neighbours_lt_iff hslot

/-- The board after the call. -/
theorem columnIds_after (h : Drop db projectId m r) (hd : Valid schema db)
    (hd' : Valid schema db') (hm : (m.call r day).Moved r m.position db db') (s : Status) :
    columnIds (getBoard db' projectId false) s =
      if s = m.status then
        (others db projectId m s).insertIdx (rank db projectId m r day) m.taskId
      else others db projectId m s := by
  have hsorted := h.pairwise_others hd hm s
  split_ifs with hs
  · subst hs
    rw [← h.before_others hd hm, ← position_self hm]
    refine eq_of_pairwise (pairwise_columnIds hd')
      (pairwise_insertIdx hsorted (h.position_others_ne hd hm)) fun t => ?_
    rw [mem_columnIds, List.mem_insertIdx (before_le_length _), mem_others hd]
    by_cases ht : t = m.taskId
    · subst ht
      rw [h.shown_self hm]
      exact iff_of_true rfl (Or.inl rfl)
    · rw [shown_other hm ht, and_iff_right ht, or_iff_right ht]
  · refine eq_of_pairwise (pairwise_columnIds hd') hsorted fun t => ?_
    rw [mem_columnIds, mem_others hd]
    by_cases ht : t = m.taskId
    · subst ht
      rw [h.shown_self hm]
      exact iff_of_false hs fun hne => hne.1 rfl
    · rw [shown_other hm ht, and_iff_right ht]

end Drop

/-! ### When the two agree -/

/-- Every position before the place of the drop is that of a shown task of the target column; so is
the place itself, when it is not above the task in its own column. -/
def NoGap (db : Db) (projectId : Uuid) (m : TaskMoveInput) (r : Task) : Prop :=
  ∀ x : ℤ, 0 ≤ x →
    (x < m.position ∨ m.status = r.status ∧ r.position ≤ m.position ∧ x = m.position) →
    ∃ t, Shown db projectId m.status t ∧ position db t = x

namespace Drop

theorem before_columnIds_eq_iff (hd : Valid schema db) (n : ℕ) :
    before (position db) (columnIds (getBoard db projectId false) m.status) n = n ↔
      ∀ x : ℤ, 0 ≤ x → x < n → ∃ t, Shown db projectId m.status t ∧ position db t = x := by
  have hnodup : ((columnIds (getBoard db projectId false) m.status).map (position db)).Nodup :=
    (List.pairwise_map.mpr (pairwise_columnIds hd)).imp fun hlt => ne_of_lt hlt
  have hnonneg : ∀ t ∈ columnIds (getBoard db projectId false) m.status, 0 ≤ position db t := by
    intro t ht
    obtain ⟨r', hr', -⟩ := mem_columnIds.mp ht
    rw [position_of_row hr']
    exact (Task.check_eq_none_iff.mp (hd.checked (.task t) r' hr')).1.1
  rw [before_eq_iff hnodup hnonneg]
  simp only [mem_columnIds]

theorem rank_eq_iff (h : Drop db projectId m r) (hd : Valid schema db) :
    rank db projectId m r day = m.position ↔ NoGap db projectId m r := by
  by_cases hb : m.status = r.status ∧ r.position ≤ m.position
  · -- the task itself is before the place in its column
    have hmem := mem_columnIds.mpr (h.shown_iff.mpr hb.1)
    have hbound : (m.call r day).bound r m.position = ((m.position + 1 : ℕ) : ℤ) := by
      rw [Nat.cast_add_one]
      exact if_pos hb
    have hlt : position db m.taskId < ((m.position + 1 : ℕ) : ℤ) := by
      rw [position_of_row h.row]
      omega
    have hcount : before (position db) (columnIds (getBoard db projectId false) m.status)
        ((m.position + 1 : ℕ) : ℤ) =
          before (position db) (others db projectId m m.status) ((m.position + 1 : ℕ) : ℤ) + 1 := by
      rw [before_perm (List.perm_cons_erase hmem), before_cons_of_lt hlt]
    rw [rank, hbound, ← Nat.add_right_cancel_iff (n := 1), ← hcount, before_columnIds_eq_iff hd]
    refine forall_congr' fun x => imp_congr_right fun _ => imp_congr_left ?_
    rw [and_iff_right hb.1, and_iff_right hb.2]
    omega
  · have hbound : (m.call r day).bound r m.position = m.position := if_neg hb
    have hcount : before (position db) (others db projectId m m.status) m.position =
        before (position db) (columnIds (getBoard db projectId false) m.status) m.position := by
      by_cases hs : m.status = r.status
      · have hmem := mem_columnIds.mpr (h.shown_iff.mpr hs)
        have hge : ¬position db m.taskId < m.position := by
          rw [position_of_row h.row]
          exact fun hlt => hb ⟨hs, hlt.le⟩
        rw [before_perm (List.perm_cons_erase hmem)]
        exact (List.countP_cons_of_neg (by simpa using hge)).symm
      · rw [others, List.erase_of_not_mem fun hmem => hs (h.shown_iff.mp (mem_columnIds.mp hmem))]
    rw [rank, hbound, hcount, before_columnIds_eq_iff hd]
    refine forall_congr' fun x => imp_congr_right fun _ => imp_congr_left ?_
    refine (or_iff_left ?_).symm
    rintro ⟨hs, hle, -⟩
    exact hb ⟨hs, hle⟩

/-- Without a refusal, the optimistic move and the call agree when there is no gap. -/
theorem moveTask_eq_iff (h : Drop db projectId m r) (hd : Valid schema db)
    (hd' : Valid schema db') (hm : (m.call r day).Moved r m.position db db') :
    (∀ s, columnIds (moveTask (getBoard db projectId false) m) s =
      columnIds (getBoard db' projectId false) s) ↔ NoGap db projectId m r := by
  have hnotMem : m.taskId ∉ others db projectId m m.status := fun hmem =>
    ((mem_others hd).mp hmem).1 rfl
  have hle : rank db projectId m r day ≤ (others db projectId m m.status).length :=
    before_le_length _
  rw [← h.rank_eq_iff hd, eq_comm, ← insertIdx_inj hnotMem h.length_erase hle]
  constructor
  · intro hall
    have heq := hall m.status
    rw [h.columnIds_moveTask, h.columnIds_after hd hd' hm, if_pos rfl, if_pos rfl] at heq
    exact heq
  · intro heq s
    rw [h.columnIds_moveTask, h.columnIds_after hd hd' hm]
    split_ifs with hs
    · subst hs
      exact heq
    · rfl

/-- The optimistic move is never the board as it was. -/
theorem moveTask_ne (h : Drop db projectId m r) (hd : Valid schema db) :
    ¬∀ s, columnIds (moveTask (getBoard db projectId false) m) s =
      columnIds (getBoard db projectId false) s := by
  intro hall
  have heq := hall m.status
  rw [h.columnIds_moveTask, if_pos rfl] at heq
  have hself : (columnIds (getBoard db projectId false) m.status)[m.position]? = some m.taskId := by
    rw [← heq, List.getElem?_insertIdx_self, if_pos h.length_erase]
  obtain ⟨hlt, hget⟩ := List.getElem?_eq_some_iff.mp hself
  have hs : m.status = r.status :=
    h.shown_iff.mp (mem_columnIds.mp (hget ▸ List.getElem_mem hlt))
  refine (h.within hs).2 (List.idxOf?_eq_some_iff.mpr ⟨hlt, hget, fun j hj hj' => ?_⟩)
  have hij := (nodup_columnIds hd m.status).getElem_inj_iff.mp (hj'.trans hget.symm)
  omega

end Drop

/-! ### The states of the database -/

/-- The states that transactions of any kind reach from a database without tasks. -/
def ReachableDb (db : Db) : Prop :=
  ∃ (n : ℕ) (db₀ : Db) (p : Fin n → TaskProc (Option Uuid))
    (c : Config (Fin n) Row LockKey Uuid Error (Option Uuid)),
    (∀ t, db₀.row (.task t) = none) ∧ Reachable schema (.init db₀ p) c ∧ c.db = db

theorem ReachableDb.valid (h : ReachableDb db) : Valid schema db := by
  obtain ⟨n, db₀, p, c, h₀, hrun, rfl⟩ := h
  exact valid_of_reachable (valid_of_noTask h₀) hrun

/-- The call is not refused, and there is no gap. -/
structure MoveFits (db : Db) (projectId : Uuid) (m : TaskMoveInput) (r : Task) (day : AppDay) :
    Prop where
  passes : (m.call r day).Passes r m.position db
  noGap : NoGap db projectId m r

/-- The board that `moveTask` shows for a drop is the board after `sp_update_task` has run with the
move exactly when the call is not refused and there is no gap in the positions before the place of
the drop. -/
theorem moveTask_eq_board_iff (hdb : ReachableDb db) {event : TaskDropEvent}
    (h : resolveTaskMove event (getBoard db projectId false).columns = some m)
    (hrow : db.row (.task m.taskId) = some r) (day : AppDay)
    {c : Config Unit Row LockKey Uuid Error Unit}
    (hrun : Reachable schema (.init db fun _ : Unit => spUpdateTask (m.call r day)) c)
    {res : Except Error Unit} (hdone : c.tx () = .done res) :
    (∀ s, columnIds (moveTask (getBoard db projectId false) m) s =
      columnIds (getBoard c.db projectId false) s) ↔ MoveFits db projectId m r day := by
  have hd := hdb.valid
  obtain ⟨r', hdrop⟩ := drop_of_resolveTaskMove h
  obtain rfl : r' = r := Option.some.inj (hdrop.row.symm.trans hrow)
  have hproj : r'.projectId.isSome := by
    rw [hdrop.inProject]
    rfl
  rcases spUpdateTask_done (q := m.position) hd hrow hproj hdrop.version.symm rfl
    (Int.natCast_nonneg _) hrun hdone with ⟨hpass, hmoved⟩ | ⟨hpass, hsame⟩
  · rw [hdrop.moveTask_eq_iff hd (valid_of_reachable hd hrun) hmoved]
    exact ⟨fun hgap => ⟨hpass, hgap⟩, fun hfits => hfits.noGap⟩
  · rw [hsame]
    exact iff_of_false (hdrop.moveTask_ne hd) fun hfits => hpass hfits.passes

/-! ### A board without gaps -/

/-- A user and a project. -/
def startDb : Db :=
  ((Store.empty : Db).set (.user 7) (some { role := .member, isActive := true })).set (.project 5)
    (some
      { ownerId := 7, name := "project", description := none, startAt := none, endAt := none,
        isActive := true })

/-- A new task at the end of `todo`. -/
def newTask (title : String) : Writer :=
  .createTask
    { projectId := some 5, createdBy := 7, assigneeId := none, title := title, body := none,
      status := .todo, dueAt := none, position := none, dayStartUtc := 0, dayEndUtc := 1 }

/-- Three tasks are created; the first one may be deactivated. -/
def boardCalls : Fin 4 → Writer
  | 0 => newTask "a"
  | 1 => newTask "b"
  | 2 => newTask "c"
  | 3 => .deactivateTask 1 false

def boardInit : Config (Fin 4) Row LockKey Uuid Error (Option Uuid) :=
  .init startDb fun t => (boardCalls t).proc

theorem reachableDb_execTo {l : List (Fin 4 × Choice RowId Uuid)}
    (h : (boardInit.exec schema (fun _ _ _ => True) l).isSome) :
    ReachableDb (boardInit.execTo schema (fun _ _ _ => True) l h).db :=
  ⟨4, startDb, fun t => (boardCalls t).proc, _, fun _ => rfl, run_execTo h, rfl⟩

def createSteps (t : Fin 4) (taskId : Uuid) : List (Fin 4 × Choice RowId Uuid) :=
  [(t, .go), (t, .go), (t, .gen taskId), (t, .go), (t, .go)]

/-- The tasks 1, 2 and 3 are created at the positions 0, 1 and 2. -/
def denseSteps : List (Fin 4 × Choice RowId Uuid) :=
  createSteps 0 1 ++ createSteps 1 2 ++ createSteps 2 3

def denseRun : Config (Fin 4) Row LockKey Uuid Error (Option Uuid) :=
  boardInit.execTo schema (fun _ _ _ => True) denseSteps (by decide)

/-- Task 2 is dropped on task 3. -/
def dropBelow : TaskDropEvent where
  active := .task 2
  overTarget := some { id := .task 3, dataStatus := some .todo }

/-- The row of task 2. -/
def movedTask : Task where
  projectId := some 5
  title := "b"
  description := none
  status := .todo
  assigneeId := none
  createdBy := 7
  position := 1
  version := 1
  dueAt := none
  isActive := true

/-- The move of task 2 to a place of `todo`. -/
def moveToPlace (place : ℕ) : TaskMoveInput where
  taskId := 2
  status := .todo
  position := place
  version := 1

def someDay : AppDay where
  startUtc := 0
  endUtc := 1

def moveInit (db : Db) (place : ℕ) : Config Unit Row LockKey Uuid Error Unit :=
  .init db fun _ => spUpdateTask ((moveToPlace place).call movedTask someDay)

def denseMoved : Config Unit Row LockKey Uuid Error Unit :=
  (moveInit denseRun.db 2).execTo schema (fun _ _ _ => True)
    [((), .go), ((), .go), ((), .go), ((), .go), ((), .pick (.task 3)), ((), .go), ((), .go),
      ((), .pick (.task 2)), ((), .go), ((), .go)] (by decide)

theorem moveFits_denseRun : MoveFits denseRun.db 5 (moveToPlace 2) movedTask someDay where
  passes :=
    { assignee := nofun
      position := by decide
      version := by decide
      room := fun h => absurd rfl h
      title := by decide }
  noGap := by
    intro x hx0 hx
    have hshown : ∀ t r, denseRun.db.row (.task t) = some r → r.projectId = some 5 →
        r.isActive = true → r.status = .todo → r.position = x →
        ∃ t, Shown denseRun.db 5 .todo t ∧ position denseRun.db t = x :=
      fun t r hr hp ha hs hx => ⟨t, ⟨r, hr, hp, ha, hs⟩, (position_of_row hr).trans hx⟩
    have hx3 : x = 0 ∨ x = 1 ∨ x = 2 := by
      have h2 : x < ((2 : ℕ) : ℤ) ∨ _ ∧ _ ∧ x = ((2 : ℕ) : ℤ) := hx
      omega
    rcases hx3 with rfl | rfl | rfl
    · exact hshown 1 _ rfl rfl rfl rfl rfl
    · exact hshown 2 _ rfl rfl rfl rfl rfl
    · exact hshown 3 _ rfl rfl rfl rfl rfl

theorem moveTask_eq_board_iff_denseRun :
    columnIds (getBoard denseMoved.db 5 false) .todo = [1, 3, 2] ∧
      ∀ s, columnIds (moveTask (getBoard denseRun.db 5 false) (moveToPlace 2)) s =
        columnIds (getBoard denseMoved.db 5 false) s :=
  ⟨by decide, (moveTask_eq_board_iff (reachableDb_execTo _)
    (show resolveTaskMove dropBelow (getBoard denseRun.db 5 false).columns = some (moveToPlace 2) by
      decide)
    (show denseRun.db.row (.task 2) = some movedTask by decide) someDay (run_execTo _)
    (show denseMoved.tx () = .done (.ok ()) from rfl)).mpr moveFits_denseRun⟩

/-! ### A gap -/

def gapRun : Config (Fin 4) Row LockKey Uuid Error (Option Uuid) :=
  boardInit.execTo schema (fun _ _ _ => True)
    (denseSteps ++ [(3, .go), (3, .pick (.task 1)), (3, .go), (3, .go)]) (by decide)

/-- Task 2 is shown at the place 0, but its position is 1, so the call for the place 1 does not move
it. -/
def gapMoved : Config Unit Row LockKey Uuid Error Unit :=
  (moveInit gapRun.db 1).execTo schema (fun _ _ _ => True)
    [((), .go), ((), .go), ((), .go), ((), .pick (.task 2)), ((), .go), ((), .go)] (by decide)

/-- The optimistic move shows task 2 below task 3, the board after the call shows it above. -/
theorem moveTask_ne_board_gapRun :
    ReachableDb gapRun.db ∧
      resolveTaskMove dropBelow (getBoard gapRun.db 5 false).columns = some (moveToPlace 1) ∧
      gapRun.db.row (.task 2) = some movedTask ∧
      Reachable schema (moveInit gapRun.db 1) gapMoved ∧ gapMoved.tx () = .done (.ok ()) ∧
      columnIds (moveTask (getBoard gapRun.db 5 false) (moveToPlace 1)) .todo = [3, 2] ∧
      columnIds (getBoard gapMoved.db 5 false) .todo = [2, 3] :=
  ⟨reachableDb_execTo _, by decide, by decide, run_execTo _, rfl, by decide, by decide⟩

end Board
