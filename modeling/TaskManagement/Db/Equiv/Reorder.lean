import TaskManagement.Db.Equiv.UpdateAlone
import TaskManagement.Db.Reorder
import TaskManagement.ReadCommitted.Completion
import Mathlib.Data.List.Perm.Basic

/-!
# `sp_update_task` reorders contiguous columns

`spUpdateTask_reorders`: from contiguous columns, a call with an explicit position within its
column, run alone, ends.  It has done what `UpdateTask.Reorders` says when the title fits its column,
the assignee is active, the version can be counted up and the entered column has room
(`UpdateTask.Accepted`); otherwise it is refused and changes nothing.
-/

namespace TaskDb

open ReadCommitted Columns

/-! ### The size of a column -/

theorem mem_positions {db : Db} {c : Column} {x : ℤ} :
    x ∈ positions db c ↔ ∃ t, slot db t = some (c, x) := by
  unfold positions
  rw [List.mem_map]
  constructor
  · rintro ⟨⟨t, r⟩, hmem, rfl⟩
    obtain ⟨htask, hc⟩ := List.mem_filter.mp hmem
    refine ⟨t, ?_⟩
    rw [slot_of_row (mem_tasks.mp htask), ← of_decide_eq_true hc]
    rfl
  · rintro ⟨t, ht⟩
    obtain ⟨r, hr, hslot⟩ := slot_eq_some.mp ht
    refine ⟨(t, r), List.mem_filter.mpr ⟨mem_tasks.mpr hr, ?_⟩, congrArg Prod.snd hslot⟩
    exact decide_eq_true (congrArg Prod.fst hslot)

/-- The first `n` positions. -/
def initialPositions (n : ℕ) : List ℤ := (List.range n).map Int.ofNat

theorem mem_initialPositions {n : ℕ} {x : ℤ} : x ∈ initialPositions n ↔ 0 ≤ x ∧ x < n := by
  unfold initialPositions
  rw [List.mem_map]
  constructor
  · rintro ⟨k, hk, rfl⟩
    have hlt := List.mem_range.mp hk
    show 0 ≤ (k : ℤ) ∧ (k : ℤ) < n
    omega
  · rintro ⟨h0, hn⟩
    exact ⟨x.toNat, List.mem_range.mpr (by omega), Int.toNat_of_nonneg h0⟩

theorem nodup_initialPositions (n : ℕ) : (initialPositions n).Nodup :=
  (List.nodup_range).map fun _ _ => Int.ofNat.inj

/-- A column is filled up to `n` when its positions are the first `n` ones. -/
theorem fills_iff_perm {db : Db} {c : Column} {n : ℕ} :
    Fills (slot db) c n ↔ (positions db c).Perm (initialPositions n) := by
  constructor
  · intro h
    have hnodup : (positions db c).Nodup := by
      refine (List.Nodup.filter _ (nodup_tasks db).of_map).map_on fun x hx y hy hxy => ?_
      obtain ⟨hx, hcx⟩ := List.mem_filter.mp hx
      obtain ⟨hy, hcy⟩ := List.mem_filter.mp hy
      have hslot : ∀ {z : Uuid × Task}, z ∈ tasks db → decide (z.2.slot.1 = c) = true →
          slot db z.1 = some (c, z.2.position) := by
        intro z hz hcz
        rw [slot_of_row (mem_tasks.mp hz), ← of_decide_eq_true hcz]
        rfl
      have hid : x.1 = y.1 := h.distinct (hslot hx hcx) (hxy ▸ hslot hy hcy)
      have hrow := (mem_tasks.mp hx).symm.trans (hid ▸ mem_tasks.mp hy)
      exact Prod.ext hid (Option.some.inj hrow)
    refine (List.perm_ext_iff_of_nodup hnodup (nodup_initialPositions n)).mpr fun x => ?_
    rw [mem_positions, mem_initialPositions]
    exact h.taken x
  · intro h
    constructor
    · -- the same position twice would make two members of a list without repetitions
      intro a b x ha hb
      have hnodup : (positions db c).Nodup := h.nodup_iff.mpr (nodup_initialPositions n)
      obtain ⟨ra, hra, hsa⟩ := slot_eq_some.mp ha
      obtain ⟨rb, hrb, hsb⟩ := slot_eq_some.mp hb
      have hmem : ∀ {t r}, db.row (.task t) = some r → r.slot = (c, x) →
          (t, r) ∈ (tasks db).filter fun z => z.2.slot.1 = c := fun hr hs =>
        List.mem_filter.mpr ⟨mem_tasks.mpr hr, decide_eq_true (congrArg Prod.fst hs)⟩
      have hpos : ra.position = rb.position := congrArg Prod.snd (hsa.trans hsb.symm)
      have hpair := List.inj_on_of_nodup_map hnodup (hmem hra hsa) (hmem hrb hsb) hpos
      exact congrArg Prod.fst hpair
    · intro x
      rw [← mem_positions, h.mem_iff, mem_initialPositions]

theorem Fills.columnSize_eq {db : Db} {c : Column} {n : ℕ} (h : Fills (slot db) c n) :
    columnSize db c = n := by
  have hlen := (fills_iff_perm.mp h).length_eq
  rwa [initialPositions, List.length_map, List.length_range] at hlen

/-- In contiguous columns, the number of tasks says how far a column is filled. -/
theorem fills_columnSize {db : Db} (h : Contiguous (slot db)) (c : Column) :
    Fills (slot db) c (columnSize db c) := by
  obtain ⟨n, hn⟩ := h c
  rwa [Fills.columnSize_eq hn]

/-- The columns are contiguous when those that have a task are. -/
theorem contiguous_of_tasks {db : Db}
    (h : ∀ x ∈ tasks db, (positions db x.2.slot.1).Perm
      (initialPositions (columnSize db x.2.slot.1))) : Contiguous (slot db) := by
  intro c
  by_cases hc : ∃ x ∈ tasks db, x.2.slot.1 = c
  · obtain ⟨x, hx, rfl⟩ := hc
    exact ⟨_, fills_iff_perm.mpr (h x hx)⟩
  · refine ⟨0, fills_iff_perm.mpr ?_⟩
    have hnil : positions db c = [] := by
      refine List.eq_nil_iff_forall_not_mem.mpr fun x hx => hc ?_
      obtain ⟨t, ht⟩ := mem_positions.mp hx
      obtain ⟨r, hr, hslot⟩ := slot_eq_some.mp ht
      exact ⟨(t, r), mem_tasks.mpr hr, congrArg Prod.fst hslot⟩
    rw [hnil]
    exact List.Perm.refl _

/-! ### The columns after a move -/

namespace UpdateTask

variable {p : UpdateTask} {old : Task} {q : ℤ} {db db' : Db}

theorem neighbours_oldColumn (hs : p.status ≠ old.status) (y : ℤ) :
    p.neighbours old q (p.oldColumn old, y) =
      (p.oldColumn old, if old.position < y then y - 1 else y) := by
  refine Prod.ext (neighbours_fst p old q _) ?_
  have hne : (shift (old.projectId, old.status) (old.position < ·) (-1)
      ((old.projectId, old.status), y)).1 ≠ (old.projectId, p.status) := by
    rw [shift_fst]
    exact fun h => hs (Prod.mk.inj h).2.symm
  unfold neighbours oldColumn
  rw [if_pos hs, Function.comp_apply, shift_of_fst_ne hne, shift_self]
  rfl

theorem neighbours_newColumn (hs : p.status ≠ old.status) (y : ℤ) :
    p.neighbours old q (p.newColumn old, y) = (p.newColumn old, if q ≤ y then y + 1 else y) := by
  refine Prod.ext (neighbours_fst p old q _) ?_
  have hinner : shift (old.projectId, old.status) (old.position < ·) (-1)
      ((old.projectId, p.status), y) = ((old.projectId, p.status), y) :=
    shift_of_fst_ne fun h => hs (Prod.mk.inj h).2
  unfold neighbours newColumn
  rw [if_pos hs, Function.comp_apply, hinner, shift_self]

theorem neighbours_within (hs : p.status = old.status) (y : ℤ) :
    p.neighbours old q (p.oldColumn old, y) = (p.oldColumn old,
      if old.position < y ∧ y ≤ q then y - 1
      else if q ≤ y ∧ y < old.position then y + 1 else y) := by
  refine Prod.ext (neighbours_fst p old q _) ?_
  unfold neighbours oldColumn
  rw [if_neg (not_not.mpr hs)]
  by_cases hq : q = old.position
  · rw [if_pos hq, if_neg (by omega), if_neg (by omega)]
    rfl
  · by_cases hlt : old.position < q
    · rw [if_neg hq, if_pos hlt, shift_self]
      split_ifs <;> omega
    · rw [if_neg hq, if_neg hlt, shift_self]
      split_ifs <;> omega

theorem neighbours_elsewhere {c : Column} (hold : c ≠ p.oldColumn old)
    (hnew : c ≠ p.newColumn old) (y : ℤ) : p.neighbours old q (c, y) = (c, y) := by
  have hshift : ∀ {range : ℤ → Prop} [DecidablePred range] {δ : ℤ},
      shift (old.projectId, old.status) range δ (c, y) = (c, y) := shift_of_fst_ne hold
  unfold neighbours
  split_ifs
  · rw [Function.comp_apply, hshift]
    exact shift_of_fst_ne hnew
  · rfl
  · exact hshift
  · exact hshift

/-- The move places the task. -/
theorem Moved.slot_eq (h : p.Moved old q db db') :
    slot db' = place (slot db) (p.neighbours old q) p.taskId (p.newColumn old, q) := by
  funext t
  unfold place
  by_cases ht : t = p.taskId
  · rw [ht, Function.update_self, h.slot_self]
    rfl
  · rw [Function.update_of_ne ht, h.slot_other ht]

/-- Contiguous columns are contiguous after the move. -/
theorem Moved.contiguous (h : p.Moved old q db db') (hcols : Contiguous (slot db))
    (hrow : db.row (.task p.taskId) = some old) (hq : p.InColumn old q db) :
    Contiguous (slot db') := by
  have hord := hcols.ordered
  have hself : slot db p.taskId = some (p.oldColumn old, old.position) := slot_of_row hrow
  have hfrees : Frees (others (slot db) p.taskId) (p.neighbours old q) (p.newColumn old, q) :=
    frees_neighbours (hord.nonneg hself) (hord.notMem_others hself)
  have hnotin : ∀ {c}, c ≠ p.oldColumn old → ∀ x, slot db p.taskId ≠ some (c, x) := by
    intro c hc x hx
    exact hc (congrArg Prod.fst (Option.some.inj (hx.symm.trans hself)))
  have hfst := p.neighbours_fst old q
  rw [h.slot_eq]
  intro c
  have hc := fills_columnSize hcols c
  obtain ⟨hq0, hqn⟩ := hq
  by_cases hs : p.status = old.status
  · -- within its column
    have hsame : p.newColumn old = p.oldColumn old := by rw [newColumn, hs, oldColumn]
    rw [if_pos hs] at hqn
    rw [hsame] at hfrees ⊢
    by_cases hold : c = p.oldColumn old
    · subst hold
      exact ⟨_, hc.place_within hord hfrees ⟨hq0, hqn⟩ hfst hself (neighbours_within hs)⟩
    · exact ⟨_, hc.place_elsewhere hord hfrees hq0 hfst (hnotin hold) (Ne.symm hold)
        (neighbours_elsewhere hold (hsame ▸ hold))⟩
  · rw [if_neg hs] at hqn
    -- to another column: it leaves one and enters the other
    have hne : p.newColumn old ≠ p.oldColumn old := fun heq => hs (Prod.mk.inj heq).2
    by_cases hold : c = p.oldColumn old
    · subst hold
      exact ⟨_, hc.place_leave hord hfrees hq0 hfst hself hne (neighbours_oldColumn hs)⟩
    · by_cases hnew : c = p.newColumn old
      · subst hnew
        exact ⟨_, hc.place_enter hord hfrees ⟨hq0, hqn⟩ hfst (hnotin hold)
          fun y _ => neighbours_newColumn hs y⟩
      · exact ⟨_, hc.place_elsewhere hord hfrees hq0 hfst (hnotin hold) (Ne.symm hnew)
          (neighbours_elsewhere hold hnew)⟩

/-- The other tasks keep their order in a move. -/
theorem Moved.keepsOrder (h : p.Moved old q db db') (hord : Ordered (slot db))
    (hrow : db.row (.task p.taskId) = some old) : p.KeepsOrder db db' := by
  intro t t' c x y x' y' ht ht' hx hy hx' hy'
  have hself : slot db p.taskId = some old.slot := slot_of_row hrow
  have hplace : ∀ {u z z'}, u ≠ p.taskId → slot db u = some (c, z) → slot db' u = some (c, z') →
      (c, z) ≠ old.slot ∧ z' = (p.neighbours old q (c, z)).2 := by
    intro u z z' hu hz hz'
    refine ⟨fun heq => hu (hord.distinct (heq ▸ hz) hself), ?_⟩
    rw [h.slot_other hu, hz, Option.map_some] at hz'
    rw [Option.some.inj hz']
  obtain ⟨hxne, rfl⟩ := hplace ht hx hx'
  obtain ⟨hyne, rfl⟩ := hplace ht' hy hy'
  rcases lt_trichotomy x y with hlt | rfl | hgt
  · exact iff_of_true hlt (neighbours_lt hxne hyne hlt)
  · exact iff_of_false (lt_irrefl _) (lt_irrefl _)
  · exact iff_of_false hgt.le.not_gt (neighbours_lt hyne hxne hgt).le.not_gt

/-- The move obeys the reorder law. -/
theorem Moved.reorders (h : p.Moved old q db db') (hcols : Contiguous (slot db))
    (hrow : db.row (.task p.taskId) = some old) (hq : p.InColumn old q db) :
    p.Reorders old q db db' where
  self := ⟨p.apply q old, h.self, rfl, rfl⟩
  other t r ht hr := ⟨_, (h.other t ht).trans (by rw [hr]; rfl)⟩
  noOther t ht hr := (h.other t ht).trans (by rw [hr]; rfl)
  elsewhere t r ht hr hold hnew := by
    rw [h.other t ht, hr, Option.map_some]
    exact congrArg some (Task.rearrange_of_eq (neighbours_elsewhere hold hnew r.position))
  order := h.keepsOrder hcols.ordered hrow
  contiguous := h.contiguous hcols hrow hq

/-- Within contiguous columns, only a full column keeps the positions from being counted up. -/
theorem passes_iff_accepted (hdb : Checked schema db) (hcols : Contiguous (slot db))
    (hq : p.InColumn old q db) : p.Passes old q db ↔ p.Accepted old db := by
  have hrange : ∀ {t c x}, slot db t = some (c, x) → x ≤ maxInteger := by
    intro t c x h
    obtain ⟨r, hr, hslot⟩ := slot_eq_some.mp h
    have hmax := (Task.check_eq_none_iff.mp (hdb _ _ hr)).1.2
    rwa [show r.position = x from congrArg Prod.snd hslot] at hmax
  have hnew := fills_columnSize hcols (p.newColumn old)
  constructor
  · intro h
    refine ⟨h.title, h.assignee, h.version, fun hs => ?_⟩
    by_contra hfull
    -- the last `INTEGER` is a position of the column, behind the one of the task
    have hmax : 0 ≤ maxInteger := by decide
    obtain ⟨t, ht⟩ := (hnew.taken maxInteger).mpr ⟨hmax, not_le.mp hfull⟩
    obtain ⟨r, hr, hslot⟩ := slot_eq_some.mp ht
    have hpos : r.position = maxInteger := congrArg Prod.snd hslot
    have hlt := h.room hs t r hr (congrArg Prod.fst hslot) (hpos ▸ h.position)
    exact absurd hpos hlt.ne
  · intro h
    obtain ⟨hq0, hqn⟩ := hq
    refine ⟨h.assignee, ?_, h.version, fun hs t r hr hcol _ => ?_, h.title⟩
    · split_ifs at hqn with hs
      · obtain ⟨t, ht⟩ := ((fills_columnSize hcols (p.oldColumn old)).taken q).mpr ⟨hq0, hqn⟩
        exact hrange ht
      · exact hqn.trans (h.room hs)
    · have hslot : slot db t = some (p.newColumn old, r.position) := by
        rw [slot_of_row hr, ← show r.slot.1 = p.newColumn old from hcol]
        rfl
      exact (hnew.mem hslot).2.trans_le (h.room hs)

/-! ### Runs -/

theorem supplied_requireActiveAssignee {u : Option Uuid} : (requireActiveAssignee u).Supplied := by
  cases u with
  | none => trivial
  | some u => exact Proc.supplied_select.bind fun _ => Proc.supplied_raiseIf

theorem supplied_movePositions {vProjectId : Option Uuid} {vOldStatus : Status}
    {vOldPosition : ℤ} : (p.movePositions vProjectId vOldStatus vOldPosition).Supplied := by
  unfold movePositions
  split_ifs
  · refine Proc.supplied_update.bind fun _ => ?_
    cases p.position with
    | none => exact Proc.supplied_select
    | some q => exact Proc.supplied_update.bind fun _ => trivial
  · cases p.position with
    | none => trivial
    | some q =>
      dsimp only
      split_ifs
      · trivial
      · exact Proc.supplied_update.bind fun _ => trivial
      · exact Proc.supplied_update.bind fun _ => trivial

theorem supplied_notifyUpdated {due : Option Timestamp} : (p.notifyUpdated due).Supplied := by
  unfold notifyUpdated
  split
  · split_ifs
    · exact Proc.supplied_insertOrIgnore
    · trivial
  · trivial

theorem supplied_lockColumns {vProjectId : Option Uuid} {vOldStatus : Status}
    {vOldPosition : ℤ} : (p.lockColumns vProjectId vOldStatus vOldPosition).Supplied := by
  unfold lockColumns
  dsimp only
  split_ifs
  · exact Proc.supplied_advisoryLock
  · exact Proc.supplied_advisoryLock.bind fun _ => Proc.supplied_advisoryLock
  · exact Proc.supplied_advisoryLock.bind fun _ => Proc.supplied_advisoryLock
  · trivial

theorem supplied_spUpdateTask : (spUpdateTask p).Supplied := by
  refine Proc.supplied_select.bind fun read => ?_
  cases read with
  | none => trivial
  | some read =>
    refine supplied_lockColumns.bind fun _ => Proc.supplied_selectForUpdate.bind fun old => ?_
    cases old with
    | none => exact supplied_requireActiveAssignee.bind fun _ => trivial
    | some old =>
      refine Proc.supplied_raiseIf.bind fun _ => supplied_requireActiveAssignee.bind fun _ => ?_
      refine supplied_movePositions.bind fun _ => Proc.supplied_update.bind fun _ => ?_
      exact Proc.supplied_raiseIf.bind fun _ => supplied_notifyUpdated

end UpdateTask

/-- The end of a call from contiguous columns. -/
theorem spUpdateTask_alone {p : UpdateTask} {old : Task} {k : ℤ} {db : Db}
    (hdb : Checked schema db) (hcols : Contiguous (slot db))
    (hrow : db.row (.task p.taskId) = some old) (hver : old.version = p.version)
    (hposition : p.position = some k) (hk : p.InColumn old k db)
    {c : Config Unit Row LockKey Uuid Error Unit}
    (hrun : Reachable schema (.init db fun _ : Unit => spUpdateTask p) c) {res : Except Error Unit}
    (hdone : c.tx () = .done res) :
    (p.Accepted old db ∧ res = .ok () ∧ p.Moved old k db c.db) ∨
      (¬p.Accepted old db ∧ (∃ e, res = .error e) ∧ c.db = db) := by
  have hout := (UpdateTask.solo_spUpdateTask hdb hrow hposition hk.1).run hrun
  rw [← UpdateTask.passes_iff_accepted hdb hcols hk]
  unfold Solo.Outcome at hout
  rw [hdone] at hout
  cases res with
  | ok a => exact Or.inl ⟨hout.1.2.1, rfl, hout.1.2.2⟩
  | error e =>
    obtain ⟨hdb', hrefused | ⟨_, db', ⟨-, -, hmoved⟩, he⟩⟩ := hout
    · exact Or.inr ⟨hrefused.not_passes hver, ⟨e, rfl⟩, hdb'⟩
    · -- contiguous columns pass the deferred constraint
      have hord := (hmoved.contiguous hcols hrow hk).ordered
      rw [deferred_of_distinct fun _ _ _ => hord.distinct] at he
      cases he

/-- A call with an explicit position within its column ends; it has reordered the columns, or it was
refused and has changed nothing. -/
theorem spUpdateTask_reorders {p : UpdateTask} {old : Task} {k : ℤ} {db : Db}
    (hdb : Checked schema db) (hcols : Contiguous (slot db))
    (hrow : db.row (.task p.taskId) = some old) (hver : old.version = p.version)
    (hposition : p.position = some k) (hk : p.InColumn old k db) :
    (∃ (c : Config Unit Row LockKey Uuid Error Unit) (res : Except Error Unit),
      Reachable schema (.init db fun _ : Unit => spUpdateTask p) c ∧ c.tx () = .done res) ∧
    ∀ (c : Config Unit Row LockKey Uuid Error Unit) (res : Except Error Unit),
      Reachable schema (.init db fun _ : Unit => spUpdateTask p) c → c.tx () = .done res →
        (p.Accepted old db → res = .ok () ∧ p.Reorders old k db c.db) ∧
        (¬p.Accepted old db → (∃ e, res = .error e) ∧ c.db = db) := by
  refine ⟨exists_done UpdateTask.supplied_spUpdateTask db, fun c res hrun hdone => ?_⟩
  rcases spUpdateTask_alone hdb hcols hrow hver hposition hk hrun hdone with
    ⟨haccepted, hok, hmoved⟩ | ⟨hrefused, herror, hsame⟩
  · exact ⟨fun _ => ⟨hok, hmoved.reorders hcols hrow hk⟩, fun hnot => absurd haccepted hnot⟩
  · exact ⟨fun haccepted => absurd haccepted hrefused, fun _ => ⟨herror, hsame⟩⟩

/-! ### A board with two columns -/

/-- A task of project 5 at a place. -/
def placedTask (status : Status) (position : ℤ) : Task where
  projectId := some 5
  title := "task"
  description := none
  status := status
  assigneeId := none
  createdBy := 7
  position := position
  version := 1
  dueAt := none
  isActive := true

/-- Tasks 1 and 2 in `todo`, tasks 3 and 4 in `done`. -/
def twoColumns : Db :=
  ((((Store.empty : Db).set (.task 1) (some (placedTask .todo 0))).set (.task 2)
    (some (placedTask .todo 1))).set (.task 3) (some (placedTask .done 0))).set (.task 4)
      (some (placedTask .done 1))

/-- Task 1 goes between the tasks of `done`. -/
def moveToDone (assigneeId : Option Uuid) : UpdateTask where
  taskId := 1
  version := 1
  title := "task"
  body := none
  status := .done
  assigneeId := assigneeId
  dueAt := none
  position := some 1
  isActive := none
  dayStartUtc := 0
  dayEndUtc := 1

/-- A database is checked when the listed rows are. -/
theorem checked_of_ids {db : Db} (h : ∀ i ∈ db.ids, ((db.row i).bind (schema.check i)) = none) :
    Checked schema db := by
  intro i r hr
  have hi := h i (db.mem_ids i (by rw [hr]; rfl))
  rwa [hr, Option.bind_some] at hi

theorem checked_twoColumns : Checked schema twoColumns := checked_of_ids (by decide)

theorem contiguous_twoColumns : Contiguous (slot twoColumns) := contiguous_of_tasks (by decide)

theorem spUpdateTask_reorders_twoColumns :
    ∃ c : Config Unit Row LockKey Uuid Error Unit,
      Reachable schema (.init twoColumns fun _ : Unit => spUpdateTask (moveToDone none)) c ∧
        c.tx () = .done (.ok ()) ∧
          (moveToDone none).Reorders (placedTask .todo 0) 1 twoColumns c.db := by
  have hin : (moveToDone none).InColumn (placedTask .todo 0) 1 twoColumns := by decide
  obtain ⟨⟨c, res, hrun, hdone⟩, hall⟩ := spUpdateTask_reorders checked_twoColumns
    contiguous_twoColumns rfl rfl rfl hin
  have haccepted : (moveToDone none).Accepted (placedTask .todo 0) twoColumns := by
    refine ⟨by decide, ?_, by decide, by decide⟩
    rintro u ⟨⟩
  obtain ⟨rfl, hlaw⟩ := (hall c res hrun hdone).1 haccepted
  exact ⟨c, hrun, hdone, hlaw⟩

/-- An assignee that is not active makes the call fail. -/
theorem not_forall_spUpdateTask_reorders :
    ¬∀ (p : UpdateTask) (old : Task) (k : ℤ) (db : Db), Checked schema db →
      Contiguous (slot db) → db.row (.task p.taskId) = some old → old.version = p.version →
      p.position = some k → p.InColumn old k db →
      ∀ (c : Config Unit Row LockKey Uuid Error Unit) (res : Except Error Unit),
        Reachable schema (.init db fun _ : Unit => spUpdateTask p) c → c.tx () = .done res →
          res = .ok () ∧ p.Reorders old k db c.db := by
  intro h
  obtain ⟨c, res, hrun, hdone⟩ :=
    exists_done (C := schema) (p := spUpdateTask (moveToDone (some 8)))
      UpdateTask.supplied_spUpdateTask twoColumns
  have hlaw := h (moveToDone (some 8)) (placedTask .todo 0) 1 twoColumns checked_twoColumns
    contiguous_twoColumns rfl rfl rfl (by decide) c res hrun hdone
  have hinactive : activeUser twoColumns 8 = false := by decide
  rcases spUpdateTask_alone checked_twoColumns contiguous_twoColumns rfl rfl rfl (by decide) hrun
    hdone with ⟨haccepted, -, -⟩ | ⟨-, ⟨e, rfl⟩, -⟩
  · rw [haccepted.assignee 8 rfl] at hinactive
    cases hinactive
  · cases hlaw.1

end TaskDb
