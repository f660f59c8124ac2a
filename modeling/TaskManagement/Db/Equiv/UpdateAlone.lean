import TaskManagement.Db.Procedures
import TaskManagement.ReadCommitted.Solo
import TaskManagement.ReadCommitted.Validity

/-!
# `sp_update_task` alone

What a call of `sp_update_task` that gives a position does when no other transaction interferes
(`solo_spUpdateTask`, `spUpdateTask_done`): unless the call is refused (`Refused`, `Passes`), it
ends with the rows of `Moved`, in which the task is at the position and the other tasks are
rearranged by `UpdateTask.neighbours`.  The rearrangement keeps their order
(`UpdateTask.neighbours_lt`) and makes room for the task (`UpdateTask.frees_neighbours`).
-/

namespace TaskDb

open ReadCommitted Columns

/-- The row at its rearranged position. -/
def Task.rearrange (f : Column × ℤ → Column × ℤ) (r : Task) : Task :=
  { r with position := (f r.slot).2 }

theorem Task.rearrange_of_eq {f : Column × ℤ → Column × ℤ} {r : Task} (h : f r.slot = r.slot) :
    r.rearrange f = r := by
  rw [Task.rearrange, h]
  rfl

theorem Task.rearrange_id (r : Task) : r.rearrange id = r := Task.rearrange_of_eq rfl

theorem Task.slot_rearrange {f : Column × ℤ → Column × ℤ} (hf : ∀ s, (f s).1 = s.1) (r : Task) :
    (r.rearrange f).slot = f r.slot := Prod.ext (hf r.slot).symm rfl

theorem Task.rearrange_comp {f g : Column × ℤ → Column × ℤ} (hf : ∀ s, (f s).1 = s.1) (r : Task) :
    (r.rearrange f).rearrange g = r.rearrange (g ∘ f) := by
  rw [Task.rearrange, Task.slot_rearrange hf]
  rfl

/-! ### Renumbering -/

section Shift

variable {p : Option Uuid} {s : Status} {range : ℤ → Prop} [DecidablePred range]
  {except : Option Uuid} {δ : ℤ} {db db' : Db} {t : Uuid}

/-- The rows of the other tasks after a renumbering `UPDATE`. -/
theorem updated_shiftPositions (h : Updated (shiftPositions p s range except δ) db db')
    (he : except ≠ some t) :
    db'.row (.task t) = (db.row (.task t)).map (Task.rearrange (shift (p, s) range δ)) := by
  rw [h]
  cases hrow : db.row (.task t) with
  | none => rfl
  | some r =>
    rw [Option.bind_some, Option.map_some]
    simp only [shiftPositions]
    by_cases hc : r.projectId = p ∧ r.status = s ∧ range r.position ∧ except ≠ some t
    · have hshift : shift (p, s) range δ r.slot = ((r.projectId, r.status), r.position + δ) :=
        if_pos ⟨Prod.ext hc.1 hc.2.1, hc.2.2.1⟩
      rw [if_pos hc, Task.rearrange, hshift]
      rfl
    · have hnot : ¬(r.slot.1 = (p, s) ∧ range r.slot.2) := by
        rintro ⟨hcol, hr⟩
        obtain ⟨hp, hs⟩ := Prod.mk.inj hcol
        exact hc ⟨hp, hs, hr, he⟩
      rw [if_neg hc, Task.rearrange_of_eq (shift_of_notMem hnot)]
      rfl

/-- The task that the `UPDATE` excepts keeps its row. -/
theorem updated_shiftPositions_except (h : Updated (shiftPositions p s range (some t) δ) db db') :
    db'.row (.task t) = db.row (.task t) := by
  rw [h]
  cases db.row (.task t) with
  | none => rfl
  | some r =>
    have hnone : shiftPositions p s range (some t) δ (.task t) r = none :=
      if_neg fun hc => hc.2.2.2 rfl
    rw [Option.bind_some, hnone]
    rfl

/-- The tasks of the other columns keep their rows. -/
theorem updated_shiftPositions_of_fst_ne
    (h : Updated (shiftPositions p s range except δ) db db')
    (he : except ≠ some t) {r : Task} (hr : r.slot.1 ≠ (p, s)) :
    db'.row (.task t) = some r ↔ db.row (.task t) = some r := by
  rw [updated_shiftPositions h he, Option.map_eq_some_iff]
  constructor
  · rintro ⟨r₀, hr₀, rfl⟩
    have hne : r₀.slot.1 ≠ (p, s) := by
      rwa [Task.slot_rearrange (shift_fst _ _ _), shift_fst] at hr
    rwa [Task.rearrange_of_eq (shift_of_fst_ne hne)]
  · exact fun h' => ⟨r, h', Task.rearrange_of_eq (shift_of_fst_ne hr)⟩

/-- A row that the renumbering sends out of range. -/
theorem shiftPositions_error {i : RowId} {r r' : Row i} {e : Error} (hr : db.row i = some r)
    (hu : shiftPositions p s range except δ i r = some (some r'))
    (he : schema.check i r' = some e) :
    ∃ t r₀, db.row (.task t) = some r₀ ∧ r₀.slot.1 = (p, s) ∧ range r₀.position ∧
      Task.check { r₀ with position := r₀.position + δ } = some e := by
  cases i with
  | task t =>
    simp only [shiftPositions] at hu
    split_ifs at hu with hc
    obtain rfl := Option.some.inj (Option.some.inj hu)
    exact ⟨t, r, hr, Prod.ext hc.1 hc.2.1, hc.2.2.1, he⟩
  | _ => cases hu

theorem Task.check_shifted {r : Task} {x : ℤ} (h : r.check = none) :
    Task.check { r with position := x } = none ↔ 0 ≤ x ∧ x ≤ maxInteger := by
  rw [Task.check_eq_none_iff] at h ⊢
  exact and_iff_left h.2

/-- A shifted position that is not negative can only be out of range. -/
theorem Task.check_shifted_eq_some {r : Task} {x : ℤ} {e : Error} (h : r.check = none)
    (hx : 0 ≤ x) (he : Task.check { r with position := x } = some e) :
    e = .integerOutOfRange ∧ maxInteger < x := by
  have hlarge : maxInteger < x := by
    by_contra hle
    rw [(Task.check_shifted h).mpr ⟨hx, not_lt.mp hle⟩] at he
    cases he
  rw [Task.check, if_pos hlarge] at he
  exact ⟨(Option.some.inj he).symm, hlarge⟩

/-- A renumbering `UPDATE`. -/
theorem solo_shiftPositions (hdb : Checked schema db) {allowed : Error → Prop}
    {Q : ℕ → Db → Prop}
    (hnonneg : ∀ x, 0 ≤ x → range x → 0 ≤ x + δ)
    (herror : ∀ t r, db.row (.task t) = some r → r.slot.1 = (p, s) → range r.position →
      maxInteger < r.position + δ → allowed .integerOutOfRange)
    (h : ∀ n db', Updated (shiftPositions p s range except δ) db db' → Checked schema db' →
      (∀ t r, db.row (.task t) = some r → r.slot.1 = (p, s) → range r.position →
        except ≠ some t → r.position + δ ≤ maxInteger) → Q n db') :
    Solo schema allowed (Proc.update (shiftPositions p s range except δ) : TaskProc ℕ) db Q := by
  refine Solo.update (fun i r r' e hr hu he => ?_) fun db' hup hfits => ?_
  · obtain ⟨t, r₀, hr₀, hcol, hrange, hcheck⟩ := shiftPositions_error hr hu he
    have hpos := (Task.check_eq_none_iff.mp (hdb _ _ hr₀)).1
    obtain ⟨rfl, hlarge⟩ :=
      Task.check_shifted_eq_some (hdb _ _ hr₀) (hnonneg _ hpos.1 hrange) hcheck
    exact herror t r₀ hr₀ hcol hrange hlarge
  · refine h _ db' hup (hup.checked hdb hfits) fun t r hr hcol hrange he => ?_
    obtain ⟨hp, hs⟩ := Prod.mk.inj hcol
    have hcheck : Task.check { r with position := r.position + δ } = none :=
      hfits (.task t) r _ hr (if_pos ⟨hp, hs, hrange, he⟩)
    exact ((Task.check_shifted (hdb _ _ hr)).mp hcheck).2

end Shift

/-! ### The move -/

namespace UpdateTask

variable (p : UpdateTask) (old : Task) (q : ℤ)

/-- How the other tasks of the board are rearranged when the task with the row `old` moves to
`q`. -/
def neighbours : Column × ℤ → Column × ℤ :=
  if p.status ≠ old.status then
    shift (old.projectId, p.status) (q ≤ ·) 1 ∘
      shift (old.projectId, old.status) (old.position < ·) (-1)
  else if q = old.position then id
  else if old.position < q then
    shift (old.projectId, old.status) (fun x => old.position < x ∧ x ≤ q) (-1)
  else shift (old.projectId, old.status) (fun x => q ≤ x ∧ x < old.position) 1

@[simp] theorem neighbours_fst (s : Column × ℤ) : (p.neighbours old q s).1 = s.1 := by
  unfold neighbours
  split_ifs <;> simp

/-- The other tasks have been rearranged and the task has not been written. -/
structure Rearranged (db db' : Db) : Prop where
  self : db'.row (.task p.taskId) = some old
  other : ∀ t, t ≠ p.taskId →
    db'.row (.task t) = (db.row (.task t)).map (Task.rearrange (p.neighbours old q))

/-- The rows after the move. -/
structure Moved (db db' : Db) : Prop where
  self : db'.row (.task p.taskId) = some (p.apply q old)
  other : ∀ t, t ≠ p.taskId →
    db'.row (.task t) = (db.row (.task t)).map (Task.rearrange (p.neighbours old q))

/-- No task of the column that the task moves to is pushed behind the last `INTEGER`. -/
def RoomBelow (db : Db) : Prop :=
  p.status ≠ old.status → ∀ t r, db.row (.task t) = some r →
    r.slot.1 = (old.projectId, p.status) → q ≤ r.position → r.position < maxInteger

/-- The errors with which the call may be refused. -/
inductive Refused (db : Db) : Error → Prop where
  | version (h : old.version ≠ p.version) : Refused db .taskVersionConflict
  | assignee (h : ∃ u ∈ p.assigneeId, activeUser db u = false) : Refused db .assigneeNotActive
  | range (h : ¬(q ≤ maxInteger ∧ old.version < maxInteger ∧ p.RoomBelow old q db)) :
      Refused db .integerOutOfRange
  | title (h : ¬p.TitleFits) : Refused db .valueTooLong

/-- The conditions under which the call is not refused. -/
structure Passes (db : Db) : Prop where
  assignee : ∀ u ∈ p.assigneeId, activeUser db u = true
  position : q ≤ maxInteger
  version : old.version < maxInteger
  room : p.RoomBelow old q db
  title : p.TitleFits

variable {p old q} {db : Db} {allowed : Error → Prop}

/-- The renumbering of a move within the column. -/
theorem solo_shiftNeighbours (hdb : Checked schema db) (hrow : db.row (.task p.taskId) = some old)
    (hs : p.status = old.status) {range : ℤ → Prop} [DecidablePred range] {δ : ℤ}
    (hn : p.neighbours old q = shift (old.projectId, old.status) range δ)
    (hrange : ∀ x, 0 ≤ x → range x → 0 ≤ x + δ ∧ (x ≤ maxInteger → x + δ ≤ maxInteger)) :
    Solo schema allowed
      (do
        let _ ← Proc.update (shiftPositions old.projectId old.status range (some p.taskId) δ)
        return q : TaskProc ℤ) db
      (fun x db' => x = q ∧ Checked schema db' ∧ p.Rearranged old q db db' ∧
        p.RoomBelow old q db) := by
  refine Solo.bind (solo_shiftPositions hdb (fun x hx hr => (hrange x hx hr).1) ?_
    fun _ db' hup hdb' _ => ?_)
  · intro t r hr hcol hr' hlarge
    have hx := (Task.check_eq_none_iff.mp (hdb _ _ hr)).1
    exact absurd ((hrange r.position hx.1 hr').2 hx.2) (not_le.mpr hlarge)
  · refine Solo.ret ⟨rfl, hdb', ⟨?_, fun t ht => ?_⟩, fun h => absurd hs h⟩
    · rw [updated_shiftPositions_except hup, hrow]
    · rw [updated_shiftPositions hup fun h => ht (Option.some.inj h).symm, hn]

/-- `movePositions` from rows that pass their checks. -/
theorem solo_movePositions (hdb : Checked schema db) (hrow : db.row (.task p.taskId) = some old)
    (hq : p.position = some q) (herror : ¬p.RoomBelow old q db → allowed .integerOutOfRange) :
    Solo schema allowed
      (p.movePositions old.projectId old.status old.position) db
      (fun x db' => x = q ∧ Checked schema db' ∧ p.Rearranged old q db db' ∧
        p.RoomBelow old q db) := by
  have hrange : ∀ t r, db.row (.task t) = some r → 0 ≤ r.position ∧ r.position ≤ maxInteger :=
    fun t r hr => (Task.check_eq_none_iff.mp (hdb _ _ hr)).1
  have ho := hrange _ _ hrow
  have hnone : ∀ t : Uuid, (none : Option Uuid) ≠ some t := fun t => (Option.some_ne_none t).symm
  unfold movePositions
  split_ifs with hs
  · -- the task leaves its column
    rw [hq]
    refine Solo.bind (solo_shiftPositions hdb (fun x _ hx => by omega) ?_
      fun _ db₁ hup₁ hdb₁ _ => ?_)
    · intro t r hr _ _ hlarge
      have := hrange t r hr
      omega
    -- closing the gap leaves the new column alone
    have hcol : ∀ t r, r.slot.1 = (old.projectId, p.status) →
        (db₁.row (.task t) = some r ↔ db.row (.task t) = some r) := fun t r hr =>
      updated_shiftPositions_of_fst_ne hup₁ (hnone _) fun h => hs (Prod.mk.inj (hr.symm.trans h)).2
    refine Solo.bind (solo_shiftPositions hdb₁ (fun x hx _ => by omega) ?_
      fun _ db₂ hup₂ hdb₂ hfits => ?_)
    · intro t r hr hrcol hle hlarge
      refine herror fun hroom => ?_
      have hr' := (hcol t r hrcol).mp hr
      have hlt := hroom hs t r hr' hrcol hle
      have := hrange t r hr'
      omega
    · refine Solo.ret ⟨rfl, hdb₂, ⟨?_, fun t _ => ?_⟩, fun _ t r hr hrcol hle => ?_⟩
      · rw [updated_shiftPositions hup₂ (hnone _), updated_shiftPositions hup₁ (hnone _), hrow]
        have hout : shift (old.projectId, old.status) (old.position < ·) (-1) old.slot = old.slot :=
          shift_of_notMem fun h => lt_irrefl _ h.2
        have hout' : shift (old.projectId, p.status) (q ≤ ·) 1 old.slot = old.slot :=
          shift_of_fst_ne fun h => hs (Prod.mk.inj h).2.symm
        rw [Option.map_some, Task.rearrange_of_eq hout, Option.map_some, Task.rearrange_of_eq hout']
      · rw [updated_shiftPositions hup₂ (hnone _), updated_shiftPositions hup₁ (hnone _),
          Option.map_map, neighbours, if_pos hs]
        exact congrArg (Option.map · _) (funext fun r => r.rearrange_comp (shift_fst _ _ _))
      · have := hfits t r ((hcol t r hrcol).mpr hr) hrcol hle (hnone _)
        omega
  · -- within its column the task needs no room
    have hroom : p.RoomBelow old q db := fun h => absurd h hs
    rw [hq]
    dsimp only
    split_ifs with hqo hlt
    · refine Solo.ret ⟨hqo.symm, hdb, ⟨hrow, fun t _ => ?_⟩, hroom⟩
      rw [neighbours, if_neg hs, if_pos hqo, funext Task.rearrange_id, Option.map_id']
    · exact solo_shiftNeighbours hdb hrow (not_not.mp hs)
        (by rw [neighbours, if_neg hs, if_neg hqo, if_pos hlt]) (by omega)
    · exact solo_shiftNeighbours hdb hrow (not_not.mp hs)
        (by rw [neighbours, if_neg hs, if_neg hqo, if_neg hlt]) (by omega)

/-! ### The call -/

theorem solo_lockColumns {vProjectId : Option Uuid} {vOldStatus : Status}
    {vOldPosition : ℤ} {Q : Unit → Db → Prop} (h : Q () db) :
    Solo schema allowed (p.lockColumns vProjectId vOldStatus vOldPosition) db Q := by
  unfold lockColumns
  dsimp only
  split_ifs
  · exact Solo.advisoryLock h
  · exact Solo.bind (Solo.advisoryLock (Solo.advisoryLock h))
  · exact Solo.bind (Solo.advisoryLock (Solo.advisoryLock h))
  · exact Solo.ret h

theorem solo_requireActiveAssignee {u : Option Uuid} {Q : Unit → Db → Prop}
    (herror : (∃ v ∈ u, activeUser db v = false) → allowed .assigneeNotActive)
    (h : (∀ v ∈ u, activeUser db v = true) → Q () db) :
    Solo schema allowed (requireActiveAssignee u) db Q := by
  cases u with
  | none => exact Solo.ret (h nofun)
  | some v =>
    refine Solo.bind (Solo.select (Solo.raiseIf (fun hv => herror ⟨v, rfl, hv⟩) fun hv => h ?_))
    rintro _ ⟨⟩
    exact eq_true_of_ne_false hv

/-- The notification touches no task. -/
theorem solo_notifyUpdated {vOldDueAt : Option Timestamp} :
    Solo schema allowed (p.notifyUpdated vOldDueAt) db
      (fun _ db' => ∀ t, db'.row (.task t) = db.row (.task t)) := by
  unfold notifyUpdated
  split
  · split_ifs
    · refine Solo.insertOrIgnore ?_ (fun _ _ => rfl) fun _ t => ?_
      · rintro _ ⟨⟩
      · exact Store.set_row_of_ne _ _ RowId.noConfusion
    · exact Solo.ret fun _ => rfl
  · exact Solo.ret fun _ => rfl

theorem check_apply (hold : old.check = none) (hq0 : 0 ≤ q) :
    (p.apply q old).check = none ↔ (q ≤ maxInteger ∧ old.version < maxInteger) ∧ p.TitleFits := by
  rw [Task.check_eq_none_iff] at hold ⊢
  show (0 ≤ q ∧ q ≤ maxInteger) ∧ 0 < old.version + 1 ∧ old.version + 1 ≤ maxInteger ∧
    p.TitleFits ↔ _
  rw [← and_assoc (a := 0 < old.version + 1), ← and_assoc]
  refine and_congr_left fun _ => ?_
  omega

/-- The checks that the row of the task may fail. -/
theorem check_apply_eq_some {e : Error} (hold : old.check = none) (hq0 : 0 ≤ q)
    (he : (p.apply q old).check = some e) :
    (e = .valueTooLong ∧ ¬p.TitleFits) ∨
      (e = .integerOutOfRange ∧ ¬(q ≤ maxInteger ∧ old.version < maxInteger)) := by
  have hversion := (Task.check_eq_none_iff.mp hold).2.1
  rcases Task.check_eq_some hq0 (show 0 < old.version + 1 by omega) he with
    ⟨rfl, hlong⟩ | ⟨rfl, hlarge⟩
  · exact Or.inl ⟨rfl, not_le.mpr hlong⟩
  · have hout : maxInteger < q ∨ maxInteger < old.version + 1 := hlarge
    exact Or.inr ⟨rfl, by omega⟩

/-- The final `UPDATE` of the task. -/
theorem solo_apply {db₁ : Db} (hdb₁ : Checked schema db₁) (h₁ : p.Rearranged old q db db₁)
    (hver : old.version = p.version) (hq0 : 0 ≤ q) {Q : ℕ → Db → Prop}
    (herror : ¬(q ≤ maxInteger ∧ old.version < maxInteger) → allowed .integerOutOfRange)
    (htitle : ¬p.TitleFits → allowed .valueTooLong)
    (h : ∀ n db', n ≠ 0 → q ≤ maxInteger → old.version < maxInteger → p.TitleFits →
      p.Moved old q db db' → Q n db') :
    Solo schema allowed
      (Proc.update (setTask p.taskId (fun r => r.version = p.version) (p.apply q)) : TaskProc ℕ)
      db₁ Q := by
  have happly : setTask p.taskId (fun r => r.version = p.version) (p.apply q) (.task p.taskId) old =
      some (some (p.apply q old)) := setTask_self hver
  have hcheck := check_apply (p := p) (q := q) (hdb₁ _ _ h₁.self) hq0
  refine Solo.update (fun i r r' e hr hu he => ?_) fun db' hup hfits => ?_
  · by_cases hi : i = .task p.taskId
    · subst hi
      obtain rfl := Option.some.inj (h₁.self.symm.trans hr)
      obtain rfl := Option.some.inj (Option.some.inj (hu.symm.trans happly))
      rcases check_apply_eq_some (hdb₁ _ _ h₁.self) hq0 he with ⟨rfl, hlong⟩ | ⟨rfl, hout⟩
      · exact htitle hlong
      · exact herror hout
    · rw [setTask_of_ne r hi] at hu
      cases hu
  · have hpass := hcheck.mp (hfits (.task p.taskId) old _ h₁.self happly)
    refine h _ db' ?_ hpass.1.1 hpass.1.2 hpass.2 ⟨?_, fun t ht => ?_⟩
    · have hmem : RowId.task p.taskId ∈ db₁.matching
          (setTask p.taskId (fun r => r.version = p.version) (p.apply q)) :=
        Store.mem_matching.mpr ⟨old, some (p.apply q old), h₁.self, happly⟩
      exact (List.length_pos_of_mem hmem).ne'
    · rw [hup, h₁.self, Option.bind_some, happly]
      rfl
    · rw [hup, ← h₁.other t ht]
      cases db₁.row (.task t) with
      | none => rfl
      | some r =>
        rw [Option.bind_some, setTask_of_ne r fun h => ht (RowId.task.inj h)]
        rfl

theorem Moved.of_tasks {db₁ db₂ : Db} (h : p.Moved old q db db₁)
    (hkept : ∀ t, db₂.row (.task t) = db₁.row (.task t)) : p.Moved old q db db₂ where
  self := (hkept _).trans h.self
  other t ht := (hkept t).trans (h.other t ht)

/-- `sp_update_task` with a position, alone: the task is moved or the call is refused. -/
theorem solo_spUpdateTask (hdb : Checked schema db) (hrow : db.row (.task p.taskId) = some old)
    (hq : p.position = some q) (hq0 : 0 ≤ q) :
    Solo schema (p.Refused old q db) (spUpdateTask p) db
      (fun _ db' => old.version = p.version ∧ p.Passes old q db ∧ p.Moved old q db db') := by
  refine Solo.bind (Solo.select ?_)
  rw [hrow]
  refine Solo.bind (solo_lockColumns (Solo.bind (Solo.selectForUpdate ?_)))
  rw [hrow]
  refine Solo.bind (Solo.raiseIf .version fun hver => ?_)
  have hver := not_not.mp hver
  refine Solo.bind (solo_requireActiveAssignee .assignee fun hassignee => ?_)
  refine Solo.bind ((solo_movePositions hdb hrow hq fun hroom =>
    .range fun hpass => hroom hpass.2.2).mono ?_)
  rintro _ db₁ ⟨rfl, hdb₁, h₁, hroom⟩
  refine Solo.bind (solo_apply hdb₁ h₁ hver hq0 ?_ .title
    fun n db' hn hmax hversion htitle hmoved => ?_)
  · exact fun hout => .range fun hpass => hout ⟨hpass.1, hpass.2.1⟩
  refine Solo.bind (Solo.raiseIf (fun h0 => absurd h0 hn) fun _ => ?_)
  refine solo_notifyUpdated.mono fun _ db'' hkept => ?_
  exact ⟨hver, ⟨hassignee, hmax, hversion, hroom, htitle⟩, hmoved.of_tasks hkept⟩

/-- A call with the current version is refused for want of one of the conditions. -/
theorem Refused.not_passes {e : Error} (h : p.Refused old q db e) (hver : old.version = p.version) :
    ¬p.Passes old q db := by
  intro hpass
  cases h with
  | version hne => exact hne hver
  | assignee hinactive =>
    obtain ⟨u, hu, hinactive⟩ := hinactive
    exact Bool.false_ne_true (hinactive.symm.trans (hpass.assignee u hu))
  | range hout => exact hout ⟨hpass.position, hpass.version, hpass.room⟩
  | title hlong => exact hlong hpass.title

/-! ### The columns after the move -/

/-- The neighbours make room for the task without a clash. -/
theorem frees_neighbours {S : Set (Column × ℤ)} (ho : 0 ≤ old.position) (hS : old.slot ∉ S) :
    Frees S (p.neighbours old q) ((old.projectId, p.status), q) := by
  unfold neighbours
  split_ifs with hs hqo hlt
  · exact frees_closeGap_openGap _ q ho hS
  · rw [not_not.mp hs, hqo]
    exact frees_of_column (fun _ => rfl) (fun _ _ _ _ _ h => h)
      (fun x hx h => hS (by rwa [show x = old.position from h] at hx)) fun _ _ h => h
  · rw [not_not.mp hs]
    exact frees_moveUp hlt ho hS
  · rw [not_not.mp hs]
    exact frees_moveDown (lt_of_le_of_ne (not_lt.mp hlt) hqo) hS

/-- The end of the range of positions in the target column that come before the task. -/
def bound (p : UpdateTask) (old : Task) (q : ℤ) : ℤ :=
  if p.status = old.status ∧ old.position ≤ q then q + 1 else q

/-- The neighbours keep their order. -/
theorem neighbours_lt {c : Column} {x y : ℤ} (hx : (c, x) ≠ old.slot) (hy : (c, y) ≠ old.slot)
    (h : x < y) : (p.neighbours old q (c, x)).2 < (p.neighbours old q (c, y)).2 := by
  by_cases hc : c = (old.projectId, old.status)
  · -- the column that the task leaves or stays in
    subst hc
    have hx' : x ≠ old.position := fun hxo => hx (by rw [hxo]; rfl)
    have hy' : y ≠ old.position := fun hyo => hy (by rw [hyo]; rfl)
    unfold neighbours
    split_ifs with hs
    · have hne : ∀ z, (shift (old.projectId, old.status) (old.position < ·) (-1)
          ((old.projectId, old.status), z)).1 ≠ (old.projectId, p.status) := by
        intro z hz
        rw [shift_fst] at hz
        exact hs (Prod.mk.inj hz).2.symm
      rw [Function.comp_apply, Function.comp_apply, shift_of_fst_ne (hne x),
        shift_of_fst_ne (hne y), shift_self, shift_self]
      split_ifs <;> omega
    · exact h
    · rw [shift_self, shift_self]
      split_ifs <;> omega
    · rw [shift_self, shift_self]
      split_ifs <;> omega
  · unfold neighbours
    split_ifs
    · -- another column: at most a gap is opened
      have hinner : ∀ z, shift (old.projectId, old.status) (old.position < ·) (-1) (c, z) =
          (c, z) := fun z => shift_of_fst_ne hc
      rw [Function.comp_apply, Function.comp_apply, hinner, hinner]
      by_cases hc' : c = (old.projectId, p.status)
      · rw [hc', shift_self, shift_self]
        split_ifs <;> omega
      · rwa [shift_of_fst_ne hc', shift_of_fst_ne hc']
    · exact h
    · rwa [shift_of_fst_ne hc, shift_of_fst_ne hc]
    · rwa [shift_of_fst_ne hc, shift_of_fst_ne hc]

/-- The neighbours in the target column that come before the task. -/
theorem neighbours_lt_iff {x : ℤ} (hx : ((old.projectId, p.status), x) ≠ old.slot) :
    (p.neighbours old q ((old.projectId, p.status), x)).2 < q ↔ x < p.bound old q := by
  unfold neighbours bound
  by_cases hs : p.status = old.status
  · have hx' : x ≠ old.position := fun hxo => hx (by rw [hxo, hs]; rfl)
    rw [if_neg (not_not.mpr hs), hs]
    simp only [true_and]
    by_cases hqo : q = old.position
    · rw [if_pos hqo, if_pos hqo.ge]
      show x < q ↔ x < q + 1
      omega
    · rw [if_neg hqo]
      split_ifs <;> rw [shift_self] <;> split_ifs <;> omega
  · have hinner : shift (old.projectId, old.status) (old.position < ·) (-1)
        ((old.projectId, p.status), x) = ((old.projectId, p.status), x) :=
      shift_of_fst_ne fun h => hs (Prod.mk.inj h).2
    rw [if_pos hs, if_neg fun h => hs h.1, Function.comp_apply, hinner, shift_self]
    split_ifs <;> omega

theorem Moved.slot_self {db' : Db} (h : p.Moved old q db db') :
    slot db' p.taskId = some ((old.projectId, p.status), q) := slot_of_row h.self

theorem Moved.slot_other {db' : Db} (h : p.Moved old q db db') {t : Uuid} (ht : t ≠ p.taskId) :
    slot db' t = (slot db t).map (p.neighbours old q) := by
  unfold slot
  rw [h.other t ht, Option.map_map, Option.map_map]
  exact congrArg (Option.map · _) (funext fun r => r.slot_rearrange (p.neighbours_fst old q))

/-- The move places the task on its board. -/
theorem Moved.boardSlot_eq {db' : Db} (h : p.Moved old q db db') (hproj : old.projectId.isSome) :
    boardSlot db' = place (boardSlot db) (p.neighbours old q) p.taskId
      ((old.projectId, p.status), q) := by
  funext t
  unfold place
  by_cases ht : t = p.taskId
  · subst ht
    rw [Function.update_self, boardSlot, h.slot_self]
    exact if_pos hproj
  · rw [Function.update_of_ne ht, boardSlot, h.slot_other ht, boardSlot,
      Option.filter_map]
    congr 2
    funext s
    rw [Function.comp_apply, neighbours_fst]

end UpdateTask

/-- A database without tasks is valid. -/
theorem valid_of_noTask {db₀ : Db} (h : ∀ t, db₀.row (.task t) = none) : Valid schema db₀ where
  checked := by
    intro i r hr
    cases i with
    | task t =>
      rw [h t] at hr
      cases hr
    | _ => rfl
  deferred := deferred_of_distinct fun t _ s ht _ => by
    obtain ⟨r, hr, -⟩ := slot_eq_some.mp ht
    rw [h t] at hr
    cases hr

/-- The boards of a valid database are ordered. -/
theorem ordered_boardSlot {db : Db} (h : Valid schema db) : Ordered (boardSlot db) where
  distinct := deferred_eq_none_iff.mp h.deferred _ _ _
  nonneg ht := by
    obtain ⟨r, hr, rfl⟩ := slot_eq_some.mp (boardSlot_eq_some.mp ht).1
    exact (Task.check_eq_none_iff.mp (h.checked _ r hr)).1.1

/-- The move does not violate the deferred constraint. -/
theorem UpdateTask.Moved.deferred {p : UpdateTask} {old : Task} {q : ℤ} {db db' : Db}
    (h : p.Moved old q db db') (hdb : Valid schema db) (hrow : db.row (.task p.taskId) = some old)
    (hproj : old.projectId.isSome) (hq0 : 0 ≤ q) : schema.deferred db' = none := by
  have hord := ordered_boardSlot hdb
  have hself : boardSlot db p.taskId = some old.slot :=
    boardSlot_eq_some.mpr ⟨slot_of_row hrow, hproj⟩
  rw [deferred_eq_none_iff, h.boardSlot_eq hproj]
  intro t t' s
  exact (hord.place_others (frees_neighbours (hord.nonneg hself) (hord.notMem_others hself))
    hq0).distinct

/-- A call of `sp_update_task` that has ended without interference has moved the task, unless it was
refused. -/
theorem spUpdateTask_done {p : UpdateTask} {old : Task} {q : ℤ} {db : Db} (hdb : Valid schema db)
    (hrow : db.row (.task p.taskId) = some old) (hproj : old.projectId.isSome)
    (hver : old.version = p.version) (hq : p.position = some q) (hq0 : 0 ≤ q)
    {c : Config Unit Row LockKey Uuid Error Unit}
    (hrun : Reachable schema (.init db fun _ : Unit => spUpdateTask p) c) {res : Except Error Unit}
    (hdone : c.tx () = .done res) :
    (p.Passes old q db ∧ p.Moved old q db c.db) ∨ (¬p.Passes old q db ∧ c.db = db) := by
  have hout := (UpdateTask.solo_spUpdateTask hdb.checked hrow hq hq0).run hrun
  unfold Solo.Outcome at hout
  rw [hdone] at hout
  cases res with
  | ok a => exact Or.inl hout.1.2
  | error e =>
    obtain ⟨hdb', hrefused | ⟨_, db', ⟨-, -, hmoved⟩, he⟩⟩ := hout
    · exact Or.inr ⟨hrefused.not_passes hver, hdb'⟩
    · -- the deferred constraint does not fail
      rw [hmoved.deferred hdb hrow hproj hq0] at he
      cases he

end TaskDb
