import TaskManagement.Db.Equiv.ColumnLocks
import Mathlib.Data.List.MinMax

/-!
# Renumbering columns

The renumbering `UPDATE`s of the task procedures share one rule, `wp_shiftPositions`: under the key
of its column, such a statement shifts the layout that the session sees, whatever the order in
which its rows are locked.  `wp_movePositions` combines them for `sp_update_task`: when the task is
then written at the position chosen, the columns that the session holds are ordered again.
-/

namespace TaskDb

open ReadCommitted Columns

variable {ordered ranked : Prop} {ℓ : Writer} {σ : TaskSession} {db : Db} {K : List LockKey}
  {v : Layout Uuid Column} {pinned : List (Uuid × Task)}

/-! ### Renumbering -/

/-- A session that renumbers columns: it sees `v` and holds the row locks of `pinned`. -/
structure Moving (K : List LockKey) (v : Layout Uuid Column) (pinned : List (Uuid × Task))
    (σ : TaskSession) (db : Db) : Prop where
  sees : Sees K v σ db
  pinned : ∀ x ∈ pinned, RowId.task x.1 ∈ σ.rows ∧ (σ.view db).row (.task x.1) = some x.2
  tasksOnly : TasksOnly σ

theorem moving_stable : (columnProtocol ordered ranked).Stable (Moving K v pinned) where
  rely h hr _ := by
    refine ⟨h.sees.rely hr, fun x hx => ?_, h.tasksOnly⟩
    obtain ⟨hl, hrow⟩ := h.pinned x hx
    exact ⟨hl, (Session.view_row_congr _ (hr.rows _ hl)).trans hrow⟩
  saw s h := ⟨h.sees.saw s, h.pinned, h.tasksOnly⟩

theorem covered_stable : (columnProtocol ordered ranked).Stable Covered where
  rely h hr _ := h.rely hr
  saw _ h := h

/-- The layout while the rows `rest` are still to be shifted. -/
def shifting (v : Layout Uuid Column) (f : Column × ℤ → Column × ℤ) (rest : List RowId) :
    Layout Uuid Column :=
  fun t => if RowId.task t ∈ rest then v t else (v t).map f

theorem shifting_nil (v : Layout Uuid Column) (f : Column × ℤ → Column × ℤ) :
    shifting v f [] = fun t => (v t).map f := by
  funext t
  exact if_neg List.not_mem_nil

theorem shifting_erase {v : Layout Uuid Column} {f : Column × ℤ → Column × ℤ} {rest : List RowId}
    (hnd : rest.Nodup) {t : Uuid} {s : Column × ℤ} (hs : v t = some s) :
    Function.update (shifting v f rest) t (some (f s)) = shifting v f (rest.erase (.task t)) := by
  funext u
  unfold shifting
  by_cases hu : u = t
  · subst hu
    rw [Function.update_self, if_neg hnd.not_mem_erase, hs, Option.map_some]
  · have hiff : RowId.task u ∈ rest.erase (.task t) ↔ RowId.task u ∈ rest :=
      List.mem_erase_of_ne fun he => hu (RowId.task.inj he)
    rw [Function.update_of_ne hu]
    simp only [hiff]

section Shift

variable {p : Option Uuid} {s : Status} {range : ℤ → Prop} [DecidablePred range]
  {except : Option Uuid} {δ : ℤ}

/-- A task of the column in the range is written at its shifted position. -/
theorem shiftPositions_of_slot {t : Uuid} {r : Task} {x : ℤ} (hr : r.slot = ((p, s), x))
    (hx : range x) (he : except ≠ some t) :
    shiftPositions p s range except δ (.task t) r =
        some (some { r with position := r.position + δ }) ∧
      ({ r with position := r.position + δ } : Task).slot = shift (p, s) range δ ((p, s), x) := by
  obtain ⟨hc, hpos⟩ := Prod.mk.inj hr
  obtain ⟨hp, hs⟩ := Prod.mk.inj hc
  constructor
  · exact if_pos ⟨hp, hs, by rwa [hpos], he⟩
  · unfold shift
    rw [if_pos ⟨rfl, hx⟩]
    show ((r.projectId, r.status), r.position + δ) = ((p, s), x + δ)
    rw [hp, hs, hpos]

/-- The rows that a renumbering statement finds are tasks of the column in the range. -/
theorem mem_matching_shiftPositions {db : Db} {i : RowId}
    (h : i ∈ db.matching (shiftPositions p s range except δ)) :
    ∃ t x, i = .task t ∧ slot db t = some ((p, s), x) ∧ range x ∧ except ≠ some t := by
  obtain ⟨r, w, hr, hw⟩ := Store.mem_matching.mp h
  cases i with
  | task t =>
    simp only [shiftPositions] at hw
    split_ifs at hw with hif
    obtain ⟨hp, hs, hx, he⟩ := hif
    refine ⟨t, r.position, rfl, ?_, hx, he⟩
    rw [slot_of_row hr]
    unfold Task.slot
    rw [hp, hs]
  | _ => cases hw

/-- The state of a renumbering statement whose rows `rest` are still to be processed: they are
tasks of the column, in the range, and seen as in the snapshot. -/
structure Shifting (p : Option Uuid) (s : Status) (range : ℤ → Prop) [DecidablePred range]
    (except : Option Uuid) (δ : ℤ) (K : List LockKey) (v : Layout Uuid Column)
    (pinned : List (Uuid × Task)) (rest : List RowId) (σ : TaskSession) (db : Db) : Prop where
  nodup : rest.Nodup
  mem : ∀ i ∈ rest, ∃ t x, i = .task t ∧ v t = some ((p, s), x) ∧ range x ∧ except ≠ some t
  moving : Moving K (shifting v (shift (p, s) range δ) rest) pinned σ db
  covered : Covered σ db

variable {rest : List RowId}

/-- The row of a task that is still to be processed. -/
theorem Shifting.row (h : Shifting p s range except δ K v pinned rest σ db) {i : RowId}
    (hi : i ∈ rest) :
    ∃ t x r, i = .task t ∧ v t = some ((p, s), x) ∧ range x ∧ columnKey (p, s) ∈ K ∧
      (σ.view db).row (.task t) = some r ∧ r.slot = ((p, s), x) ∧
      shiftPositions p s range except δ (.task t) r =
        some (some { r with position := r.position + δ }) ∧
      ({ r with position := r.position + δ } : Task).slot = shift (p, s) range δ ((p, s), x) := by
  obtain ⟨t, x, rfl, hv, hx, he⟩ := h.mem i hi
  have hv' : shifting v (shift (p, s) range δ) rest t = some ((p, s), x) := (if_pos hi).trans hv
  obtain ⟨hslot, hk⟩ := h.moving.sees.slot_iff.mp hv'
  obtain ⟨r, hrow, hr⟩ := slot_eq_some.mp hslot
  obtain ⟨hu, hs'⟩ := shiftPositions_of_slot (δ := δ) hr hx he
  exact ⟨t, x, r, rfl, hv, hx, hk, hrow, hr, hu, hs'⟩

/-- A pending row is locked already or committed in a column of the session. -/
theorem Shifting.lockOrder (h : Shifting p s range except δ K v pinned rest σ db) {i : RowId}
    (hi : i ∈ rest) : LockOrder σ db (.row i) := by
  obtain ⟨t, x, r, rfl, -, -, hk, hrow, hr, -, -⟩ := h.row hi
  refine ⟨h.moving.tasksOnly, ?_⟩
  by_cases ht : RowId.task t ∈ σ.rows
  · exact Or.inl ht
  · have hslot : slot db t = some ((p, s), x) := by
      rw [← slot_view_of_notMem ht, slot_of_row hrow, hr]
    exact Or.inr (Or.inr ⟨⟨_, hslot, h.moving.sees.keys.symm ▸ hk⟩, h.covered⟩)

/-- Processing a row shifts its slot in what the session sees. -/
theorem Shifting.step (h : Shifting p s range except δ K v pinned rest σ db)
    (hpinned : ∀ x ∈ pinned, shiftPositions p s range except δ (.task x.1) x.2 = none)
    {i : RowId} (hi : i ∈ rest) {n n' : ℕ} {σ' : TaskSession}
    (hst : σ.rowStep schema (shiftPositions p s range except δ) db i n = .ok (n', σ')) :
    Shifting p s range except δ K v pinned (rest.erase i) σ' db := by
  obtain ⟨t, x, r, rfl, hv, hx, hk, hrow, hr, hu, hs'⟩ := h.row hi
  obtain ⟨-, -, rfl⟩ := Session.rowStep_ok_of_write hrow hu hst
  set r' : Task := { r with position := r.position + δ } with hr'
  have hslot : slot (σ.view db) t = some ((p, s), x) := by rw [slot_of_row hrow, hr]
  have hk' : columnKey r'.slot.1 ∈ K := by rwa [hs', shift_fst]
  refine ⟨h.nodup.erase _, fun j hj => h.mem j (List.mem_of_mem_erase hj), ⟨?_, ?_, ?_⟩, ?_⟩
  · -- the row stays in the column, which is locked
    have hw := h.moving.sees.write t r' ?_ ?_
    · rwa [if_pos hk', hs', shifting_erase h.nodup hv] at hw
    · intro s' hk''
      rw [hslot, Option.some_inj]
      constructor
      · rintro rfl
        exact absurd hk' hk''
      · rintro rfl
        exact absurd hk hk''
    · intro r₂ hr₂
      obtain rfl := Option.some.inj (hrow.symm.trans hr₂)
      rfl
  · intro y hy
    obtain ⟨hl, hyrow⟩ := h.moving.pinned y hy
    -- a pinned row is not shifted
    have hne : RowId.task y.1 ≠ .task t := by
      intro he
      obtain rfl := RowId.task.inj he
      obtain rfl := Option.some.inj (hrow.symm.trans hyrow)
      rw [hpinned y hy] at hu
      cases hu
    refine ⟨List.mem_cons_of_mem _ hl, ?_⟩
    rw [Session.write_view, Store.set_row_of_ne _ _ hne]
    exact hyrow
  · intro j hj
    rcases List.mem_cons.mp hj with rfl | hj
    · exact ⟨t, rfl⟩
    · exact h.moving.tasksOnly j hj
  · intro u hu'
    by_cases hl : RowId.task u ∈ σ.rows
    · exact h.covered u hl
    · rcases List.mem_cons.mp hu' with heq | hu'
      · obtain rfl := RowId.task.inj heq
        rw [slot_view_of_notMem hl] at hslot
        exact ⟨_, hslot, h.moving.sees.keys.symm ▸ hk⟩
      · exact absurd hu' hl

/-- A shifted position violates no constraint on positions as long as it is not negative. -/
theorem Shifting.error (h : Shifting p s range except δ K v pinned rest σ db)
    (hnonneg : ∀ t x, v t = some ((p, s), x) → range x → 0 ≤ x + δ) {i : RowId} (hi : i ∈ rest)
    {n : ℕ} {e : Error}
    (hst : σ.rowStep schema (shiftPositions p s range except δ) db i n = .error e) :
    e ≠ .negativePosition ∧ e ≠ .duplicatePosition := by
  obtain ⟨t, x, r, rfl, hv, hx, -, hrow, hr, hu, -⟩ := h.row hi
  obtain ⟨r₁, r', hrow₁, hu₁, hchk⟩ := Session.rowStep_error hst
  obtain rfl := Option.some.inj (hrow.symm.trans hrow₁)
  obtain rfl := Option.some.inj (Option.some.inj (hu.symm.trans hu₁))
  have hpos : 0 ≤ r.position + δ := by
    rw [show r.position = x from congrArg Prod.snd hr]
    exact hnonneg t x hv hx
  obtain ⟨hn, hd⟩ :=
    Task.check_ne_negativePosition (r := { r with position := r.position + δ }) hpos
  exact ⟨fun he => hn (he ▸ hchk), fun he => hd (he ▸ hchk)⟩

/-- At its snapshot, a renumbering statement has all its rows still to process. -/
theorem Moving.shifting (h : Moving K v pinned σ db) (hcov : Covered σ db)
    (hc : columnKey (p, s) ∈ K)
    (hexcept : ∀ t x, except = some t → v t = some ((p, s), x) → ¬range x) :
    Shifting p s range except δ K v pinned
      ((σ.view db).matching (shiftPositions p s range except δ)) σ db := by
  set rows := (σ.view db).matching (shiftPositions p s range except δ) with hrows
  have hv : TaskDb.shifting v (shift (p, s) range δ) rows = v := by
    funext t
    unfold TaskDb.shifting
    split_ifs with hmem
    · rfl
    · cases hvt : v t with
      | none => rfl
      | some s' =>
        obtain ⟨d, x⟩ := s'
        -- a task that the statement does not find is not in its range
        have hnot : ¬(d = (p, s) ∧ range x) := by
          rintro ⟨rfl, hx⟩
          obtain ⟨r, hrow, hr⟩ := slot_eq_some.mp (h.sees.slot_iff.mp hvt).1
          have he : except ≠ some t := fun he => hexcept t x he hvt hx
          exact hmem (Store.mem_matching.mpr
            ⟨r, _, hrow, (shiftPositions_of_slot (δ := δ) hr hx he).1⟩)
        rw [Option.map_some, shift_of_notMem hnot]
  refine ⟨Store.nodup_matching _ _, fun i hi => ?_, by rwa [hv], hcov⟩
  obtain ⟨t, x, rfl, hslot, hx, he⟩ := mem_matching_shiftPositions hi
  exact ⟨t, x, rfl, h.sees.slot_iff.mpr ⟨hslot, hc⟩, hx, he⟩

/-- A renumbering statement under the key of its column shifts what the session sees. -/
theorem wp_shiftPositions (hc : columnKey (p, s) ∈ K)
    (hnonneg : ordered → ∀ t x, v t = some ((p, s), x) → range x → 0 ≤ x + δ)
    (hexcept : ∀ t x, except = some t → v t = some ((p, s), x) → ¬range x)
    (hpinned : ∀ x ∈ pinned, shiftPositions p s range except δ (.task x.1) x.2 = none)
    (h : Moving K v pinned σ db ∧ Covered σ db) :
    wp schema (columnProtocol ordered ranked) ℓ
      (Proc.update (shiftPositions p s range except δ) : TaskProc ℕ)
      (fun _ σ db => Moving K (fun t => (v t).map (shift (p, s) range δ)) pinned σ db ∧
        Covered σ db) σ db := by
  intro db₁ hr₁ hi₁
  have hst : (columnProtocol ordered ranked).Stable
      fun σ db => Moving K v pinned σ db ∧ Covered σ db := moving_stable.and covered_stable
  have h₁ := hst.saw (σ.view db₁) (hst.rely h hr₁ hi₁)
  refine ⟨fun _ => trivial, fun _ => ?_⟩
  refine ⟨fun rest _ σ db => Shifting p s range except δ K v pinned rest σ db,
    ⟨?_, ?_, ?_, ?_⟩, h₁.1.shifting h₁.2 hc hexcept, ?_⟩
  · exact fun hs hr hi =>
      ⟨hs.nodup, hs.mem, moving_stable.rely hs.moving hr hi, covered_stable.rely hs.covered hr hi⟩
  · exact fun _ hs hmem _ => hs.lockOrder hmem
  · exact fun _ hs hmem _ hstep => hs.step hpinned hmem hstep
  · exact fun _ hs hmem _ hstep ho => hs.error (hnonneg ho) hmem hstep
  · intro m σ' db' hi' hs db'' hr hi''
    have hm := hs.moving
    rw [shifting_nil] at hm
    exact ⟨moving_stable.rely hm hr hi'', covered_stable.rely hs.covered hr hi''⟩

end Shift

/-! ### The next position of a column -/

theorem le_foldr_max (l : List ℤ) (b : ℤ) : b ≤ l.foldr max b := by
  induction l with
  | nil => exact le_refl b
  | cons x l ih => exact ih.trans (le_max_right x _)

theorem nextTaskPosition_nonneg (db : Db) (p : Option Uuid) (s : Status) :
    0 ≤ nextTaskPosition db p s := by
  have h := le_foldr_max (((tasks db).filter fun r =>
    decide (r.2.projectId = p ∧ r.2.status = s)).map (·.2.position)) (-1)
  unfold nextTaskPosition
  omega

/-- The next position lies behind every task of the column. -/
theorem lt_nextTaskPosition {db : Db} {t : Uuid} {p : Option Uuid} {s : Status} {x : ℤ}
    (h : slot db t = some ((p, s), x)) : x < nextTaskPosition db p s := by
  obtain ⟨r, hrow, hr⟩ := slot_eq_some.mp h
  obtain ⟨hc, hx⟩ := Prod.mk.inj hr
  obtain ⟨hp, hs⟩ := Prod.mk.inj hc
  have hmem : x ∈ ((tasks db).filter fun r => r.2.projectId = p ∧ r.2.status = s).map
      (·.2.position) :=
    List.mem_map.mpr ⟨(t, r), List.mem_filter.mpr ⟨mem_tasks.mpr hrow, by simp [hp, hs]⟩, hx⟩
  have hle := List.le_max_of_le' (-1) hmem (le_refl x)
  unfold nextTaskPosition
  omega

/-! ### Moving a task -/

/-- The layout `v` and the position `n` that the renumbering for `p` ends with: the task stays
where it is, or its columns are locked and placing it at `n` leaves them ordered. -/
def UpdateTask.Placed (ordered : Prop) (K : List LockKey) (p : UpdateTask) (old : Task)
    (v₀ v : Layout Uuid Column) (n : ℤ) : Prop :=
  (p.status = old.status ∧ n = old.position ∧ v = v₀) ∨
  (columnKey (old.projectId, old.status) ∈ K ∧ columnKey (old.projectId, p.status) ∈ K ∧
    (ordered → Ordered (Function.update v p.taskId (some ((old.projectId, p.status), n)))))

theorem Moving.pinned_slot {t : Uuid} {old : Task} (h : Moving K v [(t, old)] σ db) :
    slot (σ.view db) t = some old.slot :=
  slot_of_row (h.pinned (t, old) List.mem_cons_self).2

/-- A held column shows the pinned task at its slot. -/
theorem Moving.pinned_view {t : Uuid} {old : Task} (h : Moving K v [(t, old)] σ db)
    (hk : columnKey (old.projectId, old.status) ∈ K) : v t = some old.slot :=
  h.sees.slot_iff.mpr ⟨h.pinned_slot, hk⟩

variable {p : UpdateTask} {old : Task}

/-- The renumbering of `sp_update_task`, with the columns locked in case the task moves. -/
theorem wp_movePositions (hi : (columnProtocol ordered ranked).inv db)
    (hkeys : p.Moves old.status old.position →
      columnKey (old.projectId, old.status) ∈ K ∧ columnKey (old.projectId, p.status) ∈ K)
    (hcov : p.Moves old.status old.position → Covered σ db)
    (hv : ordered → Ordered v) (ho : ordered → 0 ≤ old.position)
    (hq : ordered → ∀ q ∈ p.position, 0 ≤ q) (h : Moving K v [(p.taskId, old)] σ db) :
    wp schema (columnProtocol ordered ranked) ℓ
      (p.movePositions old.projectId old.status old.position)
      (fun n σ db => ∃ v', Moving K v' [(p.taskId, old)] σ db ∧ p.Placed ordered K old v v' n)
      σ db := by
  set c : Column := (old.projectId, old.status) with hc
  set c' : Column := (old.projectId, p.status) with hc'
  -- a shift that skips the task leaves its pinned row
  have hpin : ∀ {s range except δ} [DecidablePred range],
      shiftPositions old.projectId s range except δ (.task p.taskId) old = none →
      ∀ x ∈ [(p.taskId, old)],
        shiftPositions old.projectId s range except δ (.task x.1) x.2 = none := by
    intro s range except δ _ hnone x hx
    obtain rfl := List.mem_singleton.mp hx
    exact hnone
  -- nothing to renumber
  have hdone : ∀ {n σ db}, p.status = old.status → n = old.position →
      Moving K v [(p.taskId, old)] σ db → wp schema (columnProtocol ordered ranked) ℓ
        (.ret n : TaskProc ℤ) (fun n σ db => ∃ v', Moving K v' [(p.taskId, old)] σ db ∧
          p.Placed ordered K old v v' n) σ db :=
    fun hs hn hm => wp_ret fun _ hr hi' => ⟨v, moving_stable.rely hm hr hi', Or.inl ⟨hs, hn, rfl⟩⟩
  unfold UpdateTask.movePositions
  by_cases hstatus : p.status ≠ old.status
  · -- the task changes its column: close the gap it leaves, then append it or open a gap for it
    obtain ⟨hk, hk'⟩ := hkeys (Or.inl hstatus)
    have hcc : c' ≠ c := fun he => hstatus (Prod.mk.inj he).2
    have hvt : v p.taskId = some (c, old.position) := h.pinned_view hk
    rw [if_pos hstatus]
    refine wp_bind (wp_mono (wp_shiftPositions hk (fun hord t x _ hx => ?_)
      (fun _ _ he => nomatch he) (hpin (if_neg fun hif => absurd hif.2.2.1 (lt_irrefl _)))
      ⟨h, hcov (Or.inl hstatus)⟩) ?_) hi
    · have := ho hord
      omega
    rintro _ σ₁ db₁ hi₁ ⟨hm₁, hcov₁⟩
    cases hpos : p.position with
    | none =>
      -- the task is appended, behind every task of its new column
      refine wp_mono (wp_select_stable moving_stable (fun _ _ => trivial) hm₁) ?_
      rintro n σ₂ db₂ hi₂ ⟨hm₂, σ₀, db₀, hm₀, -, rfl⟩
      refine ⟨_, hm₂, Or.inr ⟨hk, hk', fun hord => ?_⟩⟩
      refine (hv hord).place_others (frees_closeGap_append hcc (ho hord)
        ((hv hord).notMem_others hvt) ?_) (nextTaskPosition_nonneg _ _ _)
      rintro x ⟨b, -, hb⟩
      have hb' : ((v b).map (shift c (old.position < ·) (-1))) = some (c', x) := by
        rw [hb, Option.map_some, shift_of_fst_ne hcc]
      exact lt_nextTaskPosition (hm₀.sees.slot_iff.mp hb').1
    | some q =>
      -- a gap is opened at `q` in the new column
      have hq' : ordered → 0 ≤ q := fun hord => hq hord q hpos
      refine wp_bind (wp_mono (wp_shiftPositions hk' (fun hord t x _ hx => ?_)
        (fun _ _ he => nomatch he) (hpin (if_neg fun hif => hstatus hif.2.1.symm))
        ⟨hm₁, hcov₁⟩) ?_) hi₁
      · have := hq' hord
        omega
      rintro _ σ₂ db₂ hi₂ ⟨hm₂, -⟩
      refine wp_ret fun db₃ hr₃ hi₃ => ⟨_, moving_stable.rely hm₂ hr₃ hi₃, Or.inr ⟨hk, hk', ?_⟩⟩
      intro hord
      have hpl := (hv hord).place_others (frees_closeGap_openGap c' q (ho hord)
        ((hv hord).notMem_others hvt)) (hq' hord)
      simp only [Option.map_map]
      exact hpl
  · have hs : p.status = old.status := not_not.mp hstatus
    rw [if_neg hstatus]
    cases hpos : p.position with
    | none => exact hdone hs rfl h
    | some q =>
      dsimp only
      by_cases hqo : q = old.position
      · rw [if_pos hqo]
        exact hdone hs rfl h
      · -- the task moves within its column
        rw [if_neg hqo]
        have hmoves : p.Moves old.status old.position := Or.inr ⟨q, hpos, hqo⟩
        obtain ⟨hk, hk'⟩ := hkeys hmoves
        have hcc : c' = c := by rw [hc, hc', hs]
        have hq' : ordered → 0 ≤ q := fun hord => hq hord q hpos
        have hvt : v p.taskId = some (c, old.position) := h.pinned_view hk
        have hexcept : ∀ {range : ℤ → Prop}, ¬range old.position →
            ∀ t x, some p.taskId = some t → v t = some (c, x) → ¬range x := by
          intro range hnot t x ht hx
          obtain rfl := Option.some.inj ht
          obtain rfl : old.position = x := congrArg Prod.snd (Option.some.inj (hvt.symm.trans hx))
          exact hnot
        have hself : ∀ {range δ} [DecidablePred range],
            shiftPositions old.projectId old.status range (some p.taskId) δ (.task p.taskId) old =
              none := if_neg fun hif => hif.2.2.2 rfl
        -- the tasks between the two positions move up, or down
        by_cases hlt : old.position < q
        · rw [if_pos hlt]
          refine wp_bind (wp_mono (wp_shiftPositions hk (fun hord t x _ hx => ?_)
            (hexcept fun hr => lt_irrefl _ hr.1) (hpin hself) ⟨h, hcov hmoves⟩) ?_) hi
          · have := ho hord
            omega
          rintro _ σ₁ db₁ hi₁ ⟨hm₁, -⟩
          refine wp_ret fun db₂ hr₂ hi₂ => ⟨_, moving_stable.rely hm₁ hr₂ hi₂, Or.inr ⟨hk, hk', ?_⟩⟩
          intro hord
          rw [← hc', hcc]
          exact (hv hord).place_others (frees_moveUp hlt (ho hord)
            ((hv hord).notMem_others hvt)) (hq' hord)
        · rw [if_neg hlt]
          refine wp_bind (wp_mono (wp_shiftPositions hk (fun hord t x _ hx => ?_)
            (hexcept fun hr => lt_irrefl _ hr.2) (hpin hself) ⟨h, hcov hmoves⟩) ?_) hi
          · have := hq' hord
            omega
          rintro _ σ₁ db₁ hi₁ ⟨hm₁, -⟩
          refine wp_ret fun db₂ hr₂ hi₂ => ⟨_, moving_stable.rely hm₁ hr₂ hi₂, Or.inr ⟨hk, hk', ?_⟩⟩
          intro hord
          rw [← hc', hcc]
          exact (hv hord).place_others (frees_moveDown (by omega)
            ((hv hord).notMem_others hvt)) (hq' hord)

end TaskDb
