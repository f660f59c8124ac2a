import TaskManagement.Db.Equiv.Renumber

/-!
# The task writers keep the column discipline

Specifications of `sp_create_task`, `sp_update_task`, `sp_deactivate_task` and
`sp_remove_project_member` in the protocol `columnProtocol`: each of them ends settled
(`wp_spCreateTask`, `wp_spUpdateTask`, `wp_spDeactivateTask`, `wp_spRemoveProjectMember`, and
`Writer.wp_proc` for all four).
-/

namespace TaskDb

open ReadCommitted Columns

variable {ordered ranked : Prop} {ℓ : Writer} {σ : TaskSession} {db : Db} {K : List LockKey}
  {v : Layout Uuid Column}

/-! ### Statements that several procedures share -/

/-- A transaction that holds the keys `K` and has neither locked nor written a row. -/
structure Idle (K : List LockKey) (σ : TaskSession) : Prop where
  rows : σ.rows = []
  writes : σ.writes = []
  keys : σ.keys = K

theorem idle_start : Idle [] (Session.start : TaskSession) := ⟨rfl, rfl, rfl⟩

theorem Idle.view (h : Idle K σ) (db : Db) : σ.view db = db := by
  unfold Session.view
  rw [h.writes]
  rfl

theorem Idle.tasksOnly (h : Idle K σ) : TasksOnly σ := by
  intro i hi
  rw [h.rows] at hi
  exact absurd hi List.not_mem_nil

theorem idle_stable : (columnProtocol ordered ranked).Stable fun σ _ => Idle K σ where
  rely h _ _ := h
  saw _ h := ⟨h.rows, h.writes, h.keys⟩

/-- The errors other than those of positions may always occur. -/
theorem allowed_of_ne {e : Error} (h : e ≠ .negativePosition) (h' : e ≠ .duplicatePosition) :
    (columnProtocol ordered ranked).allowed e := fun _ => ⟨h, h'⟩

theorem wp_requireActiveAssignee {A : TaskSession → Db → Prop}
    (hA : (columnProtocol ordered ranked).Stable A) (u : Option Uuid)
    (hi : (columnProtocol ordered ranked).inv db) (h : A σ db) :
    wp schema (columnProtocol ordered ranked) ℓ (requireActiveAssignee u) (fun _ => A) σ db := by
  cases u with
  | none => exact wp_ret fun db' hr hi' => hA.rely h hr hi'
  | some u =>
    refine wp_bind (wp_mono (wp_select_stable hA (fun _ _ => trivial) h) ?_) hi
    rintro active σ' db' - ⟨h', -⟩
    refine wp_mono (wp_raiseIf_stable hA (fun _ => allowed_of_ne nofun nofun) h') ?_
    exact fun _ _ _ _ h'' => h''.2

/-- Writing a task row without moving the task. -/
theorem Sees.write_slot (h : Sees K v σ db) {t : Uuid} {r r' : Task}
    (hr : (σ.view db).row (.task t) = some r) (hs : r'.slot = r.slot) :
    Sees K v (σ.write (.task t) (some r')) db := by
  have hslot : slot (σ.view db) t = some r'.slot := by rw [slot_of_row hr, hs]
  have hproj : r'.projectId = r.projectId := congrArg (·.1.1) hs
  have hvt : (if columnKey r'.slot.1 ∈ K then some r'.slot else none) = v t := by
    split_ifs with hk
    · exact (h.slot_iff.mpr ⟨hslot, hk⟩).symm
    · cases hvt : v t with
      | none => rfl
      | some s =>
        obtain ⟨hs', hk'⟩ := h.slot_iff.mp hvt
        obtain rfl := Option.some.inj (hslot.symm.trans hs')
        exact absurd hk' hk
  have hw := h.write t r' ?_ ?_
  · rwa [hvt, Function.update_eq_self] at hw
  · intro s _
    rw [hslot, Option.some_inj]
  · intro r₂ hr₂
    obtain rfl := Option.some.inj (hr.symm.trans hr₂)
    exact hproj

theorem tasksOnly_write {t : Uuid} {w : Option Task} (h : TasksOnly σ) :
    TasksOnly (σ.write (.task t) w) := by
  intro i hi
  rcases List.mem_cons.mp hi with rfl | hi
  · exact ⟨t, rfl⟩
  · exact h i hi

theorem tasksOnly_lockRow {t : Uuid} (h : TasksOnly σ) : TasksOnly (σ.lockRow (.task t)) := by
  intro i hi
  rcases List.mem_cons.mp hi with rfl | hi
  · exact ⟨t, rfl⟩
  · exact h i hi

/-- What a writer knows once its tasks are written: it is settled and has locked only tasks. -/
def Written (ordered : Prop) (σ : TaskSession) (db : Db) : Prop :=
  Settled ordered σ db ∧ TasksOnly σ

theorem written_stable : (columnProtocol ordered ranked).Stable (Written ordered) :=
  settled_stable.and ⟨fun h _ _ => h, fun _ h => h⟩

theorem Settled.write_other (h : Settled ordered σ db) {i : RowId} {w : Option (Row i)}
    (hi : ∀ t, i ≠ .task t) : Settled ordered (σ.write i w) db := by
  obtain ⟨K, v, hs, hv⟩ := h
  exact ⟨K, v, hs.write_other hi, hv⟩

/-- `INSERT INTO notifications ... ON CONFLICT DO NOTHING`. -/
theorem wp_insertNotification {u : Uuid} {k : DedupeKey} {r : Notification}
    (h : Written ordered σ db) :
    wp schema (columnProtocol ordered ranked) ℓ
      (Proc.insertOrIgnore (.notification u k) r : TaskProc Unit)
      (fun _ => Settled ordered) σ db := by
  refine wp_insertOrIgnore fun db' hr hi => ?_
  have h' := written_stable.rely h hr hi
  refine ⟨fun _ => ⟨h'.2, nofun⟩, fun _ => ⟨fun _ db'' hr' hi' => ?_, fun _ => ⟨nofun, ?_⟩⟩⟩
  · exact settled_stable.rely h'.1 hr' hi'
  · exact fun db'' hr' hi' => settled_stable.rely (h'.1.write_other nofun) hr' hi'

/-- The position of a task that is written as it stands violates no constraint on positions. -/
theorem Settled.check_allowed (h : Settled ordered σ db)
    (hi : (columnProtocol ordered ranked).inv db) {t : Uuid} {r r' : Task}
    (hr : (σ.view db).row (.task t) = some r) (hs : r'.slot = r.slot) {e : Error}
    (he : r'.check = some e) : (columnProtocol ordered ranked).allowed e := by
  intro hord
  have hpos : 0 ≤ r'.position := by
    have h0 := (h.ordered_view hi hord).nonneg (slot_of_row hr)
    rwa [← hs] at h0
  obtain ⟨hn, hd⟩ := Task.check_ne_negativePosition hpos
  exact ⟨fun h => hn (h ▸ he), fun h => hd (h ▸ he)⟩

/-! ### `sp_create_task` -/

/-- The new task has not been inserted yet; `v` leaves room for it at `n`. -/
structure Making (ordered : Prop) (c : Column) (v : Layout Uuid Column) (n : ℤ) : Prop where
  pos : ordered → 0 ≤ n
  place : ordered → ∀ t, v t = none → Ordered (Function.update v t (some (c, n)))

theorem CreateTask.wp_choosePosition {p : CreateTask} (hi : (columnProtocol ordered ranked).inv db)
    (hk : columnKey (p.projectId, p.status) ∈ K) (hv : ordered → Ordered v)
    (hq : ordered → ∀ q ∈ p.position, 0 ≤ q) (h : Moving K v [] σ db) (hcov : Covered σ db) :
    wp schema (columnProtocol ordered ranked) ℓ p.choosePosition
      (fun n σ db => ∃ v', Moving K v' [] σ db ∧ Making ordered (p.projectId, p.status) v' n)
      σ db := by
  unfold CreateTask.choosePosition
  cases hpos : p.position with
  | none =>
    refine wp_mono (wp_select_stable moving_stable (fun _ _ => trivial) h) ?_
    rintro n σ₂ db₂ hi₂ ⟨hm₂, σ₀, db₀, hm₀, -, rfl⟩
    refine ⟨v, hm₂, fun _ => nextTaskPosition_nonneg _ _ _, fun hord t ht => ?_⟩
    have hend : ∀ x, ((p.projectId, p.status), x) ∈ others v t →
        x < nextTaskPosition (σ₀.view db₀) p.projectId p.status := by
      rintro x ⟨b, -, hb⟩
      exact lt_nextTaskPosition (hm₀.sees.slot_iff.mp hb).1
    have hpl := (hv hord).place_others (frees_append hend) (nextTaskPosition_nonneg _ _ _)
    simpa only [Columns.place, Option.map_id_fun, id_eq] using hpl
  | some q =>
    have hq' : ordered → 0 ≤ q := fun hord => hq hord q hpos
    refine wp_bind (wp_mono (wp_shiftPositions hk (fun hord t x _ hx => ?_)
      (fun _ _ he => by cases he)
      (fun x hx => absurd hx List.not_mem_nil) ⟨h, hcov⟩) ?_) hi
    · have := hq' hord
      omega
    rintro _ σ₁ db₁ hi₁ ⟨hm₁, -⟩
    refine wp_ret fun db₂ hr₂ hi₂ => ⟨_, moving_stable.rely hm₁ hr₂ hi₂, hq', fun hord t _ => ?_⟩
    exact (hv hord).place_others (frees_openGap _ _ q) (hq' hord)

/-- Inserting the new task, whose identifier the session has reserved. -/
theorem CreateTask.wp_insertTask {p : CreateTask} {t : Uuid} {n : ℤ}
    (hk : columnKey (p.projectId, p.status) ∈ K)
    (hmk : Making ordered (p.projectId, p.status) v n) (h : Moving K v [] σ db)
    (hrow : RowId.task t ∈ σ.rows) (hnone : (σ.view db).row (.task t) = none) :
    wp schema (columnProtocol ordered ranked) ℓ
      (Proc.insertOrRaise (.task t) (p.task n) .duplicateKey : TaskProc Unit)
      (fun _ => Written ordered) σ db := by
  refine wp_insertOrRaise fun db' hr hi => ?_
  have h' := moving_stable.rely h hr hi
  -- the identifier is reserved
  have hnone' : (σ.view db').row (.task t) = none :=
    (σ.view_row_congr (hr.rows _ hrow)).trans hnone
  have hslot : slot (σ.view db') t = none := by
    unfold slot
    rw [hnone']
    rfl
  refine ⟨fun _ => ⟨h'.tasksOnly, fun _ _ => hrow⟩,
    fun _ => ⟨fun hne => absurd hnone' hne, fun _ => ⟨?_, ?_⟩⟩⟩
  · intro e he hord
    obtain ⟨hn, hd⟩ := Task.check_ne_negativePosition (r := p.task n) (hmk.pos hord)
    have he' : (p.task n).check = some e := he
    exact ⟨fun h => hn (h ▸ he'), fun h => hd (h ▸ he')⟩
  · intro db'' hr' hi'
    have hw := h'.sees.write t (p.task n) ?_ ?_
    · rw [if_pos (show columnKey (p.task n).slot.1 ∈ K from hk)] at hw
      have hvt : v t = none := by
        cases hvt : v t with
        | none => rfl
        | some s => rw [(h'.sees.slot_iff.mp hvt).1] at hslot; cases hslot
      refine written_stable.rely ⟨⟨K, _, hw, fun hord => ?_⟩, tasksOnly_write h'.tasksOnly⟩ hr' hi'
      exact hmk.place hord t hvt
    · intro s hs
      rw [hslot]
      constructor
      · rintro rfl
        exact absurd hk hs
      · intro hs'
        cases hs'
    · intro r hr₂
      rw [hnone'] at hr₂
      cases hr₂

theorem wp_spCreateTask {p : CreateTask} (hq : ordered → ∀ q ∈ p.position, 0 ≤ q)
    (hi : (columnProtocol ordered ranked).inv db) :
    wp schema (columnProtocol ordered ranked) ℓ (spCreateTask p) (fun _ => Settled ordered)
      .start db := by
  refine wp_bind (wp_mono (wp_requireActiveAssignee idle_stable _ hi idle_start) ?_) hi
  rintro _ σ₁ db₁ hi₁ hid
  refine wp_bind (wp_advisoryLock fun db₂ hr₂ hi₂ => ⟨fun _ => ?_, fun _ db₃ hr₃ hi₃ => ?_⟩) hi₁
  · refine ⟨hid.rows, fun k hk => ?_⟩
    rw [hid.keys] at hk
    exact absurd hk List.not_mem_nil
  have hid' : Idle [columnKey (p.projectId, p.status)]
      (σ₁.lockKey (columnKey (p.projectId, p.status))) :=
    ⟨hid.rows, hid.writes, congrArg _ hid.keys⟩
  have hsees := sees_of_writes_eq_nil db₃ hid'.writes
  rw [hid'.keys] at hsees
  have hm : Moving [columnKey (p.projectId, p.status)] _ [] _ db₃ :=
    ⟨hsees, fun x hx => absurd hx List.not_mem_nil, hid'.tasksOnly⟩
  have hk : columnKey (p.projectId, p.status) ∈ [columnKey (p.projectId, p.status)] :=
    List.mem_singleton_self _
  have hcov : Covered (σ₁.lockKey (columnKey (p.projectId, p.status))) db₃ := by
    intro t ht
    rw [hid'.rows] at ht
    exact absurd ht List.not_mem_nil
  refine wp_bind (wp_mono (p.wp_choosePosition hi₃ hk
    (fun hord => lockedSlots_ordered hid'.writes (hi₃ hord)) hq hm hcov) ?_) hi₃
  rintro n σ₄ db₄ hi₄ ⟨v', hm₄, hmk⟩
  refine wp_bind (wp_generate fun db₅ hr₅ hi₅ t ht ht' db₆ hr₆ hi₆ => ?_) hi₄
  -- the reserved identifier is not in use, neither committed nor by this transaction
  have hm₅ := moving_stable.rely hm₄ hr₅ hi₅
  have hm₆ : Moving [columnKey (p.projectId, p.status)] v' [] (σ₄.lockRow (.task t)) db₆ :=
    moving_stable.rely ⟨hm₅.sees.lockRow _, fun x hx => absurd hx List.not_mem_nil,
      tasksOnly_lockRow hm₅.tasksOnly⟩ hr₆ hi₆
  have hnone : ((σ₄.lockRow (.task t)).view db₆).row (.task t) = none := by
    rw [Session.view_row_congr _ (hr₆.rows _ List.mem_cons_self), Session.lockRow_view,
      σ₄.view_row_of_notMem db₅ ht']
    cases hrow : db₅.row (.task t) with
    | none => rfl
    | some r => exact absurd (db₅.mem_ids _ (by rw [hrow]; rfl)) ht
  refine wp_bind (wp_mono (p.wp_insertTask hk hmk hm₆ List.mem_cons_self hnone) ?_) hi₆
  rintro _ σ₇ db₇ hi₇ hw
  refine wp_bind (wp_mono (Q := fun _ => Settled ordered) ?_ ?_) hi₇
  · unfold CreateTask.notifyCreated
    split
    · split
      · exact wp_insertNotification hw
      · exact wp_ret fun _ hr hi' => settled_stable.rely hw.1 hr hi'
    · exact wp_ret fun _ hr hi' => settled_stable.rely hw.1 hr hi'
  · exact fun _ σ₈ db₈ hi₈ hs => wp_ret fun _ hr hi' => settled_stable.rely hs hr hi'

/-! ### `sp_update_task` -/

section Update

variable {p : UpdateTask}

/-- The advisory locks are taken in the order of their keys, and both of them if the task moves. -/
theorem UpdateTask.wp_lockColumns {project : Option Uuid} {status : Status} {position : ℤ}
    {A : TaskSession → Db → Prop} (hA : ∀ {σ db db'}, A σ db → ColumnsRely σ db db' → A σ db')
    (hlock : ∀ σ db k, A σ db → A (σ.lockKey k) db)
    (hi : (columnProtocol ordered ranked).inv db) (hid : Idle [] σ) (h : A σ db) :
    wp schema (columnProtocol ordered ranked) ℓ (p.lockColumns project status position)
      (fun _ σ db => ∃ K, Idle K σ ∧ A σ db ∧ (p.Moves status position →
        columnKey (project, status) ∈ K ∧ columnKey (project, p.status) ∈ K)) σ db := by
  -- one more key, above those already held
  have hkey : ∀ {K k σ db} {Q : Unit → TaskSession → Db → Prop}, Idle K σ → A σ db →
      (∀ k' ∈ K, k' < k) →
      (∀ σ db, (columnProtocol ordered ranked).inv db → Idle (k :: K) σ → A σ db → Q () σ db) →
      wp schema (columnProtocol ordered ranked) ℓ (Proc.advisoryLock k : TaskProc Unit) Q σ db := by
    intro K k σ db Q hid h hk hQ
    refine wp_advisoryLock fun db' hr hi' => ⟨fun _ => ⟨hid.rows, ?_⟩, fun _ db'' hr' hi'' => ?_⟩
    · rw [hid.keys]
      exact hk
    · exact hQ _ _ hi'' ⟨hid.rows, hid.writes, congrArg _ hid.keys⟩
        (hA (hlock _ _ _ (hA h hr)) hr')
  unfold UpdateTask.lockColumns
  dsimp only
  by_cases hm : p.Moves status position
  · rw [if_pos hm]
    by_cases heq : columnKey (project, status) = columnKey (project, p.status)
    · rw [if_pos heq]
      refine hkey hid h (fun k' hk' => absurd hk' List.not_mem_nil) fun σ db _ hid' h' => ?_
      exact ⟨_, hid', h', fun _ => ⟨List.mem_singleton_self _, heq ▸ List.mem_singleton_self _⟩⟩
    · rw [if_neg heq]
      by_cases hlt : columnKey (project, status) < columnKey (project, p.status)
      · rw [if_pos hlt]
        refine wp_bind (hkey hid h (fun k' hk' => absurd hk' List.not_mem_nil)
          fun σ db _ hid' h' => hkey hid' h' ?_ fun σ db _ hid'' h'' => ?_) hi
        · intro k' hk'
          rwa [List.mem_singleton.mp hk']
        · exact ⟨_, hid'', h'', fun _ => ⟨by simp, by simp⟩⟩
      · rw [if_neg hlt]
        refine wp_bind (hkey hid h (fun k' hk' => absurd hk' List.not_mem_nil)
          fun σ db _ hid' h' => hkey hid' h' ?_ fun σ db _ hid'' h'' => ?_) hi
        · intro k' hk'
          rw [List.mem_singleton.mp hk']
          exact lt_of_le_of_ne (not_lt.mp hlt) (Ne.symm heq)
        · exact ⟨_, hid'', h'', fun _ => ⟨by simp, by simp⟩⟩
  · rw [if_neg hm]
    exact wp_ret fun db' hr _ => ⟨[], hid, hA h hr, fun hm' => absurd hm' hm⟩

variable {old : Task}

/-- The final `UPDATE` puts the task at the position that was made for it. -/
theorem UpdateTask.wp_apply {v₀ : Layout Uuid Column} {n : ℤ} (hver : old.version = p.version)
    (hv : ordered → Ordered v₀) (ho : ordered → 0 ≤ old.position)
    (h : Moving K v [(p.taskId, old)] σ db) (hpl : p.Placed ordered K old v₀ v n) :
    wp schema (columnProtocol ordered ranked) ℓ
      (Proc.update (setTask p.taskId (fun r => r.version = p.version) (p.apply n)) : TaskProc ℕ)
      (fun m σ db => m ≠ 0 → Written ordered σ db) σ db := by
  have hslot : (p.apply n old).slot = ((old.projectId, p.status), n) := rfl
  have hu : setTask p.taskId (fun r => r.version = p.version) (p.apply n) (.task p.taskId) old =
      some (some (p.apply n old)) := setTask_self hver
  -- the row is locked and not changed since
  have hreq : ∀ {σ db}, Moving K v [(p.taskId, old)] σ db →
      (columnProtocol ordered ranked).require .query σ db ∧
        (columnProtocol ordered ranked).require (.row (.task p.taskId)) σ db := by
    intro σ db hm
    have hl : RowId.task p.taskId ∈ σ.rows := (hm.pinned (p.taskId, old) List.mem_cons_self).1
    exact ⟨fun _ => trivial, fun _ => ⟨hm.tasksOnly, Or.inl hl⟩⟩
  refine wp_update_single (i := .task p.taskId) (fun j r hj => setTask_of_ne r hj) moving_stable
    hreq h (fun _ _ hne => absurd rfl hne) fun {σ db} hi hm _ => ?_
  have hrow : (σ.view db).row (.task p.taskId) = some old :=
    (hm.pinned (p.taskId, old) List.mem_cons_self).2
  constructor
  · intro e he hord
    -- only the version or the position can be out of range
    obtain ⟨r, r', hr, hu', hchk⟩ := Session.rowStep_error he
    obtain rfl := Option.some.inj (hr.symm.trans hrow)
    obtain rfl := Option.some.inj (Option.some.inj (hu.symm.trans hu'))
    have hpos : 0 ≤ n := by
      rcases hpl with ⟨-, rfl, -⟩ | ⟨-, -, hord'⟩
      · exact ho hord
      · exact (hord' hord).nonneg (Function.update_self p.taskId _ _)
    have hchk' : (p.apply n r).check = some e := hchk
    obtain ⟨hn, hd⟩ := Task.check_ne_negativePosition (r := p.apply n r) hpos
    exact ⟨fun h => hn (h ▸ hchk'), fun h => hd (h ▸ hchk')⟩
  · intro m σ' hst db' hr hi' _
    obtain ⟨-, -, rfl⟩ := Session.rowStep_ok_of_write hrow hu hst
    refine written_stable.rely ⟨?_, tasksOnly_write hm.tasksOnly⟩ hr hi'
    rcases hpl with ⟨hs, rfl, rfl⟩ | ⟨hk, hk', hord⟩
    · -- the task has not moved
      refine ⟨K, v, hm.sees.write_slot hrow ?_, hv⟩
      rw [hslot, hs]
      rfl
    · -- both columns are locked: the task appears at its new slot
      have hw := hm.sees.write p.taskId (p.apply n old) ?_ ?_
      · rw [hslot, if_pos hk'] at hw
        exact ⟨K, _, hw, hord⟩
      · intro s hs
        rw [hslot, hm.pinned_slot, Option.some_inj]
        constructor
        · rintro rfl
          exact absurd hk' hs
        · rintro rfl
          exact absurd hk hs
      · intro r hr₂
        obtain rfl := Option.some.inj (hrow.symm.trans hr₂)
        rfl

/-- `sp_update_task` from its row lock on. -/
theorem UpdateTask.wp_afterLock {project : Option Uuid} {status : Status}
    (hi : (columnProtocol ordered ranked).inv db) (hproj : old.projectId = project)
    (hfresh : old.version = p.version → old.status = status ∧
      (p.Moves old.status old.position → columnKey (old.projectId, old.status) ∈ K ∧
        columnKey (old.projectId, p.status) ∈ K))
    (hv : ordered → Ordered v) (ho : ordered → 0 ≤ old.position)
    (hq : ordered → ∀ q ∈ p.position, 0 ≤ q)
    (hcov : columnKey (old.projectId, old.status) ∈ K → Covered σ db)
    (h : Moving K v [(p.taskId, old)] σ db) :
    wp schema (columnProtocol ordered ranked) ℓ (p.afterLock project status old)
      (fun _ => Settled ordered) σ db := by
  have hst : (columnProtocol ordered ranked).Stable fun σ db =>
      Moving K v [(p.taskId, old)] σ db ∧
        (columnKey (old.projectId, old.status) ∈ K → Covered σ db) :=
    moving_stable.and ⟨fun h hr _ hk => (h hk).rely hr, fun _ h => h⟩
  refine wp_bind (wp_mono (wp_raiseIf_stable hst (fun _ => allowed_of_ne nofun nofun)
    ⟨h, hcov⟩) ?_) hi
  rintro _ σ₁ db₁ hi₁ ⟨hver, h₁⟩
  obtain ⟨rfl, hkeys⟩ := hfresh (not_not.mp hver)
  refine wp_bind (wp_mono (wp_requireActiveAssignee hst _ hi₁ h₁) ?_) hi₁
  rintro _ σ₂ db₂ hi₂ ⟨hm₂, hcov₂⟩
  subst hproj
  refine wp_bind (wp_mono (wp_movePositions hi₂ hkeys (fun hm => hcov₂ (hkeys hm).1) hv ho hq
    hm₂) ?_) hi₂
  rintro n σ₃ db₃ hi₃ ⟨v', hm₃, hpl⟩
  refine wp_bind (wp_mono (p.wp_apply (not_not.mp hver) hv ho hm₃ hpl) ?_) hi₃
  rintro m σ₄ db₄ hi₄ hw
  -- no row updated: the version conflict is raised
  have hst' : (columnProtocol ordered ranked).Stable
      fun σ db => m ≠ 0 → Written ordered σ db :=
    ⟨fun h hr hi hm => written_stable.rely (h hm) hr hi,
      fun s h hm => ⟨(h hm).1.saw s, (h hm).2⟩⟩
  refine wp_bind (wp_mono (wp_raiseIf_stable hst' (fun _ => allowed_of_ne nofun nofun) hw) ?_) hi₄
  rintro _ σ₅ db₅ hi₅ ⟨hm, hw₅⟩
  unfold UpdateTask.notifyUpdated
  split
  · split
    · exact wp_insertNotification (hw₅ hm)
    · exact wp_ret fun _ hr hi' => settled_stable.rely (hw₅ hm).1 hr hi'
  · exact wp_ret fun _ hr hi' => settled_stable.rely (hw₅ hm).1 hr hi'

/-- What `sp_update_task` knows between its first read, of `read` in `s`, and its row lock. -/
structure HasRead (t : Uuid) (s : Db) (read : Task) (σ : TaskSession) (db : Db) : Prop where
  reads : σ.reads = [s]
  row : s.row (.task t) = some read
  project : ∃ r, db.row (.task t) = some r ∧ r.projectId = read.projectId

theorem HasRead.rely {t : Uuid} {s : Db} {read : Task} {db' : Db} (h : HasRead t s read σ db)
    (hr : ColumnsRely σ db db') : HasRead t s read σ db' := by
  obtain ⟨r, hrow, hp⟩ := h.project
  obtain ⟨r', hrow', hp'⟩ := hr.tasks t r hrow
  exact ⟨h.reads, h.row, r', hrow', hp'.trans hp⟩

/-- A fresh read has locked the columns that the task moves between. -/
theorem HasRead.keys_of_fresh {s : Db} {read : Task} (h : HasRead p.taskId s read σ db)
    (hid : Idle K σ) (hfresh : p.Fresh σ db) (hrow : db.row (.task p.taskId) = some old)
    (hproj : old.projectId = read.projectId)
    (hkeys : p.Moves read.status read.position →
      columnKey (read.projectId, read.status) ∈ K ∧ columnKey (read.projectId, p.status) ∈ K)
    (hver : old.version = p.version) :
    old.status = read.status ∧ (p.Moves old.status old.position →
      columnKey (old.projectId, old.status) ∈ K ∧ columnKey (old.projectId, p.status) ∈ K) := by
  obtain ⟨hstatus, hpos⟩ := hfresh old hrow hver
  have hmem : s ∈ σ.reads := by
    rw [h.reads]
    exact List.mem_cons_self
  have hst : read.status = old.status := hstatus s hmem read h.row
  refine ⟨hst.symm, fun hm => ?_⟩
  rw [hproj, ← hst]
  by_cases hs : p.status = read.status
  · -- only the position changes
    rw [hs, and_self]
    rw [hproj, ← hst, hid.keys] at hpos
    rcases hpos with hk | hq
    · exact hk
    · rcases hm with hne | ⟨q, hq', hne⟩
      · exact absurd (hs.trans hst) hne
      · exact absurd (hq q hq') hne
  · exact hkeys (Or.inl hs)

/-- A transaction that has written nothing is settled. -/
theorem Idle.settled (hid : Idle K σ) (hi : (columnProtocol ordered ranked).inv db) :
    Settled ordered σ db :=
  ⟨_, _, sees_of_writes_eq_nil _ hid.writes, fun hord => lockedSlots_ordered hid.writes (hi hord)⟩

theorem wp_spUpdateTask (hq : ordered → ∀ q ∈ p.position, 0 ≤ q)
    (hi : (columnProtocol ordered ranked).inv db) :
    wp schema (columnProtocol ordered ranked) (.updateTask p) (spUpdateTask p)
      (fun _ => Settled ordered) .start db := by
  refine wp_bind (wp_select fun db₁ hr₁ hi₁ => ⟨fun _ => trivial, fun _ db₂ hr₂ hi₂ => ?_⟩) hi
  have hid₀ : Idle [] ((Session.start : TaskSession).saw db₁) := ⟨rfl, rfl, rfl⟩
  rw [Session.start_view]
  cases hread : db₁.row (.task p.taskId) with
  | none => exact wp_ret fun db₃ _ hi₃ => hid₀.settled hi₃
  | some read =>
    have hhas : HasRead p.taskId db₁ read ((Session.start : TaskSession).saw db₁) db₂ := by
      obtain ⟨r, hrow, hp⟩ := hr₂.tasks p.taskId read hread
      exact ⟨rfl, hread, r, hrow, hp⟩
    refine wp_bind (wp_mono (p.wp_lockColumns HasRead.rely
      (fun _ _ _ h => ⟨h.reads, h.row, h.project⟩) hi₂ hid₀ hhas) ?_) hi₂
    rintro _ σ₃ db₃ hi₃ ⟨K, hid, hhas₃, hkeys⟩
    refine wp_bind (wp_selectForUpdate fun db₄ hr₄ hi₄ => ⟨fun _ => hid.rows, fun hfresh => ?_⟩) hi₃
    intro db₅ hr₅ hi₅
    have hhas₄ := hhas₃.rely hr₄
    obtain ⟨old, hrow, hproj⟩ := hhas₄.project
    have hrow' : (σ₃.view db₄).row (.task p.taskId) = some old := by rwa [hid.view]
    have hlock : σ₃.lockStep db₄ (.task p.taskId) = σ₃.lockRow (.task p.taskId) := by
      unfold Session.lockStep
      rw [hrow']
    rw [hlock] at hr₅ ⊢
    rw [hrow']
    have hrow₅ : db₅.row (.task p.taskId) = some old :=
      (hr₅.rows _ List.mem_cons_self).trans hrow
    have hview : (σ₃.lockRow (.task p.taskId)).view db₅ = db₅ := hid.view db₅
    have hsees := sees_of_writes_eq_nil (σ := σ₃.lockRow (.task p.taskId)) db₅ hid.writes
    rw [show (σ₃.lockRow (.task p.taskId)).keys = K from hid.keys] at hsees
    refine p.wp_afterLock hi₅ hproj
      (hhas₄.keys_of_fresh hid hfresh hrow hproj hkeys)
      (fun hord => lockedSlots_ordered hid.writes (hi₅ hord))
      (fun hord => (hi₅ hord).nonneg (slot_of_row hrow₅)) hq (fun hk t ht => ?_)
      ⟨hsees, fun x hx => ?_, tasksOnly_lockRow hid.tasksOnly⟩
    · rw [Session.lockRow_rows, hid.rows, List.mem_singleton] at ht
      obtain rfl := RowId.task.inj ht
      exact ⟨_, slot_of_row hrow₅, by rw [Session.lockRow_keys, hid.keys]; exact hk⟩
    · obtain rfl := List.mem_singleton.mp hx
      exact ⟨List.mem_cons_self, by rwa [hview]⟩

end Update

/-! ### Writes that move no task -/

/-- The statement writes new versions of tasks, at their old slots. -/
def KeepsSlots (u : RowUpdate Row) : Prop :=
  ∀ t r w, u (.task t) r = some w → ∃ r' : Task, w = some r' ∧ r'.slot = Task.slot r

theorem keepsSlots_setTask {t : Uuid} {w : Task → Prop} [DecidablePred w] {set : Task → Task}
    (h : ∀ r, (set r).slot = r.slot) : KeepsSlots (setTask t w set) := by
  intro t' r w' hu
  simp only [setTask] at hu
  split_ifs at hu
  exact ⟨set r, (Option.some.inj hu).symm, h r⟩

theorem keepsSlots_clearAssignee (p u : Uuid) : KeepsSlots (clearAssignee p u) := by
  intro t r w hu
  simp only [clearAssignee] at hu
  split_ifs at hu
  exact ⟨{ r with assigneeId := none }, (Option.some.inj hu).symm, rfl⟩

section KeepsSlots

variable {u : RowUpdate Row} {t : Uuid} {n n' : ℕ} {σ' : TaskSession} {e : Error}

theorem Settled.rowStep (hu : KeepsSlots u) (h : Settled ordered σ db)
    (hst : σ.rowStep schema u db (.task t) n = .ok (n', σ')) : Settled ordered σ' db := by
  obtain ⟨K, v, hs, hv⟩ := h
  rcases Session.rowStep_cases hst with
    ⟨-, -, rfl⟩ | ⟨r, -, -, -, rfl⟩ | ⟨r, -, hur, -, rfl⟩ | ⟨r, r', hr, hur, -, -, rfl⟩
  · exact ⟨K, v, hs, hv⟩
  · exact ⟨K, v, hs.lockRow _, hv⟩
  · obtain ⟨r', hw, -⟩ := hu t r none hur
    cases hw
  · obtain ⟨r₁, hw, hslot⟩ := hu t r (some r') hur
    obtain rfl := Option.some.inj hw
    exact ⟨K, v, hs.write_slot hr hslot, hv⟩

theorem Settled.rowStep_error (hu : KeepsSlots u) (h : Settled ordered σ db)
    (hi : (columnProtocol ordered ranked).inv db)
    (hst : σ.rowStep schema u db (.task t) n = .error e) :
    (columnProtocol ordered ranked).allowed e := by
  obtain ⟨r, r', hr, hur, hchk⟩ := Session.rowStep_error hst
  obtain ⟨r₁, hw, hslot⟩ := hu t r (some r') hur
  obtain rfl := Option.some.inj hw
  exact h.check_allowed hi hr hslot hchk

end KeepsSlots

theorem tasksOnly_rowStep {u : RowUpdate Row} {t : Uuid} {n n' : ℕ} {σ' : TaskSession}
    (h : TasksOnly σ) (hst : σ.rowStep schema u db (.task t) n = .ok (n', σ')) : TasksOnly σ' := by
  rcases Session.rowStep_cases hst with
    ⟨-, -, rfl⟩ | ⟨r, -, -, -, rfl⟩ | ⟨r, -, -, -, rfl⟩ | ⟨r, r', -, -, -, -, rfl⟩
  · exact h
  · exact tasksOnly_lockRow h
  · exact tasksOnly_write h
  · exact tasksOnly_write h

theorem wp_spDeactivateTask {t : Uuid} {isActive : Bool}
    (hi : (columnProtocol ordered ranked).inv db) :
    wp schema (columnProtocol ordered ranked) ℓ (spDeactivateTask t isActive)
      (fun _ => Settled ordered) .start db := by
  have hreq : ∀ {σ db}, Idle [] σ → (columnProtocol ordered ranked).require .query σ db ∧
      (columnProtocol ordered ranked).require (.row (.task t)) σ db :=
    fun hid => ⟨fun _ => trivial, fun _ => ⟨hid.tasksOnly, Or.inr (Or.inl hid.rows)⟩⟩
  have hks : KeepsSlots (setTask t (fun _ => True)
      fun r => { r with isActive := isActive, version := r.version + 1 }) :=
    keepsSlots_setTask fun _ => rfl
  refine wp_bind (wp_mono (Q := fun _ => Settled ordered) ?_ fun _ σ₁ db₁ _ hs =>
    wp_ret fun db₂ hr₂ hi₂ => settled_stable.rely hs hr₂ hi₂) hi
  refine wp_update_single (i := .task t) (fun j r hj => setTask_of_ne r hj) idle_stable hreq
    idle_start (fun hi₁ hid => hid.settled hi₁) fun {σ db} hi₁ hid _ => ?_
  have hs : Settled ordered σ db := hid.settled hi₁
  exact ⟨fun e he => hs.rowStep_error hks hi₁ he,
    fun n σ' hst db' hr hi' => settled_stable.rely (hs.rowStep hks hst) hr hi'⟩

/-! ### `sp_remove_project_member` -/

/-- The state of the `UPDATE` of `sp_remove_project_member` with the rows `rest` still to process:
under the lock order it locks a single task. -/
structure Clearing (ordered ranked : Prop) (rest : List RowId) (σ : TaskSession) (db : Db) :
    Prop where
  mem : ∀ i ∈ rest, ∃ t, i = .task t
  written : Written ordered σ db
  single : ranked → rest = [] ∨ (rest.length ≤ 1 ∧ σ.rows = [])

theorem mem_matching_clearAssignee {p u : Uuid} {i : RowId}
    (h : i ∈ db.matching (clearAssignee p u)) : ∃ t, i = .task t := by
  obtain ⟨r, w, -, hw⟩ := Store.mem_matching.mp h
  cases i with
  | task t => exact ⟨t, rfl⟩
  | _ => cases hw

theorem wp_clearAssignee {p u : Uuid} (hid : Idle [] σ) (hreads : σ.reads.length = 1) :
    wp schema (columnProtocol ordered ranked) (.removeMember p u)
      (Proc.update (clearAssignee p u) : TaskProc ℕ) (fun _ => Written ordered) σ db := by
  intro db₁ hr₁ hi₁
  refine ⟨fun _ => trivial, fun hone => ?_⟩
  refine ⟨fun rest _ σ db => Clearing ordered ranked rest σ db, ⟨?_, ?_, ?_, ?_⟩,
    ⟨?_, ⟨(hid.settled hi₁).saw _, hid.tasksOnly⟩, fun hrank => Or.inr ⟨?_, hid.rows⟩⟩, ?_⟩
  · exact fun h hr hi' => ⟨h.mem, written_stable.rely h.written hr hi', h.single⟩
  · intro rest n σ db i _ h hmem hrank
    obtain ⟨t, rfl⟩ := h.mem i hmem
    refine ⟨h.written.2, Or.inr (Or.inl ?_)⟩
    rcases h.single hrank with rfl | ⟨-, hrows⟩
    · exact absurd hmem List.not_mem_nil
    · exact hrows
  · intro rest n σ db i n' σ' _ h hmem _ hst
    obtain ⟨t, rfl⟩ := h.mem i hmem
    refine ⟨fun j hj => h.mem j (List.mem_of_mem_erase hj),
      ⟨h.written.1.rowStep (keepsSlots_clearAssignee p u) hst, tasksOnly_rowStep h.written.2 hst⟩,
      fun hrank => Or.inl ?_⟩
    -- one row at most, when the locks are taken in order
    have hlen : rest.length ≤ 1 := by
      rcases h.single hrank with rfl | ⟨hlen, -⟩
      · exact absurd hmem List.not_mem_nil
      · exact hlen
    have herase : (rest.erase (.task t)).length = 0 := by
      rw [List.length_erase_of_mem hmem]
      omega
    exact List.length_eq_zero_iff.mp herase
  · intro rest n σ db i e hi' h hmem _ hst
    obtain ⟨t, rfl⟩ := h.mem i hmem
    exact h.written.1.rowStep_error (keepsSlots_clearAssignee p u) hi' hst
  · exact fun i hmem => mem_matching_clearAssignee hmem
  · exact hone hrank hreads
  · exact fun n σ' db' _ h db'' hr hi'' => written_stable.rely h.written hr hi''

theorem wp_deleteMember {p u : Uuid} (h : Written ordered σ db) :
    wp schema (columnProtocol ordered ranked) ℓ (Proc.update (deleteMember p u) : TaskProc ℕ)
      (fun _ => Settled ordered) σ db := by
  have hreq : ∀ {σ db}, Written ordered σ db →
      (columnProtocol ordered ranked).require .query σ db ∧
        (columnProtocol ordered ranked).require (.row (.member p u)) σ db :=
    fun hw => ⟨fun _ => trivial, fun _ => hw.2⟩
  refine wp_update_single (i := .member p u) (fun j r hj => deleteMember_of_ne r hj) written_stable
    hreq h (fun _ hw => hw.1) fun {σ db} _ hw _ => ?_
  constructor
  · intro e he
    obtain ⟨r, r', -, hur, -⟩ := Session.rowStep_error he
    rw [deleteMember_self r] at hur
    cases hur
  · intro n σ' hst db' hr hi'
    refine settled_stable.rely ?_ hr hi'
    rcases Session.rowStep_cases hst with
      ⟨-, -, rfl⟩ | ⟨r, -, hur, -, -⟩ | ⟨r, -, -, -, rfl⟩ | ⟨r, r', -, hur, -, -, -⟩
    · exact hw.1
    · rw [deleteMember_self r] at hur
      cases hur
    · exact hw.1.write_other nofun
    · rw [deleteMember_self r] at hur
      cases hur

theorem wp_spRemoveProjectMember {p u : Uuid} (hi : (columnProtocol ordered ranked).inv db) :
    wp schema (columnProtocol ordered ranked) (.removeMember p u) (spRemoveProjectMember p u)
      (fun _ => Settled ordered) .start db := by
  refine wp_bind (wp_select fun db₁ hr₁ hi₁ => ⟨fun _ => trivial, fun _ db₂ hr₂ hi₂ => ?_⟩) hi
  rw [Session.start_view]
  have hid : Idle [] ((Session.start : TaskSession).saw db₁) := ⟨rfl, rfl, rfl⟩
  refine wp_bind (wp_raiseIf (fun _ => allowed_of_ne nofun nofun) fun _ db₃ hr₃ hi₃ => ?_) hi₂
  refine wp_bind (wp_mono (wp_clearAssignee hid rfl) ?_) hi₃
  rintro _ σ₄ db₄ hi₄ hw
  refine wp_bind (wp_mono (wp_deleteMember hw) ?_) hi₄
  exact fun _ σ₅ db₅ hi₅ hs => wp_ret fun db₆ hr₆ hi₆ => settled_stable.rely hs hr₆ hi₆

/-! ### All writers -/

/-- The explicit positions that a call passes are not negative. -/
def Writer.PositionsNonneg : Writer → Prop
  | .createTask p => ∀ q ∈ p.position, 0 ≤ q
  | .updateTask p => ∀ q ∈ p.position, 0 ≤ q
  | .deactivateTask _ _ => True
  | .removeMember _ _ => True

/-- Every task writer ends settled. -/
theorem Writer.wp_proc (w : Writer) (hq : ordered → w.PositionsNonneg)
    (hi : (columnProtocol ordered ranked).inv db) :
    wp schema (columnProtocol ordered ranked) w w.proc (fun _ => Settled ordered) .start db := by
  have hret : ∀ (a : Option Uuid) {σ db}, Settled ordered σ db →
      wp schema (columnProtocol ordered ranked) w (.ret a : TaskProc (Option Uuid))
        (fun _ => Settled ordered) σ db :=
    fun _ _ _ hs => wp_ret fun db' hr hi' => settled_stable.rely hs hr hi'
  cases w with
  | createTask p => exact wp_bind (wp_mono (wp_spCreateTask hq hi) fun t _ _ _ => hret (some t)) hi
  | updateTask p => exact wp_bind (wp_mono (wp_spUpdateTask hq hi) fun _ _ _ _ => hret none) hi
  | deactivateTask t isActive =>
    exact wp_bind (wp_mono (wp_spDeactivateTask hi) fun _ _ _ _ => hret none) hi
  | removeMember p u =>
    exact wp_bind (wp_mono (wp_spRemoveProjectMember hi) fun _ _ _ _ => hret none) hi

end TaskDb
