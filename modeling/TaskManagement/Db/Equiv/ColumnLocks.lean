import TaskManagement.Db.ColumnLocks
import TaskManagement.ReadCommitted.Soundness

/-!
# Assertions about locked columns

`Sees K v σ db` says that the session `σ` holds the advisory keys `K`, sees the layout `v` in the
columns of these keys and has left every other column alone.  It survives the commits of the other
writers (`Sees.rely`), `Sees.write` says what writing a task row makes of it, and `Settled.commits`
that a transaction which ends with an ordered layout keeps the protocol when it commits.
-/

namespace TaskDb

open ReadCommitted Columns

variable {ordered ranked : Prop} {ℓ : Writer} {σ : TaskSession} {db db' : Db} {K : List LockKey}
  {v : Layout Uuid Column}

theorem lockedSlots_eq_some {t : Uuid} {s : Column × ℤ} :
    lockedSlots σ db t = some s ↔ slot (σ.view db) t = some s ∧ columnKey s.1 ∈ σ.keys := by
  unfold lockedSlots
  rw [Option.filter_eq_some_iff]
  simp only [decide_eq_true_eq]

/-- Two layouts with the same slots are equal. -/
theorem layout_ext {v v' : Layout Uuid Column} (h : ∀ t s, v t = some s ↔ v' t = some s) :
    v = v' := by
  funext t
  exact Option.ext (h t)

theorem slot_view_congr (σ : TaskSession) {t : Uuid}
    (h : db'.row (.task t) = db.row (.task t)) : slot (σ.view db') t = slot (σ.view db) t :=
  slot_congr (σ.view_row_congr h)

theorem slot_view_of_notMem {t : Uuid} (h : RowId.task t ∉ σ.rows) :
    slot (σ.view db) t = slot db t := slot_congr (σ.view_row_of_notMem db h)

/-- Commits of other transactions do not change the locked columns. -/
theorem lockedSlots_rely (h : ColumnsRely σ db db') : lockedSlots σ db' = lockedSlots σ db := by
  apply layout_ext
  intro t s
  rw [lockedSlots_eq_some, lockedSlots_eq_some]
  by_cases ht : RowId.task t ∈ σ.rows
  · rw [slot_view_congr σ (h.rows _ ht)]
  · rw [slot_view_of_notMem ht, slot_view_of_notMem ht]
    constructor
    · exact fun hs => ⟨(h.slots t s hs.2).mp hs.1, hs.2⟩
    · exact fun hs => ⟨(h.slots t s hs.2).mpr hs.1, hs.2⟩

theorem Framed.rely (hf : Framed σ db) (h : ColumnsRely σ db db') : Framed σ db' := by
  constructor
  · intro t s hs
    by_cases ht : RowId.task t ∈ σ.rows
    · rw [slot_view_congr σ (h.rows _ ht), slot_congr (h.rows _ ht)]
      exact hf.slots t s hs
    · rw [slot_view_of_notMem ht]
  · intro t r hr
    by_cases ht : RowId.task t ∈ σ.rows
    · have hrow := h.rows _ ht
      rw [hrow] at hr
      rw [σ.view_row_congr hrow]
      exact hf.tasks t r hr
    · rw [σ.view_row_of_notMem db' ht]
      exact ⟨r, hr, rfl⟩

theorem Covered.rely (hc : Covered σ db) (h : ColumnsRely σ db db') : Covered σ db' := by
  intro t ht
  rw [slot_congr (h.rows _ ht)]
  exact hc t ht

/-! ### What a session sees in its columns -/

/-- The session holds the keys `K`, sees `v` in their columns and has changed no other column. -/
structure Sees (K : List LockKey) (v : Layout Uuid Column) (σ : TaskSession) (db : Db) : Prop where
  keys : σ.keys = K
  view : lockedSlots σ db = v
  framed : Framed σ db

theorem Sees.slot_iff (h : Sees K v σ db) {t : Uuid} {s : Column × ℤ} :
    v t = some s ↔ slot (σ.view db) t = some s ∧ columnKey s.1 ∈ K := by
  rw [← h.view, ← h.keys]
  exact lockedSlots_eq_some

theorem Sees.saw (h : Sees K v σ db) (s : Db) : Sees K v (σ.saw s) db :=
  ⟨h.keys, h.view, h.framed.slots, h.framed.tasks⟩

theorem Sees.rely (h : Sees K v σ db) (hr : ColumnsRely σ db db') : Sees K v σ db' :=
  ⟨h.keys, (lockedSlots_rely hr).trans h.view, h.framed.rely hr⟩

/-- A session without writes sees the committed slots. -/
theorem sees_of_writes_eq_nil (db : Db) (hw : σ.writes = []) :
    Sees σ.keys (lockedSlots σ db) σ db := by
  have hview : σ.view db = db := by
    unfold Session.view
    rw [hw]
    rfl
  refine ⟨rfl, rfl, ?_, ?_⟩
  · intro t s _
    rw [hview]
  · intro t r hr
    rw [hview]
    exact ⟨r, hr, rfl⟩

theorem lockedSlots_ordered (hw : σ.writes = []) (h : Ordered (slot db)) :
    Ordered (lockedSlots σ db) := by
  have hview : σ.view db = db := by
    unfold Session.view
    rw [hw]
    rfl
  have hsub : ∀ {t s}, lockedSlots σ db t = some s → slot db t = some s := by
    intro t s hs
    rw [← hview]
    exact (lockedSlots_eq_some.mp hs).1
  exact ⟨fun ha hb => h.distinct (hsub ha) (hsub hb), fun ha => h.nonneg (hsub ha)⟩

/-- Writing the row of a task: in a column whose key is held the task appears at its new slot;
elsewhere its slot must not change. -/
theorem Sees.write (h : Sees K v σ db) (t : Uuid) (r' : Task)
    (hframe : ∀ s, columnKey s.1 ∉ K → (r'.slot = s ↔ slot (σ.view db) t = some s))
    (hproj : ∀ r, (σ.view db).row (.task t) = some r → r'.projectId = r.projectId) :
    Sees K (Function.update v t (if columnKey r'.slot.1 ∈ K then some r'.slot else none))
      (σ.write (.task t) (some r')) db := by
  have hself : slot ((σ.view db).set (.task t) (some r')) t = some r'.slot := by
    apply slot_of_row
    rw [Store.set_row_self]
  have hother : ∀ {u}, u ≠ t →
      slot ((σ.view db).set (.task t) (some r')) u = slot (σ.view db) u := by
    intro u hu
    apply slot_congr
    exact Store.set_row_of_ne _ _ fun he => hu (RowId.task.inj he)
  refine ⟨h.keys, ?_, ?_, ?_⟩
  · -- the locked columns
    apply layout_ext
    intro u s
    rw [lockedSlots_eq_some, Session.write_view, Session.write_keys, h.keys]
    by_cases hu : u = t
    · subst hu
      rw [hself, Function.update_self]
      constructor
      · rintro ⟨hs, hk⟩
        obtain rfl := Option.some.inj hs
        exact if_pos hk
      · intro hs
        split_ifs at hs with hk
        obtain rfl := Option.some.inj hs
        exact ⟨rfl, hk⟩
    · rw [hother hu, Function.update_of_ne hu]
      exact h.slot_iff.symm
  · intro u s hs
    rw [Session.write_keys, h.keys] at hs
    rw [Session.write_view]
    by_cases hu : u = t
    · subst hu
      -- a column that is not locked: the slot is the one it was
      rw [hself, Option.some_inj, hframe s hs]
      exact h.framed.slots u s (by rwa [h.keys])
    · rw [hother hu]
      exact h.framed.slots u s (by rwa [h.keys])
  · intro u r hr
    rw [Session.write_view]
    obtain ⟨r₁, hr₁, hp₁⟩ := h.framed.tasks u r hr
    by_cases hu : u = t
    · subst hu
      exact ⟨r', Store.set_row_self _ _ _, (hproj r₁ hr₁).trans hp₁⟩
    · refine ⟨r₁, ?_, hp₁⟩
      rw [Store.set_row_of_ne _ _ fun he => hu (RowId.task.inj he)]
      exact hr₁

/-- Writing a row of another table. -/
theorem Sees.write_other (h : Sees K v σ db) {i : RowId} {w : Option (Row i)}
    (hi : ∀ t, i ≠ .task t) : Sees K v (σ.write i w) db := by
  have hrow : ∀ t, ((σ.view db).set i w).row (.task t) = (σ.view db).row (.task t) :=
    fun t => Store.set_row_of_ne _ _ (hi t).symm
  have hslot : ∀ t, slot ((σ.view db).set i w) t = slot (σ.view db) t :=
    fun t => slot_congr (hrow t)
  refine ⟨h.keys, ?_, ?_, ?_⟩
  · apply layout_ext
    intro t s
    rw [lockedSlots_eq_some, Session.write_view, Session.write_keys, h.keys, hslot]
    exact h.slot_iff.symm
  · intro t s hs
    rw [Session.write_view, hslot]
    exact h.framed.slots t s hs
  · intro t r hr
    rw [Session.write_view, hrow]
    exact h.framed.tasks t r hr

/-- Locking a row changes nothing that is seen. -/
theorem Sees.lockRow (h : Sees K v σ db) (i : RowId) : Sees K v (σ.lockRow i) db :=
  ⟨h.keys, h.view, h.framed.slots, h.framed.tasks⟩

/-! ### Commits -/

/-- What every writer ends with: it has left the columns it did not lock alone, and the ones it
locked are ordered. -/
def Settled (ordered : Prop) (σ : TaskSession) (db : Db) : Prop :=
  ∃ K v, Sees K v σ db ∧ (ordered → Ordered v)

theorem Settled.saw (h : Settled ordered σ db) (s : Db) : Settled ordered (σ.saw s) db := by
  obtain ⟨K, v, hs, hv⟩ := h
  exact ⟨K, v, hs.saw s, hv⟩

theorem settled_stable : (columnProtocol ordered ranked).Stable (Settled ordered) where
  rely := fun ⟨K, v, h, hv⟩ hr _ => ⟨K, v, h.rely hr, hv⟩
  saw s h := h.saw s

/-- With the locked columns ordered, all columns are. -/
theorem Settled.ordered_view (h : Settled ordered σ db) (hi : ordered → Ordered (slot db))
    (ho : ordered) : Ordered (slot (σ.view db)) := by
  obtain ⟨K, v, hs, hv⟩ := h
  have hcase : ∀ {t s}, slot (σ.view db) t = some s →
      (columnKey s.1 ∈ K ∧ v t = some s) ∨ (columnKey s.1 ∉ K ∧ slot db t = some s) := by
    intro t s hts
    by_cases hk : columnKey s.1 ∈ K
    · exact Or.inl ⟨hk, hs.slot_iff.mpr ⟨hts, hk⟩⟩
    · exact Or.inr ⟨hk, (hs.framed.slots t s (by rwa [hs.keys])).mp hts⟩
  constructor
  · intro a b s ha hb
    rcases hcase ha with ⟨hk, ha'⟩ | ⟨hk, ha'⟩ <;> rcases hcase hb with ⟨hk', hb'⟩ | ⟨hk', hb'⟩
    · exact (hv ho).distinct ha' hb'
    · exact absurd hk hk'
    · exact absurd hk' hk
    · exact (hi ho).distinct ha' hb'
  · intro a s ha
    rcases hcase ha with ⟨-, ha'⟩ | ⟨-, ha'⟩
    · exact (hv ho).nonneg ha'
    · exact (hi ho).nonneg ha'

/-- A settled transaction keeps the protocol when it commits. -/
theorem Settled.commits (h : Settled ordered σ db) (hi : (columnProtocol ordered ranked).inv db) :
    Commits schema (columnProtocol ordered ranked) σ db where
  deferred e he ho := by
    have hd : schema.deferred (σ.view db) = none :=
      deferred_of_distinct fun t t' s => (h.ordered_view hi ho).distinct
    rw [hd] at he
    cases he
  inv _ := h.ordered_view hi
  rely _ σ' hap := by
    obtain ⟨K, v, hs, -⟩ := h
    refine ⟨fun i hi' => ?_, fun t s hk => ?_, hs.framed.tasks⟩
    · exact σ.view_row_of_notMem db fun hi'' => hap.rows i hi'' hi'
    · exact hs.framed.slots t s fun hk' => hap.keys _ hk' hk

end TaskDb
