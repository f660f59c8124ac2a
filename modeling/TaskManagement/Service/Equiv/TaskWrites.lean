import TaskManagement.Db.Equiv.Renumber
import TaskManagement.ReadCommitted.Alone
import TaskManagement.Service.Equiv.StatusChange

/-!
# Positions stay in the range of `INTEGER`

The requests of `TaskWrites` are made one after another from a database without tasks.
`no_position_overflow`: as long as every request finds room (`WriteCall.HasRoom`), none fails
because of a position, and a request that finds no room does not succeed.  A position that a client
may choose freely takes the room away (`position_overflow`); when every update stays within its
column, the columns are contiguous and there is room for all tasks that an `INTEGER` can count
(`hasRoom_of_withinColumn`).
-/

namespace TaskDb

open ReadCommitted Columns

variable {db : Db} {projectId : Option Uuid} {payload : TaskCreateRequest} {user : CurrentUser}
  {day : AppDay}

/-! ### `create_task` alone -/

theorem foldr_max_le {l : List ℤ} {b m : ℤ} (hb : b ≤ m) (h : ∀ x ∈ l, x ≤ m) :
    l.foldr max b ≤ m := by
  induction l with
  | nil => exact hb
  | cons x l ih =>
    exact max_le (h x List.mem_cons_self) (ih fun y hy => h y (List.mem_cons_of_mem x hy))

/-- The next position is the least one behind the tasks of the column. -/
theorem nextTaskPosition_le {p : Option Uuid} {s : Status} {m : ℤ} (hm : 0 ≤ m)
    (h : ∀ t x, slot db t = some ((p, s), x) → x < m) : nextTaskPosition db p s ≤ m := by
  suffices hfold : (((tasks db).filter fun r => decide (r.2.projectId = p ∧ r.2.status = s)).map
      (·.2.position)).foldr max (-1) ≤ m - 1 by
    unfold nextTaskPosition
    omega
  refine foldr_max_le (by omega) fun x hx => ?_
  obtain ⟨⟨t, r⟩, hmem, rfl⟩ := List.mem_map.mp hx
  obtain ⟨htask, hcol⟩ := List.mem_filter.mp hmem
  obtain ⟨rfl, rfl⟩ := of_decide_eq_true hcol
  have hlt := h t r.position (slot_of_row (mem_tasks.mp htask))
  show r.position ≤ m - 1
  omega

/-- What `create_task` leaves: a new task at the end of its column, the other tasks as they were. -/
structure TaskAppended (payload : TaskCreateRequest) (projectId : Option Uuid) (taskId : Uuid)
    (db db' : Db) : Prop where
  new : slot db taskId = none
  self : slot db' taskId =
    some ((projectId, payload.status), nextTaskPosition db projectId payload.status)
  other : ∀ t, t ≠ taskId → slot db' t = slot db t

/-- The checks that a new task may fail. -/
theorem check_task {p : CreateTask} {n : ℤ} (hn : 0 ≤ n) {e : Error}
    (he : (p.task n).check = some e) :
    e = .valueTooLong ∨ (e = .integerOutOfRange ∧ maxInteger < n) := by
  rcases Task.check_eq_some hn one_pos he with ⟨rfl, -⟩ | ⟨rfl, hlarge⟩
  · exact Or.inl rfl
  · have hone : ¬maxInteger < 1 := by decide
    exact Or.inr ⟨rfl, hlarge.resolve_right hone⟩

theorem solo_notifyCreated {p : CreateTask} {taskId : Uuid} {allowed : Error → Prop} :
    Solo schema allowed (p.notifyCreated taskId) db
      (fun _ db' => ∀ t, db'.row (.task t) = db.row (.task t)) := by
  unfold CreateTask.notifyCreated
  split
  · split_ifs
    · refine Solo.insertOrIgnore ?_ (fun _ _ => rfl) fun _ t => ?_
      · rintro _ ⟨⟩
      · exact Store.set_row_of_ne _ _ RowId.noConfusion
    · exact Solo.ret fun _ => rfl
  · exact Solo.ret fun _ => rfl

/-- `create_task`: a task at the end of its column, unless that is out of range. -/
theorem solo_createTask_created :
    Solo schema
      (fun e => e = .assigneeNotActive ∨ e = .valueTooLong ∨ (e = .integerOutOfRange ∧
        maxInteger < nextTaskPosition db projectId payload.status))
      (createTask projectId payload user day) db
      (fun _ db' => ∃ taskId, TaskAppended payload projectId taskId db db') := by
  set n := nextTaskPosition db projectId payload.status with hn
  have hn0 : 0 ≤ n := nextTaskPosition_nonneg _ _ _
  refine Solo.bind (Solo.bind (UpdateTask.solo_requireActiveAssignee (fun _ => Or.inl rfl)
    fun _ => ?_))
  refine Solo.bind (Solo.advisoryLock (Solo.bind (Solo.select ?_)))
  refine Solo.bind (Solo.generate fun taskId hnew => ?_)
  refine Solo.bind (Solo.insertOrRaise (fun hsome => absurd hnew hsome) (fun e he => ?_)
    fun _ => ?_)
  · exact Or.inr (check_task hn0 he)
  set task : Task := (payload.call projectId user day).task n with htask
  refine Solo.bind (solo_notifyCreated.mono fun _ db' hkept => ?_)
  have hself : db'.row (.task taskId) = some task := (hkept taskId).trans (Store.set_row_self ..)
  refine Solo.ret (Solo.bind (Solo.select (Solo.raiseIf (fun hnone => ?_) fun _ => ?_)))
  · rw [hself] at hnone
    cases hnone
  · refine ⟨taskId, ?_, slot_of_row hself, fun t ht => slot_congr ?_⟩
    · exact congrArg (Option.map Task.slot) hnew
    · rw [hkept, Store.set_row_of_ne _ _ fun h => ht (RowId.task.inj h)]

/-! ### One call -/

/-- The deferred constraint reports no other error. -/
theorem eq_duplicatePosition_of_deferred {e : Error} (h : schema.deferred db = some e) :
    e = .duplicatePosition := by
  simp only [schema] at h
  split_ifs at h
  exact (Option.some.inj h).symm

/-- What is left of a specification at the end of a run. -/
theorem endsAlone_outcome {α : Type} {p : TaskProc α} {allowed : Error → Prop}
    {Q : α → Db → Prop} (hp : Solo schema allowed p db Q) {r : Except Error α} {db' : Db}
    (h : EndsAlone schema p db r db') :
    (∃ a, r = .ok a ∧ Q a db') ∨
      ∃ e, r = .error e ∧ db' = db ∧ (allowed e ∨ e = .duplicatePosition) := by
  cases r with
  | ok a => exact Or.inl ⟨a, rfl, (h.ok hp).1⟩
  | error e =>
    obtain ⟨hsame, herror⟩ := h.error hp
    refine Or.inr ⟨e, rfl, hsame, herror.imp_right ?_⟩
    rintro ⟨a, s', -, hd⟩
    exact eq_duplicatePosition_of_deferred hd

section Call

variable {taskId : Uuid} {old : Task} {update : TaskUpdateRequest} {k : WriteCall} {db' : Db}
  {r : Except Error Unit}

/-- A creation that has ended: the task is there, or nothing has changed. -/
theorem createTask_ends
    (h : EndsAlone schema (createTask projectId payload user day) db r db') :
    (r = .ok () ∧ ∃ taskId, TaskAppended payload projectId taskId db db') ∨
      ∃ e, r = .error e ∧ db' = db ∧ (e = .integerOutOfRange →
        maxInteger < nextTaskPosition db projectId payload.status) := by
  rcases endsAlone_outcome solo_createTask_created h with
    ⟨a, rfl, hcreated⟩ | ⟨e, rfl, hsame, herror⟩
  · exact Or.inl ⟨rfl, hcreated⟩
  · refine Or.inr ⟨e, rfl, hsame, fun he => ?_⟩
    subst he
    rcases herror with (he | he | ⟨-, hlarge⟩) | he
    · cases he
    · cases he
    · exact hlarge
    · cases he

/-- An update that has ended: the task has been moved, or nothing has changed. -/
theorem updateTask_ends (hdb : Checked schema db)
    (h : EndsAlone schema (updateTask taskId update user day) db r db') :
    (r = .ok () ∧ ∃ old, db.row (.task taskId) = some old ∧
      (update.call taskId old day).Passes old (update.target old) db ∧
        (update.call taskId old day).Moved old (update.target old) db db') ∨
      ∃ e, r = .error e ∧ db' = db ∧ (e = .integerOutOfRange →
        ∃ old, db.row (.task taskId) = some old ∧
          ¬(update.target old ≤ maxInteger ∧ old.version < maxInteger ∧
            (update.call taskId old day).RoomBelow old (update.target old) db)) := by
  cases hrow : db.row (.task taskId) with
  | none =>
    -- no task: `NotFoundError`
    have hthrow : Solo schema (fun e => e = .notFound) (updateTask taskId update user day) db
        fun _ _ => False := by
      refine Solo.bind (Solo.select ?_)
      rw [hrow]
      exact Solo.throw rfl
    rcases endsAlone_outcome hthrow h with ⟨a, -, hfalse⟩ | ⟨e, rfl, hsame, herror⟩
    · exact hfalse.elim
    · refine Or.inr ⟨e, rfl, hsame, fun he => ?_⟩
      subst he
      rcases herror with he | he <;> cases he
  | some old =>
    rcases endsAlone_outcome (solo_updateTask_moved hdb hrow) h with
      ⟨a, rfl, -, hpass, hmoved⟩ | ⟨e, rfl, hsame, herror⟩
    · exact Or.inl ⟨rfl, old, rfl, hpass, hmoved⟩
    · refine Or.inr ⟨e, rfl, hsame, fun he => ⟨old, rfl, ?_⟩⟩
      subst he
      rcases herror with (hunauthorized | hrefused) | he
      · rcases hunauthorized with he | he <;> cases he
      · cases hrefused with
        | range hout => exact hout
      · cases he

theorem roomBelow_iff_canShift :
    (update.call taskId old day).RoomBelow old (update.target old) db ↔
      (update.targetColumn old ≠ old.slot.1 →
        WriteCall.CanShift db (update.targetColumn old) (update.target old)) := by
  have hstatus : (update.call taskId old day).status ≠ old.status ↔
      update.targetColumn old ≠ old.slot.1 :=
    not_congr ⟨fun h => Prod.ext rfl h, fun h => (Prod.mk.inj h).2⟩
  rw [← hstatus]
  constructor
  · intro h hs t x ht hx
    obtain ⟨r, hr, hslot⟩ := slot_eq_some.mp ht
    obtain rfl : r.position = x := congrArg Prod.snd hslot
    exact h hs t r hr (congrArg Prod.fst hslot) hx
  · intro h hs t r hr hcol hx
    refine h hs t r.position ?_ hx
    rw [slot_of_row hr, ← show r.slot.1 = update.targetColumn old from hcol]
    rfl

/-- An out-of-range failure of a call that has room is one of the version. -/
theorem WriteCall.versionExhausted_of_outOfRange (hdb : Checked schema db) (hroom : k.HasRoom db)
    (h : EndsAlone schema k.proc db (.error .integerOutOfRange) db') : k.VersionExhausted db := by
  -- a task that is created is appended, which needs a place behind the others
  have hcreate : ∀ {projectId payload},
      EndsAlone schema (createTask projectId payload k.user k.day) db (.error .integerOutOfRange)
        db' → ¬CanShift db (projectId, payload.status) 0 := by
    intro projectId payload h hshift
    rcases createTask_ends h with ⟨he, -⟩ | ⟨e, he, -, hlarge⟩
    · cases he
    · have hle : nextTaskPosition db projectId payload.status ≤ maxInteger :=
        nextTaskPosition_le (by decide) fun t x ht => by
          obtain ⟨r, hr, hslot⟩ := slot_eq_some.mp ht
          refine hshift t x ht ?_
          rw [← show r.position = x from congrArg Prod.snd hslot]
          exact (Task.check_eq_none_iff.mp (hdb _ _ hr)).1.1
      exact absurd (hlarge (Except.error.inj he).symm) (not_lt.mpr hle)
  unfold proc at h
  unfold HasRoom at hroom
  unfold VersionExhausted
  cases hk : k.write with
  | createTask projectId payload =>
    rw [hk] at h hroom
    exact absurd hroom (hcreate h)
  | createTaskFlat payload =>
    rw [hk] at h hroom
    exact absurd hroom (hcreate h)
  | updateTask taskId update =>
    rw [hk] at h hroom
    rcases updateTask_ends hdb h with ⟨he, -⟩ | ⟨e, he, -, hcause⟩
    · cases he
    · -- the target and the neighbours have room, so it is the version
      obtain ⟨old, hrow, hout⟩ := hcause (Except.error.inj he).symm
      obtain ⟨htarget, hshift⟩ := hroom old hrow
      refine ⟨old, hrow, not_lt.mp fun hver => hout ⟨htarget, hver, ?_⟩⟩
      exact roomBelow_iff_canShift.mpr hshift

/-- A call that has succeeded had room. -/
theorem WriteCall.hasRoom_of_ok (hdb : Valid schema db)
    (h : EndsAlone schema k.proc db (.ok ()) db') : k.HasRoom db := by
  have hcreate : ∀ {projectId payload},
      EndsAlone schema (createTask projectId payload k.user k.day) db (.ok ()) db' →
        CanShift db (projectId, payload.status) 0 := by
    intro projectId payload h t x ht _
    rcases createTask_ends h with ⟨-, taskId, hcreated⟩ | ⟨e, he, -⟩
    · -- the new task is behind the others and passes its check
      obtain ⟨c, hrun, -, rfl⟩ := h
      obtain ⟨r, hr, hslot⟩ := slot_eq_some.mp hcreated.self
      have hpos := (Task.check_eq_none_iff.mp ((valid_of_reachable hdb hrun).checked _ _ hr)).1.2
      rw [show r.position = _ from congrArg Prod.snd hslot] at hpos
      exact (lt_nextTaskPosition ht).trans_le hpos
    · cases he
  unfold proc at h
  unfold HasRoom
  cases hk : k.write with
  | createTask projectId payload =>
    rw [hk] at h
    exact hcreate h
  | createTaskFlat payload =>
    rw [hk] at h
    exact hcreate h
  | updateTask taskId update =>
    rw [hk] at h
    rcases updateTask_ends hdb.checked h with ⟨-, old, hrow, hpass, -⟩ | ⟨e, he, -⟩
    · intro old' hrow'
      obtain rfl := Option.some.inj (hrow.symm.trans hrow')
      exact ⟨hpass.position, roomBelow_iff_canShift.mp hpass.room⟩
    · cases he

/-! ### Calls within the columns -/

theorem inColumn_of_withinColumn (hdb : Checked schema db) (hrow : db.row (.task taskId) = some old)
    (h : if update.targetColumn old = old.slot.1 then
        update.target old < columnSize db old.slot.1
      else update.target old ≤ columnSize db (update.targetColumn old)) :
    (update.call taskId old day).InColumn old (update.target old) db := by
  refine ⟨update.target_nonneg (hdb _ _ hrow), ?_⟩
  by_cases hs : (update.call taskId old day).status = old.status
  · have hcol : update.targetColumn old = old.slot.1 := Prod.ext rfl hs
    rw [if_pos hcol] at h
    rw [if_pos hs]
    exact h
  · have hcol : update.targetColumn old ≠ old.slot.1 := fun heq => hs (Prod.mk.inj heq).2
    rw [if_neg hcol] at h
    rw [if_neg hs]
    exact h

/-- A new task keeps the columns contiguous. -/
theorem TaskAppended.contiguous (h : TaskAppended payload projectId taskId db db')
    (hcols : Contiguous (slot db)) : Contiguous (slot db') := by
  set c₀ : Column := (projectId, payload.status) with hc₀
  have hord := hcols.ordered
  have hsize := fills_columnSize hcols c₀
  -- the next position is the size of the column
  have hnext : nextTaskPosition db projectId payload.status = (columnSize db c₀ : ℤ) := by
    refine le_antisymm (nextTaskPosition_le (Int.natCast_nonneg _) fun t x ht => ?_) ?_
    · exact (hsize.mem ht).2
    · by_contra hlt
      have hnonneg := nextTaskPosition_nonneg db projectId payload.status
      obtain ⟨t, ht⟩ := (hsize.taken _).mpr ⟨hnonneg, not_le.mp hlt⟩
      exact lt_irrefl _ (lt_nextTaskPosition ht)
  have hnone : ∀ c x, slot db taskId ≠ some (c, x) := fun c x hx => by
    rw [h.new] at hx
    cases hx
  have hfrees : Frees (others (slot db) taskId) id (c₀, (columnSize db c₀ : ℤ)) := by
    refine frees_append ?_
    rintro x ⟨b, -, hb⟩
    exact (hsize.mem hb).2
  have hplace : slot db' = place (slot db) id taskId (c₀, (columnSize db c₀ : ℤ)) := by
    funext t
    unfold place
    by_cases ht : t = taskId
    · rw [ht, Function.update_self, h.self, hnext]
    · rw [Function.update_of_ne ht, h.other t ht, Option.map_id, id]
  rw [hplace]
  intro c
  have hc := fills_columnSize hcols c
  by_cases hcc : c = c₀
  · subst hcc
    refine ⟨_, hc.place_enter hord hfrees ⟨Int.natCast_nonneg _, le_refl _⟩ (fun _ => rfl)
      (hnone _) fun y hy => ?_⟩
    rw [if_neg (not_le.mpr hy)]
    rfl
  · exact ⟨_, hc.place_elsewhere hord hfrees (Int.natCast_nonneg _) (fun _ => rfl) (hnone _)
      (Ne.symm hcc) fun _ => rfl⟩

/-- A call within its column keeps the columns contiguous. -/
theorem WriteCall.contiguous (hdb : Checked schema db) (hcols : Contiguous (slot db))
    (hk : k.WithinColumn db) (h : EndsAlone schema k.proc db r db') : Contiguous (slot db') := by
  have hcreate : ∀ {projectId payload},
      EndsAlone schema (createTask projectId payload k.user k.day) db r db' →
        Contiguous (slot db') := by
    intro projectId payload h
    rcases createTask_ends h with ⟨-, taskId, hcreated⟩ | ⟨e, -, rfl, -⟩
    · exact hcreated.contiguous hcols
    · exact hcols
  unfold proc at h
  unfold WithinColumn at hk
  cases hw : k.write with
  | createTask projectId payload =>
    rw [hw] at h
    exact hcreate h
  | createTaskFlat payload =>
    rw [hw] at h
    exact hcreate h
  | updateTask taskId update =>
    rw [hw] at h hk
    rcases updateTask_ends hdb h with ⟨-, old, hrow, -, hmoved⟩ | ⟨e, -, rfl, -⟩
    · exact hmoved.contiguous hcols hrow (inColumn_of_withinColumn hdb hrow (hk old hrow))
    · exact hcols

theorem columnSize_le_tasks (c : Column) : columnSize db c ≤ (tasks db).length := by
  unfold columnSize positions
  rw [List.length_map]
  exact List.length_filter_le _ _

/-- A call within contiguous columns has room as long as an `INTEGER` counts the tasks. -/
theorem WriteCall.hasRoom_of_contiguous (hcols : Contiguous (slot db)) (hk : k.WithinColumn db)
    (hlength : ((tasks db).length : ℤ) < maxInteger) : k.HasRoom db := by
  have hsize : ∀ c, (columnSize db c : ℤ) < maxInteger := fun c =>
    (Int.ofNat_le.mpr (columnSize_le_tasks c)).trans_lt hlength
  have hshift : ∀ c q, CanShift db c q := fun c q t x ht _ =>
    ((fills_columnSize hcols c).mem ht).2.trans (hsize c)
  unfold HasRoom
  unfold WithinColumn at hk
  cases hw : k.write with
  | createTask projectId payload => exact hshift _ _
  | createTaskFlat payload => exact hshift _ _
  | updateTask taskId update =>
    rw [hw] at hk
    intro old hrow
    refine ⟨?_, fun _ => hshift _ _⟩
    have hin := hk old hrow
    split_ifs at hin
    · exact (hin.trans (hsize _)).le
    · exact hin.trans (hsize _).le

end Call

/-! ### Runs -/

section Runs

variable {db₀ : Db} {l : List (Entry WriteCall Row Error Unit)}

/-- From a database without tasks, in a run whose calls all have room, a call that fails because an
integer is out of range is an update of a task whose version cannot be counted up; and no call that
has no room succeeds. -/
theorem no_position_overflow (h₀ : ∀ t, db₀.row (.task t) = none)
    (h : Serial schema WriteCall.proc db₀ l db) :
    ((∀ e ∈ l, e.call.HasRoom e.before) →
      ∀ e ∈ l, e.result = .error .integerOutOfRange → e.call.VersionExhausted e.before) ∧
    ∀ e ∈ l, e.result = .ok () → e.call.HasRoom e.before := by
  have hvalid := (h.valid (valid_of_noTask h₀)).2
  constructor
  · intro hroom e he hresult
    obtain ⟨s', hend⟩ := h.entry he
    rw [hresult] at hend
    exact WriteCall.versionExhausted_of_outOfRange (hvalid e he).checked (hroom e he) hend
  · intro e he hresult
    obtain ⟨s', hend⟩ := h.entry he
    rw [hresult] at hend
    exact WriteCall.hasRoom_of_ok (hvalid e he) hend

theorem contiguous_of_noTask (h₀ : ∀ t, db₀.row (.task t) = none) : Contiguous (slot db₀) := by
  refine contiguous_of_tasks fun x hx => ?_
  have hrow := mem_tasks.mp hx
  rw [h₀] at hrow
  cases hrow

/-- When every update stays within its column, the columns are contiguous throughout, and every call
has room as long as an `INTEGER` counts the tasks. -/
theorem hasRoom_of_withinColumn (h₀ : ∀ t, db₀.row (.task t) = none)
    (h : Serial schema WriteCall.proc db₀ l db) (hl : ∀ e ∈ l, e.call.WithinColumn e.before) :
    Contiguous (slot db) ∧ ∀ e ∈ l, Contiguous (slot e.before) ∧
      (((tasks e.before).length : ℤ) < maxInteger → e.call.HasRoom e.before) := by
  have hinv := h.invariant (fun s => Valid schema s ∧ Contiguous (slot s))
    (fun s k => k.WithinColumn s) ⟨valid_of_noTask h₀, contiguous_of_noTask h₀⟩ ?_ hl
  · refine ⟨hinv.1.2, fun e he => ⟨(hinv.2 e he).2, fun hlength => ?_⟩⟩
    exact WriteCall.hasRoom_of_contiguous (hinv.2 e he).2 (hl e he) hlength
  · rintro s k r s' ⟨hvalid, hcols⟩ hk hend
    refine ⟨?_, WriteCall.contiguous hvalid.checked hcols hk hend⟩
    obtain ⟨c, hrun, -, rfl⟩ := hend
    exact valid_of_reachable hvalid hrun

end Runs

/-! ### A position that a client has chosen -/

/-- A call of an admin. -/
def adminCall (write : TaskWrite) : WriteCall where
  write := write
  user := { id := 7, role := .admin }
  day := { startUtc := 0, endUtc := 1 }

/-- A task without a project is created. -/
def createPlain : WriteCall := adminCall (.createTask none { title := "task" })

/-- Task 1 is moved to the last position that an `INTEGER` holds. -/
def moveToEnd : WriteCall := adminCall (.updateTask 1 { version := 1, position := some 2147483647 })

/-- The call, run alone in the given steps. -/
def callRun (k : WriteCall) (db : Db) (steps : List (Choice RowId Uuid))
    (h : ((Config.init db fun _ : Unit => k.proc).exec schema (fun _ _ _ => True)
      (steps.map ((), ·))).isSome) : Config Unit Row LockKey Uuid Error Unit :=
  (Config.init db fun _ : Unit => k.proc).execTo schema (fun _ _ _ => True) (steps.map ((), ·)) h

theorem endsAlone_callRun {k : WriteCall} {steps : List (Choice RowId Uuid)}
    {h : ((Config.init db fun _ : Unit => k.proc).exec schema (fun _ _ _ => True)
      (steps.map ((), ·))).isSome} {r : Except Error Unit}
    (hr : (callRun k db steps h).tx () = .done r) :
    EndsAlone schema k.proc db r (callRun k db steps h).db := ⟨_, run_execTo h, hr, rfl⟩

/-- Task 1 is created. -/
def firstCreated : Config Unit Row LockKey Uuid Error Unit :=
  callRun createPlain Store.empty [.go, .go, .gen 1, .go, .go, .go] (by decide)

theorem serial_firstCreated :
    Serial schema WriteCall.proc Store.empty [⟨Store.empty, createPlain, .ok ()⟩] firstCreated.db :=
  .snoc .nil (endsAlone_callRun rfl)

/-- Task 1 is moved to the last position but one. -/
def moveNearEnd : WriteCall :=
  adminCall (.updateTask 1 { version := 1, position := some 2147483646 })

def nearEnd : Config Unit Row LockKey Uuid Error Unit :=
  callRun moveNearEnd firstCreated.db
    [.go, .go, .go, .go, .go, .go, .go, .pick (.task 1), .go, .go, .go] (by decide)

/-- A second task is appended at the end of the range. -/
def lastCreated : Config Unit Row LockKey Uuid Error Unit :=
  callRun createPlain nearEnd.db [.go, .go, .gen 2, .go, .go, .go] (by decide)

theorem canShift_of_tasks {c : Column} {q : ℤ}
    (h : ∀ x ∈ tasks db, x.2.slot.1 = c → x.2.position < maxInteger) :
    WriteCall.CanShift db c q := by
  intro t x ht _
  obtain ⟨r, hr, hslot⟩ := slot_eq_some.mp ht
  obtain rfl : r.position = x := congrArg Prod.snd hslot
  exact h (t, r) (mem_tasks.mpr hr) (congrArg Prod.fst hslot)

/-- A creation behind the last position but one has room: however it ends, not out of range. -/
theorem no_position_overflow_nearEnd :
    (∀ r db', EndsAlone schema createPlain.proc nearEnd.db r db' →
      r ≠ .error .integerOutOfRange) ∧
    EndsAlone schema createPlain.proc nearEnd.db (.ok ()) lastCreated.db ∧
      slot lastCreated.db 2 = some ((none, .todo), maxInteger) := by
  refine ⟨fun r db' hend hrange => ?_, endsAlone_callRun rfl, rfl⟩
  have hserial : Serial schema WriteCall.proc Store.empty
      [⟨Store.empty, createPlain, .ok ()⟩, ⟨firstCreated.db, moveNearEnd, .ok ()⟩,
        ⟨nearEnd.db, createPlain, r⟩] db' :=
    .snoc (.snoc serial_firstCreated (endsAlone_callRun rfl)) hend
  refine (no_position_overflow (fun _ => rfl) hserial).1 (fun e he => ?_)
    ⟨nearEnd.db, createPlain, r⟩ (by simp) hrange
  have hlast : createPlain.HasRoom nearEnd.db := canShift_of_tasks (by decide)
  simp only [List.mem_cons, List.not_mem_nil, or_false] at he
  rcases he with rfl | rfl | rfl
  · exact canShift_of_tasks (by decide)
  · intro old hrow
    obtain rfl := Option.some.inj hrow
    exact ⟨by decide, fun hne => absurd rfl hne⟩
  · exact hlast

/-- Task 1 is at the end of the range. -/
def firstMoved : Config Unit Row LockKey Uuid Error Unit :=
  callRun moveToEnd firstCreated.db
    [.go, .go, .go, .go, .go, .go, .go, .pick (.task 1), .go, .go, .go] (by decide)

/-- A second task finds no room. -/
def secondRefused : Config Unit Row LockKey Uuid Error Unit :=
  callRun createPlain firstMoved.db [.go, .go, .gen 2, .go] (by decide)

/-- The three calls. -/
def overflowEntries : List (Entry WriteCall Row Error Unit) :=
  [⟨Store.empty, createPlain, .ok ()⟩, ⟨firstCreated.db, moveToEnd, .ok ()⟩,
    ⟨firstMoved.db, createPlain, .error .integerOutOfRange⟩]

theorem serial_overflowEntries :
    Serial schema WriteCall.proc Store.empty overflowEntries secondRefused.db :=
  .snoc (.snoc serial_firstCreated (endsAlone_callRun rfl)) (endsAlone_callRun rfl)

/-- After one update within the bounds of its schema, a creation is out of range. -/
theorem position_overflow :
    ¬∀ (db₀ db : Db) (l : List (Entry WriteCall Row Error Unit)),
      (∀ t, db₀.row (.task t) = none) → Serial schema WriteCall.proc db₀ l db →
      ∀ e ∈ l, ((tasks e.before).length : ℤ) < maxInteger →
        e.result = .error .integerOutOfRange → e.call.VersionExhausted e.before := by
  intro h
  refine h _ _ _ (fun _ => rfl) serial_overflowEntries
    ⟨firstMoved.db, createPlain, .error .integerOutOfRange⟩ ?_ (by decide) rfl
  simp [overflowEntries]

end TaskDb
