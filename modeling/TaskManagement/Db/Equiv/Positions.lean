import TaskManagement.Db.Equiv.Writers

/-!
# Column positions under concurrency

Along every run of task writers in which `sp_update_task` finds, under its row lock, what it read
before (`FreshLocks`), the committed columns stay ordered and no transaction fails on the deferred
unique constraint or on `position >= 0` (`positions_stay_ordered`).  Without the condition the
columns do not stay ordered: an update of a task whose neighbours have moved in the meantime
renumbers its column without the advisory lock (`positions_not_ordered`).
-/

namespace TaskDb

open ReadCommitted Columns

/-- Whether the columns of a database are ordered can be decided from its tasks. -/
instance (db : Db) : Decidable (Ordered (slot db)) :=
  decidable_of_iff (∀ x ∈ tasks db, 0 ≤ x.2.position ∧
      ∀ y ∈ tasks db, x.2.slot = y.2.slot → x.1 = y.1) <| by
    constructor
    · intro h
      constructor
      · intro a b s ha hb
        obtain ⟨r, hr, rfl⟩ := slot_eq_some.mp ha
        obtain ⟨r', hr', hs⟩ := slot_eq_some.mp hb
        exact (h (a, r) (mem_tasks.mpr hr)).2 (b, r') (mem_tasks.mpr hr') hs.symm
      · intro a s ha
        obtain ⟨r, hr, rfl⟩ := slot_eq_some.mp ha
        exact (h (a, r) (mem_tasks.mpr hr)).1
    · rintro h ⟨a, r⟩ ha
      have hra := slot_of_row (mem_tasks.mp ha)
      refine ⟨h.nonneg hra, ?_⟩
      rintro ⟨b, r'⟩ hb hs
      have hrb := slot_of_row (mem_tasks.mp hb)
      exact h.distinct hra (by rw [hrb]; exact congrArg some hs.symm)

variable {τ : Type}

/-- The writers `call`, all at their beginning. -/
def Writer.init (db : Db) (call : τ → Writer) :
    Config τ Row LockKey Uuid Error (Option Uuid) :=
  .init db fun t => (call t).proc

/-- A step that asks for the row lock of `sp_update_task` finds the row as it was read. -/
def FreshLocks (call : τ → Writer) (c : Config τ Row LockKey Uuid Error (Option Uuid)) (t : τ) :
    Prop :=
  match call t, c.tx t with
  | .updateTask p, .active (.lock _ _) σ => p.Fresh σ c.db
  | _, _ => True

instance (call : τ → Writer) (c : Config τ Row LockKey Uuid Error (Option Uuid)) (t : τ) :
    Decidable (FreshLocks call c t) := by
  unfold FreshLocks
  split <;> infer_instance

/-- Fresh locks are all that the protocol assumes when removals are not restricted. -/
theorem FreshLocks.admits {call : τ → Writer}
    {c : Config τ Row LockKey Uuid Error (Option Uuid)} {t : τ} {ch : Choice RowId Uuid}
    (h : FreshLocks call c t) : (columnProtocol True False).Admits call c t ch := by
  intro p σ o ht ho
  unfold FreshLocks at h
  cases hcall : call t with
  | updateTask q =>
    cases o with
    | lock i =>
      obtain ⟨k, rfl⟩ := Proc.eq_lock_of_op ho
      rw [hcall, ht] at h
      exact h
    | _ => trivial
  | removeMember p' u =>
    cases o with
    | query => exact fun hf => hf.elim
    | _ => trivial
  | createTask q => trivial
  | deactivateTask t' b => trivial

variable [DecidableEq τ] [Fintype τ]

/-- Along every run whose row locks are fresh, the tasks of each column have distinct non-negative
positions after every commit, and no transaction fails on one of the position constraints. -/
theorem positions_stay_ordered {db₀ : Db} (h₀ : Ordered (slot db₀)) (call : τ → Writer)
    (hq : ∀ t, (call t).PositionsNonneg) {c : Config τ Row LockKey Uuid Error (Option Uuid)}
    (hrun : Run schema (fun c t _ => FreshLocks call c t) (Writer.init db₀ call) c) :
    Ordered (slot c.db) ∧ ∀ t, c.tx t ≠ .done (.error .duplicatePosition) ∧
      c.tx t ≠ .done (.error .negativePosition) := by
  have hinit : Sound schema (columnProtocol True False) call (fun _ _ => Settled True)
      (Writer.init db₀ call) :=
    sound_init (fun _ => h₀) fun t => (call t).wp_proc (fun _ => hq t) fun _ => h₀
  have hsound := hinit.run (fun _ _ _ _ hi hs _ => hs.commits hi)
    (hrun.mono fun _ _ _ hf => hf.admits)
  refine ⟨hsound.inv trivial, fun t => ⟨fun ht => ?_, fun ht => ?_⟩⟩
  · exact (hsound.error t _ ht trivial).2 rfl
  · exact (hsound.error t _ ht trivial).1 rfl

/-! ### A stale read -/

/-- A task without a project. -/
def looseTask (status : Status) (position : ℤ) : Task where
  projectId := none
  title := "task"
  description := none
  status := status
  assigneeId := none
  createdBy := 7
  position := position
  version := 1
  dueAt := none
  isActive := true

/-- Two tasks at the positions 0 and 1 of one column. -/
def twoTasks : Db :=
  ((Store.empty : Db).set (.task 1) (some (looseTask .todo 0))).set (.task 2)
    (some (looseTask .todo 1))

/-- The `CALL` that moves the task `t`. -/
def moveTo (t : Uuid) (version : ℤ) (status : Status) (position : Option ℤ) : UpdateTask where
  taskId := t
  version := version
  title := "task"
  body := none
  status := status
  assigneeId := none
  dueAt := none
  position := position
  isActive := none
  dayStartUtc := 0
  dayEndUtc := 1

/-- Five tasks at the positions 0 to 4 of one column. -/
def fiveTasks : Db :=
  [2, 3, 4].foldl (fun db n => db.set (.task (n + 1)) (some (looseTask .todo n))) twoTasks

/-- Task 4 is updated at the position 3 that it has, task 1 leaves the column, and task 2 moves to
position 2. -/
def staleCalls : Fin 3 → Writer
  | 0 => .updateTask (moveTo 4 1 .todo (some 3))
  | 1 => .updateTask (moveTo 1 1 .inProgress none)
  | 2 => .updateTask (moveTo 2 1 .todo (some 2))

/-- The first update reads task 4; the second one runs to its commit, which moves task 4 to
position 2; the third one has shifted task 3 when the first one goes on, without the advisory lock,
and exchanges the tasks 4 and 5. -/
def staleSteps : List (Fin 3 × Choice RowId Uuid) :=
  [(0, .go), (1, .go), (1, .go), (1, .go), (1, .go), (1, .go), (1, .pick (.task 2)),
    (1, .pick (.task 3)), (1, .pick (.task 4)), (1, .pick (.task 5)), (1, .go), (1, .go), (1, .go),
    (1, .pick (.task 1)), (1, .go), (1, .go), (2, .go), (2, .go), (2, .go), (2, .go),
    (2, .pick (.task 3)), (0, .go), (0, .go), (0, .pick (.task 5)), (0, .go), (0, .go),
    (0, .pick (.task 4)), (0, .go), (0, .go), (2, .pick (.task 4)), (2, .go), (2, .go),
    (2, .pick (.task 2)), (2, .go), (2, .go)]

/-- What the steps lead to. -/
def staleRun : Config (Fin 3) Row LockKey Uuid Error (Option Uuid) :=
  (Writer.init fiveTasks staleCalls).execTo schema (fun _ _ _ => True) staleSteps (by decide)

/-- From ordered columns, three updates that all commit leave the tasks 2 and 5 at position 2 of one
column. -/
theorem positions_not_ordered :
    Ordered (slot fiveTasks) ∧ (∀ t, (staleCalls t).PositionsNonneg) ∧
      Reachable schema (Writer.init fiveTasks staleCalls) staleRun ∧
      slot staleRun.db 2 = some ((none, .todo), 2) ∧
      slot staleRun.db 5 = some ((none, .todo), 2) ∧ ¬Ordered (slot staleRun.db) := by
  have hq : ∀ t, (staleCalls t).PositionsNonneg := by
    intro t
    match t with
    | 0 =>
      rintro q ⟨⟩
      decide
    | 1 => rintro q ⟨⟩
    | 2 =>
      rintro q ⟨⟩
      decide
  exact ⟨by decide, hq, run_execTo _, rfl, rfl, by decide⟩

/-! ### A run with fresh locks -/

/-- A task is created in `todo` while task 1 moves from there to `in_progress`. -/
def freshCalls : Fin 2 → Writer
  | 0 => .updateTask (moveTo 1 1 .inProgress none)
  | 1 => .createTask
    { projectId := none, createdBy := 7, assigneeId := none, title := "new", body := none,
      status := .todo, dueAt := none, position := none, dayStartUtc := 0, dayEndUtc := 1 }

/-- The update waits for the key of `todo` until the new task is committed. -/
def freshSteps : List (Fin 2 × Choice RowId Uuid) :=
  [(1, .go), (0, .go), (0, .go), (1, .go), (1, .gen 3), (1, .go), (1, .go), (0, .go), (0, .go),
    (0, .go), (0, .pick (.task 3)), (0, .pick (.task 2)), (0, .go), (0, .go), (0, .go),
    (0, .pick (.task 1)), (0, .go), (0, .go)]

def freshRun : Config (Fin 2) Row LockKey Uuid Error (Option Uuid) :=
  (Writer.init twoTasks freshCalls).execTo schema (fun c t _ => FreshLocks freshCalls c t)
    freshSteps (by decide)

theorem positions_stay_ordered_freshRun :
    slot freshRun.db 1 = some ((none, .inProgress), 0) ∧
      slot freshRun.db 2 = some ((none, .todo), 0) ∧
      slot freshRun.db 3 = some ((none, .todo), 1) ∧
      Ordered (slot freshRun.db) ∧ ∀ t, freshRun.tx t ≠ .done (.error .duplicatePosition) ∧
        freshRun.tx t ≠ .done (.error .negativePosition) := by
  have hq : ∀ t, (freshCalls t).PositionsNonneg := by
    intro t
    match t with
    | 0 => exact nofun
    | 1 => exact nofun
  exact ⟨rfl, rfl, rfl, positions_stay_ordered (by decide) freshCalls hq (run_execTo _)⟩

end TaskDb
