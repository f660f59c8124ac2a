import TaskManagement.Db.Equiv.Positions
import Mathlib.Data.Sum.Order

/-!
# Deadlocks of the task writers

Along every run of task writers in which `sp_update_task` finds, under its row lock, what it read
before, and in which no `sp_remove_project_member` finds more than one task to update, the wait-for
graph over advisory locks and row locks has no cycle (`writers_deadlock_free`).  Every wait keeps
the lock order, and `lockRank` grows along it.

A member removal that updates two tasks takes their row locks in any order and without an advisory
lock, so it can wait for a writer that renumbers the same column and waits for it
(`writers_deadlock`).
-/

namespace TaskDb

open ReadCommitted Columns

/-- The rank of a pending operation: the advisory keys in their order, the first row, a neighbour,
the other tables, and what the session has locked already. -/
def lockRank (o : Op RowId LockKey) (σ : TaskSession) : LockKey ⊕ₗ ℕ :=
  match o with
  | .key k => Sum.inlₗ k
  | .lock _ => Sum.inrₗ 0
  | .row (.task t) =>
    Sum.inrₗ (if .task t ∈ σ.rows then 3 else if σ.rows = [] then 0 else 1)
  | .row _ => Sum.inrₗ 2
  | .insert _ => Sum.inrₗ 2
  | .query | .commit => Sum.inrₗ 3

variable {σ σ' : TaskSession} {db : Db}

theorem lockRank_task (t : Uuid) (σ : TaskSession) : lockRank (.row (.task t)) σ =
    Sum.inrₗ (if RowId.task t ∈ σ.rows then 3 else if σ.rows = [] then 0 else 1) := rfl

/-- A pending operation that needs a row ranks at least as high as the first row. -/
theorem lockRank_of_row {o : Op RowId LockKey} (h : ∀ k, o ≠ .key k) :
    ∃ n, lockRank o σ = Sum.inrₗ n := by
  cases o with
  | key k => exact absurd rfl (h k)
  | row i => cases i <;> exact ⟨_, rfl⟩
  | _ => exact ⟨_, rfl⟩

/-- Keys rank below rows. -/
theorem lockRank_key_lt {k : LockKey} {o : Op RowId LockKey} (h : ∀ k, o ≠ .key k) :
    lockRank (.key k) σ < lockRank o σ' := by
  obtain ⟨n, hn⟩ := lockRank_of_row (σ := σ') h
  rw [hn]
  exact Sum.Lex.inl_lt_inr k n

/-- An operation of one session that waits for a row locked by another session ranks below what
that session waits for. -/
theorem lockRank_row_lt {o o' : Op RowId LockKey} {i : RowId} (ho : LockOrder σ db o)
    (ho' : LockOrder σ' db o') (hap : σ.Apart σ')
    (hi : o = .lock i ∨ o = .row i ∨ o = .insert i) (hheld : i ∈ σ'.rows)
    (hq : o' ≠ .query ∧ o' ≠ .commit) : lockRank o σ < lockRank o' σ' := by
  have hne : σ'.rows ≠ [] := fun h => absurd (h ▸ hheld) List.not_mem_nil
  have hnot : i ∉ σ.rows := fun h => hap.rows i h hheld
  -- a session that waits for a row or for another table has locked only tasks
  have htask : TasksOnly σ' → ∃ t, i = .task t ∧ ∃ n, lockRank o σ = Sum.inrₗ n ∧ n ≤ 1 ∧
      (n = 1 → ∃ s, slot db t = some s ∧ columnKey s.1 ∈ σ.keys) := by
    intro hto
    obtain ⟨t, rfl⟩ := hto i hheld
    refine ⟨t, rfl, ?_⟩
    rcases hi with rfl | rfl | rfl
    · exact ⟨0, rfl, Nat.zero_le 1, nofun⟩
    · by_cases hrows : σ.rows = []
      · refine ⟨0, ?_, Nat.zero_le 1, nofun⟩
        rw [lockRank_task, if_neg hnot, if_pos hrows]
      · refine ⟨1, ?_, le_refl 1, fun _ => ?_⟩
        · rw [lockRank_task, if_neg hnot, if_neg hrows]
        · rcases ho.2 with h | h | h
          · exact absurd h hnot
          · exact absurd h hrows
          · exact h.1
    · exact absurd (ho.2 t rfl) hnot
  cases o' with
  | query => exact absurd rfl hq.1
  | commit => exact absurd rfl hq.2
  | key k => exact absurd ho'.1 hne
  | lock j => exact absurd ho' hne
  | insert j =>
    obtain ⟨t, -, n, hn, hle, -⟩ := htask ho'.1
    rw [hn]
    exact Sum.Lex.inr_lt_inr_iff.mpr (by omega)
  | row j =>
    cases j with
    | task t' =>
      obtain ⟨t, rfl, n, hn, hle, hcol⟩ := htask ho'.1
      rw [hn, lockRank_task]
      by_cases ht' : RowId.task t' ∈ σ'.rows
      · rw [if_pos ht']
        exact Sum.Lex.inr_lt_inr_iff.mpr (by omega)
      · rw [if_neg ht', if_neg hne]
        have hcov : Covered σ' db := by
          rcases ho'.2 with h | h | h
          · exact absurd h ht'
          · exact absurd h hne
          · exact h.2
        have hn1 : n ≠ 1 := by
          -- both sessions would hold the key of the column of the task
          intro hn1
          obtain ⟨s, hs, hk⟩ := hcol hn1
          obtain ⟨s', hs', hk'⟩ := hcov t hheld
          obtain rfl := Option.some.inj (hs.symm.trans hs')
          exact hap.keys _ hk hk'
        exact Sum.Lex.inr_lt_inr_iff.mpr (by omega)
    | _ =>
      obtain ⟨t, -, n, hn, hle, -⟩ := htask ho'
      rw [hn]
      exact Sum.Lex.inr_lt_inr_iff.mpr (by omega)

/-- Waits go up in rank. -/
theorem lockRank_lt {o o' : Op RowId LockKey} (ho : LockOrder σ db o) (ho' : LockOrder σ' db o')
    (hap : σ.Apart σ') (hq : o' ≠ .query ∧ o' ≠ .commit)
    {p : TaskProc (Option Uuid)} (hheld : o.heldBy (Tx.active p σ')) :
    lockRank o σ < lockRank o' σ' := by
  cases o with
  | query => exact hheld.elim
  | commit => exact hheld.elim
  | lock i => exact lockRank_row_lt ho ho' hap (Or.inl rfl) hheld hq
  | row i => exact lockRank_row_lt ho ho' hap (Or.inr (Or.inl rfl)) hheld hq
  | insert i => exact lockRank_row_lt ho ho' hap (Or.inr (Or.inr rfl)) hheld hq
  | key k =>
    by_cases hk : ∃ k', o' = .key k'
    · obtain ⟨k', rfl⟩ := hk
      exact Sum.Lex.inl_lt_inl_iff.mpr (ho'.2 k hheld)
    · exact lockRank_key_lt fun k' h => hk ⟨k', h⟩

/-! ### Runs -/

variable {τ : Type}

/-- A step at which `sp_remove_project_member` takes the snapshot of its `UPDATE` finds at most one
task assigned to the member. -/
def SingleRemovals (call : τ → Writer) (c : Config τ Row LockKey Uuid Error (Option Uuid)) (t : τ) :
    Prop :=
  match call t, c.tx t with
  | .removeMember p u, .active (.query _) σ => RemovesFromOneTask p u σ c.db
  | _, _ => True

instance (call : τ → Writer) (c : Config τ Row LockKey Uuid Error (Option Uuid)) (t : τ) :
    Decidable (SingleRemovals call c t) := by
  unfold SingleRemovals
  refine Writer.casesOn (call t) (fun _ => inferInstance) (fun _ => inferInstance)
    (fun _ _ => inferInstance) (fun _ _ => ?_)
  refine Tx.casesOn (c.tx t) (fun p _ => ?_) (fun _ => inferInstance) inferInstance
  refine Proc.casesOn p ?_ ?_ ?_ ?_ ?_ ?_ ?_ ?_ <;> intros <;> infer_instance

theorem SingleRemovals.admits {call : τ → Writer}
    {c : Config τ Row LockKey Uuid Error (Option Uuid)} {t : τ} {ch : Choice RowId Uuid}
    (hf : FreshLocks call c t) (hs : SingleRemovals call c t) :
    (columnProtocol False True).Admits call c t ch := by
  intro p σ o ht ho
  have hfresh := hf.admits p σ o ht ho
  unfold SingleRemovals at hs
  cases hcall : call t with
  | removeMember p' u =>
    cases o with
    | query =>
      obtain ⟨k, rfl⟩ := Proc.eq_query_of_op ho
      rw [hcall, ht] at hs
      exact fun _ => hs
    | _ => trivial
  | updateTask q =>
    rw [hcall] at hfresh
    cases o with
    | lock i => exact hfresh
    | _ => trivial
  | createTask q => trivial
  | deactivateTask t' b => trivial

variable [DecidableEq τ] [Fintype τ]

/-- The wait-for graph of the task writers has no cycle in any configuration that a run with fresh
locks and single removals reaches. -/
theorem writers_deadlock_free {db₀ : Db} (call : τ → Writer)
    {c : Config τ Row LockKey Uuid Error (Option Uuid)}
    (hrun : Run schema (fun c t _ => FreshLocks call c t ∧ SingleRemovals call c t)
      (Writer.init db₀ call) c) : ¬c.Deadlocked := by
  have hinit : Sound schema (columnProtocol False True) call (fun _ _ => Settled False)
      (Writer.init db₀ call) :=
    sound_init nofun fun t => (call t).wp_proc nofun nofun
  have hsound := hinit.run (fun _ _ _ _ hi hs _ => hs.commits hi)
    (hrun.mono fun _ _ _ h => SingleRemovals.admits h.1 h.2)
  have howed : ∀ {t p σ o}, c.tx t = .active p σ → p.wants o → LockOrder σ c.db o :=
    fun ht ho => Proc.owed (hsound.active _ _ _ ht) hsound.inv ho trivial
  refine not_deadlocked_of_rank lockRank ?_
  intro t u p σ q σ' o o' htu ht hu ho hheld ho'
  have hap : σ.Apart σ' := by
    constructor
    · intro i hi hi'
      have h := hsound.exclusive.rows t u htu i
      rw [ht, hu] at h
      exact h hi hi'
    · intro k hk hk'
      have h := hsound.exclusive.keys t u htu k
      rw [ht, hu] at h
      exact h hk hk'
  rw [hu] at hheld
  exact lockRank_lt (howed ht ho) (howed hu ho') hap (Proc.wants_ne ho') hheld

/-- A column of project 5 whose tasks have the given assignees. -/
def assignedTasks (assignees : List (Option Uuid)) : Db :=
  assignees.zipIdx.foldl (fun db a => db.set (.task (a.2 + 1))
    (some { looseTask .todo a.2 with projectId := some 5, assigneeId := a.1 }))
    (((Store.empty : Db).set (.project 5) (some
      { ownerId := 9, name := "project", description := none, startAt := none, endAt := none,
        isActive := true })).set (.member 5 7) (some { invitedBy := some 9 }))

/-- Task 1 moves to position 2 while member 7 is removed from the project. -/
def removalCalls : Fin 2 → Writer
  | 0 => .updateTask (moveTo 1 1 .todo (some 2))
  | 1 => .removeMember 5 7

/-! ### A removal that finds one task -/

/-- The move waits for the row of task 2, which the removal has locked. -/
def singleRun : Config (Fin 2) Row LockKey Uuid Error (Option Uuid) :=
  (Writer.init (assignedTasks [none, some 7, none]) removalCalls).execTo schema
    (fun c t _ => FreshLocks removalCalls c t ∧ SingleRemovals removalCalls c t)
    [(0, .go), (0, .go), (0, .go), (0, .go), (0, .pick (.task 3)), (1, .go), (1, .go),
      (1, .pick (.task 2))] (by decide)

theorem writers_deadlock_free_singleRun : singleRun.Waits 0 1 ∧ ¬singleRun.Deadlocked :=
  ⟨by decide, writers_deadlock_free removalCalls (run_execTo _)⟩

/-! ### A removal that finds two tasks -/

/-- The move has locked task 2 and waits for task 3, the removal the other way round. -/
def deadlockRun : Config (Fin 2) Row LockKey Uuid Error (Option Uuid) :=
  (Writer.init (assignedTasks [none, some 7, some 7]) removalCalls).execTo schema
    (fun _ _ _ => True)
    [(0, .go), (0, .go), (0, .go), (0, .go), (0, .pick (.task 2)), (1, .go), (1, .go),
      (1, .pick (.task 3))] (by decide)

/-- A move within a column and the removal of a member with two tasks there deadlock. -/
theorem writers_deadlock :
    Reachable schema (Writer.init (assignedTasks [none, some 7, some 7]) removalCalls)
      deadlockRun ∧ deadlockRun.Deadlocked := by
  have hw : deadlockRun.Waits 0 1 := by decide
  have hw' : deadlockRun.Waits 1 0 := by decide
  exact ⟨run_execTo _, 0, .tail (.single hw) hw'⟩

end TaskDb
