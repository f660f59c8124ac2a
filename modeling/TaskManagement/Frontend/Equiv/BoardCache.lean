import TaskManagement.Frontend.BoardCache

/-!
# Convergence of the cached board

When no move is in flight and no fetch is running, the cached board should be the board of the
server (`Converged`).  A success and a `TASK_CONFLICT` start a fetch, and what a fetch brings is
the board of the server unless a move that has been applied since is still in flight
(`Current.fetched`).  Any other failure puts back the board that its `onMutate` has found, which may
show other moves that have failed or may lack moves that have been applied, and starts no fetch.

Every state of a run has converged exactly when every such failure fits (`FailureFits`):
`converged_iff`.  Two moves that fail one after the other do not (`failures_not_converged`).
-/

namespace BoardCache

open Board (BoardResponse BoardTask TaskMoveInput moveTask)

variable {τ : Type} {apply : BoardResponse → TaskMoveInput → BoardResponse} {s s' : State τ}
  {t u : τ} {c : Call τ} {r : Unit} {board : BoardResponse} {previous : Option BoardResponse}

/-! ### Convergence -/

/-- The mutation has begun and has not settled. -/
def Phase.InFlight : Phase → Prop
  | .idle | .settled => False
  | _ => True

/-- No move is in flight and no fetch is running. -/
def Quiet (s : State τ) : Prop := s.fetch = none ∧ ∀ t, ¬(s.mutations t).InFlight

/-- In a quiet state the cached board is the board of the server. -/
def Converged (s : State τ) : Prop := Quiet s → s.cache = some s.server

/-- A failure other than `TASK_CONFLICT` arrives while another move is in flight, while a fetch is
running, or when the board that it puts back is the board of the server. -/
def FailureFits (s : State τ) : Call τ → Prop
  | .settle t => ∀ previous, s.mutations t = .answered .failure previous →
    (∃ u, u ≠ t ∧ (s.mutations u).InFlight) ∨ s.fetch ≠ none ∨
      previous.or s.cache = some s.server
  | _ => True

/-- A fetched board is the board of the server, unless a move that the server has applied is still
in flight. -/
structure Current (s : State τ) : Prop where
  fetched : ∀ board, s.fetch = some (some board) → board = s.server ∨
    ∃ t previous, s.mutations t = .answered .success previous
  converged : Converged s

theorem current_init (board : BoardResponse) : Current (init board : State τ) where
  fetched _ h := nomatch h
  converged _ := rfl

/-! ### The steps -/

section Step

variable [DecidableEq τ]

/-- What the calls do. -/
theorem step_cases (h : (machine apply).step s c = some (r, s')) :
    (∃ t move, c = .mutate t move ∧ s.mutations t = .idle ∧
      s' = setPhase (cancelQueries s) t (.cancelling move)) ∨
    (∃ t move, c = .sendMove t ∧ s.mutations t = .cancelling move ∧
      s' = setPhase { s with cache := s.cache.map (moveTask · move) } t (.sent move s.cache)) ∨
    (∃ t outcome move previous, c = .serve t outcome ∧ s.mutations t = .sent move previous ∧
      s' = setPhase { s with server := if outcome = .success then apply s.server move
        else s.server } t (.answered outcome previous)) ∨
    (∃ t outcome previous, c = .settle t ∧ s.mutations t = .answered outcome previous ∧
      s' = onSettled (onError (setPhase s t .settled) outcome previous) outcome) ∨
    (c = .read ∧ s.fetch = some none ∧ s' = { s with fetch := some (some s.server) }) ∨
    (∃ board, c = .fetched ∧ s.fetch = some (some board) ∧
      s' = { s with cache := some board, fetch := none }) := by
  cases c with
  | mutate t move =>
    simp only [machine] at h
    split at h
    · rename_i ht
      obtain ⟨-, rfl⟩ := Prod.mk.inj (Option.some.inj h)
      exact Or.inl ⟨t, move, rfl, ht, rfl⟩
    · cases h
  | sendMove t =>
    simp only [machine] at h
    split at h
    · rename_i move ht
      obtain ⟨-, rfl⟩ := Prod.mk.inj (Option.some.inj h)
      exact Or.inr (Or.inl ⟨t, move, rfl, ht, rfl⟩)
    · cases h
  | serve t outcome =>
    simp only [machine] at h
    split at h
    · rename_i move previous ht
      obtain ⟨-, rfl⟩ := Prod.mk.inj (Option.some.inj h)
      exact Or.inr (Or.inr (Or.inl ⟨t, outcome, move, previous, rfl, ht, rfl⟩))
    · cases h
  | settle t =>
    simp only [machine] at h
    split at h
    · rename_i outcome previous ht
      obtain ⟨-, rfl⟩ := Prod.mk.inj (Option.some.inj h)
      exact Or.inr (Or.inr (Or.inr (Or.inl ⟨t, outcome, previous, rfl, ht, rfl⟩)))
    · cases h
  | read =>
    simp only [machine] at h
    split at h
    · rename_i hf
      obtain ⟨-, rfl⟩ := Prod.mk.inj (Option.some.inj h)
      exact Or.inr (Or.inr (Or.inr (Or.inr (Or.inl ⟨rfl, hf, rfl⟩))))
    · cases h
  | fetched =>
    simp only [machine] at h
    split at h
    · rename_i board hf
      obtain ⟨-, rfl⟩ := Prod.mk.inj (Option.some.inj h)
      exact Or.inr (Or.inr (Or.inr (Or.inr (Or.inr ⟨board, rfl, hf, rfl⟩))))
    · cases h

omit [DecidableEq τ] in
/-- While a move is in flight nothing is claimed of the cache. -/
theorem converged_of_inFlight (h : (s.mutations t).InFlight) : Converged s :=
  fun hq => absurd h (hq.2 t)

omit [DecidableEq τ] in
/-- Nor while a fetch is running. -/
theorem converged_of_fetch (h : s.fetch ≠ none) : Converged s := fun hq => absurd hq.1 h

theorem setPhase_self (s : State τ) (t : τ) (x : Phase) : (setPhase s t x).mutations t = x := by
  unfold setPhase
  exact Function.update_self t x s.mutations

theorem setPhase_of_ne {x : Phase} (h : u ≠ t) : (setPhase s t x).mutations u = s.mutations u := by
  unfold setPhase
  exact Function.update_of_ne h x s.mutations

/-- A move that the server has applied stays in flight while another one goes on. -/
theorem exists_applied {x : Phase} (ht : ∀ previous, s.mutations t ≠ .answered .success previous)
    (h : ∃ u previous, s.mutations u = .answered .success previous) :
    ∃ u previous, (setPhase s t x).mutations u = .answered .success previous := by
  obtain ⟨u, previous, hu⟩ := h
  have hut : u ≠ t := by
    rintro rfl
    exact ht previous hu
  exact ⟨u, previous, (setPhase_of_ne hut).trans hu⟩

/-- The state after a failure other than `TASK_CONFLICT`. -/
theorem settle_failure (s : State τ) (t : τ) (previous : Option BoardResponse) :
    onSettled (onError (setPhase s t .settled) .failure previous) .failure =
      { setPhase s t .settled with cache := previous.or s.cache } := by
  cases previous <;> rfl

theorem Current.step (hs : Current s) (hfits : FailureFits s c)
    (h : (machine apply).step s c = some (r, s')) : Current s' := by
  rcases step_cases h with ⟨t, move, rfl, ht, rfl⟩ | ⟨t, move, rfl, ht, rfl⟩ |
    ⟨t, outcome, move, previous, rfl, ht, rfl⟩ | ⟨t, outcome, previous, rfl, ht, rfl⟩ |
    ⟨rfl, hf, rfl⟩ | ⟨board, rfl, hf, rfl⟩
  · -- `mutate` cancels the fetch
    refine ⟨fun board hf => (nomatch hf), converged_of_inFlight (t := t) ?_⟩
    rw [setPhase_self]
    trivial
  · refine ⟨fun board hf => (hs.fetched board hf).imp_right fun hex =>
      exists_applied (s := { s with cache := _ }) (fun p he => ?_) hex,
      converged_of_inFlight (t := t) ?_⟩
    · cases ht.symm.trans he
    · rw [setPhase_self]
      trivial
  · refine ⟨fun board hf => ?_, converged_of_inFlight (t := t) ?_⟩
    · -- a move that succeeds makes a board that is being fetched out of date
      by_cases hsuccess : outcome = .success
      · subst hsuccess
        exact Or.inr ⟨t, previous, setPhase_self _ t _⟩
      · refine (hs.fetched board hf).imp (fun he => ?_) fun hex =>
          exists_applied (s := { s with server := _ }) (fun p he => ?_) hex
        · rw [he]
          exact (if_neg hsuccess).symm
        · cases ht.symm.trans he
    · rw [setPhase_self]
      trivial
  · cases outcome with
    | success => exact ⟨fun board hf => (nomatch hf), converged_of_fetch nofun⟩
    | conflict => exact ⟨fun board hf => (nomatch hf), converged_of_fetch nofun⟩
    | failure =>
      rw [settle_failure]
      refine ⟨fun board hf => (hs.fetched board hf).imp_right fun hex =>
        exists_applied (fun p he => ?_) hex, fun hq => ?_⟩
      · cases ht.symm.trans he
      · -- the rollback: another move is in flight, or a fetch, or the cache is the server's board
        rcases hfits previous ht with ⟨u, hu, hflight⟩ | hf | hcache
        · refine absurd ?_ (hq.2 u)
          show ((setPhase s t .settled).mutations u).InFlight
          rw [setPhase_of_ne hu]
          exact hflight
        · exact absurd hq.1 hf
        · exact hcache
  · refine ⟨fun board hf' => Or.inl ?_, converged_of_fetch nofun⟩
    exact (Option.some.inj (Option.some.inj hf')).symm
  · refine ⟨fun board hf => (nomatch hf), fun hq => ?_⟩
    -- the board that arrives is the server's, unless a move has been applied since
    rcases hs.fetched board hf with rfl | ⟨t, previous, ht⟩
    · rfl
    · refine absurd ?_ (hq.2 t)
      rw [ht]
      trivial

/-- A failure that does not fit leaves a quiet state with another board. -/
theorem failureFits_of_converged (h : (machine apply).step s c = some (r, s'))
    (hs' : Converged s') : FailureFits s c := by
  rcases step_cases h with ⟨t, move, rfl, ht, rfl⟩ | ⟨t, move, rfl, ht, rfl⟩ |
    ⟨t, outcome, move, previous, rfl, ht, rfl⟩ | ⟨t, outcome, previous, rfl, ht, rfl⟩ |
    ⟨rfl, hf, rfl⟩ | ⟨board, rfl, hf, rfl⟩
  case inr.inr.inr.inl =>
    intro previous' ht'
    obtain ⟨rfl, rfl⟩ := Phase.answered.inj (ht.symm.trans ht')
    rw [settle_failure] at hs'
    -- the state after it is quiet unless one of the first two conditions holds
    by_cases hflight : ∃ u, u ≠ t ∧ (s.mutations u).InFlight
    · exact Or.inl hflight
    by_cases hf : s.fetch = none
    · refine Or.inr (Or.inr (hs' ⟨hf, fun u hu => ?_⟩))
      by_cases hut : u = t
      · subst hut
        rw [show ({ setPhase s u .settled with cache := _ } : State τ).mutations u = .settled from
          setPhase_self s u .settled] at hu
        exact hu
      · refine hflight ⟨u, hut, ?_⟩
        rw [← setPhase_of_ne (s := s) (x := .settled) hut]
        exact hu
    · exact Or.inr (Or.inl hf)
  all_goals trivial

/-! ### Runs -/

variable {l : List (Machine.Event (State τ) (Call τ) Unit)}

theorem Current.run (h : (machine apply).Run (init board) l s)
    (hfits : ∀ e ∈ l, FailureFits e.pre e.call) : Current s := by
  refine h.induction (fun l s => (∀ e ∈ l, FailureFits e.pre e.call) → Current s)
    (fun _ => current_init board) ?_ hfits
  intro l s c r s' _ ih hst hfits
  exact (ih fun e he => hfits e (List.mem_append_left _ he)).step
    (hfits ⟨s, c, r⟩ (List.mem_append_right _ List.mem_cons_self)) hst

/-- Every state of a run has converged exactly when every failure of the run fits. -/
theorem converged_iff (h : (machine apply).Run (init board) l s) :
    (∀ l₁ l₂ s₁, l = l₁ ++ l₂ → (machine apply).Run (init board) l₁ s₁ → Converged s₁) ↔
      ∀ e ∈ l, FailureFits e.pre e.call := by
  constructor
  · intro hall e he
    obtain ⟨l₁, l₂, rfl⟩ := List.append_of_mem he
    obtain ⟨h₁, s', hst, -⟩ := h.split
    have hs' : Converged s' := hall (l₁ ++ [e]) l₂ s' (by simp) (.snoc h₁ hst)
    exact failureFits_of_converged hst hs'
  · rintro hfits l₁ l₂ s₁ rfl h₁
    exact (Current.run h₁ fun e he => hfits e (List.mem_append_left _ he)).converged

end Step

/-! ### Two moves that fail -/

def card (id : ℕ) (position : ℤ) : BoardTask where
  id := id
  title := "card"
  description := none
  status := .todo
  assignee := none
  position := position
  version := 1
  dueAt := none
  isActive := true
  commentCount := 0

/-- Two cards, both to do. -/
def twoCards : BoardResponse where
  projectId := 5
  projectIsActive := true
  columns
    | .todo => [card 1 0, card 2 1]
    | _ => []

/-- The second move begins while the first is in flight; both fail, in the same order. -/
def failuresRun : List (Machine.Event (State (Fin 2)) (Call (Fin 2)) Unit) × State (Fin 2) :=
  (machine moveTask).runOf (init twoCards)
    [.mutate 0 ⟨1, .inProgress, 0, 1⟩, .sendMove 0, .mutate 1 ⟨2, .done, 0, 1⟩, .sendMove 1,
      .serve 0 .failure, .serve 1 .failure, .settle 0, .settle 1] (by decide)

/-- The second failure puts back a board on which the first move seems to have succeeded. -/
theorem failures_not_converged :
    (machine moveTask).Run (init twoCards) failuresRun.1 failuresRun.2 ∧
      Quiet failuresRun.2 ∧ failuresRun.2.server = twoCards ∧
      failuresRun.2.cache.map (Board.columnIds · .inProgress) = some [1] ∧
      ¬Converged failuresRun.2 := by
  have hquiet : Quiet failuresRun.2 := by
    refine ⟨rfl, fun t => ?_⟩
    match t with
    | 0 => exact id
    | 1 => exact id
  refine ⟨Machine.run_runOf _ _ _ _, hquiet, rfl, rfl, fun hc => ?_⟩
  have hcards : failuresRun.2.cache.map (Board.columnIds · .inProgress) =
      some (Board.columnIds failuresRun.2.server .inProgress) := by
    rw [hc hquiet]
    rfl
  exact absurd hcards (by decide)

/-- One move fails, and another one succeeds after it. -/
def serialRun : List (Machine.Event (State (Fin 2)) (Call (Fin 2)) Unit) × State (Fin 2) :=
  (machine moveTask).runOf (init twoCards)
    [.mutate 0 ⟨1, .inProgress, 0, 1⟩, .sendMove 0, .serve 0 .failure, .settle 0,
      .mutate 1 ⟨2, .done, 0, 1⟩, .sendMove 1, .serve 1 .success, .settle 1, .read, .fetched]
    (by decide)

theorem converged_iff_serialRun :
    (∀ l₁ l₂ s₁, serialRun.1 = l₁ ++ l₂ → (machine moveTask).Run (init twoCards) l₁ s₁ →
        Converged s₁) ↔ ∀ e ∈ serialRun.1, FailureFits e.pre e.call :=
  converged_iff (Machine.run_runOf _ _ _ _ :
    (machine moveTask).Run (init twoCards) serialRun.1 serialRun.2)

end BoardCache
