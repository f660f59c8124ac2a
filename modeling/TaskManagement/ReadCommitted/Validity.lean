import TaskManagement.ReadCommitted.Soundness

/-!
# The constraints hold of every committed database

`Valid C db` says that the rows of `db` satisfy the constraints `C`.  Whatever the transactions are
and however they are interleaved, the committed database stays valid (`valid_of_reachable`): a row
is checked when it is written (`Proc.step_writes`), and a commit is refused if it would violate a
deferred constraint.
-/

namespace ReadCommitted

variable {ι : Type} {ρ : ι → Type} {κ ν ε α τ : Type}

/-- Every row passes its check. -/
def Checked (C : Constraints ρ ε) (db : Store ρ) : Prop :=
  ∀ i r, db.row i = some r → C.check i r = none

/-- The database satisfies its constraints. -/
structure Valid (C : Constraints ρ ε) (db : Store ρ) : Prop where
  checked : Checked C db
  deferred : C.deferred db = none

/-- The row version that is written passes its check. -/
def Write.Checked (C : Constraints ρ ε) (w : Write ρ) : Prop :=
  ∀ r, w.2 = some r → C.check w.1 r = none

variable {C : Constraints ρ ε}

theorem Session.checked_write {i : ι} {v : Option (ρ i)}
    (hv : ∀ r, v = some r → C.check i r = none) (σ : Session ρ κ) :
    ∀ w ∈ (σ.write i v).writes, w ∈ σ.writes ∨ w.Checked C := by
  intro w hw
  rcases List.mem_cons.mp hw with rfl | hw
  · exact Or.inr hv
  · exact Or.inl hw

variable [DecidableEq ι]

/-- Checked writes over checked rows are checked rows. -/
theorem checked_overlay {db : Store ρ} (hdb : Checked C db) {ws : List (Write ρ)}
    (hws : ∀ w ∈ ws, w.Checked C) : Checked C (db.overlay ws) := by
  induction ws with
  | nil => exact hdb
  | cons w ws ih =>
    intro i r hr
    rw [Store.overlay_cons] at hr
    by_cases hi : i = w.1
    · subst hi
      rw [Store.set_row_self] at hr
      exact hws w List.mem_cons_self r hr
    · rw [Store.set_row_of_ne _ _ hi] at hr
      exact ih (fun w hw => hws w (List.mem_cons_of_mem _ hw)) i r hr

theorem Session.rowStep_writes {u : RowUpdate ρ} {db : Store ρ} {i : ι} {n n' : ℕ}
    {σ σ' : Session ρ κ} (h : σ.rowStep C u db i n = .ok (n', σ')) :
    ∀ w ∈ σ'.writes, w ∈ σ.writes ∨ w.Checked C := by
  rcases Session.rowStep_cases h with ⟨-, -, rfl⟩ | ⟨r, -, -, -, rfl⟩ | ⟨r, -, -, -, rfl⟩ |
    ⟨r, r', -, -, hc, -, rfl⟩
  · exact fun w hw => Or.inl hw
  · exact fun w hw => Or.inl hw
  · exact Session.checked_write (fun r' hr' => absurd hr' (Option.some_ne_none r').symm) σ
  · exact Session.checked_write (fun r₁ hr₁ => Option.some.inj hr₁ ▸ hc) σ

theorem Session.insertStep_writes {db : Store ρ} {i : ι} {r : ρ i} {b : Bool}
    {σ σ' : Session ρ κ} (h : σ.insertStep C db i r = .ok (b, σ')) :
    ∀ w ∈ σ'.writes, w ∈ σ.writes ∨ w.Checked C := by
  rcases Session.insertStep_cases h with ⟨-, -, rfl⟩ | ⟨-, hc, -, rfl⟩
  · exact fun w hw => Or.inl hw
  · exact Session.checked_write (fun r₁ hr₁ => Option.some.inj hr₁ ▸ hc) σ

/-- What a step writes has been checked. -/
theorem Proc.step_writes {db db' : Store ρ} {free : ι → Bool} {freeKey : κ → Bool}
    {ch : Choice ι ν} {p p' : Proc ρ κ ν ε α} {σ σ' : Session ρ κ}
    (h : p.step C db free freeKey ch σ = some (db', .active p' σ')) :
    ∀ w ∈ σ'.writes, w ∈ σ.writes ∨ w.Checked C := by
  cases Proc.step_cases h with
  | query | key _ | rowsDone | fresh _ _ _ => exact fun w hw => Or.inl hw
  | @lock _ i k hf =>
    have hw : (σ.lockStep db i).writes = σ.writes := by
      unfold Session.lockStep
      split <;> rfl
    exact fun w hmem => Or.inl (hw ▸ hmem)
  | row _ _ hst => exact Session.rowStep_writes hst
  | insert _ hst => exact Session.insertStep_writes hst

/-- The committed rows and all pending writes are checked. -/
structure Config.Valid (C : Constraints ρ ε) (c : Config τ ρ κ ν ε α) : Prop where
  db : ReadCommitted.Valid C c.db
  writes : ∀ t p σ, c.tx t = .active p σ → ∀ w ∈ σ.writes, w.Checked C

variable [DecidableEq τ] [Fintype τ] [DecidableEq κ] {c c' : Config τ ρ κ ν ε α}

theorem Config.Valid.step (hc : c.Valid C) {t : τ} {ch : Choice ι ν}
    (h : c.step C t ch = some c') : c'.Valid C := by
  obtain ⟨p, σ, ht, rfl | ⟨db', x, hx, rfl⟩⟩ := c.step_cases h
  · refine ⟨hc.db, fun u q σ' hu => ?_⟩
    by_cases hut : u = t
    · subst hut
      simp at hu
    · exact hc.writes u q σ' (by simpa [Function.update_of_ne hut] using hu)
  · refine ⟨?_, fun u q σ' hu => ?_⟩
    · cases Proc.step_cases hx with
      | commit hd =>
        -- the commit has passed the deferred constraint
        exact ⟨checked_overlay hc.db.checked (hc.writes t _ σ ht), hd⟩
      | _ => exact hc.db
    · by_cases hut : u = t
      · subst hut
        obtain rfl : x = .active q σ' := by simpa using hu
        intro w hw
        rcases Proc.step_writes hx w hw with hw' | hw'
        · exact hc.writes u p σ ht w hw'
        · exact hw'
      · exact hc.writes u q σ' (by simpa [Function.update_of_ne hut] using hu)

theorem Config.valid_of_reachable {db : Store ρ} (hdb : ReadCommitted.Valid C db)
    {p : τ → Proc ρ κ ν ε α} (h : Reachable C (.init db p) c) : c.Valid C := by
  induction h with
  | refl =>
    refine ⟨hdb, fun t q σ ht w hw => ?_⟩
    obtain ⟨-, rfl⟩ := Tx.active.inj ht
    exact absurd hw List.not_mem_nil
  | step _ _ hst ih => exact ih.step hst

/-- Every database that transactions reach from a valid one is valid. -/
theorem valid_of_reachable {db : Store ρ} (hdb : Valid C db) {p : τ → Proc ρ κ ν ε α}
    (h : Reachable C (.init db p) c) : Valid C c.db :=
  (Config.valid_of_reachable hdb h).db

end ReadCommitted
