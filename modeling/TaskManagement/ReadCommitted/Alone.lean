import TaskManagement.ReadCommitted.Serial
import TaskManagement.ReadCommitted.Solo

/-!
# How a transaction that runs alone ends

A program has an end when it is run alone (`exists_endsAlone`), and every end satisfies what a `Solo`
specification says (`EndsAlone.ok`, `EndsAlone.error`): `EndsAlone.commits` is for a program that
raises no error, `EndsAlone.raises` for one that raises one in every run.
-/

namespace ReadCommitted

variable {ι : Type} [DecidableEq ι] {ρ : ι → Type} {κ ν ε α : Type} [DecidableEq κ]
  {C : Constraints ρ ε} {p : Proc ρ κ ν ε α} {s s' : Store ρ}

theorem exists_endsAlone (C : Constraints ρ ε) (hp : p.Supplied) (s : Store ρ) :
    ∃ r s', EndsAlone C p s r s' := by
  obtain ⟨c, r, hrun, hdone⟩ := exists_done (C := C) hp s
  exact ⟨r, c.db, c, hrun, hdone, rfl⟩

namespace EndsAlone

variable {allowed : ε → Prop} {Q : α → Store ρ → Prop}

/-- A committed transaction. -/
theorem ok {a : α} (h : EndsAlone C p s (.ok a) s') (hp : Solo C allowed p s Q) :
    Q a s' ∧ C.deferred s' = none := by
  obtain ⟨c, hrun, hdone, rfl⟩ := h
  have hout := Solo.run hp hrun
  unfold Solo.Outcome at hout
  rw [hdone] at hout
  exact hout

/-- A transaction that is rolled back leaves the rows as they are. -/
theorem error {e : ε} (h : EndsAlone C p s (.error e) s') (hp : Solo C allowed p s Q) :
    s' = s ∧ (allowed e ∨ ∃ a s'', Q a s'' ∧ C.deferred s'' = some e) := by
  obtain ⟨c, hrun, hdone, rfl⟩ := h
  have hout := Solo.run hp hrun
  unfold Solo.Outcome at hout
  rw [hdone] at hout
  exact hout

/-- A program that raises no error and keeps the deferred constraints commits. -/
theorem commits {r : Except ε α} (h : EndsAlone C p s r s') (hp : Solo C (fun _ => False) p s Q)
    (hdef : ∀ a s'', Q a s'' → C.deferred s'' = none) : ∃ a, r = .ok a ∧ Q a s' := by
  cases r with
  | ok a => exact ⟨a, rfl, (h.ok hp).1⟩
  | error e =>
    rcases (h.error hp).2 with hf | ⟨a, s'', hq, hd⟩
    · exact hf.elim
    · rw [hdef a s'' hq] at hd
      cases hd

/-- A program that cannot come to its end raises an allowed error. -/
theorem raises {r : Except ε α} (h : EndsAlone C p s r s')
    (hp : Solo C allowed p s fun _ _ => False) : ∃ e, r = .error e ∧ allowed e ∧ s' = s := by
  cases r with
  | ok a => exact (h.ok hp).1.elim
  | error e =>
    obtain ⟨hs, ha | ⟨_, _, hf, -⟩⟩ := h.error hp
    · exact ⟨e, rfl, ha, hs⟩
    · exact hf.elim

end EndsAlone

end ReadCommitted
