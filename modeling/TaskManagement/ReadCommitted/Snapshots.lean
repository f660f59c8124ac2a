import TaskManagement.ReadCommitted.Outcomes

/-!
# Where the snapshots of a session come from

A snapshot that a running transaction has taken is what its session, with the writes that it had
made by then, saw of the committed database of an earlier configuration of the run (`Run.snapshot`).
A transaction whose first statement is a query had not written anything then
(`Run.eq_start_of_reads`), so that its first snapshot is the committed database itself
(`Run.first_snapshot`).
-/

namespace ReadCommitted

variable {ι : Type} {ρ : ι → Type} {κ ν ε α τ : Type} [DecidableEq ι]

/-- A step of a running transaction adds writes, and what it sees when it is a query. -/
theorem Proc.step_reads {C : Constraints ρ ε} {db db' : Store ρ} {free : ι → Bool}
    {freeKey : κ → Bool} {ch : Choice ι ν} {p q : Proc ρ κ ν ε α} {σ σ' : Session ρ κ}
    (h : p.step C db free freeKey ch σ = some (db', .active q σ')) :
    σ.writes <:+ σ'.writes ∧
      (σ'.reads = σ.reads ∨ (∃ k, p = .query k) ∧ σ'.reads = σ.view db :: σ.reads) := by
  have hsame : σ.writes <:+ σ.writes := List.suffix_refl _
  have hcons : ∀ w, σ.writes <:+ w :: σ.writes := fun w => List.suffix_cons w _
  cases Proc.step_cases h with
  | query => exact ⟨hsame, Or.inr ⟨⟨_, rfl⟩, rfl⟩⟩
  | key hf => exact ⟨hsame, Or.inl rfl⟩
  | lock hf =>
    unfold Session.lockStep
    split
    · exact ⟨hsame, Or.inl rfl⟩
    · exact ⟨hsame, Or.inl rfl⟩
  | rowsDone => exact ⟨hsame, Or.inl rfl⟩
  | row hi hf hst =>
    rcases Session.rowStep_cases hst with
      ⟨-, -, rfl⟩ | ⟨r, -, -, -, rfl⟩ | ⟨r, -, -, -, rfl⟩ | ⟨r, r', -, -, -, -, rfl⟩
    · exact ⟨hsame, Or.inl rfl⟩
    · exact ⟨hsame, Or.inl rfl⟩
    · exact ⟨hcons _, Or.inl rfl⟩
    · exact ⟨hcons _, Or.inl rfl⟩
  | insert hf hst =>
    rcases Session.insertStep_cases hst with ⟨-, -, rfl⟩ | ⟨-, -, -, rfl⟩
    · exact ⟨hsame, Or.inl rfl⟩
    · exact ⟨hcons _, Or.inl rfl⟩
  | fresh hdb hσ hf => exact ⟨hsame, Or.inl rfl⟩

variable [DecidableEq τ] [Fintype τ] [DecidableEq κ] {C : Constraints ρ ε}
  {ok : Config τ ρ κ ν ε α → τ → Choice ι ν → Prop} {c c' : Config τ ρ κ ν ε α} {t : τ}
  {db : Store ρ} {q : τ → Proc ρ κ ν ε α} {p : Proc ρ κ ν ε α} {σ : Session ρ κ}

/-- What a transaction that is running after a step was before it. -/
theorem Config.active_before {u : τ} {ch : Choice ι ν} (h : c.step C u ch = some c')
    (ht : c'.tx t = .active p σ) :
    c.tx t = .active p σ ∨ ∃ p₀ σ₀ db', u = t ∧ c.tx t = .active p₀ σ₀ ∧
      p₀.step C c.db (c.rowFree t) (c.keyFree t) ch σ₀ = some (db', .active p σ) := by
  by_cases hut : t = u
  · subst hut
    obtain ⟨p₀, σ₀, ht₀, rfl | ⟨db', x, hx, rfl⟩⟩ := c.step_cases h
    · simp at ht
    · obtain rfl : x = .active p σ := by simpa using ht
      exact Or.inr ⟨p₀, σ₀, db', rfl, ht₀, hx⟩
  · exact Or.inl ((Config.tx_of_ne h hut).symm.trans ht)

/-- At `c`, transaction `t` is at the statement that takes the snapshot number `k` of the session
`σ`: what is committed there, under the writes that `t` has made before. -/
def Config.TakesSnapshot (c : Config τ ρ κ ν ε α) (t : τ) (σ : Session ρ κ) (k : ℕ) : Prop :=
  ∃ q σ₁, c.tx t = .active (.query q) σ₁ ∧ σ₁.reads.length = k ∧
    σ.snapshot k = some (σ₁.view c.db)

/-- A snapshot shows what the session saw of an earlier configuration. -/
theorem Run.snapshot (h : Run C ok (.init db q) c) (ht : c.tx t = .active p σ) {s : Store ρ}
    {l m : List (Store ρ)} (hs : σ.reads = m ++ s :: l) :
    ∃ c₁ k σ₁, Run C ok (.init db q) c₁ ∧ Run C ok c₁ c ∧ c₁.tx t = .active (.query k) σ₁ ∧
      σ₁.reads = l ∧ σ₁.writes <:+ σ.writes ∧ s = σ₁.view c₁.db := by
  induction h generalizing p σ m with
  | refl =>
    obtain ⟨-, rfl⟩ := Tx.active.inj ht
    have hnil : ([] : List (Store ρ)) = m ++ s :: l := hs
    simp at hnil
  | step hc hok hst ih =>
    rename_i c₂ c₃ u ch
    have hstep : Run C ok c₂ c₃ := .step .refl hok hst
    rcases Config.active_before hst ht with ht₂ | ⟨p₂, σ₂, db', -, ht₂, hx⟩
    · obtain ⟨c₁, k, σ₁, h₁, h₁₂, hrest⟩ := ih ht₂ hs
      exact ⟨c₁, k, σ₁, h₁, h₁₂.trans hstep, hrest⟩
    · obtain ⟨hwrites, hreads | ⟨⟨k, rfl⟩, hreads⟩⟩ := Proc.step_reads hx
      · obtain ⟨c₁, k, σ₁, h₁, h₁₂, ht₁, hl, hw, hs⟩ := ih ht₂ (hreads ▸ hs)
        exact ⟨c₁, k, σ₁, h₁, h₁₂.trans hstep, ht₁, hl, hw.trans hwrites, hs⟩
      · rw [hreads] at hs
        cases m with
        | nil =>
          -- the snapshot is the one that this step takes
          obtain ⟨rfl, rfl⟩ := List.cons.inj hs
          exact ⟨c₂, k, σ₂, hc, hstep, ht₂, rfl, hwrites, rfl⟩
        | cons x m =>
          obtain ⟨-, hs⟩ := List.cons.inj hs
          obtain ⟨c₁, k, σ₁, h₁, h₁₂, ht₁, hl, hw, hs⟩ := ih ht₂ hs
          exact ⟨c₁, k, σ₁, h₁, h₁₂.trans hstep, ht₁, hl, hw.trans hwrites, hs⟩

/-- A transaction that begins with a query and has no snapshot yet is at its beginning. -/
theorem Run.eq_start_of_reads (h : Run C ok (.init db q) c) {k : Store ρ → Proc ρ κ ν ε α}
    (hq : q t = .query k) (ht : c.tx t = .active p σ) (hs : σ.reads = []) :
    p = .query k ∧ σ = .start := by
  induction h generalizing p σ with
  | refl =>
    obtain ⟨rfl, rfl⟩ := Tx.active.inj ht
    exact ⟨hq, rfl⟩
  | step hc hok hst ih =>
    rcases Config.active_before hst ht with ht₂ | ⟨p₂, σ₂, db', -, ht₂, hx⟩
    · exact ih ht₂ hs
    · obtain ⟨-, hreads | ⟨-, hreads⟩⟩ := Proc.step_reads hx
      · -- the program that does this step is the query itself
        obtain ⟨rfl, rfl⟩ := ih ht₂ (hreads ▸ hs)
        obtain ⟨-, hx⟩ := Prod.mk.inj (Option.some.inj hx)
        obtain ⟨-, rfl⟩ := Tx.active.inj hx
        cases hs
      · rw [hreads] at hs
        cases hs

/-- The first snapshot of a transaction that begins with a query is what is committed then. -/
theorem Run.first_snapshot (h : Run C ok (.init db q) c) {k : Store ρ → Proc ρ κ ν ε α}
    (hq : q t = .query k) (ht : c.tx t = .active p σ) {s : Store ρ} {l : List (Store ρ)}
    (hs : σ.reads = l ++ [s]) :
    ∃ c₁, Run C ok (.init db q) c₁ ∧ Run C ok c₁ c ∧ s = c₁.db := by
  obtain ⟨c₁, k₁, σ₁, h₁, h₁₂, ht₁, hreads, -, rfl⟩ := h.snapshot ht hs
  obtain ⟨-, rfl⟩ := h₁.eq_start_of_reads hq ht₁ hreads
  exact ⟨c₁, h₁, h₁₂, rfl⟩

end ReadCommitted
