import TaskManagement.ReadCommitted.Logic

/-!
# Soundness of the rely–guarantee logic

`Sound` is the invariant of a configuration whose transactions all satisfy their `wp`: the
committed database satisfies the protocol's invariant, no lock is held twice, every running
transaction satisfies the `wp` of what is left of it, and every error is an allowed one.  A step
whose operation is assumed (`Protocol.Admits`) keeps it (`Sound.step`), hence so does a run
(`Sound.run`); the owed assertions then hold at every blocked transaction (`Proc.owed`), and a
committing transaction has its postcondition (`Sound.of_commit`).

`not_deadlocked_of_rank` turns a rank that grows along every wait into the absence of cycles.
-/

namespace ReadCommitted

variable {ι : Type} {ρ : ι → Type} {κ ν ε α Λ τ : Type}

/-- Two sessions hold no common lock. -/
structure Session.Apart (σ σ' : Session ρ κ) : Prop where
  rows : ∀ i ∈ σ.rows, i ∉ σ'.rows
  keys : ∀ x ∈ σ.keys, x ∉ σ'.keys

/-- No lock is held by two transactions. -/
structure Config.Exclusive (c : Config τ ρ κ ν ε α) : Prop where
  rows : ∀ t u, t ≠ u → ∀ i ∈ (c.tx t).rows, i ∉ (c.tx u).rows
  keys : ∀ t u, t ≠ u → ∀ x ∈ (c.tx t).keys, x ∉ (c.tx u).keys

theorem Config.exclusive_init (db : Store ρ) (p : τ → Proc ρ κ ν ε α) :
    (Config.init db p).Exclusive :=
  ⟨fun _ _ _ _ hi => absurd hi List.not_mem_nil, fun _ _ _ _ hy => absurd hy List.not_mem_nil⟩

section

variable [DecidableEq ι]

theorem Session.rowStep_locks {C : Constraints ρ ε} {u : RowUpdate ρ} {db : Store ρ} {i : ι}
    {n n' : ℕ} {σ σ' : Session ρ κ} (h : σ.rowStep C u db i n = .ok (n', σ')) :
    (∀ j ∈ σ'.rows, j ∈ σ.rows ∨ j = i) ∧ σ'.keys = σ.keys := by
  rcases Session.rowStep_cases h with ⟨-, -, rfl⟩ | ⟨r, -, -, -, rfl⟩ | ⟨r, -, -, -, rfl⟩ |
    ⟨r, r', -, -, -, -, rfl⟩
  · exact ⟨fun j hj => Or.inl hj, rfl⟩
  all_goals exact ⟨fun j hj => (List.mem_cons.mp hj).symm, rfl⟩

theorem Session.insertStep_locks {C : Constraints ρ ε} {db : Store ρ} {i : ι} {r : ρ i} {b : Bool}
    {σ σ' : Session ρ κ} (h : σ.insertStep C db i r = .ok (b, σ')) :
    (∀ j ∈ σ'.rows, j ∈ σ.rows ∨ j = i) ∧ σ'.keys = σ.keys := by
  rcases Session.insertStep_cases h with ⟨-, -, rfl⟩ | ⟨-, -, -, rfl⟩
  · exact ⟨fun j hj => Or.inl hj, rfl⟩
  · exact ⟨fun j hj => (List.mem_cons.mp hj).symm, rfl⟩

theorem Session.lockStep_locks (σ : Session ρ κ) (db : Store ρ) (i : ι) :
    (∀ j ∈ (σ.lockStep db i).rows, j ∈ σ.rows ∨ j = i) ∧ (σ.lockStep db i).keys = σ.keys := by
  unfold Session.lockStep
  split
  · exact ⟨fun j hj => Or.inl hj, rfl⟩
  · exact ⟨fun j hj => (List.mem_cons.mp hj).symm, rfl⟩

/-- A step takes only locks that are free. -/
theorem Proc.step_locks {C : Constraints ρ ε} {db db' : Store ρ} {free : ι → Bool}
    {freeKey : κ → Bool} {ch : Choice ι ν} {p : Proc ρ κ ν ε α} {σ : Session ρ κ}
    {x : Tx ρ κ ν ε α} (h : p.step C db free freeKey ch σ = some (db', x)) :
    (∀ i ∈ x.rows, i ∈ σ.rows ∨ free i) ∧ ∀ y ∈ x.keys, y ∈ σ.keys ∨ freeKey y := by
  have hsub : ∀ {σ' : Session ρ κ} {i : ι},
      (∀ j ∈ σ'.rows, j ∈ σ.rows ∨ j = i) ∧ σ'.keys = σ.keys → free i →
      (∀ i ∈ σ'.rows, i ∈ σ.rows ∨ free i) ∧ ∀ y ∈ σ'.keys, y ∈ σ.keys ∨ freeKey y := by
    rintro σ' i ⟨hr, hk⟩ hf
    refine ⟨fun j hj => (hr j hj).imp_right fun (e : j = i) => e ▸ hf, fun y hy => Or.inl ?_⟩
    rw [hk] at hy
    exact hy
  cases Proc.step_cases h with
  | commit _ | refused _ | throw | rowError _ _ | insertError _ =>
    -- a transaction that has ended holds no lock
    exact ⟨fun i hi => absurd hi List.not_mem_nil, fun y hy => absurd hy List.not_mem_nil⟩
  | query | rowsDone => exact ⟨fun i hi => Or.inl hi, fun y hy => Or.inl hy⟩
  | @key _ y k hf =>
    refine ⟨fun i hi => Or.inl hi, fun z hz => ?_⟩
    exact (List.mem_cons.mp hz).symm.imp_right fun (e : z = y) => e ▸ hf
  | lock hf => exact hsub (σ.lockStep_locks db _) hf
  | row _ hf hst => exact hsub (Session.rowStep_locks hst) hf
  | insert hf hst => exact hsub (Session.insertStep_locks hst) hf
  | fresh _ _ hf => exact hsub ⟨fun j hj => (List.mem_cons.mp hj).symm, rfl⟩ hf

/-- Only the end of a program changes the committed database. -/
theorem Proc.step_db {C : Constraints ρ ε} {db db' : Store ρ} {free : ι → Bool}
    {freeKey : κ → Bool} {ch : Choice ι ν} {p : Proc ρ κ ν ε α} {σ : Session ρ κ}
    {x : Tx ρ κ ν ε α} (h : p.step C db free freeKey ch σ = some (db', x)) :
    (db' = db ∧ ∀ a, x ≠ .done (.ok a)) ∨
      ∃ a, p = .ret a ∧ x = .done (.ok a) ∧ db' = σ.view db := by
  cases Proc.step_cases h with
  | commit _ => exact Or.inr ⟨_, rfl, rfl, rfl⟩
  | _ => exact Or.inl ⟨rfl, by simp⟩

/-- A transaction that commits has come to the end of its program. -/
theorem Proc.eq_ret_of_done {C : Constraints ρ ε} {db db' : Store ρ} {free : ι → Bool}
    {freeKey : κ → Bool} {ch : Choice ι ν} {p : Proc ρ κ ν ε α} {σ : Session ρ κ} {a : α}
    (h : p.step C db free freeKey ch σ = some (db', .done (.ok a))) :
    p = .ret a ∧ db' = σ.view db := by
  rcases p.step_db h with ⟨-, hne⟩ | ⟨b, hp, hx, hdb⟩
  · exact absurd rfl (hne a)
  · cases hx
    exact ⟨hp, hdb⟩

/-! ### What a step does to a verified program -/

variable {C : Constraints ρ ε} {P : Protocol Λ ρ κ ε}

/-- The outcome of a step of a program that satisfies `wp`. -/
def StepOutcome (C : Constraints ρ ε) (P : Protocol Λ ρ κ ε) (ℓ : Λ)
    (Q : α → Session ρ κ → Store ρ → Prop) (σ : Session ρ κ) (db db' : Store ρ) :
    Tx ρ κ ν ε α → Prop
  | .active p' σ' => db' = db ∧ wp C P ℓ p' Q σ' db
  | .done (.ok a) =>
    db' = σ.view db ∧ C.deferred (σ.view db) = none ∧ P.assume ℓ .commit σ db ∧ Q a σ db
  | .done (.error e) => db' = db ∧
    (P.allowed e ∨ ∃ a, P.assume ℓ .commit σ db ∧ Q a σ db ∧ C.deferred (σ.view db) = some e)
  | .cancelled => False

/-- One step of a verified program: it stays verified, commits with its postcondition, or ends
with an allowed error or a deferred violation. -/
theorem Proc.step_outcome {ℓ : Λ} {p : Proc ρ κ ν ε α} {Q : α → Session ρ κ → Store ρ → Prop}
    {σ : Session ρ κ} {db db' : Store ρ} {free : ι → Bool} {freeKey : κ → Bool}
    {ch : Choice ι ν} {x : Tx ρ κ ν ε α} (hwp : wp C P ℓ p Q σ db) (hi : P.inv db)
    (ha : ∀ o, p.op ch = some o → P.assume ℓ o σ db)
    (h : p.step C db free freeKey ch σ = some (db', x)) : StepOutcome C P ℓ Q σ db db' x := by
  have hrefl := P.rely_refl σ db
  cases Proc.step_cases h with
  | commit hd => exact ⟨rfl, hd, ha _ rfl, hwp db hrefl hi⟩
  | refused hd => exact ⟨rfl, Or.inr ⟨_, ha _ rfl, hwp db hrefl hi, hd⟩⟩
  | throw => exact ⟨rfl, Or.inl hwp⟩
  | query | key _ | lock _ => exact ⟨rfl, (hwp db hrefl hi).2 (ha _ rfl)⟩
  | rowsDone =>
    obtain ⟨I, hI, h0, hk⟩ := hwp
    exact ⟨rfl, hk _ σ db hi h0⟩
  | row hif _ hst =>
    obtain ⟨I, hI, h0, hk⟩ := hwp
    have hrow := ha (.row _) (if_pos hif)
    exact ⟨rfl, I, hI, hI.row hi h0 hif hrow hst, hk⟩
  | rowError hif hst =>
    obtain ⟨I, hI, h0, hk⟩ := hwp
    have hrow := ha (.row _) (if_pos hif)
    exact ⟨rfl, Or.inl (hI.error hi h0 hif hrow hst)⟩
  | insert _ hst => exact ⟨rfl, ((hwp db hrefl hi).2 (ha _ rfl)).2 _ _ hst⟩
  | insertError hst => exact ⟨rfl, Or.inl (((hwp db hrefl hi).2 (ha _ rfl)).1 _ hst)⟩
  | fresh hdb hσ _ => exact ⟨rfl, hwp db hrefl hi _ hdb hσ⟩

/-- What is owed at an operation a verified program waits for. -/
theorem Proc.owed {ℓ : Λ} {p : Proc ρ κ ν ε α} {Q : α → Session ρ κ → Store ρ → Prop}
    {σ : Session ρ κ} {db : Store ρ} (hwp : wp C P ℓ p Q σ db) (hi : P.inv db) {o : Op ι κ}
    (ho : p.wants o) : P.require o σ db := by
  have hrefl := P.rely_refl σ db
  cases p with
  | key y k => obtain rfl := ho; exact (hwp db hrefl hi).1
  | lock i k => obtain rfl := ho; exact (hwp db hrefl hi).1
  | eachRow rest u n k =>
    obtain ⟨i, hm, rfl⟩ := ho
    obtain ⟨I, hI, h0, -⟩ := hwp
    exact hI.owed hi h0 hm
  | insert i r k => obtain rfl := ho; exact (hwp db hrefl hi).1
  | ret a => exact ho.elim
  | throw e => exact ho.elim
  | query k => exact ho.elim
  | fresh f k => exact ho.elim

/-- What a commit owes to the database and to every session apart from it. -/
structure Commits (C : Constraints ρ ε) (P : Protocol Λ ρ κ ε) (σ : Session ρ κ) (db : Store ρ) :
    Prop where
  deferred : ∀ e, C.deferred (σ.view db) = some e → P.allowed e
  inv : C.deferred (σ.view db) = none → P.inv (σ.view db)
  rely : C.deferred (σ.view db) = none → ∀ σ', σ.Apart σ' → P.rely σ' db (σ.view db)

variable [DecidableEq τ] [Fintype τ] [DecidableEq κ]

/-- A step of a configuration: a step of the program of `t`, or its cancellation. -/
theorem Config.step_cases {C : Constraints ρ ε} {c c' : Config τ ρ κ ν ε α} {t : τ}
    {ch : Choice ι ν} (h : c.step C t ch = some c') :
    ∃ p σ, c.tx t = .active p σ ∧
      (c' = { c with tx := Function.update c.tx t .cancelled } ∨
        ∃ db' x, p.step C c.db (c.rowFree t) (c.keyFree t) ch σ = some (db', x) ∧
          c' = ⟨db', Function.update c.tx t x⟩) := by
  have hstep : ∀ {p σ}, c.tx t = .active p σ →
      (p.step C c.db (c.rowFree t) (c.keyFree t) ch σ).map
        (fun r => (⟨r.1, Function.update c.tx t r.2⟩ : Config τ ρ κ ν ε α)) = some c' →
      ∃ p σ, c.tx t = .active p σ ∧
        (c' = { c with tx := Function.update c.tx t .cancelled } ∨
          ∃ db' x, p.step C c.db (c.rowFree t) (c.keyFree t) ch σ = some (db', x) ∧
            c' = ⟨db', Function.update c.tx t x⟩) := by
    intro p σ ht hm
    obtain ⟨⟨db', x⟩, hx, rfl⟩ := Option.map_eq_some_iff.mp hm
    exact ⟨p, σ, ht, Or.inr ⟨db', x, hx, rfl⟩⟩
  unfold Config.step at h
  split at h
  · rename_i p σ ht
    cases ch with
    | cancel => exact ⟨p, σ, ht, Or.inl (Option.some.inj h).symm⟩
    | go => exact hstep ht h
    | pick i => exact hstep ht h
    | gen v => exact hstep ht h
  · cases h

/-- A transaction that ends with an error, or is rolled back, leaves the database as it was. -/
theorem Config.db_of_not_ok {C : Constraints ρ ε} {c c' : Config τ ρ κ ν ε α} {t : τ}
    {ch : Choice ι ν} (h : c.step C t ch = some c') (ht : ∀ a, c'.tx t ≠ .done (.ok a)) :
    c'.db = c.db := by
  obtain ⟨p, σ, -, rfl | ⟨db', x, hx, rfl⟩⟩ := c.step_cases h
  · rfl
  · rcases p.step_db hx with ⟨hdb, -⟩ | ⟨a, -, rfl, -⟩
    · exact hdb
    · exact absurd (Function.update_self t _ c.tx) (ht a)

/-- Locks stay exclusive. -/
theorem Config.Exclusive.step {C : Constraints ρ ε} {c c' : Config τ ρ κ ν ε α} {t : τ}
    {ch : Choice ι ν} (hc : c.Exclusive) (h : c.step C t ch = some c') : c'.Exclusive := by
  obtain ⟨p, σ, ht, hcase⟩ := c.step_cases h
  obtain ⟨x, hx, hr, hk⟩ : ∃ x, c'.tx = Function.update c.tx t x ∧
      (∀ i ∈ x.rows, i ∈ (c.tx t).rows ∨ c.rowFree t i) ∧
      ∀ y ∈ x.keys, y ∈ (c.tx t).keys ∨ c.keyFree t y := by
    rw [ht]
    rcases hcase with rfl | ⟨db', x, hx, rfl⟩
    · exact ⟨.cancelled, rfl, fun i hi => absurd hi List.not_mem_nil,
        fun y hy => absurd hy List.not_mem_nil⟩
    · exact ⟨x, rfl, (Proc.step_locks hx).1, (Proc.step_locks hx).2⟩
  -- what `t` holds after the step was its own or free
  have hr' : ∀ u, u ≠ t → ∀ i ∈ x.rows, i ∉ (c.tx u).rows := by
    intro u hu i hi
    rcases hr i hi with h | h
    · exact hc.rows t u hu.symm i h
    · exact of_decide_eq_true h u hu
  have hk' : ∀ u, u ≠ t → ∀ y ∈ x.keys, y ∉ (c.tx u).keys := by
    intro u hu y hy
    rcases hk y hy with h | h
    · exact hc.keys t u hu.symm y h
    · exact of_decide_eq_true h u hu
  have ht' : ∀ u, u ≠ t → c'.tx u = c.tx u := fun u hu => by rw [hx, Function.update_of_ne hu]
  have hxt : c'.tx t = x := by rw [hx, Function.update_self]
  constructor
  · intro u v huv i hi
    by_cases hu : u = t
    · subst hu
      rw [ht' v huv.symm]
      exact hr' v huv.symm i (hxt ▸ hi)
    · rw [ht' u hu] at hi
      by_cases hv : v = t
      · subst hv
        rw [hxt]
        exact fun hi' => hr' u hu i hi' hi
      · rw [ht' v hv]
        exact hc.rows u v huv i hi
  · intro u v huv y hy
    by_cases hu : u = t
    · subst hu
      rw [ht' v huv.symm]
      exact hk' v huv.symm y (hxt ▸ hy)
    · rw [ht' u hu] at hy
      by_cases hv : v = t
      · subst hv
        rw [hxt]
        exact fun hy' => hk' u hu y hy' hy
      · rw [ht' v hv]
        exact hc.keys u v huv y hy

/-! ### Sound configurations -/

/-- The step of `t` performs only an operation that is assumed. -/
def Protocol.Admits (P : Protocol Λ ρ κ ε) (label : τ → Λ) (c : Config τ ρ κ ν ε α) (t : τ)
    (ch : Choice ι ν) : Prop :=
  ∀ p σ o, c.tx t = .active p σ → p.op ch = some o → P.assume (label t) o σ c.db

/-- Every transaction satisfies the `wp` of what is left of it. -/
structure Sound (C : Constraints ρ ε) (P : Protocol Λ ρ κ ε) (label : τ → Λ)
    (Q : τ → α → Session ρ κ → Store ρ → Prop) (c : Config τ ρ κ ν ε α) : Prop where
  inv : P.inv c.db
  exclusive : c.Exclusive
  active : ∀ t p σ, c.tx t = .active p σ → wp C P (label t) p (Q t) σ c.db
  error : ∀ t e, c.tx t = .done (.error e) → P.allowed e

variable {label : τ → Λ} {Q : τ → α → Session ρ κ → Store ρ → Prop}

omit [DecidableEq τ] [Fintype τ] [DecidableEq κ] in
theorem sound_init {db : Store ρ} {p : τ → Proc ρ κ ν ε α} (hi : P.inv db)
    (h : ∀ t, wp C P (label t) (p t) (Q t) .start db) : Sound C P label Q (Config.init db p) where
  inv := hi
  exclusive := Config.exclusive_init db p
  active t q σ ht := by
    obtain ⟨rfl, rfl⟩ := Tx.active.inj ht
    exact h t
  error t e ht := by cases ht

omit [Fintype τ] [DecidableEq κ] in
/-- Replacing the state of `t` keeps a configuration sound when the others are not disturbed. -/
theorem Sound.update {c : Config τ ρ κ ν ε α} (hc : Sound C P label Q c) {t : τ} {db' : Store ρ}
    {x : Tx ρ κ ν ε α} (hex : (⟨db', Function.update c.tx t x⟩ : Config τ ρ κ ν ε α).Exclusive)
    (hi : P.inv db')
    (hrely : ∀ u p σ, u ≠ t → c.tx u = .active p σ → P.rely σ c.db db')
    (hact : ∀ p σ, x = .active p σ → wp C P (label t) p (Q t) σ db')
    (herr : ∀ e, x = .done (.error e) → P.allowed e) :
    Sound C P label Q (⟨db', Function.update c.tx t x⟩ : Config τ ρ κ ν ε α) where
  inv := hi
  exclusive := hex
  active u p σ hu := by
    by_cases h : u = t
    · subst h
      exact hact p σ (by simpa using hu)
    · have hu' : c.tx u = .active p σ := by simpa [Function.update_of_ne h] using hu
      exact wp_rely (hc.active u p σ hu') (hrely u p σ h hu') hi
  error u e hu := by
    by_cases h : u = t
    · subst h
      exact herr e (by simpa using hu)
    · exact hc.error u e (by simpa [Function.update_of_ne h] using hu)

/-- When `t` commits in a step, its postcondition holds of the session it commits. -/
theorem Sound.of_commit {c c' : Config τ ρ κ ν ε α} (hc : Sound C P label Q c) {t : τ}
    {ch : Choice ι ν} {a : α} (h : c.step C t ch = some c') (ht' : c'.tx t = .done (.ok a)) :
    ∃ σ, c.tx t = .active (.ret a) σ ∧ c'.db = σ.view c.db ∧ Q t a σ c.db := by
  obtain ⟨p, σ, ht, rfl | ⟨db', x, hx, rfl⟩⟩ := c.step_cases h
  · simp at ht'
  · obtain rfl : x = .done (.ok a) := by simpa using ht'
    obtain ⟨rfl, hdb⟩ := Proc.eq_ret_of_done hx
    exact ⟨σ, ht, hdb, hc.active t _ σ ht c.db (P.rely_refl σ c.db) hc.inv⟩

variable (hQ : ∀ t a σ db, P.inv db → Q t a σ db → P.assume (label t) .commit σ db →
  Commits C P σ db)

include hQ

/-- A step whose operation is assumed keeps a configuration sound. -/
theorem Sound.step {c c' : Config τ ρ κ ν ε α} (hc : Sound C P label Q c) {t : τ}
    {ch : Choice ι ν} (ha : P.Admits label c t ch) (h : c.step C t ch = some c') :
    Sound C P label Q c' := by
  have hex := hc.exclusive.step h
  obtain ⟨p, σ, ht, rfl | ⟨db', x, hx, rfl⟩⟩ := c.step_cases h
  · -- a cancelled transaction leaves the database as it is
    refine hc.update hex hc.inv (fun u q σ' _ _ => P.rely_refl σ' c.db) ?_ ?_
    · rintro q σ' ⟨⟩
    · rintro e ⟨⟩
  · have ho := Proc.step_outcome (hc.active t p σ ht) hc.inv (fun o => ha p σ o ht) hx
    have hsame : db' = c.db → ∀ u q σ', u ≠ t → c.tx u = .active q σ' → P.rely σ' c.db db' := by
      rintro rfl u q σ' - -
      exact P.rely_refl σ' c.db
    cases x with
    | active p' σ' =>
      obtain ⟨rfl, hwp⟩ := ho
      refine hc.update hex hc.inv (hsame rfl) ?_ ?_
      · rintro q σ'' ⟨⟩
        exact hwp
      · rintro e ⟨⟩
    | cancelled => exact ho.elim
    | done r =>
      cases r with
      | error e =>
        obtain ⟨rfl, he⟩ := ho
        refine hc.update hex hc.inv (hsame rfl) ?_ ?_
        · rintro q σ' ⟨⟩
        · rintro e' ⟨⟩
          rcases he with he | ⟨a, hac, hq, hd⟩
          · exact he
          · exact (hQ t a σ c.db hc.inv hq hac).deferred e hd
      | ok a =>
        obtain ⟨rfl, hd, hac, hq⟩ := ho
        -- a commit: the others see a step that their rely admits
        have hcm := hQ t a σ c.db hc.inv hq hac
        refine hc.update hex (hcm.inv hd) ?_ ?_ ?_
        · intro u q σ' hu hcu
          refine hcm.rely hd σ' ⟨fun i hi => ?_, fun y hy => ?_⟩
          · have h := hc.exclusive.rows t u hu.symm i (by rw [ht]; exact hi)
            rwa [hcu] at h
          · have h := hc.exclusive.keys t u hu.symm y (by rw [ht]; exact hy)
            rwa [hcu] at h
        · rintro q σ' ⟨⟩
        · rintro e ⟨⟩

/-- Along a run whose operations are assumed, the configuration stays sound. -/
theorem Sound.run {c₀ c : Config τ ρ κ ν ε α} (hc : Sound C P label Q c₀)
    (h : Run C (P.Admits label) c₀ c) : Sound C P label Q c := by
  induction h with
  | refl => exact hc
  | step _ ha hst ih => exact Sound.step hQ ih ha hst

end

/-! ### Deadlock freedom -/

/-- A rank that grows along every wait between blocked transactions leaves no cycle. -/
theorem not_deadlocked_of_rank {τ : Type} {β : Type} [Preorder β] {c : Config τ ρ κ ν ε α}
    (rank : Op ι κ → Session ρ κ → β)
    (h : ∀ t u p σ q σ' o o', t ≠ u → c.tx t = .active p σ → c.tx u = .active q σ' →
      p.wants o → o.heldBy (c.tx u) → q.wants o' → rank o σ < rank o' σ') :
    ¬c.Deadlocked := by
  -- along a chain of waits, the rank of the first operation is below that of any operation
  -- the last transaction waits for
  have chain : ∀ t u, Relation.TransGen c.Waits t u → ∃ p σ o, c.tx t = .active p σ ∧ p.wants o ∧
      ∀ q σ' o', c.tx u = .active q σ' → q.wants o' → rank o σ < rank o' σ' := by
    intro t u htu
    induction htu with
    | single hw =>
      obtain ⟨htu, p, σ, o, ht, ho, hb⟩ := hw
      exact ⟨p, σ, o, ht, ho, fun q σ' o' hu ho' => h _ _ p σ q σ' o o' htu ht hu ho hb ho'⟩
    | tail _ hw ih =>
      obtain ⟨p, σ, o, ht, ho, hlt⟩ := ih
      obtain ⟨huv, q, σ', o', hu, ho', hb⟩ := hw
      refine ⟨p, σ, o, ht, ho, fun r σ'' o'' hv ho'' => ?_⟩
      exact (hlt q σ' o' hu ho').trans (h _ _ q σ' r σ'' o' o'' huv hu hv ho' hb ho'')
  rintro ⟨t, ht⟩
  obtain ⟨p, σ, o, hact, ho, hlt⟩ := chain t t ht
  exact lt_irrefl _ (hlt p σ o hact ho)

end ReadCommitted
