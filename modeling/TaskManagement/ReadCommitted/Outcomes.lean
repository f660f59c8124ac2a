import TaskManagement.ReadCommitted.Soundness

/-!
# How the transactions of a run end

* `Proc.Raises E`: every error that a program raises satisfies `E`.  In a run, a transaction ends
  with an error of its own program only (`Run.raises`).
* `Config.done_of_step`: a transaction that has ended stays as it is.
* `Run.mono_of_leads`: what is known of the end of a run can be used as a condition on its steps.
* `Sound.step_cases`: a step commits a transaction or leaves the database as it is.
* `Sound.run_or_cancel`: a transaction may be cancelled at any time, whatever its next operation
  would have assumed.
-/

namespace ReadCommitted

variable {ι : Type} {ρ : ι → Type} {κ ν ε α β Λ τ : Type}

/-! ### The errors of a program -/

namespace Proc

/-- Every error that the program raises satisfies `E`. -/
def Raises (E : ε → Prop) : Proc ρ κ ν ε α → Prop
  | .ret _ => True
  | .throw e => E e
  | .query k => ∀ s, (k s).Raises E
  | .key _ k => k.Raises E
  | .lock _ k => ∀ r, (k r).Raises E
  | .eachRow _ _ _ k => ∀ n, (k n).Raises E
  | .insert _ _ k => ∀ b, (k b).Raises E
  | .fresh _ k => ∀ v, (k v).Raises E

variable {E : ε → Prop}

theorem Raises.bind {p : Proc ρ κ ν ε α} {f : α → Proc ρ κ ν ε β} (hp : p.Raises E)
    (hf : ∀ a, (f a).Raises E) : (p.bind f).Raises E := by
  induction p with
  | ret a => exact hf a
  | throw e => exact hp
  | query k ih => exact fun s => ih s (hp s)
  | key x k ih => exact ih hp
  | lock i k ih => exact fun r => ih r (hp r)
  | eachRow rest u n k ih => exact fun m => ih m (hp m)
  | insert i r k ih => exact fun b => ih b (hp b)
  | fresh f k ih => exact fun v => ih v (hp v)

theorem raises_ret {a : α} : (ret a : Proc ρ κ ν ε α).Raises E := trivial

theorem raises_select {f : Store ρ → α} : (select f : Proc ρ κ ν ε α).Raises E := fun _ => trivial

theorem raises_generate {f : ν → ι} : (generate f : Proc ρ κ ν ε ν).Raises E := fun _ => trivial

theorem raises_raiseIf {c : Prop} [Decidable c] {e : ε} (he : E e) :
    (raiseIf c e : Proc ρ κ ν ε Unit).Raises E := by
  unfold raiseIf
  split
  · exact he
  · trivial

theorem raises_insertOrRaise {i : ι} {r : ρ i} {e : ε} (he : E e) :
    (insertOrRaise i r e : Proc ρ κ ν ε Unit).Raises E := by
  intro b
  cases b with
  | true => trivial
  | false => exact he

theorem raises_update {u : RowUpdate ρ} : (update u : Proc ρ κ ν ε ℕ).Raises E :=
  fun _ _ => trivial

variable [DecidableEq ι]

/-- A step raises an error of the program or of a constraint, and leaves a program that raises no
others. -/
theorem Raises.step {C : Constraints ρ ε} {db db' : Store ρ} {free : ι → Bool}
    {freeKey : κ → Bool} {ch : Choice ι ν} {p : Proc ρ κ ν ε α} {σ : Session ρ κ}
    {x : Tx ρ κ ν ε α} (hp : p.Raises E) (hcheck : ∀ i r e, C.check i r = some e → E e)
    (hdeferred : ∀ db e, C.deferred db = some e → E e)
    (h : p.step C db free freeKey ch σ = some (db', x)) :
    (∀ q σ', x = .active q σ' → q.Raises E) ∧ ∀ e, x = .done (.error e) → E e := by
  have hactive : ∀ {q : Proc ρ κ ν ε α} {σ' : Session ρ κ}, q.Raises E →
      (∀ q' σ'', Tx.active q σ' = .active q' σ'' → q'.Raises E) ∧
      ∀ e, Tx.active q σ' = .done (.error e) → E e := by
    intro q σ' hq
    refine ⟨?_, by rintro e ⟨⟩⟩
    rintro q' σ'' ⟨⟩
    exact hq
  have herror : ∀ {e : ε}, E e →
      (∀ (q : Proc ρ κ ν ε α) σ', Tx.done (.error e) = .active q σ' → q.Raises E) ∧
      ∀ e', (Tx.done (.error e) : Tx ρ κ ν ε α) = .done (.error e') → E e' := by
    intro e he
    refine ⟨by rintro q σ' ⟨⟩, ?_⟩
    rintro e' ⟨⟩
    exact he
  cases Proc.step_cases h with
  | commit _ => exact ⟨by rintro q σ' ⟨⟩, by rintro e ⟨⟩⟩
  | refused hd => exact herror (hdeferred _ _ hd)
  | throw => exact herror hp
  | query | lock _ | rowsDone | insert _ _ | fresh _ _ _ => exact hactive (hp _)
  | key _ => exact hactive hp
  | row _ _ _ => exact hactive (q := .eachRow _ _ _ _) hp
  | rowError _ hst =>
    obtain ⟨r, r', -, -, hc⟩ := Session.rowStep_error hst
    exact herror (hcheck _ _ _ hc)
  | insertError hst => exact herror (hcheck _ _ _ (Session.insertStep_error hst).2)

end Proc

/-! ### The end of a run -/

namespace Config

/-- The transaction has committed with a result. -/
def Committed (c : Config τ ρ κ ν ε α) (t : τ) : Prop := ∃ a, c.tx t = .done (.ok a)

/-- The transaction has committed or has been rolled back with an error. -/
def Ended (c : Config τ ρ κ ν ε α) (t : τ) : Prop := ∃ r, c.tx t = .done r

end Config

variable [DecidableEq ι] [DecidableEq τ] [Fintype τ] [DecidableEq κ] {C : Constraints ρ ε}
  {ok ok' : Config τ ρ κ ν ε α → τ → Choice ι ν → Prop} {c₀ c c' : Config τ ρ κ ν ε α} {t u : τ}
  {ch : Choice ι ν}

/-- A step of one transaction leaves the others as they are. -/
theorem Config.tx_of_ne (h : c.step C t ch = some c') (hu : u ≠ t) : c'.tx u = c.tx u := by
  obtain ⟨p, σ, -, rfl | ⟨db', x, -, rfl⟩⟩ := c.step_cases h
  · exact Function.update_of_ne hu _ _
  · exact Function.update_of_ne hu _ _

/-- A transaction that has ended stays as it is. -/
theorem Config.done_of_step {r : Except ε α} (h : c.step C t ch = some c')
    (hu : c.tx u = .done r) : c'.tx u = .done r := by
  obtain ⟨p, σ, ht, -⟩ := c.step_cases h
  have hne : u ≠ t := by
    rintro rfl
    rw [ht] at hu
    cases hu
  exact (Config.tx_of_ne h hne).trans hu

/-- A transaction that ends with a result or an error is not cancelled. -/
theorem Config.ne_cancel_of_done {r : Except ε α} (h : c.step C t ch = some c')
    (hd : c'.tx t = .done r) : ch ≠ .cancel := by
  rintro rfl
  unfold Config.step at h
  split at h
  · obtain rfl := Option.some.inj h
    simp at hd
  · cases h

/-- A transaction at its end commits unless it is cancelled or violates a constraint. -/
theorem Config.commit_of_ret {a : α} {σ : Session ρ κ} (h : c.step C t ch = some c')
    (hch : ch ≠ .cancel) (ht : c.tx t = .active (.ret a) σ)
    (hd : C.deferred (σ.view c.db) = none) :
    c'.db = σ.view c.db ∧ c'.tx t = .done (.ok a) := by
  have hcommit : some (⟨σ.view c.db, Function.update c.tx t (.done (.ok a))⟩ :
      Config τ ρ κ ν ε α) = some c' := by
    rw [← h]
    unfold Config.step
    rw [ht]
    cases ch with
    | cancel => exact absurd rfl hch
    | _ => simp only [Proc.step, hd, Option.map_some]
  obtain rfl := Option.some.inj hcommit
  exact ⟨rfl, Function.update_self t _ c.tx⟩

/-- A transaction ends with an error of its own program or of a constraint. -/
theorem Run.raises {db : Store ρ} {p : τ → Proc ρ κ ν ε α} {E : τ → ε → Prop}
    (hp : ∀ t, (p t).Raises (E t)) (hcheck : ∀ t i r e, C.check i r = some e → E t e)
    (hdeferred : ∀ t db e, C.deferred db = some e → E t e) (h : Run C ok (.init db p) c) :
    (∀ t q σ, c.tx t = .active q σ → q.Raises (E t)) ∧
      ∀ t e, c.tx t = .done (.error e) → E t e := by
  induction h with
  | refl =>
    refine ⟨fun t q σ ht => ?_, fun t e ht => by cases ht⟩
    obtain ⟨rfl, -⟩ := Tx.active.inj ht
    exact hp t
  | step _ _ hst ih =>
    rename_i c c' t ch _ _
    -- the transaction that does the step
    have hself : (∀ q σ, c'.tx t = .active q σ → q.Raises (E t)) ∧
        ∀ e, c'.tx t = .done (.error e) → E t e := by
      obtain ⟨p, σ, ht, rfl | ⟨db', x, hx, rfl⟩⟩ := c.step_cases hst
      · exact ⟨fun q σ h => by simp at h, fun e h => by simp at h⟩
      · have hstep := (ih.1 t p σ ht).step (hcheck t) (hdeferred t) hx
        exact ⟨fun q σ h => hstep.1 q σ (by simpa using h),
          fun e h => hstep.2 e (by simpa using h)⟩
    refine ⟨fun u q σ hu => ?_, fun u e hu => ?_⟩
    · by_cases hut : u = t
      · subst hut
        exact hself.1 q σ hu
      · exact ih.1 u q σ ((Config.tx_of_ne hst hut).symm.trans hu)
    · by_cases hut : u = t
      · subst hut
        exact hself.2 e hu
      · exact ih.2 u e ((Config.tx_of_ne hst hut).symm.trans hu)

/-- What every configuration of a run has in common with the last one may be used as a condition
on the steps. -/
theorem Run.mono_of_leads {R : Config τ ρ κ ν ε α → Config τ ρ κ ν ε α → Prop}
    {cₙ : Config τ ρ κ ν ε α} (hrefl : ∀ c, R c c)
    (hstep : ∀ {c t ch c'}, Run C ok c₀ c → ok c t ch → c.step C t ch = some c' → R c' cₙ → R c cₙ)
    (hok : ∀ {c t ch c'}, Run C ok c₀ c → ok c t ch → c.step C t ch = some c' → R c' cₙ →
      ok' c t ch)
    (h : Run C ok c₀ cₙ) : Run C ok' c₀ cₙ := by
  suffices hall : ∀ c, Run C ok c₀ c → R c cₙ → Run C ok' c₀ c from hall cₙ h (hrefl cₙ)
  intro c hc hr
  induction hc with
  | refl => exact .refl
  | step hc hs hst ih => exact .step (ih (hstep hc hs hst hr)) (hok hc hs hst hr) hst

section Sound

variable {P : Protocol Λ ρ κ ε} {label : τ → Λ} {Q : τ → α → Session ρ κ → Store ρ → Prop}

/-- A step commits a transaction, with its postcondition, or leaves the database and the results as
they are. -/
theorem Sound.step_cases (hc : Sound C P label Q c) (h : c.step C t ch = some c') :
    (∃ a σ, c'.tx t = .done (.ok a) ∧ c'.db = σ.view c.db ∧ Q t a σ c.db) ∨
    (c'.db = c.db ∧ ∀ u a, c'.tx u = .done (.ok a) → c.tx u = .done (.ok a)) := by
  by_cases hok : ∃ a, c'.tx t = .done (.ok a)
  · obtain ⟨a, ha⟩ := hok
    obtain ⟨σ, -, hdb, hq⟩ := hc.of_commit h ha
    exact Or.inl ⟨a, σ, ha, hdb, hq⟩
  · refine Or.inr ⟨Config.db_of_not_ok h fun a ha => hok ⟨a, ha⟩, fun u a hu => ?_⟩
    have hut : u ≠ t := by
      rintro rfl
      exact hok ⟨a, hu⟩
    exact (Config.tx_of_ne h hut).symm.trans hu

/-! ### Cancelled transactions -/

theorem Sound.cancel (hc : Sound C P label Q c) (h : c.step C t .cancel = some c') :
    Sound C P label Q c' := by
  have hex := hc.exclusive.step h
  unfold Config.step at h
  split at h
  · obtain rfl := Option.some.inj h
    refine hc.update hex hc.inv (fun u q σ _ _ => P.rely_refl σ c.db) ?_ ?_
    · rintro q σ ⟨⟩
    · rintro e ⟨⟩
  · cases h

/-- Along a run whose operations are assumed, except where a transaction is cancelled. -/
theorem Sound.run_or_cancel
    (hQ : ∀ t a σ db, P.inv db → Q t a σ db → P.assume (label t) .commit σ db → Commits C P σ db)
    (hc : Sound C P label Q c₀)
    (h : Run C (fun c t ch => ch = .cancel ∨ P.Admits label c t ch) c₀ c) :
    Sound C P label Q c := by
  induction h with
  | refl => exact hc
  | step _ ha hst ih =>
    rcases ha with rfl | ha
    · exact ih.cancel hst
    · exact ih.step hQ ha hst

end Sound

end ReadCommitted
