import TaskManagement.ReadCommitted.System
import Mathlib.Data.Set.Finite.Basic

/-!
# A transaction that runs alone ends

Nothing holds up the only transaction of a configuration: every lock is free, and an `UPDATE` has
finitely many rows.  A generator needs a value that names no row yet, which is what `Proc.Supplied`
asks of the generators of a program; `exists_done` is then a run to the end.
-/

namespace ReadCommitted

variable {ι : Type} {ρ : ι → Type} {κ ν ε α β : Type}

namespace Proc

/-- Every generator of the program has a value outside of any list of identifiers. -/
def Supplied : Proc ρ κ ν ε α → Prop
  | .ret _ | .throw _ => True
  | .query k => ∀ s, (k s).Supplied
  | .key _ k => k.Supplied
  | .lock _ k => ∀ r, (k r).Supplied
  | .eachRow _ _ _ k => ∀ n, (k n).Supplied
  | .insert _ _ k => ∀ b, (k b).Supplied
  | .fresh f k => (∀ l : List ι, ∃ v, f v ∉ l) ∧ ∀ v, (k v).Supplied

theorem Supplied.bind {p : Proc ρ κ ν ε α} {f : α → Proc ρ κ ν ε β} (hp : p.Supplied)
    (hf : ∀ a, (f a).Supplied) : (p.bind f).Supplied := by
  induction p with
  | ret a => exact hf a
  | throw e => trivial
  | query k ih => exact fun s => ih s (hp s)
  | key x k ih => exact ih hp
  | lock i k ih => exact fun r => ih r (hp r)
  | eachRow rest u n k ih => exact fun m => ih m (hp m)
  | insert i r k ih => exact fun b => ih b (hp b)
  | fresh g k ih => exact ⟨hp.1, fun v => ih v (hp.2 v)⟩

theorem supplied_select {f : Store ρ → α} : (select f : Proc ρ κ ν ε α).Supplied := fun _ => trivial

theorem supplied_advisoryLock {x : κ} : (advisoryLock x : Proc ρ κ ν ε Unit).Supplied := trivial

theorem supplied_selectForUpdate {i : ι} :
    (selectForUpdate i : Proc ρ κ ν ε (Option (ρ i))).Supplied := fun _ => trivial

theorem supplied_raiseIf {c : Prop} [Decidable c] {e : ε} :
    (raiseIf c e : Proc ρ κ ν ε Unit).Supplied := by
  unfold raiseIf
  split <;> trivial

theorem supplied_update {u : RowUpdate ρ} : (update u : Proc ρ κ ν ε ℕ).Supplied :=
  fun _ _ => trivial

theorem supplied_insertOrRaise {i : ι} {r : ρ i} {e : ε} :
    (insertOrRaise i r e : Proc ρ κ ν ε Unit).Supplied := by
  intro b
  cases b <;> trivial

theorem supplied_insertOrIgnore {i : ι} {r : ρ i} :
    (insertOrIgnore i r : Proc ρ κ ν ε Unit).Supplied := fun _ => trivial

/-- A generator that names a different row for each value has one for a new row. -/
theorem supplied_generate [Infinite ν] {f : ν → ι} (hf : Function.Injective f) :
    (generate f : Proc ρ κ ν ε ν).Supplied := by
  refine ⟨fun l => ?_, fun _ => trivial⟩
  have hfinite : (Set.preimage f {i | i ∈ l}).Finite := l.finite_toSet.preimage hf.injOn
  obtain ⟨v, hv⟩ := hfinite.infinite_compl.nonempty
  exact ⟨v, hv⟩

end Proc

/-! ### Runs to the end -/

variable [DecidableEq ι] [DecidableEq κ] {C : Constraints ρ ε}

/-- A transaction in the session `σ`, with no other one beside it, can end. -/
def Completes (C : Constraints ρ ε) (p : Proc ρ κ ν ε α) (σ : Session ρ κ) (db : Store ρ) : Prop :=
  ∃ (c : Config Unit ρ κ ν ε α) (r : Except ε α),
    Reachable C ⟨db, fun _ => .active p σ⟩ c ∧ c.tx () = .done r

variable {p p' : Proc ρ κ ν ε α} {σ σ' : Session ρ κ} {db db' : Store ρ}

/-- A step of the only transaction finds every lock free. -/
theorem step_alone {ch : Choice ι ν} {x : Tx ρ κ ν ε α} (hch : ch ≠ .cancel)
    (h : p.step C db (fun _ => true) (fun _ => true) ch σ = some (db', x)) :
    Config.step C ⟨db, fun _ : Unit => .active p σ⟩ () ch = some ⟨db', fun _ => x⟩ := by
  have hrow : (Config.mk db fun _ : Unit => Tx.active p σ).rowFree () = fun _ => true :=
    funext fun i => decide_eq_true fun u hu => absurd rfl hu
  have hkey : (Config.mk db fun _ : Unit => Tx.active p σ).keyFree () = fun _ => true :=
    funext fun x => decide_eq_true fun u hu => absurd rfl hu
  have hupdate : ∀ y : Tx ρ κ ν ε α, Function.update (fun _ : Unit => Tx.active p σ) () y =
      fun _ => y := fun y => funext fun u => Function.update_self ..
  unfold Config.step
  dsimp only
  cases ch with
  | cancel => exact absurd rfl hch
  | go =>
    rw [hrow, hkey, h]
    exact congrArg (fun f => some (Config.mk db' f)) (hupdate x)
  | pick i =>
    rw [hrow, hkey, h]
    exact congrArg (fun f => some (Config.mk db' f)) (hupdate x)
  | gen v =>
    rw [hrow, hkey, h]
    exact congrArg (fun f => some (Config.mk db' f)) (hupdate x)

theorem Completes.of_done (ch : Choice ι ν) (hch : ch ≠ .cancel) (r : Except ε α) (db' : Store ρ)
    (h : p.step C db (fun _ => true) (fun _ => true) ch σ = some (db', .done r)) :
    Completes C p σ db :=
  ⟨_, r, .step .refl trivial (step_alone hch h), rfl⟩

theorem Completes.of_step (ch : Choice ι ν) (hch : ch ≠ .cancel) (h' : Completes C p' σ' db')
    (h : p.step C db (fun _ => true) (fun _ => true) ch σ = some (db', .active p' σ')) :
    Completes C p σ db := by
  obtain ⟨c, r, hrun, hdone⟩ := h'
  exact ⟨c, r, Run.trans (.step .refl trivial (step_alone hch h)) hrun, hdone⟩

/-- An `UPDATE` whose remaining rows are `rest`, before a part that ends. -/
theorem completes_eachRow {u : RowUpdate ρ} {k : ℕ → Proc ρ κ ν ε α}
    (hk : ∀ n (σ : Session ρ κ) db, Completes C (k n) σ db) (rest : List ι) (n : ℕ) :
    Completes C (.eachRow rest u n k) σ db := by
  induction hlen : rest.length generalizing rest n σ with
  | zero =>
    obtain rfl := List.eq_nil_of_length_eq_zero hlen
    exact .of_step .go (by simp) (hk n σ db) rfl
  | succ m ih =>
    cases rest with
    | nil => cases hlen
    | cons j rest =>
      have hmem : j ∈ j :: rest := List.mem_cons_self
      cases hr : σ.rowStep C u db j n with
      | error e =>
        refine .of_done (.pick j) (by simp) (.error e) db ?_
        rw [Proc.step, if_pos ⟨hmem, rfl⟩, hr]
      | ok y =>
        have hrest : ((j :: rest).erase j).length = m := by
          rw [List.erase_cons_head]
          exact Nat.succ.inj hlen
        refine .of_step (.pick j) (by simp) (ih (σ := y.2) _ y.1 hrest) ?_
        rw [Proc.step, if_pos ⟨hmem, rfl⟩, hr]

/-- From any point on. -/
theorem completes (hp : p.Supplied) (σ : Session ρ κ) (db : Store ρ) : Completes C p σ db := by
  induction p generalizing σ db with
  | ret a =>
    cases hd : C.deferred (σ.view db) with
    | none =>
      refine .of_done .go (by simp) (.ok a) (σ.view db) ?_
      rw [Proc.step, hd]
    | some e =>
      refine .of_done .go (by simp) (.error e) db ?_
      rw [Proc.step, hd]
  | throw e => exact .of_done .go (by simp) (.error e) db rfl
  | query k ih => exact .of_step .go (by simp) (ih _ (hp (σ.view db)) (σ.saw (σ.view db)) db) rfl
  | key x k ih => exact .of_step .go (by simp) (ih hp (σ.lockKey x) db) rfl
  | lock i k ih =>
    exact .of_step .go (by simp) (ih _ (hp ((σ.view db).row i)) (σ.lockStep db i) db) rfl
  | eachRow rest u n k ih => exact completes_eachRow (fun m σ db => ih m (hp m) σ db) rest n
  | insert i r k ih =>
    cases hr : σ.insertStep C db i r with
    | error e =>
      refine .of_done .go (by simp) (.error e) db ?_
      rw [Proc.step, if_pos rfl, hr]
    | ok y =>
      refine .of_step .go (by simp) (ih y.1 (hp y.1) y.2 db) ?_
      rw [Proc.step, if_pos rfl, hr]
  | fresh f k ih =>
    -- a value that names no row of the database and none of the session
    obtain ⟨v, hv⟩ := hp.1 (db.ids ++ σ.rows)
    rw [List.mem_append, not_or] at hv
    exact .of_step (.gen v) (by simp) (ih v (hp.2 v) (σ.lockRow (f v)) db)
      (if_pos ⟨hv.1, hv.2, rfl⟩)

/-- A transaction that runs alone has a run to its end. -/
theorem exists_done (hp : p.Supplied) (db : Store ρ) :
    ∃ (c : Config Unit ρ κ ν ε α) (r : Except ε α),
      Reachable C (.init db fun _ => p) c ∧ c.tx () = .done r := completes hp .start db

end ReadCommitted
