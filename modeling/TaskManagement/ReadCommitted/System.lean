import TaskManagement.ReadCommitted.Proc
import Mathlib.Data.Fintype.Basic
import Mathlib.Logic.Relation

/-!
# Interleaved transactions

A `Config` is a committed database together with the state of every transaction `t : τ`.
`Config.step` lets one transaction do its next step: a statement takes its snapshot, a lock is
granted when no other transaction holds it, a row of an `UPDATE` is processed, a transaction
commits or is rolled back.  Locks are held until the transaction ends.  The `Choice` says which
row comes next and which identifier is generated, so an execution is a list of steps
(`Config.exec`), and `Run` collects all of them; both are taken under a condition on the steps.
`Proc.StepCase` lists what one step of a transaction can do, and `Proc.step_cases` says that
nothing else happens: the invariants of the steps are proved from it.

`Config.Waits` is the wait-for graph of a configuration, over row locks and advisory locks
together, and `Config.Deadlocked` a cycle in it.
-/

namespace ReadCommitted

variable {ι : Type} {ρ : ι → Type} {κ ν ε α : Type}

/-- The numerals of `Fin 2`, which names the transactions of a run of two. -/
scoped instance neZeroTwo : @NeZero ℕ Zero.ofOfNat0 2 := ⟨by decide⟩

/-- The state of a transaction. -/
inductive Tx {ι : Type} (ρ : ι → Type) (κ ν ε α : Type) : Type where
  | active (p : Proc ρ κ ν ε α) (σ : Session ρ κ)
  /-- Committed with a result, or rolled back with an error. -/
  | done (r : Except ε α)
  /-- Rolled back by the client or by the server. -/
  | cancelled

namespace Tx

/-- The row locks held. -/
def rows : Tx ρ κ ν ε α → List ι
  | .active _ σ => σ.rows
  | _ => []

/-- The advisory locks held. -/
def keys : Tx ρ κ ν ε α → List κ
  | .active _ σ => σ.keys
  | _ => []

@[simp] theorem rows_active (p : Proc ρ κ ν ε α) (σ : Session ρ κ) :
    (Tx.active p σ).rows = σ.rows := rfl
@[simp] theorem keys_active (p : Proc ρ κ ν ε α) (σ : Session ρ κ) :
    (Tx.active p σ).keys = σ.keys := rfl
@[simp] theorem rows_done (r : Except ε α) : (Tx.done r : Tx ρ κ ν ε α).rows = [] := rfl
@[simp] theorem keys_done (r : Except ε α) : (Tx.done r : Tx ρ κ ν ε α).keys = [] := rfl
@[simp] theorem rows_cancelled : (Tx.cancelled : Tx ρ κ ν ε α).rows = [] := rfl
@[simp] theorem keys_cancelled : (Tx.cancelled : Tx ρ κ ν ε α).keys = [] := rfl

end Tx

/-- What the scheduler decides in a step. -/
inductive Choice (ι ν : Type) : Type where
  /-- The only possible next step. -/
  | go
  /-- The next row of an `UPDATE`. -/
  | pick (i : ι)
  /-- The value drawn by a generator. -/
  | gen (v : ν)
  /-- Roll the transaction back. -/
  | cancel

/-- The next operation of a transaction, as conditions and obligations refer to it. -/
inductive Op (ι κ : Type) : Type where
  | query
  | key (x : κ)
  | lock (i : ι)
  | row (i : ι)
  | insert (i : ι)
  | commit

namespace Op

/-- The transaction `x` holds a lock that the operation needs. -/
def heldBy (x : Tx ρ κ ν ε α) : Op ι κ → Prop
  | .key y => y ∈ x.keys
  | .lock i | .row i | .insert i => i ∈ x.rows
  | .query | .commit => False

end Op

namespace Proc

/-- The operations that may come next and may have to wait for a lock. -/
def wants : Proc ρ κ ν ε α → Op ι κ → Prop
  | .key x _, o => o = .key x
  | .lock i _, o => o = .lock i
  | .eachRow rest _ _ _, o => ∃ i ∈ rest, o = .row i
  | .insert i _ _, o => o = .insert i
  | _, _ => False

/-- `wants`, as a list. -/
def pending : Proc ρ κ ν ε α → List (Op ι κ)
  | .key x _ => [.key x]
  | .lock i _ => [.lock i]
  | .eachRow rest _ _ _ => rest.map .row
  | .insert i _ _ => [.insert i]
  | _ => []

theorem mem_pending {p : Proc ρ κ ν ε α} {o : Op ι κ} : o ∈ p.pending ↔ p.wants o := by
  cases p with
  | key x k => exact List.mem_singleton
  | lock i k => exact List.mem_singleton
  | insert i r k => exact List.mem_singleton
  | eachRow rest u n k =>
    unfold pending wants
    rw [List.mem_map]
    constructor
    · rintro ⟨i, hi, rfl⟩
      exact ⟨i, hi, rfl⟩
    · rintro ⟨i, hi, rfl⟩
      exact ⟨i, hi, rfl⟩
  | ret a => exact iff_of_false List.not_mem_nil id
  | throw e => exact iff_of_false List.not_mem_nil id
  | query k => exact iff_of_false List.not_mem_nil id
  | fresh f k => exact iff_of_false List.not_mem_nil id

/-- Snapshots and commits wait for nothing. -/
theorem wants_ne {p : Proc ρ κ ν ε α} {o : Op ι κ} (h : p.wants o) : o ≠ .query ∧ o ≠ .commit := by
  cases p with
  | key x k => obtain rfl := h; exact ⟨nofun, nofun⟩
  | lock i k => obtain rfl := h; exact ⟨nofun, nofun⟩
  | insert i r k => obtain rfl := h; exact ⟨nofun, nofun⟩
  | eachRow rest u n k => obtain ⟨i, -, rfl⟩ := h; exact ⟨nofun, nofun⟩
  | ret a => exact h.elim
  | throw e => exact h.elim
  | query k => exact h.elim
  | fresh f k => exact h.elim

variable [DecidableEq ι]

/-- The operation that the choice `ch` performs. -/
def op (ch : Choice ι ν) : Proc ρ κ ν ε α → Option (Op ι κ)
  | .ret _ => some .commit
  | .throw _ => none
  | .query _ => some .query
  | .key x _ => some (.key x)
  | .lock i _ => some (.lock i)
  | .eachRow rest _ _ _ =>
    match ch with
    | .pick i => if i ∈ rest then some (.row i) else none
    | _ => none
  | .insert i _ _ => some (.insert i)
  | .fresh _ _ => none

theorem eq_lock_of_op {ch : Choice ι ν} {p : Proc ρ κ ν ε α} {i : ι}
    (h : p.op ch = some (.lock i)) : ∃ k, p = .lock i k := by
  cases p with
  | lock j k =>
    obtain rfl := Op.lock.inj (Option.some.inj h)
    exact ⟨k, rfl⟩
  | eachRow rest u n k =>
    simp only [op] at h
    split at h
    · split at h <;> cases h
    · cases h
  | _ => cases h

theorem eq_query_of_op {ch : Choice ι ν} {p : Proc ρ κ ν ε α} (h : p.op ch = some .query) :
    ∃ k, p = .query k := by
  cases p with
  | query k => exact ⟨k, rfl⟩
  | eachRow rest u n k =>
    simp only [op] at h
    split at h
    · split at h <;> cases h
    · cases h
  | _ => cases h

theorem eq_ret_of_op {ch : Choice ι ν} {p : Proc ρ κ ν ε α} (h : p.op ch = some .commit) :
    ∃ a, p = .ret a := by
  cases p with
  | ret a => exact ⟨a, rfl⟩
  | eachRow rest u n k =>
    simp only [op] at h
    split at h
    · split at h <;> cases h
    · cases h
  | _ => cases h

/-- One step of a transaction: the committed database and the state of the transaction after it.
`free` and `freeKey` tell which locks no other transaction holds. -/
def step (C : Constraints ρ ε) (db : Store ρ) (free : ι → Bool) (freeKey : κ → Bool)
    (ch : Choice ι ν) (p : Proc ρ κ ν ε α) (σ : Session ρ κ) : Option (Store ρ × Tx ρ κ ν ε α) :=
  match p with
  | .ret a =>
    match C.deferred (σ.view db) with
    | none => some (σ.view db, .done (.ok a))
    | some e => some (db, .done (.error e))
  | .throw e => some (db, .done (.error e))
  | .query k => some (db, .active (k (σ.view db)) (σ.saw (σ.view db)))
  | .key x k => if freeKey x then some (db, .active k (σ.lockKey x)) else none
  | .lock i k =>
    if free i then some (db, .active (k ((σ.view db).row i)) (σ.lockStep db i)) else none
  | .eachRow [] _ n k => some (db, .active (k n) σ)
  | .eachRow (j :: rest) u n k =>
    match ch with
    | .pick i =>
      if i ∈ j :: rest ∧ free i then
        match σ.rowStep C u db i n with
        | .error e => some (db, .done (.error e))
        | .ok (m, σ') => some (db, .active (.eachRow ((j :: rest).erase i) u m k) σ')
      else none
    | _ => none
  | .insert i r k =>
    if free i then
      match σ.insertStep C db i r with
      | .error e => some (db, .done (.error e))
      | .ok (b, σ') => some (db, .active (k b) σ')
    else none
  | .fresh f k =>
    match ch with
    | .gen v =>
      if f v ∉ db.ids ∧ f v ∉ σ.rows ∧ free (f v) then some (db, .active (k v) (σ.lockRow (f v)))
      else none
    | _ => none

section

variable {C : Constraints ρ ε} {db db' : Store ρ} {free : ι → Bool} {freeKey : κ → Bool}
  {ch : Choice ι ν} {p : Proc ρ κ ν ε α} {σ : Session ρ κ} {x : Tx ρ κ ν ε α}

variable (C db free freeKey σ) in
/-- The steps of a program in the session `σ`, one case for each way a statement can end. -/
inductive StepCase :
    Proc ρ κ ν ε α → Choice ι ν → Store ρ → Tx ρ κ ν ε α → Prop
  | commit {ch : Choice ι ν} {a : α} (hd : C.deferred (σ.view db) = none) :
      StepCase (.ret a) ch (σ.view db) (.done (.ok a))
  | refused {ch : Choice ι ν} {a : α} {e : ε} (hd : C.deferred (σ.view db) = some e) :
      StepCase (.ret a) ch db (.done (.error e))
  | throw {ch : Choice ι ν} {e : ε} : StepCase (.throw e) ch db (.done (.error e))
  | query {ch : Choice ι ν} {k : Store ρ → Proc ρ κ ν ε α} :
      StepCase (.query k) ch db (.active (k (σ.view db)) (σ.saw (σ.view db)))
  | key {ch : Choice ι ν} {y : κ} {k : Proc ρ κ ν ε α} (hf : freeKey y = true) :
      StepCase (.key y k) ch db (.active k (σ.lockKey y))
  | lock {ch : Choice ι ν} {i : ι} {k : Option (ρ i) → Proc ρ κ ν ε α} (hf : free i = true) :
      StepCase (.lock i k) ch db (.active (k ((σ.view db).row i)) (σ.lockStep db i))
  | rowsDone {ch : Choice ι ν} {u : RowUpdate ρ} {n : ℕ} {k : ℕ → Proc ρ κ ν ε α} :
      StepCase (.eachRow [] u n k) ch db (.active (k n) σ)
  | row {rest : List ι} {u : RowUpdate ρ} {n m : ℕ} {k : ℕ → Proc ρ κ ν ε α} {i : ι}
      {σ' : Session ρ κ} (hi : i ∈ rest) (hf : free i = true)
      (hst : σ.rowStep C u db i n = .ok (m, σ')) :
      StepCase (.eachRow rest u n k) (.pick i) db (.active (.eachRow (rest.erase i) u m k) σ')
  | rowError {rest : List ι} {u : RowUpdate ρ} {n : ℕ} {k : ℕ → Proc ρ κ ν ε α} {i : ι} {e : ε}
      (hi : i ∈ rest) (hst : σ.rowStep C u db i n = .error e) :
      StepCase (.eachRow rest u n k) (.pick i) db (.done (.error e))
  | insert {ch : Choice ι ν} {i : ι} {r : ρ i} {k : Bool → Proc ρ κ ν ε α} {b : Bool}
      {σ' : Session ρ κ} (hf : free i = true) (hst : σ.insertStep C db i r = .ok (b, σ')) :
      StepCase (.insert i r k) ch db (.active (k b) σ')
  | insertError {ch : Choice ι ν} {i : ι} {r : ρ i} {k : Bool → Proc ρ κ ν ε α} {e : ε}
      (hst : σ.insertStep C db i r = .error e) :
      StepCase (.insert i r k) ch db (.done (.error e))
  | fresh {f : ν → ι} {k : ν → Proc ρ κ ν ε α} {v : ν} (hdb : f v ∉ db.ids) (hσ : f v ∉ σ.rows)
      (hf : free (f v) = true) :
      StepCase (.fresh f k) (.gen v) db (.active (k v) (σ.lockRow (f v)))

theorem step_cases (h : p.step C db free freeKey ch σ = some (db', x)) :
    StepCase C db free freeKey σ p ch db' x := by
  cases p with
  | ret a =>
    simp only [step] at h
    split at h
    · obtain ⟨rfl, rfl⟩ := Prod.mk.inj (Option.some.inj h)
      exact .commit ‹_›
    · obtain ⟨rfl, rfl⟩ := Prod.mk.inj (Option.some.inj h)
      exact .refused ‹_›
  | throw e =>
    obtain ⟨rfl, rfl⟩ := Prod.mk.inj (Option.some.inj h)
    exact .throw
  | query k =>
    obtain ⟨rfl, rfl⟩ := Prod.mk.inj (Option.some.inj h)
    exact .query
  | key y k =>
    simp only [step] at h
    split_ifs at h with hf
    obtain ⟨rfl, rfl⟩ := Prod.mk.inj (Option.some.inj h)
    exact .key hf
  | lock i k =>
    simp only [step] at h
    split_ifs at h with hf
    obtain ⟨rfl, rfl⟩ := Prod.mk.inj (Option.some.inj h)
    exact .lock hf
  | eachRow rest u n k =>
    cases rest with
    | nil =>
      obtain ⟨rfl, rfl⟩ := Prod.mk.inj (Option.some.inj h)
      exact .rowsDone
    | cons j rest =>
      cases ch with
      | pick i =>
        simp only [step] at h
        split_ifs at h with hif
        split at h
        · obtain ⟨rfl, rfl⟩ := Prod.mk.inj (Option.some.inj h)
          exact .rowError hif.1 ‹_›
        · obtain ⟨rfl, rfl⟩ := Prod.mk.inj (Option.some.inj h)
          exact .row hif.1 hif.2 ‹_›
      | _ => cases h
  | insert i r k =>
    simp only [step] at h
    split_ifs at h with hf
    split at h
    · obtain ⟨rfl, rfl⟩ := Prod.mk.inj (Option.some.inj h)
      exact .insertError ‹_›
    · obtain ⟨rfl, rfl⟩ := Prod.mk.inj (Option.some.inj h)
      exact .insert hf ‹_›
  | fresh f k =>
    cases ch with
    | gen v =>
      simp only [step] at h
      split_ifs at h with hf
      obtain ⟨rfl, rfl⟩ := Prod.mk.inj (Option.some.inj h)
      exact .fresh hf.1 hf.2.1 hf.2.2
    | _ => cases h

end

end Proc

/-- A committed database and the state of every transaction. -/
structure Config (τ : Type) {ι : Type} (ρ : ι → Type) (κ ν ε α : Type) where
  db : Store ρ
  tx : τ → Tx ρ κ ν ε α

namespace Config

variable {τ : Type}

/-- Every transaction at its beginning. -/
def init (db : Store ρ) (p : τ → Proc ρ κ ν ε α) : Config τ ρ κ ν ε α where
  db := db
  tx t := .active (p t) .start

/-- `t` waits for a lock that `u` holds. -/
def Waits (c : Config τ ρ κ ν ε α) (t u : τ) : Prop :=
  t ≠ u ∧ ∃ p σ o, c.tx t = .active p σ ∧ p.wants o ∧ o.heldBy (c.tx u)

/-- The wait-for graph has a cycle. -/
def Deadlocked (c : Config τ ρ κ ν ε α) : Prop := ∃ t, Relation.TransGen c.Waits t t

instance [DecidableEq τ] [DecidableEq ι] [DecidableEq κ] (c : Config τ ρ κ ν ε α) (t u : τ) :
    Decidable (c.Waits t u) :=
  let held (o : Op ι κ) : Bool := match o with
    | .key y => decide (y ∈ (c.tx u).keys)
    | .lock i | .row i | .insert i => decide (i ∈ (c.tx u).rows)
    | .query | .commit => false
  have hheld : ∀ o, held o = true ↔ o.heldBy (c.tx u) := by
    intro o
    cases o <;> simp [held, Op.heldBy]
  decidable_of_iff (t ≠ u ∧ (match c.tx t with
      | .active p _ => p.pending.any held
      | _ => false) = true) <| by
    refine and_congr_right fun _ => ?_
    constructor
    · intro h
      split at h
      · rename_i p σ ht
        obtain ⟨o, ho, hb⟩ := List.any_eq_true.mp h
        exact ⟨p, σ, o, ht, Proc.mem_pending.mp ho, (hheld o).mp hb⟩
      · cases h
    · rintro ⟨p, σ, o, ht, ho, hb⟩
      rw [ht]
      exact List.any_eq_true.mpr ⟨o, Proc.mem_pending.mpr ho, (hheld o).mpr hb⟩

variable [DecidableEq τ] [Fintype τ] [DecidableEq ι] [DecidableEq κ]

/-- No transaction other than `t` holds the row lock of `i`. -/
def rowFree (c : Config τ ρ κ ν ε α) (t : τ) (i : ι) : Bool :=
  decide (∀ u, u ≠ t → i ∉ (c.tx u).rows)

/-- No transaction other than `t` holds the advisory lock of `x`. -/
def keyFree (c : Config τ ρ κ ν ε α) (t : τ) (x : κ) : Bool :=
  decide (∀ u, u ≠ t → x ∉ (c.tx u).keys)

/-- Transaction `t` does a step; `none` when it is blocked or has ended. -/
def step (C : Constraints ρ ε) (c : Config τ ρ κ ν ε α) (t : τ) (ch : Choice ι ν) :
    Option (Config τ ρ κ ν ε α) :=
  match c.tx t with
  | .active p σ =>
    match ch with
    | .cancel => some { c with tx := Function.update c.tx t .cancelled }
    | _ =>
      (p.step C c.db (c.rowFree t) (c.keyFree t) ch σ).map fun r =>
        ⟨r.1, Function.update c.tx t r.2⟩
  | _ => none

/-- A list of steps that satisfy `ok`, executed in order. -/
def exec (C : Constraints ρ ε) (ok : Config τ ρ κ ν ε α → τ → Choice ι ν → Prop)
    [∀ c t ch, Decidable (ok c t ch)] (c : Config τ ρ κ ν ε α) :
    List (τ × Choice ι ν) → Option (Config τ ρ κ ν ε α)
  | [] => some c
  | s :: l => if ok c s.1 s.2 then (c.step C s.1 s.2).bind fun c' => c'.exec C ok l else none

end Config

section Run

variable {τ : Type} [DecidableEq τ] [Fintype τ] [DecidableEq ι] [DecidableEq κ]

/-- The configurations reachable from `c₀` by steps that satisfy `ok`. -/
inductive Run (C : Constraints ρ ε) (ok : Config τ ρ κ ν ε α → τ → Choice ι ν → Prop)
    (c₀ : Config τ ρ κ ν ε α) : Config τ ρ κ ν ε α → Prop where
  | refl : Run C ok c₀ c₀
  | step {c c' : Config τ ρ κ ν ε α} {t : τ} {ch : Choice ι ν} :
      Run C ok c₀ c → ok c t ch → c.step C t ch = some c' → Run C ok c₀ c'

/-- Reachability without a condition on the steps. -/
abbrev Reachable (C : Constraints ρ ε) (c₀ c : Config τ ρ κ ν ε α) : Prop :=
  Run C (fun _ _ _ => True) c₀ c

variable {C : Constraints ρ ε} {ok ok' : Config τ ρ κ ν ε α → τ → Choice ι ν → Prop}
  {c₀ c c' : Config τ ρ κ ν ε α}

theorem Run.mono (h : Run C ok c₀ c) (hok : ∀ c t ch, ok c t ch → ok' c t ch) :
    Run C ok' c₀ c := by
  induction h with
  | refl => exact .refl
  | step _ hs hst ih => exact .step ih (hok _ _ _ hs) hst

theorem Run.trans {c₁ : Config τ ρ κ ν ε α} (h : Run C ok c₀ c₁) (h' : Run C ok c₁ c) :
    Run C ok c₀ c := by
  induction h' with
  | refl => exact h
  | step _ hs hst ih => exact .step ih hs hst

/-- A run keeps a condition at each step, or has a configuration whose step does not. -/
theorem Run.keeps_or_exists (h : Run C ok c₀ c)
    (ok' : Config τ ρ κ ν ε α → τ → Choice ι ν → Prop) :
    Run C ok' c₀ c ∨ ∃ c₁ t ch, Run C ok c₀ c₁ ∧ ¬ok' c₁ t ch ∧ Run C ok c₁ c := by
  induction h with
  | refl => exact Or.inl .refl
  | @step c c' t ch hrun hok hst ih =>
    rcases ih with hall | ⟨c₁, t₁, ch₁, h₁, hnot, hrest⟩
    · by_cases hkeeps : ok' c t ch
      · exact Or.inl (.step hall hkeeps hst)
      · exact Or.inr ⟨c, t, ch, hrun, hkeeps, .step .refl hok hst⟩
    · exact Or.inr ⟨c₁, t₁, ch₁, h₁, hnot, .step hrest hok hst⟩

/-- An executed list of steps is a run. -/
theorem run_of_exec [∀ c t ch, Decidable (ok c t ch)] {l : List (τ × Choice ι ν)}
    (h : c₀.exec C ok l = some c) : Run C ok c₀ c := by
  induction l generalizing c₀ with
  | nil =>
    obtain rfl := Option.some.inj h
    exact .refl
  | cons s l ih =>
    unfold Config.exec at h
    split at h
    · obtain ⟨c₁, h₁, h₂⟩ := Option.bind_eq_some_iff.mp h
      exact Run.trans (.step .refl ‹_› h₁) (ih h₂)
    · cases h

/-- The configuration that an executable list of steps ends in. -/
def Config.execTo (C : Constraints ρ ε) (ok : Config τ ρ κ ν ε α → τ → Choice ι ν → Prop)
    [∀ c t ch, Decidable (ok c t ch)] (c₀ : Config τ ρ κ ν ε α) (l : List (τ × Choice ι ν))
    (h : (c₀.exec C ok l).isSome) : Config τ ρ κ ν ε α := (c₀.exec C ok l).get h

theorem run_execTo [∀ c t ch, Decidable (ok c t ch)] {l : List (τ × Choice ι ν)}
    (h : (c₀.exec C ok l).isSome) : Run C ok c₀ (c₀.execTo C ok l h) :=
  run_of_exec (Option.some_get h).symm

end Run

end ReadCommitted
