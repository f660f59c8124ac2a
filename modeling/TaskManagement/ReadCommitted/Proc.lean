import TaskManagement.ReadCommitted.Store

/-!
# Transaction programs under READ COMMITTED

A `Proc` is the program of one transaction: a tree of SQL statements in which what comes next may
depend on what was read.  A `Session` is the private side of a running transaction: its pending
writes, the locks it holds, and (as history) the snapshots its statements took.

* `query` takes a fresh snapshot: the committed rows, overlaid with the transaction's own writes.
* `key` takes a transaction-level advisory lock, `lock` is `SELECT ... FOR UPDATE` of one row.
* `eachRow` is the second half of an `UPDATE` or `DELETE`: the rows that matched in the snapshot
  are locked one at a time, in any order, and the `WHERE` clause is checked again on the newest
  version of each (`Session.rowStep`).
* `insert` adds a row; it reports `false` on a primary-key conflict.
* `fresh` draws a generated identifier and reserves the row it names.

`CHECK` constraints are tested at every row written, deferred constraints when the transaction
commits (`Constraints`).
-/

namespace ReadCommitted

variable {ι : Type} {ρ : ι → Type} {κ ν ε α β : Type}

/-- The constraints of a schema: `check` is tested on each row written, `deferred` on the whole
database at commit.  `some e` is the violation reported. -/
structure Constraints {ι : Type} (ρ : ι → Type) (ε : Type) where
  check : (i : ι) → ρ i → Option ε
  deferred : Store ρ → Option ε

/-- The program of a transaction: `κ` are the advisory keys, `ν` the generated values, `ε` the
errors. -/
inductive Proc {ι : Type} (ρ : ι → Type) (κ ν ε α : Type) : Type where
  /-- End of the transaction: commit. -/
  | ret (a : α)
  /-- An error: the transaction is rolled back. -/
  | throw (e : ε)
  | query (k : Store ρ → Proc ρ κ ν ε α)
  | key (x : κ) (k : Proc ρ κ ν ε α)
  | lock (i : ι) (k : Option (ρ i) → Proc ρ κ ν ε α)
  | eachRow (rest : List ι) (u : RowUpdate ρ) (n : ℕ) (k : ℕ → Proc ρ κ ν ε α)
  | insert (i : ι) (r : ρ i) (k : Bool → Proc ρ κ ν ε α)
  | fresh (f : ν → ι) (k : ν → Proc ρ κ ν ε α)

namespace Proc

/-- Run `p`, then continue with its result. -/
def bind : Proc ρ κ ν ε α → (α → Proc ρ κ ν ε β) → Proc ρ κ ν ε β
  | .ret a, f => f a
  | .throw e, _ => .throw e
  | .query k, f => .query fun s => (k s).bind f
  | .key x k, f => .key x (k.bind f)
  | .lock i k, f => .lock i fun r => (k r).bind f
  | .eachRow rest u n k, f => .eachRow rest u n fun m => (k m).bind f
  | .insert i r k, f => .insert i r fun b => (k b).bind f
  | .fresh g k, f => .fresh g fun v => (k v).bind f

instance : Monad (Proc ρ κ ν ε) where
  pure := .ret
  bind := .bind

@[simp] theorem pure_eq_ret (a : α) : (pure a : Proc ρ κ ν ε α) = .ret a := rfl

@[simp] theorem bind_eq_bind (p : Proc ρ κ ν ε α) (f : α → Proc ρ κ ν ε β) :
    p >>= f = p.bind f := rfl

theorem bind_assoc {γ : Type} (p : Proc ρ κ ν ε α) (f : α → Proc ρ κ ν ε β)
    (g : β → Proc ρ κ ν ε γ) : (p.bind f).bind g = p.bind fun a => (f a).bind g := by
  induction p with
  | ret a => rfl
  | throw e => rfl
  | query k ih => exact congrArg query (funext ih)
  | key x k ih => exact congrArg (key x) ih
  | lock i k ih => exact congrArg (lock i) (funext ih)
  | eachRow rest u n k ih => exact congrArg (eachRow rest u n) (funext ih)
  | insert i r k ih => exact congrArg (insert i r) (funext ih)
  | fresh f k ih => exact congrArg (fresh f) (funext ih)

/-! ### Statements -/

/-- A plain `SELECT`. -/
def select (f : Store ρ → α) : Proc ρ κ ν ε α := .query fun s => .ret (f s)

/-- `pg_advisory_xact_lock`. -/
def advisoryLock (x : κ) : Proc ρ κ ν ε Unit := .key x (.ret ())

/-- `SELECT ... FOR UPDATE` of the row `i`. -/
def selectForUpdate (i : ι) : Proc ρ κ ν ε (Option (ρ i)) := .lock i .ret

/-- An `UPDATE` or `DELETE`; the result is the number of rows written. -/
def update (u : RowUpdate ρ) : Proc ρ κ ν ε ℕ :=
  .query fun s => .eachRow (s.matching u) u 0 .ret

/-- `RAISE EXCEPTION` when the condition holds. -/
def raiseIf (c : Prop) [Decidable c] (e : ε) : Proc ρ κ ν ε Unit :=
  if c then .throw e else .ret ()

/-- An `INSERT` whose primary-key conflict raises `e`. -/
def insertOrRaise (i : ι) (r : ρ i) (e : ε) : Proc ρ κ ν ε Unit :=
  .insert i r fun inserted => if inserted then .ret () else .throw e

/-- `INSERT ... ON CONFLICT DO NOTHING`. -/
def insertOrIgnore (i : ι) (r : ρ i) : Proc ρ κ ν ε Unit := .insert i r fun _ => .ret ()

/-- A generated identifier. -/
def generate (f : ν → ι) : Proc ρ κ ν ε ν := .fresh f .ret

end Proc

/-! ### Sessions -/

/-- The private side of a running transaction. -/
structure Session {ι : Type} (ρ : ι → Type) (κ : Type) where
  /-- Pending writes, newest first. -/
  writes : List (Write ρ)
  /-- Rows locked by the transaction. -/
  rows : List ι
  /-- Advisory keys held by the transaction. -/
  keys : List κ
  /-- Snapshots taken so far, newest first. -/
  reads : List (Store ρ)
  /-- A row is written under its lock. -/
  writes_rows : ∀ w ∈ writes, w.1 ∈ rows

namespace Session

/-- A transaction that has just begun. -/
def start : Session ρ κ where
  writes := []
  rows := []
  keys := []
  reads := []
  writes_rows _ h := absurd h List.not_mem_nil

/-- Record a snapshot. -/
def saw (σ : Session ρ κ) (s : Store ρ) : Session ρ κ := { σ with reads := s :: σ.reads }

/-- The snapshot of the statement number `k` of the transaction, counted from 0. -/
def snapshot (σ : Session ρ κ) (k : ℕ) : Option (Store ρ) := σ.reads.reverse[k]?

/-- Take the row lock of `i`. -/
def lockRow (σ : Session ρ κ) (i : ι) : Session ρ κ :=
  { σ with
    rows := i :: σ.rows
    writes_rows := fun w h => List.mem_cons_of_mem i (σ.writes_rows w h) }

/-- Take the advisory lock of `x`. -/
def lockKey (σ : Session ρ κ) (x : κ) : Session ρ κ := { σ with keys := x :: σ.keys }

/-- Lock the row `i` and write it. -/
def write (σ : Session ρ κ) (i : ι) (v : Option (ρ i)) : Session ρ κ :=
  { σ with
    writes := ⟨i, v⟩ :: σ.writes
    rows := i :: σ.rows
    writes_rows := by
      intro w h
      rcases List.mem_cons.mp h with rfl | h
      · exact List.mem_cons_self
      · exact List.mem_cons_of_mem i (σ.writes_rows w h) }

/-- A new snapshot does not change the earlier ones. -/
theorem snapshot_saw {σ : Session ρ κ} {k : ℕ} {s : Store ρ} (h : σ.snapshot k = some s)
    (s' : Store ρ) : (σ.saw s').snapshot k = some s := by
  have hk : k < σ.reads.reverse.length := (List.getElem?_eq_some_iff.mp h).1
  show (s' :: σ.reads).reverse[k]? = some s
  rw [List.reverse_cons, List.getElem?_append_left hk]
  exact h

theorem snapshot_of_reads {σ : Session ρ κ} {s : Store ρ} {l m : List (Store ρ)}
    (h : σ.reads = m ++ s :: l) : σ.snapshot l.length = some s := by
  unfold snapshot
  rw [h, List.reverse_append, List.reverse_cons, List.append_assoc,
    List.getElem?_append_right (Nat.le_of_eq List.length_reverse)]
  simp

variable [DecidableEq ι]

/-- What a statement of the transaction sees: the committed rows under its own writes. -/
def view (σ : Session ρ κ) (db : Store ρ) : Store ρ := db.overlay σ.writes

section

variable (σ : Session ρ κ) (db : Store ρ) (s : Store ρ) (i : ι) (x : κ) (v : Option (ρ i))

@[simp] theorem start_view : (start : Session ρ κ).view db = db := rfl
@[simp] theorem saw_view : (σ.saw s).view db = σ.view db := rfl
@[simp] theorem lockRow_view : (σ.lockRow i).view db = σ.view db := rfl
@[simp] theorem lockKey_view : (σ.lockKey x).view db = σ.view db := rfl
@[simp] theorem write_view : (σ.write i v).view db = (σ.view db).set i v := rfl

omit [DecidableEq ι]

@[simp] theorem saw_rows : (σ.saw s).rows = σ.rows := rfl
@[simp] theorem saw_keys : (σ.saw s).keys = σ.keys := rfl
@[simp] theorem saw_writes : (σ.saw s).writes = σ.writes := rfl
@[simp] theorem saw_reads : (σ.saw s).reads = s :: σ.reads := rfl
@[simp] theorem lockRow_rows : (σ.lockRow i).rows = i :: σ.rows := rfl
@[simp] theorem lockRow_keys : (σ.lockRow i).keys = σ.keys := rfl
@[simp] theorem lockRow_writes : (σ.lockRow i).writes = σ.writes := rfl
@[simp] theorem lockRow_reads : (σ.lockRow i).reads = σ.reads := rfl
@[simp] theorem lockKey_rows : (σ.lockKey x).rows = σ.rows := rfl
@[simp] theorem lockKey_keys : (σ.lockKey x).keys = x :: σ.keys := rfl
@[simp] theorem lockKey_writes : (σ.lockKey x).writes = σ.writes := rfl
@[simp] theorem lockKey_reads : (σ.lockKey x).reads = σ.reads := rfl
@[simp] theorem write_rows : (σ.write i v).rows = i :: σ.rows := rfl
@[simp] theorem write_keys : (σ.write i v).keys = σ.keys := rfl
@[simp] theorem write_writes : (σ.write i v).writes = ⟨i, v⟩ :: σ.writes := rfl
@[simp] theorem write_reads : (σ.write i v).reads = σ.reads := rfl

end

/-- A row the transaction has not locked is seen as committed. -/
theorem view_row_of_notMem (σ : Session ρ κ) (db : Store ρ) {i : ι} (h : i ∉ σ.rows) :
    (σ.view db).row i = db.row i :=
  db.overlay_row_of_forall_ne fun w hw hi => h (hi ▸ σ.writes_rows w hw)

/-- The view of a row depends on the committed database only through that row. -/
theorem view_row_congr (σ : Session ρ κ) {db db' : Store ρ} {i : ι} (h : db.row i = db'.row i) :
    (σ.view db).row i = (σ.view db').row i :=
  Store.overlay_row_congr σ.writes h

/-! ### Steps of a session -/

/-- `SELECT ... FOR UPDATE` locks the row it returns. -/
def lockStep (σ : Session ρ κ) (db : Store ρ) (i : ι) : Session ρ κ :=
  match (σ.view db).row i with
  | none => σ
  | some _ => σ.lockRow i

/-- One row of an `UPDATE`: lock it, check `WHERE` again on the newest version, write. -/
def rowStep (C : Constraints ρ ε) (u : RowUpdate ρ) (db : Store ρ) (i : ι) (n : ℕ)
    (σ : Session ρ κ) : Except ε (ℕ × Session ρ κ) :=
  match (σ.view db).row i with
  | none => .ok (n, σ)
  | some r =>
    match u i r with
    | none => .ok (n, σ.lockRow i)
    | some none => .ok (n + 1, σ.write i none)
    | some (some r') =>
      match C.check i r' with
      | some e => .error e
      | none => .ok (n + 1, σ.write i (some r'))

section

variable {C : Constraints ρ ε} {u : RowUpdate ρ} {db : Store ρ} {i : ι} {n n' : ℕ} {e : ε}
  {σ σ' : Session ρ κ} {r r' : ρ i}

/-- A row that matches is written unless it violates a constraint. -/
theorem rowStep_write (hr : (σ.view db).row i = some r) (hu : u i r = some (some r')) :
    σ.rowStep C u db i n = match C.check i r' with
      | some e => .error e
      | none => .ok (n + 1, σ.write i (some r')) := by
  unfold rowStep
  rw [hr]
  dsimp only
  rw [hu]

theorem rowStep_ok_of_write (hr : (σ.view db).row i = some r) (hu : u i r = some (some r'))
    (h : σ.rowStep C u db i n = .ok (n', σ')) :
    C.check i r' = none ∧ n' = n + 1 ∧ σ' = σ.write i (some r') := by
  rw [rowStep_write hr hu] at h
  split at h
  · cases h
  · obtain ⟨rfl, rfl⟩ := Prod.mk.inj (Except.ok.inj h)
    exact ⟨‹_›, rfl, rfl⟩

/-- What one row of an `UPDATE` can do. -/
theorem rowStep_cases (h : σ.rowStep C u db i n = .ok (n', σ')) :
    ((σ.view db).row i = none ∧ n' = n ∧ σ' = σ) ∨
    (∃ r, (σ.view db).row i = some r ∧ u i r = none ∧ n' = n ∧ σ' = σ.lockRow i) ∨
    (∃ r, (σ.view db).row i = some r ∧ u i r = some none ∧ n' = n + 1 ∧ σ' = σ.write i none) ∨
    (∃ r r', (σ.view db).row i = some r ∧ u i r = some (some r') ∧ C.check i r' = none ∧
      n' = n + 1 ∧ σ' = σ.write i (some r')) := by
  cases hr : (σ.view db).row i with
  | none =>
    unfold rowStep at h
    rw [hr] at h
    obtain ⟨rfl, rfl⟩ := Prod.mk.inj (Except.ok.inj h)
    exact Or.inl ⟨rfl, rfl, rfl⟩
  | some r =>
    right
    cases hu : u i r with
    | some w =>
      cases w with
      | some r' =>
        obtain ⟨hc, hn, hs⟩ := rowStep_ok_of_write hr hu h
        exact Or.inr (Or.inr ⟨r, r', rfl, hu, hc, hn, hs⟩)
      | none =>
        unfold rowStep at h
        rw [hr] at h
        dsimp only at h
        rw [hu] at h
        obtain ⟨rfl, rfl⟩ := Prod.mk.inj (Except.ok.inj h)
        exact Or.inr (Or.inl ⟨r, rfl, hu, rfl, rfl⟩)
    | none =>
      unfold rowStep at h
      rw [hr] at h
      dsimp only at h
      rw [hu] at h
      obtain ⟨rfl, rfl⟩ := Prod.mk.inj (Except.ok.inj h)
      exact Or.inl ⟨r, rfl, hu, rfl, rfl⟩

/-- An error at a row is a violated constraint of the version to be written. -/
theorem rowStep_error (h : σ.rowStep C u db i n = .error e) :
    ∃ r r', (σ.view db).row i = some r ∧ u i r = some (some r') ∧ C.check i r' = some e := by
  unfold rowStep at h
  split at h
  · cases h
  · rename_i r hr
    split at h
    · cases h
    · cases h
    · rename_i r' hu
      split at h
      · obtain rfl := Except.error.inj h
        exact ⟨r, r', hr, hu, by assumption⟩
      · cases h

end

/-- An `INSERT`: `false` when the primary key is taken. -/
def insertStep (C : Constraints ρ ε) (db : Store ρ) (i : ι) (r : ρ i) (σ : Session ρ κ) :
    Except ε (Bool × Session ρ κ) :=
  match (σ.view db).row i with
  | some _ => .ok (false, σ)
  | none =>
    match C.check i r with
    | some e => .error e
    | none => .ok (true, σ.write i (some r))

section

variable {C : Constraints ρ ε} {db : Store ρ} {i : ι} {r : ρ i} {σ σ' : Session ρ κ} {b : Bool}
  {e : ε}

/-- What an `INSERT` can do: meet a row with its primary key, or write the checked row. -/
theorem insertStep_cases (h : σ.insertStep C db i r = .ok (b, σ')) :
    ((σ.view db).row i ≠ none ∧ b = false ∧ σ' = σ) ∨
    ((σ.view db).row i = none ∧ C.check i r = none ∧ b = true ∧ σ' = σ.write i (some r)) := by
  unfold insertStep at h
  split at h
  · rename_i r' hr
    obtain ⟨rfl, rfl⟩ := Prod.mk.inj (Except.ok.inj h)
    exact Or.inl ⟨by rw [hr]; exact Option.some_ne_none r', rfl, rfl⟩
  · rename_i hr
    split at h
    · cases h
    · rename_i hc
      obtain ⟨rfl, rfl⟩ := Prod.mk.inj (Except.ok.inj h)
      exact Or.inr ⟨hr, hc, rfl, rfl⟩

/-- An error of an `INSERT` is a violated constraint of its new row. -/
theorem insertStep_error (h : σ.insertStep C db i r = .error e) :
    (σ.view db).row i = none ∧ C.check i r = some e := by
  unfold insertStep at h
  split at h
  · cases h
  · rename_i hr
    split at h
    · rename_i hc
      obtain rfl := Except.error.inj h
      exact ⟨hr, hc⟩
    · cases h

end

end Session

end ReadCommitted
