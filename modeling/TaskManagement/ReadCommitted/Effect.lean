import TaskManagement.ReadCommitted.Soundness

/-!
# Effects of a transaction, row by row

An `Effect` relates the committed version of every row to the version that a transaction is about
to commit.  Since a session sees a row that it has not locked as it is committed, an effect that
admits unchanged rows is stable under the commits of other transactions, whatever these do to rows
that are not locked (`rowProtocol`, `Effect.stable`).  A program all of whose statements conform to
an effect has it (`Proc.Conforms`, `wp_of_conforms`).
-/

namespace ReadCommitted

variable {ι : Type} {ρ : ι → Type} {κ ν ε α Λ : Type}

/-- The protocol in which other transactions may do anything except to rows that are locked. -/
def rowProtocol (inv : Store ρ → Prop) (assume : Λ → Op ι κ → Session ρ κ → Store ρ → Prop) :
    Protocol Λ ρ κ ε where
  inv := inv
  rely σ db db' := ∀ i ∈ σ.rows, db'.row i = db.row i
  assume := assume
  require _ _ _ := True
  allowed _ := True
  rely_refl _ _ _ _ := rfl
  rely_trans _ _ _ _ h h' i hi := (h' i hi).trans (h i hi)

/-- A relation between the committed and the pending version of each row. -/
structure Effect {ι : Type} (ρ : ι → Type) where
  rel : (i : ι) → Option (ρ i) → Option (ρ i) → Prop
  /-- A row may stay as it is. -/
  refl : ∀ i o, rel i o o

/-- Every row may become anything. -/
def Effect.any : Effect ρ where
  rel _ _ _ := True
  refl _ _ := trivial

/-- No row changes. -/
def Effect.unchanged : Effect ρ where
  rel _ o o' := o' = o
  refl _ _ := rfl

/-- The statement writes no version of a row that `R` does not admit. -/
def RowUpdate.Conforms (u : RowUpdate ρ) (R : Effect ρ) : Prop :=
  ∀ i o r w, R.rel i o (some r) → u i r = some w → R.rel i o w

/-! ### Programs whose every statement conforms -/

namespace Proc

/-- No statement of the program writes a version of a row that `R` does not admit, whatever it
reads. -/
def Conforms (R : Effect ρ) : Proc ρ κ ν ε α → Prop
  | .ret _ | .throw _ => True
  | .query k => ∀ s, (k s).Conforms R
  | .key _ k => k.Conforms R
  | .lock _ k => ∀ r, (k r).Conforms R
  | .eachRow _ u _ k => u.Conforms R ∧ ∀ n, (k n).Conforms R
  | .insert i r k => (∀ o, R.rel i o none → R.rel i o (some r)) ∧ ∀ b, (k b).Conforms R
  | .fresh _ k => ∀ v, (k v).Conforms R

variable {R : Effect ρ}

theorem Conforms.bind {p : Proc ρ κ ν ε α} {f : α → Proc ρ κ ν ε β} (hp : p.Conforms R)
    (hf : ∀ a, (f a).Conforms R) : (p.bind f).Conforms R := by
  induction p with
  | ret a => exact hf a
  | throw e => trivial
  | query k ih => exact fun s => ih s (hp s)
  | key x k ih => exact ih hp
  | lock i k ih => exact fun r => ih r (hp r)
  | eachRow rest u n k ih => exact ⟨hp.1, fun m => ih m (hp.2 m)⟩
  | insert i r k ih => exact ⟨hp.1, fun b => ih b (hp.2 b)⟩
  | fresh f k ih => exact fun v => ih v (hp v)

theorem conforms_select {f : Store ρ → α} : (select f : Proc ρ κ ν ε α).Conforms R :=
  fun _ => trivial

theorem conforms_advisoryLock {x : κ} : (advisoryLock x : Proc ρ κ ν ε Unit).Conforms R := trivial

theorem conforms_selectForUpdate {i : ι} :
    (selectForUpdate i : Proc ρ κ ν ε (Option (ρ i))).Conforms R := fun _ => trivial

theorem conforms_raiseIf {c : Prop} [Decidable c] {e : ε} :
    (raiseIf c e : Proc ρ κ ν ε Unit).Conforms R := by
  unfold raiseIf
  split <;> trivial

theorem conforms_generate {f : ν → ι} : (generate f : Proc ρ κ ν ε ν).Conforms R :=
  fun _ => trivial

theorem conforms_update [DecidableEq ι] {u : RowUpdate ρ} (hu : u.Conforms R) :
    (update u : Proc ρ κ ν ε ℕ).Conforms R := fun _ => ⟨hu, fun _ => trivial⟩

theorem conforms_insertOrRaise {i : ι} {r : ρ i} {e : ε}
    (h : ∀ o, R.rel i o none → R.rel i o (some r)) :
    (insertOrRaise i r e : Proc ρ κ ν ε Unit).Conforms R :=
  ⟨h, fun b => by cases b <;> trivial⟩

theorem conforms_insertOrIgnore {i : ι} {r : ρ i}
    (h : ∀ o, R.rel i o none → R.rel i o (some r)) :
    (insertOrIgnore i r : Proc ρ κ ν ε Unit).Conforms R := ⟨h, fun _ => trivial⟩

theorem conforms_any (p : Proc ρ κ ν ε α) : p.Conforms .any := by
  induction p with
  | ret a => trivial
  | throw e => trivial
  | query k ih => exact ih
  | key x k ih => exact ih
  | lock i k ih => exact ih
  | eachRow rest u n k ih => exact ⟨fun _ _ _ _ _ _ => trivial, ih⟩
  | insert i r k ih => exact ⟨fun _ _ => trivial, ih⟩
  | fresh f k ih => exact ih

end Proc

/-- An assertion that neither other transactions nor any statement of its own invalidates. -/
structure Persistent (P : Protocol Λ ρ κ ε) (B : Session ρ κ → Store ρ → Prop) : Prop
    extends P.Stable B where
  lockKey : ∀ {σ db} x, B σ db → B (σ.lockKey x) db
  lockRow : ∀ {σ db} i, B σ db → B (σ.lockRow i) db
  write : ∀ {σ db} i v, B σ db → B (σ.write i v) db

section

variable {inv : Store ρ → Prop} {assume : Λ → Op ι κ → Session ρ κ → Store ρ → Prop}

theorem persistent_true {P : Protocol Λ ρ κ ε} : Persistent P fun _ _ => True where
  rely _ _ _ := trivial
  saw _ _ := trivial
  lockKey _ _ := trivial
  lockRow _ _ := trivial
  write _ _ _ := trivial

/-- A locked row keeps its committed version. -/
theorem persistent_held (i : ι) (r : ρ i) : Persistent (rowProtocol inv assume : Protocol Λ ρ κ ε)
    fun σ db => i ∈ σ.rows ∧ db.row i = some r where
  rely h hr _ := ⟨h.1, (hr _ h.1).trans h.2⟩
  saw _ h := h
  lockKey _ h := h
  lockRow _ h := ⟨List.mem_cons_of_mem _ h.1, h.2⟩
  write _ _ h := ⟨List.mem_cons_of_mem _ h.1, h.2⟩

/-- A transaction keeps its earlier snapshots. -/
theorem persistent_snapshot {P : Protocol Λ ρ κ ε} (k : ℕ) (s : Store ρ) :
    Persistent P fun σ _ => σ.snapshot k = some s where
  rely h _ _ := h
  saw s' h := Session.snapshot_saw h s'
  lockKey _ h := h
  lockRow _ h := h
  write _ _ h := h

theorem Persistent.and {P : Protocol Λ ρ κ ε} {B B' : Session ρ κ → Store ρ → Prop}
    (hB : Persistent P B) (hB' : Persistent P B') :
    Persistent P fun σ db => B σ db ∧ B' σ db where
  toStable := hB.toStable.and hB'.toStable
  lockKey x h := ⟨hB.lockKey x h.1, hB'.lockKey x h.2⟩
  lockRow i h := ⟨hB.lockRow i h.1, hB'.lockRow i h.2⟩
  write i v h := ⟨hB.write i v h.1, hB'.write i v h.2⟩

variable [DecidableEq ι]

/-- A commit owes nothing but the invariant. -/
theorem rowProtocol_commits {C : Constraints ρ ε} {σ : Session ρ κ} {db : Store ρ}
    (h : C.deferred (σ.view db) = none → inv (σ.view db)) :
    Commits C (rowProtocol inv assume : Protocol Λ ρ κ ε) σ db where
  deferred _ _ := trivial
  inv := h
  rely _ _ hap i hi := σ.view_row_of_notMem db fun hi' => hap.rows i hi' hi

/-- The pending version of every row is related to the committed one. -/
def Effect.Holds (R : Effect ρ) (σ : Session ρ κ) (db : Store ρ) : Prop :=
  ∀ i, R.rel i (db.row i) ((σ.view db).row i)

variable {R R' : Effect ρ} {σ : Session ρ κ} {db : Store ρ}

theorem Effect.stable (R : Effect ρ) :
    (rowProtocol inv assume : Protocol Λ ρ κ ε).Stable R.Holds where
  rely {σ db db'} h hr _ := by
    intro i
    by_cases hi : i ∈ σ.rows
    · rw [σ.view_row_congr (hr i hi), hr i hi]
      exact h i
    · rw [σ.view_row_of_notMem db' hi]
      exact R.refl i _
  saw _ h := h

theorem Effect.any_holds : Effect.any.Holds σ db := fun _ => trivial

/-- A session without writes has every effect. -/
theorem Effect.holds_of_view_eq (R : Effect ρ) (h : σ.view db = db) : R.Holds σ db := by
  intro i
  rw [h]
  exact R.refl i _

theorem Effect.Holds.mono (h : R.Holds σ db) (hR : ∀ i o o', R.rel i o o' → R'.rel i o o') :
    R'.Holds σ db := fun i => hR i _ _ (h i)

/-- A session that has changed nothing has every effect. -/
theorem Effect.Holds.of_unchanged (h : Effect.unchanged.Holds σ db) : R.Holds σ db := by
  intro i
  have hi : (σ.view db).row i = db.row i := h i
  rw [hi]
  exact R.refl i _

/-- Writing one row keeps an effect when the new version of the row does. -/
theorem Effect.Holds.write (h : R.Holds σ db) {i : ι} {v : Option (ρ i)}
    (hv : R.rel i (db.row i) v) : R.Holds (σ.write i v) db := by
  intro j
  rw [Session.write_view]
  by_cases hj : j = i
  · subst hj
    rwa [Store.set_row_self]
  · rw [Store.set_row_of_ne _ _ hj]
    exact h j

variable {C : Constraints ρ ε} {ℓ : Λ} {B : Session ρ κ → Store ρ → Prop}

theorem rowInvariant_effect {u : RowUpdate ρ} (hu : u.Conforms R)
    (hB : Persistent (rowProtocol inv assume : Protocol Λ ρ κ ε) B) :
    RowInvariant C (rowProtocol inv assume) ℓ u fun _ _ σ db => R.Holds σ db ∧ B σ db := by
  have hst := R.stable.and hB.toStable
  refine ⟨?_, ?_, ?_, ?_⟩
  · exact fun h hr hi => hst.rely h hr hi
  · exact fun _ _ _ => trivial
  · rintro rest n σ db i n' σ' - ⟨h, hb⟩ - - hstep
    rcases Session.rowStep_cases hstep with
      ⟨-, -, rfl⟩ | ⟨r, -, -, -, rfl⟩ | ⟨r, hr, hur, -, rfl⟩ | ⟨r, r', hr, hur, -, -, rfl⟩
    · exact ⟨h, hb⟩
    · exact ⟨h, hB.lockRow _ hb⟩
    · exact ⟨h.write (hu i _ r _ (hr ▸ h i) hur), hB.write _ _ hb⟩
    · exact ⟨h.write (hu i _ r _ (hr ▸ h i) hur), hB.write _ _ hb⟩
  · exact fun _ _ _ _ _ => trivial

/-- A program whose every statement conforms to `R` has the effect `R`. -/
theorem wp_of_conforms {p : Proc ρ κ ν ε α} (hp : p.Conforms R)
    (hB : Persistent (rowProtocol inv assume : Protocol Λ ρ κ ε) B) (h : R.Holds σ db)
    (hb : B σ db) :
    wp C (rowProtocol inv assume) ℓ p (fun _ σ db => R.Holds σ db ∧ B σ db) σ db := by
  have hst := R.stable.and hB.toStable
  induction p generalizing σ db with
  | ret a => exact wp_ret fun db' hr hi => hst.rely ⟨h, hb⟩ hr hi
  | throw e => trivial
  | query k ih =>
    intro db' hr hi
    obtain ⟨h', hb'⟩ := hst.rely ⟨h, hb⟩ hr hi
    exact ⟨trivial, fun _ => ih _ (hp _) h' (hB.saw _ hb')⟩
  | key x k ih =>
    intro db' hr hi
    obtain ⟨h', hb'⟩ := hst.rely ⟨h, hb⟩ hr hi
    exact ⟨trivial, fun _ => ih hp h' (hB.lockKey x hb')⟩
  | lock i k ih =>
    intro db' hr hi
    obtain ⟨h', hb'⟩ := hst.rely ⟨h, hb⟩ hr hi
    refine ⟨trivial, fun _ => ?_⟩
    unfold Session.lockStep
    split
    · exact ih _ (hp _) h' hb'
    · exact ih _ (hp _) h' (hB.lockRow i hb')
  | eachRow rest u n k ih =>
    exact ⟨_, rowInvariant_effect hp.1 hB, ⟨h, hb⟩, fun m σ' db' _ h' => ih m (hp.2 m) h'.1 h'.2⟩
  | insert i r k ih =>
    intro db' hr hi
    obtain ⟨h', hb'⟩ := hst.rely ⟨h, hb⟩ hr hi
    refine ⟨trivial, fun _ => ⟨fun _ _ => trivial, fun b σ' hstep => ?_⟩⟩
    rcases Session.insertStep_cases hstep with ⟨-, rfl, rfl⟩ | ⟨hnone, -, rfl, rfl⟩
    · exact ih _ (hp.2 _) h' hb'
    · exact ih _ (hp.2 _) (h'.write (hp.1 _ (hnone ▸ h' i))) (hB.write _ _ hb')
  | fresh f k ih =>
    intro db' hr hi v _ _
    obtain ⟨h', hb'⟩ := hst.rely ⟨h, hb⟩ hr hi
    exact ih v (hp v) h' (hB.lockRow _ hb')

/-! ### Sessions that only read -/

/-- A session that has changed nothing and has taken the snapshots `l`, newest first. -/
structure Reading (l : List (Store ρ)) (σ : Session ρ κ) (db : Store ρ) : Prop where
  unchanged : Effect.unchanged.Holds σ db
  reads : σ.reads = l

variable {l : List (Store ρ)} {db' : Store ρ}

theorem reading_start : Reading [] (Session.start : Session ρ κ) db :=
  ⟨Effect.unchanged.holds_of_view_eq rfl, rfl⟩

theorem Reading.view_row (h : Reading l σ db) (i : ι) : (σ.view db).row i = db.row i :=
  h.unchanged i

theorem Reading.rely (h : Reading l σ db)
    (hr : (rowProtocol inv assume : Protocol Λ ρ κ ε).rely σ db db') (hi : inv db') :
    Reading l σ db' := ⟨Effect.unchanged.stable.rely h.unchanged hr hi, h.reads⟩

theorem Reading.saw (h : Reading l σ db) (s : Store ρ) : Reading (s :: l) (σ.saw s) db :=
  ⟨h.unchanged, congrArg (s :: ·) h.reads⟩

/-- The newest snapshot. -/
theorem Reading.snapshot_length {s : Store ρ} (h : Reading (s :: l) σ db) :
    σ.snapshot l.length = some s := by
  show σ.reads.reverse[l.length]? = some s
  rw [h.reads, List.reverse_cons, ← List.length_reverse]
  exact List.getElem?_concat_length

/-- A `SELECT` adds its snapshot, which shows the committed rows. -/
theorem wp_select_reading_inv {f : Store ρ → α} (h : Reading l σ db) :
    wp C (rowProtocol inv assume) ℓ (Proc.select f : Proc ρ κ ν ε α)
      (fun a σ db => ∃ σ₀ db₀, Reading l σ₀ db₀ ∧ assume ℓ .query σ₀ db₀ ∧ inv db₀ ∧
        a = f (σ₀.view db₀) ∧ Reading (σ₀.view db₀ :: l) σ db) σ db := by
  refine wp_select fun db₁ hr₁ hi₁ => ⟨trivial, fun ha db₂ hr₂ hi₂ => ?_⟩
  have h₁ := h.rely hr₁ hi₁
  exact ⟨σ, db₁, h₁, ha, hi₁, rfl, (h₁.saw _).rely hr₂ hi₂⟩

theorem wp_select_reading {f : Store ρ → α} (h : Reading l σ db) :
    wp C (rowProtocol inv assume) ℓ (Proc.select f : Proc ρ κ ν ε α)
      (fun a σ db => ∃ σ₀ db₀, Reading l σ₀ db₀ ∧ assume ℓ .query σ₀ db₀ ∧
        a = f (σ₀.view db₀) ∧ Reading (σ₀.view db₀ :: l) σ db) σ db :=
  wp_mono (wp_select_reading_inv h) fun _ _ _ _ ⟨σ₀, db₀, h₀, ha, _, hf, h₁⟩ =>
    ⟨σ₀, db₀, h₀, ha, hf, h₁⟩

theorem wp_raiseIf_reading {c : Prop} [Decidable c] {e : ε} (h : Reading l σ db) :
    wp C (rowProtocol inv assume) ℓ (Proc.raiseIf c e : Proc ρ κ ν ε Unit)
      (fun _ σ db => ¬c ∧ Reading l σ db) σ db :=
  wp_raiseIf (fun _ => trivial) fun hc _ hr hi => ⟨hc, h.rely hr hi⟩

theorem wp_ret_reading {a : α} (h : Reading l σ db) :
    wp C (rowProtocol inv assume) ℓ (.ret a : Proc ρ κ ν ε α)
      (fun b σ db => b = a ∧ Reading l σ db) σ db :=
  wp_ret fun _ hr hi => ⟨rfl, h.rely hr hi⟩

end

end ReadCommitted
