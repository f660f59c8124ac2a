import TaskManagement.ReadCommitted.Rewrite
import TaskManagement.ReadCommitted.Validity
import TaskManagement.ReadCommitted.Outcomes

/-!
# Rows with entries in unique indexes

A unique index is a table whose rows are its entries.  `Indexes ρ` says which entries belong to a
row and what no statement changes of a row (`Keeps`), the columns of the entries among it.

A database is `Complete` when every row has its entries.  A transaction that inserts a row inserts
the entries after it, so that in between its view misses some: `Tidy missing`.  `Maintains` is the
judgement that a program gets from one such state to another; there is one rule for each statement,
and `Maintains.bind` composes them.  When every transaction maintains `Tidy []`, the committed
database is complete in every run, whatever the interleaving, rows only change as `Keeps` says
(`grows_of_run`), and a transaction ends with an allowed error only (`allowed_of_reachable`).  The
rows that a query reads satisfy their checks, too (`Maintains.query`).
-/

namespace ReadCommitted

variable {ι : Type} {ρ : ι → Type} {κ ν ε α β τ : Type}

/-- The entries of a row, and what is kept of it. -/
structure Indexes {ι : Type} (ρ : ι → Type) where
  entries : (i : ι) → ρ i → List ((j : ι) × ρ j)
  Keeps : (i : ι) → ρ i → ρ i → Prop
  keeps_refl : ∀ i r, Keeps i r r
  keeps_trans : ∀ {i r r' r''}, Keeps i r r' → Keeps i r' r'' → Keeps i r r''
  /-- The columns of the entries are kept. -/
  entries_eq : ∀ {i r r'}, Keeps i r r' → entries i r' = entries i r
  /-- An entry is not changed. -/
  entry_eq : ∀ {i r j v v'}, ⟨j, v⟩ ∈ entries i r → Keeps j v v' → v' = v

namespace Indexes

variable (D : Indexes ρ)

/-- Every row has its entries, except for those that are missing. -/
def Complete (missing : List ((j : ι) × ρ j)) (db : Store ρ) : Prop :=
  ∀ i r, db.row i = some r → ∀ x ∈ D.entries i r, x ∈ missing ∨ db.row x.1 = some x.2

/-- No row is deleted, and what is kept is kept. -/
def Grows (db db' : Store ρ) : Prop :=
  ∀ i r, db.row i = some r → ∃ r', db'.row i = some r' ∧ D.Keeps i r r'

/-- The discipline of transactions that maintain the indexes; the pending writes have been
checked. -/
def protocol (C : Constraints ρ ε) [DecidableEq ι] (allowed : ε → Prop) :
    Protocol Unit ρ κ ε where
  inv := D.Complete []
  rely σ db db' := (∀ i ∈ σ.rows, db'.row i = db.row i) ∧ D.Grows db db'
  assume _ _ σ db := Checked C (σ.view db)
  require _ _ _ := True
  allowed := allowed
  rely_refl _ _ := ⟨fun _ _ => rfl, fun i r hr => ⟨r, hr, D.keeps_refl i r⟩⟩
  rely_trans _ _ _ _ h h' := by
    refine ⟨fun i hi => (h'.1 i hi).trans (h.1 i hi), fun i r hr => ?_⟩
    obtain ⟨r', hr', hk⟩ := h.2 i r hr
    obtain ⟨r'', hr'', hk'⟩ := h'.2 i r' hr'
    exact ⟨r'', hr'', D.keeps_trans hk hk'⟩

variable {D} {missing missing' : List ((j : ι) × ρ j)} {db db' db'' : Store ρ}

theorem Grows.refl (db : Store ρ) : D.Grows db db := fun i r hr => ⟨r, hr, D.keeps_refl i r⟩

theorem Grows.trans (h : D.Grows db db') (h' : D.Grows db' db'') : D.Grows db db'' := by
  intro i r hr
  obtain ⟨r', hr', hk⟩ := h i r hr
  obtain ⟨r'', hr'', hk'⟩ := h' i r' hr'
  exact ⟨r'', hr'', D.keeps_trans hk hk'⟩

/-- An entry stays. -/
theorem Grows.entry (h : D.Grows db db') {i : ι} {r : ρ i} {x : (j : ι) × ρ j}
    (hx : x ∈ D.entries i r) (hrow : db.row x.1 = some x.2) : db'.row x.1 = some x.2 := by
  obtain ⟨v, hv, hk⟩ := h x.1 x.2 hrow
  rw [hv, D.entry_eq hx hk]

theorem complete_empty : D.Complete [] .empty := by
  intro i r hr
  cases hr

/-- Two rows with one entry in common are the same row. -/
theorem Complete.unique (h : D.Complete [] db) {i i' : ι} {r : ρ i} {r' : ρ i'} {j : ι} {v v' : ρ j}
    (hr : db.row i = some r) (hr' : db.row i' = some r') (hv : ⟨j, v⟩ ∈ D.entries i r)
    (hv' : ⟨j, v'⟩ ∈ D.entries i' r') : v = v' := by
  have hrow := (h i r hr _ hv).resolve_left List.not_mem_nil
  have hrow' := (h i' r' hr' _ hv').resolve_left List.not_mem_nil
  exact Option.some.inj (hrow.symm.trans hrow')

variable [DecidableEq ι]

theorem Complete.set_kept (h : D.Complete missing db) {i : ι} {r r' : ρ i}
    (hr : db.row i = some r) (hk : D.Keeps i r r') :
    D.Complete missing (db.set i (some r')) := by
  -- an entry is not the row that is written, or that row has not changed
  have hentry : ∀ {j : ι} {s : ρ j} {x : (j : ι) × ρ j}, x ∈ D.entries j s →
      db.row x.1 = some x.2 → (db.set i (some r')).row x.1 = some x.2 := by
    rintro j s ⟨k, v⟩ hx hrow
    by_cases hki : k = i
    · subst hki
      obtain rfl := Option.some.inj (hrow.symm.trans hr)
      rw [D.entry_eq hx hk]
      exact db.set_row_self k _
    · exact (db.set_row_of_ne _ hki).trans hrow
  intro j s hs x hx
  by_cases hji : j = i
  · subst hji
    obtain rfl := Option.some.inj ((db.set_row_self j (some r')).symm.trans hs)
    rw [D.entries_eq hk] at hx
    exact (h j r hr x hx).imp_right (hentry hx)
  · rw [db.set_row_of_ne _ hji] at hs
    exact (h j s hs x hx).imp_right (hentry hx)

theorem Complete.set_new (h : D.Complete missing db) {i : ι} {r : ρ i} (hi : db.row i = none)
    (hentries : ∀ x ∈ D.entries i r, x ∈ missing')
    (hmissing : ∀ x ∈ missing, x = ⟨i, r⟩ ∨ x ∈ missing') :
    D.Complete missing' (db.set i (some r)) := by
  rintro j s hs ⟨k, v⟩ hx
  by_cases hji : j = i
  · subst hji
    obtain rfl := Option.some.inj ((db.set_row_self j (some r)).symm.trans hs)
    exact Or.inl (hentries _ hx)
  · rw [db.set_row_of_ne _ hji] at hs
    rcases h j s hs _ hx with hx | hrow
    · rcases hmissing _ hx with he | hx
      · obtain ⟨rfl, hv⟩ := Sigma.mk.inj_iff.mp he
        obtain rfl := eq_of_heq hv
        exact Or.inr (db.set_row_self k (some v))
      · exact Or.inl hx
    · have hki : k ≠ i := by
        rintro rfl
        cases hrow.symm.trans hi
      exact Or.inr ((db.set_row_of_ne _ hki).trans hrow)

/-! ### Sessions -/

variable {σ : Session ρ κ} {C : Constraints ρ ε} {allowed : ε → Prop}

/-- What a session sees is complete up to what is missing, and has grown. -/
structure Tidy (D : Indexes ρ) (missing : List ((j : ι) × ρ j)) (σ : Session ρ κ)
    (db : Store ρ) : Prop where
  complete : D.Complete missing (σ.view db)
  grows : D.Grows db (σ.view db)

theorem Tidy.of_view {σ' : Session ρ κ} (h : D.Tidy missing σ db)
    (hview : σ'.view db = σ.view db) : D.Tidy missing σ' db := by
  constructor
  · rw [hview]
    exact h.complete
  · rw [hview]
    exact h.grows

theorem tidy_start (h : D.Complete [] db) : D.Tidy [] (.start : Session ρ κ) db :=
  ⟨h, Grows.refl db⟩

/-- The commit of another transaction: what is locked has not changed, and what is not is seen as
committed. -/
theorem Tidy.rely (h : D.Tidy missing σ db) (hlocked : ∀ i ∈ σ.rows, db'.row i = db.row i)
    (hgrows : D.Grows db db') (hcomplete : D.Complete [] db') : D.Tidy missing σ db' := by
  have hview : ∀ {i}, i ∈ σ.rows → (σ.view db').row i = (σ.view db).row i :=
    fun hi => σ.view_row_congr (hlocked _ hi)
  refine ⟨fun i r hr x hx => ?_, fun i r hr => ?_⟩
  · by_cases hi : i ∈ σ.rows
    · rw [hview hi] at hr
      refine (h.complete i r hr x hx).imp_right fun hrow => ?_
      by_cases hj : x.1 ∈ σ.rows
      · exact (hview hj).trans hrow
      · rw [σ.view_row_of_notMem db hj] at hrow
        rw [σ.view_row_of_notMem db' hj]
        exact hgrows.entry hx hrow
    · rw [σ.view_row_of_notMem db' hi] at hr
      have hrow := (hcomplete i r hr x hx).resolve_left List.not_mem_nil
      refine Or.inr ?_
      by_cases hj : x.1 ∈ σ.rows
      · rw [hlocked _ hj] at hrow
        exact (hview hj).trans (h.grows.entry hx hrow)
      · exact (σ.view_row_of_notMem db' hj).trans hrow
  · by_cases hi : i ∈ σ.rows
    · rw [hview hi]
      rw [hlocked i hi] at hr
      exact h.grows i r hr
    · exact ⟨r, (σ.view_row_of_notMem db' hi).trans hr, D.keeps_refl i r⟩

theorem tidy_stable : (D.protocol C allowed : Protocol Unit ρ κ ε).Stable (D.Tidy missing) where
  rely h hr hi := h.rely hr.1 hr.2 hi
  saw _ h := h.of_view rfl

/-- A row that is seen is written. -/
theorem Tidy.write_kept (h : D.Tidy missing σ db) {i : ι} {r r' : ρ i}
    (hr : (σ.view db).row i = some r) (hk : D.Keeps i r r') :
    D.Tidy missing (σ.write i (some r')) db := by
  refine ⟨h.complete.set_kept hr hk, fun j s hs => ?_⟩
  obtain ⟨s', hs', hks⟩ := h.grows j s hs
  by_cases hji : j = i
  · subst hji
    obtain rfl := Option.some.inj (hr.symm.trans hs')
    exact ⟨r', Store.set_row_self _ j _, D.keeps_trans hks hk⟩
  · exact ⟨s', (Store.set_row_of_ne _ _ hji).trans hs', hks⟩

/-- A row is inserted. -/
theorem Tidy.write_new (h : D.Tidy missing σ db) {i : ι} {r : ρ i}
    (hi : (σ.view db).row i = none) (hentries : ∀ x ∈ D.entries i r, x ∈ missing')
    (hmissing : ∀ x ∈ missing, x = ⟨i, r⟩ ∨ x ∈ missing') :
    D.Tidy missing' (σ.write i (some r)) db := by
  refine ⟨h.complete.set_new hi hentries hmissing, fun j s hs => ?_⟩
  obtain ⟨s', hs', hks⟩ := h.grows j s hs
  have hji : j ≠ i := by
    rintro rfl
    cases hi.symm.trans hs'
  exact ⟨s', (Store.set_row_of_ne _ _ hji).trans hs', hks⟩

/-! ### Programs -/

/-- The program gets from a session that misses the entries `missing` to one that misses
`missing'`, and raises allowed errors only. -/
def Maintains (D : Indexes ρ) (C : Constraints ρ ε) (allowed : ε → Prop)
    (missing missing' : List ((j : ι) × ρ j)) (p : Proc ρ κ ν ε α) : Prop :=
  ∀ σ db, D.Complete [] db → D.Tidy missing σ db →
    wp C (D.protocol C allowed) () p (fun _ => D.Tidy missing') σ db

variable {missing'' : List ((j : ι) × ρ j)} {p : Proc ρ κ ν ε α} {f : α → Proc ρ κ ν ε β}

theorem Maintains.bind (hp : D.Maintains C allowed missing missing' p)
    (hf : ∀ a, D.Maintains C allowed missing' missing'' (f a)) :
    D.Maintains C allowed missing missing'' (p.bind f) :=
  fun σ db hi h => wp_bind (wp_mono (hp σ db hi h) fun a σ db hi h => hf a σ db hi h) hi

theorem Maintains.ret {a : α} :
    D.Maintains C allowed missing missing (.ret a : Proc ρ κ ν ε α) :=
  fun _ _ _ h => wp_ret fun _ hr hi => tidy_stable.rely h hr hi

theorem Maintains.throw {e : ε} (he : allowed e) :
    D.Maintains C allowed missing missing' (.throw e : Proc ρ κ ν ε α) := fun _ _ _ _ => he

theorem Maintains.ite {c : Prop} [Decidable c] {q : Proc ρ κ ν ε α}
    (hp : D.Maintains C allowed missing missing' p)
    (hq : D.Maintains C allowed missing missing' q) :
    D.Maintains C allowed missing missing' (if c then p else q) := by
  split_ifs
  · exact hp
  · exact hq

theorem Maintains.select {g : Store ρ → α} :
    D.Maintains C allowed missing missing (Proc.select g : Proc ρ κ ν ε α) :=
  fun _ _ _ h => wp_select fun _ hr₁ hi₁ => ⟨trivial, fun _ _ hr₂ hi₂ =>
    tidy_stable.rely ((tidy_stable.rely h hr₁ hi₁).of_view rfl) hr₂ hi₂⟩

/-- What is read is complete and has been checked, which the rest of the program may use. -/
theorem Maintains.query {g : Store ρ → α}
    (hf : ∀ s, D.Complete missing s → Checked C s →
      D.Maintains C allowed missing missing' (f (g s))) :
    D.Maintains C allowed missing missing' ((Proc.select g).bind f) := by
  intro σ db hi h
  refine wp_bind (wp_select fun db₁ hr₁ hi₁ => ⟨trivial, fun hchecked db₂ hr₂ hi₂ => ?_⟩) hi
  have h₁ : D.Tidy missing σ db₁ := tidy_stable.rely h hr₁ hi₁
  exact hf _ h₁.complete hchecked _ _ hi₂ (tidy_stable.rely (h₁.of_view rfl) hr₂ hi₂)

theorem Maintains.raiseIf {c : Prop} [Decidable c] {e : ε} (he : allowed e) :
    D.Maintains C allowed missing missing (Proc.raiseIf c e : Proc ρ κ ν ε Unit) :=
  fun _ _ _ h => wp_raiseIf (fun _ => he) fun _ _ hr hi => tidy_stable.rely h hr hi

theorem Maintains.advisoryLock {x : κ} :
    D.Maintains C allowed missing missing (Proc.advisoryLock x : Proc ρ κ ν ε Unit) :=
  fun _ _ _ h => wp_advisoryLock_keeps tidy_stable.rely (fun h => ⟨trivial, h.of_view rfl⟩) h

theorem Maintains.selectForUpdate {i : ι} :
    D.Maintains C allowed missing missing (Proc.selectForUpdate i : Proc ρ κ ν ε _) := by
  refine fun σ db _ h => wp_selectForUpdate fun db₁ hr₁ hi₁ => ⟨trivial, fun _ db₂ hr₂ hi₂ => ?_⟩
  have hview : (σ.lockStep db₁ i).view db₁ = σ.view db₁ := by
    unfold Session.lockStep
    split <;> rfl
  exact tidy_stable.rely ((tidy_stable.rely h hr₁ hi₁).of_view hview) hr₂ hi₂

theorem Maintains.generate {g : ν → ι} :
    D.Maintains C allowed missing missing (Proc.generate g : Proc ρ κ ν ε ν) :=
  fun _ _ _ h => wp_generate fun _ hr₁ hi₁ _ _ _ _ hr₂ hi₂ =>
    tidy_stable.rely ((tidy_stable.rely h hr₁ hi₁).of_view rfl) hr₂ hi₂

/-- An `UPDATE` that keeps what is to be kept. -/
theorem Maintains.update {u : RowUpdate ρ}
    (hu : ∀ i r v, u i r = some v → ∃ r', v = some r' ∧ D.Keeps i r r')
    (hcheck : ∀ i r e, C.check i r = some e → allowed e) :
    D.Maintains C allowed missing missing (Proc.update u : Proc ρ κ ν ε ℕ) := by
  refine fun σ db _ h => wp_update (fun _ _ => D.Tidy missing) ⟨tidy_stable.rely,
    fun _ _ _ => trivial, ?_, ?_⟩ (fun db₁ hr₁ hi₁ => ⟨trivial, fun _ =>
      (tidy_stable.rely h hr₁ hi₁).of_view rfl⟩) fun _ _ _ _ h => h
  · rintro rest n σ db i n' σ' - h - - hst
    rcases Session.rowStep_cases hst with
      ⟨-, -, rfl⟩ | ⟨r, -, -, -, rfl⟩ | ⟨r, -, hdelete, -, rfl⟩ | ⟨r, r', hr, hset, -, -, rfl⟩
    · exact h
    · exact h.of_view rfl
    · obtain ⟨r', hr', -⟩ := hu i r _ hdelete
      cases hr'
    · obtain ⟨r₁, hr₁, hk⟩ := hu i r _ hset
      obtain rfl := Option.some.inj hr₁
      exact h.write_kept hr hk
  · rintro rest n σ db i e - - - - hst
    obtain ⟨r, r', -, -, he⟩ := Session.rowStep_error hst
    exact hcheck i r' e he

section Insert

variable {i : ι} {r : ρ i} (hentries : ∀ x ∈ D.entries i r, x ∈ missing')
  (hcheck : ∀ e, C.check i r = some e → allowed e)

include hentries hcheck

theorem Maintains.insertOrRaise {e : ε} (he : allowed e)
    (hmissing : ∀ x ∈ missing, x = ⟨i, r⟩ ∨ x ∈ missing') :
    D.Maintains C allowed missing missing' (Proc.insertOrRaise i r e : Proc ρ κ ν ε Unit) := by
  refine fun σ db _ h => wp_insertOrRaise fun db₁ hr₁ hi₁ => ⟨trivial, fun _ => ⟨fun _ => he,
    fun hnone => ⟨hcheck, fun db₂ hr₂ hi₂ => ?_⟩⟩⟩
  exact tidy_stable.rely ((tidy_stable.rely h hr₁ hi₁).write_new hnone hentries hmissing) hr₂ hi₂

theorem Maintains.insertOrIgnore (hmissing : ∀ x ∈ missing, x ∈ missing') :
    D.Maintains C allowed missing missing' (Proc.insertOrIgnore i r : Proc ρ κ ν ε Unit) := by
  refine fun σ db _ h => wp_insertOrIgnore fun db₁ hr₁ hi₁ => ⟨trivial, fun _ => ?_⟩
  have h₁ : D.Tidy missing σ db₁ := tidy_stable.rely h hr₁ hi₁
  refine ⟨fun _ db₂ hr₂ hi₂ => ?_, fun hnone => ⟨hcheck, fun db₂ hr₂ hi₂ => ?_⟩⟩
  · obtain ⟨hcomplete, hgrows⟩ : D.Tidy missing σ db₂ := tidy_stable.rely h₁ hr₂ hi₂
    exact ⟨fun i r hr x hx => (hcomplete i r hr x hx).imp_left (hmissing x), hgrows⟩
  · exact tidy_stable.rely (h₁.write_new hnone hentries fun x hx => Or.inr (hmissing x hx)) hr₂ hi₂

end Insert

/-! ### Runs -/

theorem commits_of_tidy (hdeferred : ∀ db e, C.deferred db = some e → allowed e)
    (h : D.Tidy [] σ db) : Commits C (D.protocol C allowed) σ db where
  deferred e he := hdeferred _ e he
  inv _ := h.complete
  rely _ _ hap := ⟨fun _ hi => σ.view_row_of_notMem db fun hi' => hap.rows _ hi' hi, h.grows⟩

section Run

variable [DecidableEq τ] [Fintype τ] [DecidableEq κ] {q : τ → Proc ρ κ ν ε α}
  {c c' : Config τ ρ κ ν ε α} (hq : ∀ t, D.Maintains C allowed [] [] (q t))
  (hdeferred : ∀ db e, C.deferred db = some e → allowed e) (hdb : D.Complete [] db)
  (hvalid : Valid C db)

include hq hdeferred hdb hvalid

theorem sound_of_reachable (hc : Reachable C (.init db q) c) :
    Sound C (D.protocol C allowed) (fun _ => ()) (fun _ _ => D.Tidy []) c := by
  refine (sound_init hdb fun t => hq t _ _ hdb (tidy_start hdb)).run
    (fun _ _ _ _ _ h _ => commits_of_tidy hdeferred h) ?_
  -- what is pending has been checked
  induction hc with
  | refl => exact .refl
  | step hc _ hst ih =>
    refine .step ih (fun p σ o ht _ => ?_) hst
    have hvalid' := Config.valid_of_reachable hvalid hc
    exact checked_overlay hvalid'.db.checked (hvalid'.writes _ p σ ht)

theorem complete_of_reachable (hc : Reachable C (.init db q) c) : D.Complete [] c.db :=
  (sound_of_reachable hq hdeferred hdb hvalid hc).inv

theorem allowed_of_reachable (hc : Reachable C (.init db q) c) {t : τ} {e : ε}
    (ht : c.tx t = .done (.error e)) : allowed e :=
  (sound_of_reachable hq hdeferred hdb hvalid hc).error t e ht

/-- The database grows along a run. -/
theorem grows_of_run (hc : Reachable C (.init db q) c) (hc' : Reachable C c c') :
    D.Grows c.db c'.db := by
  induction hc' with
  | refl => exact Grows.refl c.db
  | step hc' _ hst ih =>
    refine ih.trans ?_
    rcases (sound_of_reachable hq hdeferred hdb hvalid (hc.trans hc')).step_cases hst with
      ⟨a, σ, -, hdb, htidy⟩ | ⟨hdb, -⟩
    · rw [hdb]
      exact htidy.grows
    · rw [hdb]
      exact Grows.refl _

end Run

end Indexes

end ReadCommitted
