import TaskManagement.ReadCommitted.Outcomes
import TaskManagement.ReadCommitted.Rewrite

/-!
# The life of rows with generated identifiers

An identifier that a generator draws is used for one row only: the row is inserted, changes as its
`Lifecycle` says, and once it is deleted no other row takes its place.  `Lifecycle.Follows` states
this of two databases, and `Lifecycle.protocol` is the discipline of the transactions that keep it.

* `Lived` is what a session keeps; `Lived.write` and `Lived.insert` say which writes do, and
  `Lives` is the judgement that a program does, with one rule for each statement.
* `follows_of_run`: the committed database follows the lifecycle along every run.
* `Written`: an `UPDATE` has written the rows of a list and no others, one for each that it counts,
  and has dealt with every row that its snapshot matched (`wp_update_written`).
-/

namespace ReadCommitted

variable {ι : Type} {ρ : ι → Type} {κ ν ε α β τ Λ : Type}

/-- What may become of the rows under the identifiers that are generated. -/
structure Lifecycle {ι : Type} (ρ : ι → Type) where
  generated : ι → Prop
  rel : (i : ι) → ρ i → Option (ρ i) → Prop
  refl : ∀ i r, rel i r (some r)
  trans : ∀ {i r r' o}, rel i r (some r') → rel i r' o → rel i r o

/-! ### Identifiers in use -/

section Ids

variable [DecidableEq ι]

/-- An overlay uses the identifiers of the store and of the writes. -/
theorem Store.mem_overlay_ids {s : Store ρ} {ws : List (Write ρ)} {i : ι} :
    i ∈ (s.overlay ws).ids ↔ i ∈ s.ids ∨ ∃ w ∈ ws, w.1 = i := by
  induction ws with
  | nil => simp
  | cons w ws ih =>
    have hset : i ∈ (s.overlay (w :: ws)).ids ↔ i = w.1 ∨ i ∈ (s.overlay ws).ids :=
      List.mem_insert_iff
    rw [hset, ih]
    simp only [List.mem_cons, exists_eq_or_imp, eq_comm (a := i)]
    tauto

/-- An identifier that a session sees in use and has not locked is in use. -/
theorem Session.mem_ids_of_view {σ : Session ρ κ} {db : Store ρ} {i : ι}
    (h : i ∈ (σ.view db).ids) (hi : i ∉ σ.rows) : i ∈ db.ids := by
  rcases Store.mem_overlay_ids.mp h with h | ⟨w, hw, rfl⟩
  · exact h
  · exact absurd (σ.writes_rows w hw) hi

theorem Session.mem_view_ids {σ : Session ρ κ} {db : Store ρ} {i : ι} (h : i ∈ db.ids) :
    i ∈ (σ.view db).ids := Store.mem_overlay_ids.mpr (Or.inl h)

omit [DecidableEq ι] in
theorem Store.mem_ids_of_matching {s : Store ρ} {u : RowUpdate ρ} {i : ι}
    (h : i ∈ s.matching u) : i ∈ s.ids := (List.mem_filter.mp h).1

end Ids

namespace Lifecycle

variable (L : Lifecycle ρ)

/-- What becomes of a row, when there is one, and of a row that has been deleted. -/
def Leads (i : ι) : Option (ρ i) → Option (ρ i) → Prop
  | none, o' => o' = none
  | some r, o' => L.rel i r o'

/-- The rows whose identifiers are in use follow the lifecycle. -/
def Follows (db db' : Store ρ) : Prop :=
  ∀ i, L.generated i → i ∈ db.ids → i ∈ db'.ids ∧ L.Leads i (db.row i) (db'.row i)

variable {L} {db db' db'' : Store ρ} {i : ι}

theorem Leads.refl (i : ι) (o : Option (ρ i)) : L.Leads i o o := by
  cases o with
  | none => rfl
  | some r => exact L.refl i r

theorem Leads.trans {o o' o'' : Option (ρ i)} (h : L.Leads i o o') (h' : L.Leads i o' o'') :
    L.Leads i o o'' := by
  cases o with
  | none =>
    obtain rfl : o' = none := h
    exact h'
  | some r =>
    cases o' with
    | none =>
      obtain rfl : o'' = none := h'
      exact h
    | some r' => exact L.trans h h'

theorem Follows.refl (db : Store ρ) : L.Follows db db :=
  fun i _ hi => ⟨hi, Leads.refl i _⟩

theorem Follows.trans (h : L.Follows db db') (h' : L.Follows db' db'') : L.Follows db db'' := by
  intro i hg hi
  obtain ⟨hi', hl⟩ := h i hg hi
  obtain ⟨hi'', hl'⟩ := h' i hg hi'
  exact ⟨hi'', hl.trans hl'⟩

/-- The discipline of the transactions that keep the lifecycle. -/
def protocol (L : Lifecycle ρ) : Protocol Unit ρ κ ε where
  inv _ := True
  rely σ db db' :=
    (∀ i ∈ σ.rows, db'.row i = db.row i ∧ (i ∈ db'.ids → i ∈ db.ids)) ∧ L.Follows db db'
  assume _ _ _ _ := True
  require _ _ _ := True
  allowed _ := True
  rely_refl _ _ := ⟨fun _ _ => ⟨rfl, id⟩, Follows.refl _⟩
  rely_trans _ _ _ _ h h' := by
    refine ⟨fun i hi => ?_, h.2.trans h'.2⟩
    obtain ⟨hrow, hids⟩ := h.1 i hi
    obtain ⟨hrow', hids'⟩ := h'.1 i hi
    exact ⟨hrow'.trans hrow, fun hm => hids (hids' hm)⟩

theorem protocol_keepsLocked : (L.protocol : Protocol Unit ρ κ ε).KeepsLocked :=
  fun hr i hi => (hr.1 i hi).1

/-! ### Sessions -/

variable [DecidableEq ι] {σ : Session ρ κ} {C : Constraints ρ ε}

/-- What a session is about to commit follows the lifecycle. -/
def Lived (L : Lifecycle ρ) (σ : Session ρ κ) (db : Store ρ) : Prop := L.Follows db (σ.view db)

theorem lived_start (db : Store ρ) : L.Lived (.start : Session ρ κ) db := Follows.refl db

theorem lived_stable : (L.protocol : Protocol Unit ρ κ ε).Stable L.Lived where
  rely {σ db db'} h hr _ := by
    intro i hg hi
    refine ⟨Session.mem_view_ids hi, ?_⟩
    by_cases hrow : i ∈ σ.rows
    · obtain ⟨hsame, hids⟩ := hr.1 i hrow
      rw [hsame, σ.view_row_congr hsame]
      exact (h i hg (hids hi)).2
    · rw [σ.view_row_of_notMem db' hrow]
      exact Leads.refl i _
  saw _ h := h

/-- A row that is seen is written as its lifecycle says; other identifiers are free. -/
theorem Lived.write (h : L.Lived σ db) {v : Option (ρ i)}
    (hv : L.generated i → i ∈ db.ids → L.Leads i ((σ.view db).row i) v) :
    L.Lived (σ.write i v) db := by
  intro j hg hj
  refine ⟨Session.mem_view_ids hj, ?_⟩
  rw [Session.write_view]
  by_cases hji : j = i
  · subst hji
    rw [Store.set_row_self]
    exact (h j hg hj).2.trans (hv hg hj)
  · rw [Store.set_row_of_ne _ _ hji]
    exact (h j hg hj).2

/-- A session that has written nothing. -/
theorem lived_of_writes_eq_nil (h : σ.writes = []) : L.Lived σ db := by
  have hview : σ.view db = db := by
    unfold Session.view
    rw [h]
    rfl
  unfold Lived
  rw [hview]
  exact Follows.refl db

/-- A session that holds the rows that it has written. -/
theorem lived_of_held
    (h : ∀ w ∈ σ.writes, ∃ r o, L.Leads w.1 (some r) o ∧ Held w.1 (some r) o σ db) :
    L.Lived σ db := by
  intro i hg hi
  refine ⟨Session.mem_view_ids hi, ?_⟩
  by_cases hw : ∃ w ∈ σ.writes, w.1 = i
  · obtain ⟨w, hw, rfl⟩ := hw
    obtain ⟨r, o, hl, hheld⟩ := h w hw
    rw [hheld.committed, hheld.pending]
    exact hl
  · have hrow : (σ.view db).row i = db.row i :=
      db.overlay_row_of_forall_ne fun w hm he => hw ⟨w, hm, he⟩
    rw [hrow]
    exact Leads.refl i _

/-- The identifier is drawn by the session and not in use yet. -/
def Reserved (i : ι) (σ : Session ρ κ) (db : Store ρ) : Prop := i ∈ σ.rows ∧ i ∉ db.ids

omit [DecidableEq ι] in
theorem reserved_stable (i : ι) : (L.protocol : Protocol Unit ρ κ ε).Stable (Reserved i) where
  rely h hr _ := ⟨h.1, fun hm => h.2 ((hr.1 i h.1).2 hm)⟩
  saw _ h := h

/-- A commit keeps the discipline. -/
theorem Lived.commits (h : L.Lived σ db) : Commits C (L.protocol : Protocol Unit ρ κ ε) σ db where
  deferred _ _ := trivial
  inv _ := trivial
  rely _ σ' hap := by
    refine ⟨fun i hi => ?_, h⟩
    have hni : i ∉ σ.rows := fun hi' => hap.rows i hi' hi
    exact ⟨σ.view_row_of_notMem db hni, fun hm => Session.mem_ids_of_view hm hni⟩

/-! ### Programs -/

/-- The program keeps the lifecycle. -/
def Lives (L : Lifecycle ρ) (C : Constraints ρ ε) (p : Proc ρ κ ν ε α) : Prop :=
  ∀ σ db, L.Lived σ db → wp C L.protocol () p (fun _ => L.Lived) σ db

variable {p : Proc ρ κ ν ε α} {f : α → Proc ρ κ ν ε β}

theorem Lives.bind (hp : L.Lives C p) (hf : ∀ a, L.Lives C (f a)) : L.Lives C (p.bind f) :=
  fun σ db h => wp_bind (wp_mono (hp σ db h) fun a σ db _ h => hf a σ db h) trivial

theorem Lives.ret {a : α} : L.Lives C (.ret a : Proc ρ κ ν ε α) :=
  fun _ _ h => wp_ret fun _ hr hi => lived_stable.rely h hr hi

theorem Lives.select {g : Store ρ → α} : L.Lives C (Proc.select g : Proc ρ κ ν ε α) :=
  fun _ _ h => wp_mono (wp_select_stable lived_stable (fun _ => trivial) h) fun _ _ _ _ h => h.1

theorem Lives.raiseIf {c : Prop} [Decidable c] {e : ε} :
    L.Lives C (Proc.raiseIf c e : Proc ρ κ ν ε Unit) :=
  fun _ _ h => wp_mono (wp_raiseIf_stable lived_stable (fun _ => trivial) h) fun _ _ _ _ h => h.2

/-- An `UPDATE` or `DELETE` whose rows follow the lifecycle. -/
theorem Lives.update {u : RowUpdate ρ}
    (hu : ∀ i r v, L.generated i → u i r = some v → L.rel i r v) :
    L.Lives C (Proc.update u : Proc ρ κ ν ε ℕ) := by
  refine fun σ db h => wp_update (fun _ _ => L.Lived) ⟨lived_stable.rely, fun _ _ _ => trivial,
    ?_, fun _ _ _ _ _ => trivial⟩ (fun db₁ hr₁ hi₁ => ⟨trivial, fun _ =>
      lived_stable.rely h hr₁ hi₁⟩) fun _ _ _ _ h => h
  rintro rest n σ db i n' σ' - h - - hst
  have hwrite : ∀ {r v}, (σ.view db).row i = some r → u i r = some v →
      L.Lived (σ.write i v) db := by
    intro r v hr hv
    refine h.write fun hg _ => ?_
    rw [hr]
    exact hu i r v hg hv
  rcases Session.rowStep_cases hst with
    ⟨-, -, rfl⟩ | ⟨r, -, -, -, rfl⟩ | ⟨r, hr, hv, -, rfl⟩ | ⟨r, r', hr, hv, -, -, rfl⟩
  · exact h
  · exact h
  · exact hwrite hr hv
  · exact hwrite hr hv

/-- An `INSERT` under an identifier that is not generated. -/
theorem Lives.insert {i : ι} {r : ρ i} {k : Bool → Proc ρ κ ν ε α} (hi : ¬L.generated i)
    (hk : ∀ b, L.Lives C (k b)) : L.Lives C (.insert i r k) := by
  refine fun σ db h => wp_insert fun db₁ hr₁ hi₁ => ⟨trivial, fun _ => ?_⟩
  have h₁ : L.Lived σ db₁ := lived_stable.rely h hr₁ hi₁
  refine ⟨fun _ => hk false σ db₁ h₁, fun _ => ⟨fun _ _ => trivial, hk true _ db₁ ?_⟩⟩
  exact h₁.write fun hg => absurd hg hi

/-! ### Runs -/

section Run

variable [DecidableEq τ] [Fintype τ] [DecidableEq κ] {q : τ → Proc ρ κ ν ε α}
  {Q : τ → α → Session ρ κ → Store ρ → Prop} {c c' : Config τ ρ κ ν ε α}
  (hq : ∀ t db, wp C L.protocol () (q t) (Q t) .start db)
  (hQ : ∀ t a σ db, Q t a σ db → L.Lived σ db)

include hq hQ

theorem sound_of_reachable {db : Store ρ} (hc : Reachable C (.init db q) c) :
    Sound C L.protocol (fun _ => ()) Q c :=
  (sound_init trivial fun t => hq t db).run (fun t a σ db _ h _ => (hQ t a σ db h).commits)
    (hc.mono fun _ _ _ _ _ _ _ _ _ => trivial)

/-- The committed database follows the lifecycle. -/
theorem follows_of_run {db : Store ρ} (hc : Reachable C (.init db q) c) (hc' : Reachable C c c') :
    L.Follows c.db c'.db := by
  induction hc' with
  | refl => exact Follows.refl c.db
  | step hc' _ hst ih =>
    refine ih.trans ?_
    rcases (sound_of_reachable hq hQ (hc.trans hc')).step_cases hst with
      ⟨a, σ, -, hdb, h⟩ | ⟨hdb, -⟩
    · rw [hdb]
      exact hQ _ _ _ _ h
    · rw [hdb]
      exact Follows.refl _

end Run

end Lifecycle

/-! ### The rows that an `UPDATE` writes -/

section Written

variable [DecidableEq ι] {P : Protocol Λ ρ κ ε} {ℓ : Λ} {C : Constraints ρ ε} {u : RowUpdate ρ}
  {σ : Session ρ κ} {db db' : Store ρ} {l : List ι}

/-- The rows of `l` are written as `u` says, and no other row is. -/
structure Written (u : RowUpdate ρ) (l : List ι) (σ : Session ρ κ) (db : Store ρ) : Prop where
  nodup : l.Nodup
  held : ∀ i ∈ l, ∃ r w, u i r = some w ∧ Held i (some r) w σ db
  writes : ∀ w ∈ σ.writes, w.1 ∈ l

/-- The other rows are seen as they are committed. -/
theorem Written.other (h : Written u l σ db) : ChangesOnly (· ∈ l) σ db :=
  fun _ hj => db.overlay_row_of_forall_ne fun w hw he => hj (he ▸ h.writes w hw)

theorem Written.rely (h : Written u l σ db) (hr : ∀ i ∈ σ.rows, db'.row i = db.row i) :
    Written u l σ db' where
  nodup := h.nodup
  held i hi := by
    obtain ⟨r, w, hu, hheld⟩ := h.held i hi
    exact ⟨r, w, hu, hheld.rely hr⟩
  writes := h.writes

theorem Written.saw (h : Written u l σ db) (s : Store ρ) : Written u l (σ.saw s) db where
  nodup := h.nodup
  held i hi := by
    obtain ⟨r, w, hu, hheld⟩ := h.held i hi
    exact ⟨r, w, hu, hheld.mem, hheld.committed, hheld.pending⟩
  writes := h.writes

/-- One more row is written. -/
theorem Written.write (h : Written u l σ db) {i : ι} (hi : i ∉ l) {r : ρ i} {w : Option (ρ i)}
    (hr : db.row i = some r) (hu : u i r = some w) : Written u (i :: l) (σ.write i w) db where
  nodup := List.nodup_cons.mpr ⟨hi, h.nodup⟩
  held j hj := by
    rcases List.mem_cons.mp hj with rfl | hj
    · exact ⟨r, w, hu, held_write hr w⟩
    · obtain ⟨r', w', hu', hheld⟩ := h.held j hj
      have hji : j ≠ i := fun he => hi (he ▸ hj)
      exact ⟨r', w', hu', hheld.write hji⟩
  writes v hv := by
    rcases List.mem_cons.mp hv with rfl | hv
    · exact List.mem_cons_self
    · exact List.mem_cons_of_mem i (h.writes v hv)

/-- An `UPDATE` by a session that has written nothing.  `D i` is what it makes sure of each row that
its snapshot matched, and `B s` what it keeps after the snapshot `s`. -/
theorem wp_update_written (hP : P.KeepsLocked) {A : Session ρ κ → Store ρ → Prop}
    {B : Store ρ → Session ρ κ → Store ρ → Prop} {D : ι → Session ρ κ → Store ρ → Prop}
    (hA : P.Stable A)
    (hB : ∀ {s σ db db'}, B s σ db → P.rely σ db db' → P.inv db' → B s σ db')
    (hD : ∀ {i σ db db'}, D i σ db → P.rely σ db db' → P.inv db' → D i σ db')
    (hreq : ∀ o σ db, P.require o σ db) (hok : ∀ e, P.allowed e)
    (hsnap : ∀ {σ db}, A σ db → B (σ.view db) (σ.saw (σ.view db)) db)
    (hlock : ∀ {s i σ db}, B s σ db → B s (σ.lockRow i) db ∧ ∀ j, D j σ db → D j (σ.lockRow i) db)
    (hwrite : ∀ {s i σ db r w}, B s σ db → i ∈ s.matching u → (σ.view db).row i = some r →
      u i r = some w →
      B s (σ.write i w) db ∧ D i (σ.write i w) db ∧ ∀ j, D j σ db → D j (σ.write i w) db)
    (hskip : ∀ {s i σ db r}, B s σ db → i ∈ s.matching u → (σ.view db).row i = some r →
      u i r = none → D i (σ.lockRow i) db)
    (hgone : ∀ {s i σ db}, B s σ db → i ∈ s.matching u → (σ.view db).row i = none → D i σ db)
    (h : σ.writes = []) (ha : A σ db) :
    wp C P ℓ (Proc.update u : Proc ρ κ ν ε ℕ)
      (fun n σ' db => ∃ s l, σ'.reads = s :: σ.reads ∧ n = l.length ∧ Written u l σ' db ∧
        (∀ i ∈ l, i ∈ s.matching u) ∧ (∀ i ∈ s.matching u, D i σ' db) ∧ B s σ' db) σ db := by
  generalize hreads : σ.reads = reads
  -- `l` are the rows that have been written
  refine wp_update (fun rest n σ' db => ∃ s l, σ'.reads = s :: reads ∧ n = l.length ∧
    Written u l σ' db ∧ (∀ i ∈ l, i ∈ s.matching u) ∧
    (∀ i ∈ s.matching u, i ∈ rest ∨ D i σ' db) ∧ B s σ' db ∧ rest.Nodup ∧
    (∀ i ∈ rest, i ∈ s.matching u ∧ i ∉ l)) ⟨?_, fun _ _ _ => hreq _ _ _, ?_,
      fun _ _ _ _ _ => hok _⟩ ?_ ?_
  · rintro rest n σ db db' ⟨s, l, hs, hn, hw, hl, hd, hb, hrest⟩ hr hi
    have hd' : ∀ i ∈ s.matching u, i ∈ rest ∨ D i σ db' :=
      fun i hm => (hd i hm).imp_right fun h => hD h hr hi
    exact ⟨s, l, hs, hn, hw.rely (hP hr), hl, hd', hB hb hr hi, hrest⟩
  · rintro rest n σ db i n' σ' - ⟨s, l, hs, hn, hw, hl, hd, hb, hnd, hrest⟩ hirest - hst
    obtain ⟨him, hil⟩ := hrest i hirest
    have hrow : (σ.view db).row i = db.row i := hw.other i hil
    -- what is left of the other rows
    have hrest' : ∀ {l' : List ι}, (∀ j, j ≠ i → j ∉ l → j ∉ l') → ∀ j ∈ rest.erase i,
        j ∈ s.matching u ∧ j ∉ l' := by
      intro l' hl' j hj
      obtain ⟨hji, hj⟩ := hnd.mem_erase_iff.mp hj
      obtain ⟨hm, hjl⟩ := hrest j hj
      exact ⟨hm, hl' j hji hjl⟩
    have hd' : ∀ {σ'' : Session ρ κ}, D i σ'' db → (∀ j, D j σ db → D j σ'' db) →
        ∀ j ∈ s.matching u, j ∈ rest.erase i ∨ D j σ'' db := by
      intro σ'' hdi hdj j hj
      by_cases hji : j = i
      · subst hji
        exact Or.inr hdi
      · exact (hd j hj).imp (fun hm => hnd.mem_erase_iff.mpr ⟨hji, hm⟩) (hdj j)
    rcases Session.rowStep_cases hst with
      ⟨hnone, rfl, rfl⟩ | ⟨r, hr, hu, rfl, rfl⟩ | ⟨r, hr, hu, rfl, rfl⟩ |
        ⟨r, r', hr, hu, -, rfl, rfl⟩
    · exact ⟨s, l, hs, hn, hw, hl, hd' (hgone hb him hnone) fun _ h => h, hb, hnd.erase i,
        hrest' fun _ _ h => h⟩
    · have hw' : Written u l (σ.lockRow i) db := by
        refine ⟨hw.nodup, fun j hj => ?_, hw.writes⟩
        obtain ⟨r', w, hu', hheld⟩ := hw.held j hj
        exact ⟨r', w, hu', List.mem_cons_of_mem i hheld.mem, hheld.committed, hheld.pending⟩
      obtain ⟨hb', hdj⟩ := hlock hb
      exact ⟨s, l, hs, hn, hw', hl, hd' (hskip hb him hr hu) hdj, hb', hnd.erase i,
        hrest' fun _ _ h => h⟩
    all_goals
      obtain ⟨hb', hdi, hdj⟩ := hwrite hb him hr hu
      refine ⟨s, i :: l, hs, ?_, hw.write hil (hrow ▸ hr) hu, ?_, hd' hdi hdj, hb', hnd.erase i,
        hrest' fun j hji hj hm => ?_⟩
      · rw [hn, List.length_cons]
      · exact List.forall_mem_cons.mpr ⟨him, hl⟩
      · exact (List.mem_cons.mp hm).elim hji hj
  · intro db₁ hr₁ hi₁
    have ha₁ : A σ db₁ := hA.rely ha hr₁ hi₁
    have hw : Written u [] (σ.saw (σ.view db₁)) db₁ := by
      refine ⟨List.nodup_nil, fun i hi => absurd hi List.not_mem_nil, fun w hw => ?_⟩
      rw [Session.saw_writes, h] at hw
      exact absurd hw List.not_mem_nil
    refine ⟨hreq _ _ _, fun _ => ⟨σ.view db₁, [], congrArg _ hreads, rfl, hw,
      fun i hi => absurd hi List.not_mem_nil, fun i hi => Or.inl hi, hsnap ha₁,
      Store.nodup_matching _ u, fun i hi => ⟨hi, List.not_mem_nil⟩⟩⟩
  · rintro n σ' db' - ⟨s, l, hs, hn, hw, hl, hd, hb, -⟩
    exact ⟨s, l, hs, hn, hw, hl, fun i hi => (hd i hi).resolve_left List.not_mem_nil, hb⟩

end Written

end ReadCommitted
