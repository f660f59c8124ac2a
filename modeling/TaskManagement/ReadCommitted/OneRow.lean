import TaskManagement.ReadCommitted.Lifecycle

/-!
# Transactions that read, and then write one row

Under the discipline of a `Lifecycle`, a transaction that has only read knows that what its
snapshots show has followed the lifecycle (`Lifecycle.Quiet`).  Its only write is then an `UPDATE`
or `DELETE` of one row, which either finds the row or knows that it is gone for good
(`Lifecycle.wp_update_one`), or an `INSERT` under an identifier of its own
(`Lifecycle.wp_insert_one`); `OneRow` is what it has changed.  A transaction that writes no
generated row keeps the lifecycle (`Lifecycle.wp_of_kept`).

When every commit relates the databases before and after it, the committed transactions of a run, in
the order of their commits, lead from the first database to the last one: that is a `CommitLog`, and
it grows at its end (`CommitLog.run`).
-/

namespace ReadCommitted

variable {ι : Type} {ρ : ι → Type} {κ ν ε α Λ Λ' τ S : Type}

/-! ### Protocols that assume more -/

/-- The discipline `P'` assumes what `P` assumes, and owes what `P` owes. -/
structure Protocol.Implies (P : Protocol Λ ρ κ ε) (ℓ : Λ) (P' : Protocol Λ' ρ κ ε) (ℓ' : Λ') :
    Prop where
  inv : ∀ {db}, P'.inv db → P.inv db
  rely : ∀ {σ db db'}, P'.rely σ db db' → P.rely σ db db'
  assume : ∀ {o σ db}, P'.assume ℓ' o σ db → P.assume ℓ o σ db
  require : ∀ {o σ db}, P.require o σ db → P'.require o σ db
  allowed : ∀ {e}, P.allowed e → P'.allowed e

section Implies

variable [DecidableEq ι] {C : Constraints ρ ε} {P : Protocol Λ ρ κ ε} {ℓ : Λ}
  {P' : Protocol Λ' ρ κ ε} {ℓ' : Λ'} {σ : Session ρ κ} {db : Store ρ}

/-- What a program does under `P` it does under `P'`. -/
theorem wp_of_implies (hP : P.Implies ℓ P' ℓ') {p : Proc ρ κ ν ε α}
    {Q : α → Session ρ κ → Store ρ → Prop} (h : wp C P ℓ p Q σ db) : wp C P' ℓ' p Q σ db := by
  induction p generalizing σ db with
  | ret a => exact fun db' hr hi => h db' (hP.rely hr) (hP.inv hi)
  | throw e => exact hP.allowed h
  | query k ih =>
    intro db' hr hi
    obtain ⟨hreq, hk⟩ := h db' (hP.rely hr) (hP.inv hi)
    exact ⟨hP.require hreq, fun ha => ih _ (hk (hP.assume ha))⟩
  | key x k ih =>
    intro db' hr hi
    obtain ⟨hreq, hk⟩ := h db' (hP.rely hr) (hP.inv hi)
    exact ⟨hP.require hreq, fun ha => ih (hk (hP.assume ha))⟩
  | lock i k ih =>
    intro db' hr hi
    obtain ⟨hreq, hk⟩ := h db' (hP.rely hr) (hP.inv hi)
    exact ⟨hP.require hreq, fun ha => ih _ (hk (hP.assume ha))⟩
  | eachRow rest u n k ih =>
    obtain ⟨I, hI, h₀, hk⟩ := h
    refine ⟨I, ⟨?_, ?_, ?_, ?_⟩, h₀, fun m σ' db' hi h' => ih m (hk m σ' db' (hP.inv hi) h')⟩
    · exact fun h hr hi => hI.stable h (hP.rely hr) (hP.inv hi)
    · exact fun hi h hm => hP.require (hI.owed (hP.inv hi) h hm)
    · exact fun hi h hm ha hs => hI.row (hP.inv hi) h hm (hP.assume ha) hs
    · exact fun hi h hm ha hs => hP.allowed (hI.error (hP.inv hi) h hm (hP.assume ha) hs)
  | insert i r k ih =>
    intro db' hr hi
    obtain ⟨hreq, hk⟩ := h db' (hP.rely hr) (hP.inv hi)
    refine ⟨hP.require hreq, fun ha => ?_⟩
    obtain ⟨herror, hok⟩ := hk (hP.assume ha)
    exact ⟨fun e he => hP.allowed (herror e he), fun b σ' hb => ih b (hok b σ' hb)⟩
  | fresh f k ih =>
    exact fun db' hr hi v h₁ h₂ => ih v (h db' (hP.rely hr) (hP.inv hi) v h₁ h₂)

end Implies

/-! ### One row -/

section OneRow

variable [DecidableEq ι]

/-- The row `i` is locked, `o` is its committed version and `o'` its pending one, and no other row
is written. -/
structure OneRow (i : ι) (o o' : Option (ρ i)) (σ : Session ρ κ) (db : Store ρ) : Prop
    extends Held i o o' σ db where
  writes : ∀ w ∈ σ.writes, w.1 = i

variable {i : ι} {o o' : Option (ρ i)} {σ : Session ρ κ} {db db' : Store ρ}

/-- A session that has written one row sees the others as they are committed. -/
theorem changesOnly_of_writes (h : ∀ w ∈ σ.writes, w.1 = i) : ChangesOnly (· = i) σ db :=
  fun _ hj => db.overlay_row_of_forall_ne fun w hw he => hj (he ▸ h w hw)

theorem OneRow.rely (h : OneRow i o o' σ db) (hr : ∀ i ∈ σ.rows, db'.row i = db.row i) :
    OneRow i o o' σ db' :=
  ⟨h.toHeld.rely hr, h.writes⟩

theorem OneRow.saw (h : OneRow i o o' σ db) (s : Store ρ) : OneRow i o o' (σ.saw s) db :=
  ⟨⟨h.mem, h.committed, h.pending⟩, h.writes⟩

/-- The first write of a session. -/
theorem oneRow_write (h : σ.writes = []) (hold : db.row i = o) (v : Option (ρ i)) :
    OneRow i o v (σ.write i v) db := by
  refine ⟨held_write hold v, fun w hw => ?_⟩
  rw [Session.write_writes, h] at hw
  rw [List.mem_singleton.mp hw]

end OneRow

namespace Lifecycle

variable {L : Lifecycle ρ} [DecidableEq ι] {C : Constraints ρ ε} {σ σ' : Session ρ κ}
  {db db' s : Store ρ} {i : ι}

theorem oneRow_stable (i : ι) (o o' : Option (ρ i)) :
    (L.protocol : Protocol Unit ρ κ ε).Stable (OneRow i o o') where
  rely h hr _ := h.rely (L.protocol_keepsLocked hr)
  saw s h := h.saw s

theorem lived_of_oneRow {o o' : Option (ρ i)} (h : OneRow i o o' σ db)
    (hl : L.generated i → i ∈ db.ids → L.Leads i o o') : L.Lived σ db := by
  intro j hg hj
  refine ⟨Session.mem_view_ids hj, ?_⟩
  by_cases hji : j = i
  · subst hji
    rw [h.committed, h.pending]
    exact hl hg hj
  · rw [changesOnly_of_writes h.writes j hji]
    exact Leads.refl j _

/-! ### Transactions that write no generated row -/

/-- The generated rows stay as they are. -/
def kept (L : Lifecycle ρ) : Effect ρ where
  rel i o o' := L.generated i → o' = o
  refl _ _ _ := rfl

theorem lived_of_kept (h : L.kept.Holds σ db) : L.Lived σ db := by
  intro i hg hi
  refine ⟨Session.mem_view_ids hi, ?_⟩
  rw [h i hg]
  exact Leads.refl i _

theorem wp_of_kept {p : Proc ρ κ ν ε α} (hp : p.Conforms L.kept) (h : L.kept.Holds σ db) :
    wp C L.protocol () p (fun _ => L.kept.Holds) σ db := by
  have hrow : wp C (rowProtocol (fun _ => True) fun _ _ _ _ => True) () p
      (fun _ σ db => L.kept.Holds σ db ∧ True) σ db :=
    wp_of_conforms hp persistent_true h trivial
  refine wp_mono (wp_of_implies ⟨fun _ => trivial, fun hr => L.protocol_keepsLocked hr,
    fun _ => trivial, fun _ => trivial, fun _ => trivial⟩ hrow) ?_
  exact fun _ _ _ _ h => h.1

/-! ### Transactions that have only read -/

/-- The session has written nothing, and what its snapshots show has followed the lifecycle. -/
structure Quiet (L : Lifecycle ρ) (σ : Session ρ κ) (db : Store ρ) : Prop where
  writes : σ.writes = []
  reads : ∀ s ∈ σ.reads, L.Follows s db

omit [DecidableEq ι] in
theorem quiet_start (db : Store ρ) : L.Quiet (.start : Session ρ κ) db :=
  ⟨rfl, fun _ hs => absurd hs List.not_mem_nil⟩

theorem Quiet.view (h : L.Quiet σ db) : σ.view db' = db' := by
  unfold Session.view
  rw [h.writes]
  rfl

omit [DecidableEq ι] in
theorem Quiet.rely (h : L.Quiet σ db)
    (hr : (L.protocol : Protocol Unit ρ κ ε).rely σ db db') : L.Quiet σ db' :=
  ⟨h.writes, fun s hs => (h.reads s hs).trans hr.2⟩

omit [DecidableEq ι] in
/-- A snapshot of what is committed. -/
theorem Quiet.saw (h : L.Quiet σ db) : L.Quiet (σ.saw db) db := by
  refine ⟨h.writes, fun s hs => ?_⟩
  rcases List.mem_cons.mp hs with rfl | hs
  · exact Follows.refl s
  · exact h.reads s hs

/-- A `SELECT` shows the database at that moment. -/
theorem wp_select_quiet {f : Store ρ → α} (h : L.Quiet σ db) :
    wp C L.protocol () (Proc.select f : Proc ρ κ ν ε α)
      (fun a σ' db' => ∃ s, a = f s ∧ σ' = σ.saw s ∧ L.Quiet σ' db') σ db := by
  refine wp_select fun s hr _ => ⟨trivial, fun _ db' hr' _ => ?_⟩
  have hs : L.Quiet σ s := h.rely hr
  rw [hs.view] at hr' ⊢
  exact ⟨s, rfl, rfl, hs.saw.rely hr'⟩

theorem wp_raiseIf_quiet {c : Prop} [Decidable c] {e : ε} (h : L.Quiet σ db) :
    wp C L.protocol () (Proc.raiseIf c e : Proc ρ κ ν ε Unit)
      (fun _ σ' db' => ¬c ∧ σ' = σ ∧ L.Quiet σ' db') σ db :=
  wp_raiseIf (fun _ => trivial) fun hc _ hr _ => ⟨hc, rfl, h.rely hr⟩

/-- An `UPDATE` or `DELETE` of one row that was once there. -/
theorem wp_update_one {u : RowUpdate ρ} {set : ρ i → Option (ρ i)}
    (hself : ∀ r, u i r = some (set r)) (hother : ∀ j r, j ≠ i → u j r = none)
    (hg : L.generated i) (hi : i ∈ db.ids) (h : L.Quiet σ db) :
    wp C L.protocol () (Proc.update u : Proc ρ κ ν ε ℕ)
      (fun _ σ' db' => L.Follows db db' ∧ (∃ s, σ'.reads = s :: σ.reads) ∧
        ((σ'.writes = [] ∧ db'.row i = none) ∨ ∃ r, OneRow i (some r) (set r) σ' db')) σ db := by
  generalize hreads : σ.reads = reads
  have hgone : ∀ {db₁ db₂ : Store ρ}, L.Follows db db₁ → L.Follows db₁ db₂ →
      db₁.row i = none → db₂.row i = none := by
    intro db₁ db₂ h₁ h₂ hnone
    have hl := (h₂ i hg (h₁ i hg hi).1).2
    rw [hnone] at hl
    exact hl
  -- the row is next, or it is gone, or it has been written
  refine wp_update (fun rest _ σ' db' => L.Follows db db' ∧ (∃ s, σ'.reads = s :: reads) ∧
    ((σ'.writes = [] ∧ (rest = [i] ∨ rest = [] ∧ db'.row i = none)) ∨
      rest = [] ∧ ∃ r, OneRow i (some r) (set r) σ' db')) ⟨?_, fun _ _ _ => trivial, ?_,
        fun _ _ _ _ _ => trivial⟩ ?_ ?_
  · rintro rest n σ' db₁ db₂ ⟨hf, hs, hcase⟩ hr -
    refine ⟨hf.trans hr.2, hs, ?_⟩
    rcases hcase with ⟨hw, hrest⟩ | ⟨hrest, r, hone⟩
    · exact Or.inl ⟨hw, hrest.imp_right fun h => ⟨h.1, hgone hf hr.2 h.2⟩⟩
    · exact Or.inr ⟨hrest, r, hone.rely (L.protocol_keepsLocked hr)⟩
  · rintro rest n σ' db₁ j n' σ'' - ⟨hf, hs, hcase⟩ hj - hst
    rcases hcase with ⟨hw, rfl | ⟨rfl, -⟩⟩ | ⟨rfl, -⟩
    · obtain rfl := List.mem_singleton.mp hj
      have hview : σ'.view db₁ = db₁ := by
        unfold Session.view
        rw [hw]
        rfl
      rw [List.erase_cons_head]
      rcases Session.rowStep_cases hst with
        ⟨hnone, -, rfl⟩ | ⟨r, -, hu, -, -⟩ | ⟨r, hr, hu, -, rfl⟩ | ⟨r, r', hr, hu, -, -, rfl⟩
      · rw [hview] at hnone
        exact ⟨hf, hs, Or.inl ⟨hw, Or.inr ⟨rfl, hnone⟩⟩⟩
      · rw [hself] at hu
        cases hu
      all_goals
        rw [hview] at hr
        rw [hself] at hu
        refine ⟨hf, hs, Or.inr ⟨rfl, r, ?_⟩⟩
        rw [Option.some.inj hu]
        exact oneRow_write hw hr _
    · exact absurd hj List.not_mem_nil
    · exact absurd hj List.not_mem_nil
  · intro db₁ hr₁ _
    have h₁ : L.Quiet σ db₁ := h.rely hr₁
    refine ⟨trivial, fun _ => ⟨hr₁.2, ⟨_, congrArg _ hreads⟩, Or.inl ⟨h₁.writes, ?_⟩⟩⟩
    rw [h₁.view]
    refine (db₁.matching_of_single hother).imp_right fun hm => ⟨hm, ?_⟩
    cases hrow : db₁.row i with
    | none => rfl
    | some r =>
      have hmem : i ∈ db₁.matching u := Store.mem_matching.mpr ⟨r, set r, hrow, hself r⟩
      rw [hm] at hmem
      exact absurd hmem List.not_mem_nil
  · rintro n σ' db' - ⟨hf, hs, hcase⟩
    refine ⟨hf, hs, ?_⟩
    rcases hcase with ⟨hw, hrest | ⟨-, hnone⟩⟩ | ⟨-, hone⟩
    · cases hrest
    · exact Or.inl ⟨hw, hnone⟩
    · exact Or.inr hone

/-- An `INSERT` under a new identifier. -/
theorem wp_insert_one {f : ν → ι} {r : ∀ v, ρ (f v)} {e : ε}
    (hcheck : ∀ v, C.check (f v) (r v) = none) (h : L.Quiet σ db) :
    wp C L.protocol () ((Proc.generate f).bind fun v =>
        (Proc.insertOrRaise (f v) (r v) e : Proc ρ κ ν ε Unit).bind fun _ => .ret v)
      (fun v σ db => f v ∉ db.ids ∧ OneRow (f v) none (some (r v)) σ db) σ db := by
  refine wp_bind (wp_generate fun db₁ hr₁ _ v hids _ db₂ hr₂ _ => ?_) trivial
  have hnone : db₁.row (f v) = none := by
    by_contra hne
    exact hids (db₁.mem_ids _ (Option.isSome_iff_ne_none.mpr hne))
  have hst : (L.protocol : Protocol Unit ρ κ ε).Stable fun σ db =>
      Reserved (f v) σ db ∧ ∀ w ∈ σ.writes, w.1 = f v :=
    (reserved_stable _).and ⟨fun h _ _ => h, fun _ h => h⟩
  have hview : (σ.lockRow (f v)).view db₁ = db₁ := h.view
  have hheld : Held (f v) none none (σ.lockRow (f v)) db₁ :=
    ⟨List.mem_cons_self, hnone, by rw [hview, hnone]⟩
  have hreserved : Reserved (f v) (σ.lockRow (f v)) db₁ ∧
      ∀ w ∈ (σ.lockRow (f v)).writes, w.1 = f v := by
    refine ⟨⟨List.mem_cons_self, hids⟩, fun w hw => ?_⟩
    have hnil : (σ.lockRow (f v)).writes = [] := h.writes
    rw [hnil] at hw
    exact absurd hw List.not_mem_nil
  refine wp_bind (wp_mono (wp_insertOrRaise_reserved L.protocol_keepsLocked hst ?_
    (fun _ => trivial) (hcheck v) (hheld.rely (L.protocol_keepsLocked hr₂))
    (hst.rely hreserved hr₂ trivial)) ?_) trivial
  · rintro σ db ⟨hres, hw⟩
    exact ⟨⟨List.mem_cons_of_mem _ hres.1, hres.2⟩, List.forall_mem_cons.mpr ⟨rfl, hw⟩⟩
  · rintro _ σ₃ db₃ - ⟨hheld₃, hres₃⟩
    refine wp_ret fun db₄ hr₄ hi₄ => ?_
    have hres₄ := hst.rely hres₃ hr₄ hi₄
    exact ⟨hres₄.1.2, hheld₃.rely (L.protocol_keepsLocked hr₄), hres₄.2⟩

end Lifecycle

/-! ### The log of the commits -/

/-- The transactions `l`, each doing what `E` says, lead from `s₀` to `s`. -/
inductive Log (E : τ → S → S → Prop) (s₀ : S) : List τ → S → Prop where
  | nil : Log E s₀ [] s₀
  | snoc {l : List τ} {s s' : S} {t : τ} : Log E s₀ l s → E t s s' → Log E s₀ (l ++ [t]) s'

section Log

variable [DecidableEq τ] [DecidableEq κ] [DecidableEq ι] [Fintype τ] {C : Constraints ρ ε}
  {db₀ : Store ρ} {q : τ → Proc ρ κ ν ε α} {c c' : Config τ ρ κ ν ε α} {E : τ → S → S → Prop}
  {view : Store ρ → S} {s₀ : S} {l : List τ}

/-- The committed transactions, in an order in which they lead from `s₀` to the database. -/
structure CommitLog (E : τ → S → S → Prop) (view : Store ρ → S) (s₀ : S)
    (c : Config τ ρ κ ν ε α) (l : List τ) : Prop where
  nodup : l.Nodup
  mem : ∀ t, t ∈ l ↔ c.Committed t
  log : Log E s₀ l (view c.db)

omit [DecidableEq τ] [DecidableEq κ] [DecidableEq ι] [Fintype τ] in
theorem commitLog_init : CommitLog E view (view db₀) (.init db₀ q) [] := by
  refine ⟨List.nodup_nil, fun t => iff_of_false List.not_mem_nil ?_, .nil⟩
  rintro ⟨a, ha⟩
  cases ha

/-- A step commits one more transaction, or none. -/
theorem CommitLog.step (h : CommitLog E view s₀ c l) {t : τ} {ch : Choice ι ν}
    (hst : c.step C t ch = some c')
    (he : (c'.Committed t ∧ E t (view c.db) (view c'.db)) ∨
      (c'.db = c.db ∧ ∀ u, c'.Committed u → c.Committed u)) :
    ∃ l', CommitLog E view s₀ c' (l ++ l') := by
  have hkeep : ∀ u, c.Committed u → c'.Committed u := fun u ⟨a, ha⟩ =>
    ⟨a, Config.done_of_step hst ha⟩
  rcases he with ⟨ht, he⟩ | ⟨hdb, hu⟩
  · have hnew : t ∉ l := by
      intro hm
      obtain ⟨a, ha⟩ := (h.mem t).mp hm
      obtain ⟨p, σ, hact, -⟩ := c.step_cases hst
      rw [ha] at hact
      cases hact
    refine ⟨[t], ?_, fun u => ?_, h.log.snoc he⟩
    · refine List.nodup_append.mpr ⟨h.nodup, List.nodup_singleton t, ?_⟩
      rintro u hu v hv rfl
      rw [List.mem_singleton.mp hv] at hu
      exact hnew hu
    · rw [List.mem_append, List.mem_singleton, h.mem u]
      constructor
      · rintro (hu | rfl)
        · exact hkeep u hu
        · exact ht
      · rintro ⟨a, ha⟩
        by_cases hut : u = t
        · exact Or.inr hut
        · exact Or.inl ⟨a, (Config.tx_of_ne hst hut).symm.trans ha⟩
  · refine ⟨[], ?_⟩
    rw [List.append_nil]
    refine ⟨h.nodup, fun u => (h.mem u).trans ⟨hkeep u, hu u⟩, ?_⟩
    rw [hdb]
    exact h.log

/-- The transactions that commit later come later in the log. -/
theorem CommitLog.run
    (hstep : ∀ {c c' : Config τ ρ κ ν ε α} {t ch}, Reachable C (.init db₀ q) c →
      c.step C t ch = some c' →
        (c'.Committed t ∧ E t (view c.db) (view c'.db)) ∨
        (c'.db = c.db ∧ ∀ u, c'.Committed u → c.Committed u))
    (hc : Reachable C (.init db₀ q) c) (h : CommitLog E view s₀ c l) (hc' : Reachable C c c') :
    ∃ l', CommitLog E view s₀ c' (l ++ l') := by
  induction hc' with
  | refl => exact ⟨[], by rwa [List.append_nil]⟩
  | step hc' _ hst ih =>
    obtain ⟨l₁, h₁⟩ := ih
    obtain ⟨l₂, h₂⟩ := h₁.step hst (hstep (hc.trans hc') hst)
    rw [List.append_assoc] at h₂
    exact ⟨l₁ ++ l₂, h₂⟩

end Log

end ReadCommitted
