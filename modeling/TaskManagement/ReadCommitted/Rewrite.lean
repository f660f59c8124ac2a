import TaskManagement.ReadCommitted.Effect

/-!
# What a transaction has changed, row by row

`Held i old new` says of a session that it has locked the row `i`, whose committed version is `old`
and whose pending version is `new` (`none` where there is no row); `ChangesOnly p` says that it has
changed only rows that satisfy `p`.  Neither is disturbed by the commits of other transactions.

* `wp_update_found`, `wp_update_held`: an `UPDATE` of a row that is present, and of one that the
  transaction has written before.
* `Rewrites`: one row is held and nothing else is changed.  The first `UPDATE` of a row that is
  present establishes it (`wp_update_first`) and a later one replaces the pending version
  (`wp_update_again`).  Since only the first `UPDATE` takes the lock, the pending version is
  computed from the version that is committed then, and from whatever the transaction has read before.
* `Applied`: an `UPDATE` of several rows has changed those that its snapshot matched, each as its
  newest version says, and nothing else (`wp_update_applied`).
* `wp_insertOrRaise_held`, `wp_insertOrRaise_reserved`: an inserted row is held, and was absent.
-/

namespace ReadCommitted

variable {ι : Type} {ρ : ι → Type} {κ ν ε Λ : Type} [DecidableEq ι]

/-- The row `i` is locked; `old` is its committed version and `new` its pending one. -/
structure Held (i : ι) (old new : Option (ρ i)) (σ : Session ρ κ) (db : Store ρ) : Prop where
  mem : i ∈ σ.rows
  committed : db.row i = old
  pending : (σ.view db).row i = new

/-- Only rows that satisfy `p` are changed. -/
def ChangesOnly (p : ι → Prop) (σ : Session ρ κ) (db : Store ρ) : Prop :=
  ∀ j, ¬p j → (σ.view db).row j = db.row j

variable {inv : Store ρ → Prop} {assume : Λ → Op ι κ → Session ρ κ → Store ρ → Prop} {ℓ : Λ}
  {C : Constraints ρ ε} {i j : ι} {old new : Option (ρ i)} {σ : Session ρ κ} {db db' : Store ρ}
  {p q : ι → Prop} {u : RowUpdate ρ}

section Rely

variable (hr : ∀ i ∈ σ.rows, db'.row i = db.row i)

include hr

theorem Held.rely (h : Held i old new σ db) : Held i old new σ db' where
  mem := h.mem
  committed := (hr i h.mem).trans h.committed
  pending := by
    rw [σ.view_row_congr (hr i h.mem)]
    exact h.pending

/-- A row that looks as committed still does after a commit of another transaction. -/
theorem view_row_rely (h : (σ.view db).row j = db.row j) : (σ.view db').row j = db'.row j := by
  by_cases hj : j ∈ σ.rows
  · rw [σ.view_row_congr (hr j hj), hr j hj]
    exact h
  · exact σ.view_row_of_notMem db' hj

theorem ChangesOnly.rely (h : ChangesOnly p σ db) : ChangesOnly p σ db' :=
  fun j hj => view_row_rely hr (h j hj)

end Rely

/-- Other transactions do not change locked rows. -/
def Protocol.KeepsLocked (P : Protocol Λ ρ κ ε) : Prop :=
  ∀ {σ db db'}, P.rely σ db db' → ∀ i ∈ σ.rows, db'.row i = db.row i

omit [DecidableEq ι] in
theorem rowProtocol_keepsLocked :
    (rowProtocol inv assume : Protocol Λ ρ κ ε).KeepsLocked := fun hr => hr

theorem held_stable {P : Protocol Λ ρ κ ε} (hP : P.KeepsLocked) (i : ι)
    (old new : Option (ρ i)) : P.Stable (Held i old new) where
  rely h hr _ := h.rely (hP hr)
  saw _ h := ⟨h.mem, h.committed, h.pending⟩

theorem changesOnly_stable {P : Protocol Λ ρ κ ε} (hP : P.KeepsLocked) (p : ι → Prop) :
    P.Stable (ChangesOnly p) where
  rely h hr _ := h.rely (hP hr)
  saw _ h := h

/-- Writing another row. -/
theorem Held.write (h : Held i old new σ db) {v : Option (ρ j)} (hj : i ≠ j) :
    Held i old new (σ.write j v) db where
  mem := List.mem_cons_of_mem j h.mem
  committed := h.committed
  pending := (Store.set_row_of_ne _ _ hj).trans h.pending

/-- Writing the row itself. -/
theorem held_write (hold : db.row i = old) (new : Option (ρ i)) :
    Held i old new (σ.write i new) db :=
  ⟨List.mem_cons_self, hold, Store.set_row_self _ i new⟩

theorem ChangesOnly.write (h : ChangesOnly p σ db) {v : Option (ρ i)} (hi : p i) :
    ChangesOnly p (σ.write i v) db := by
  intro j hj
  have hji : j ≠ i := by
    rintro rfl
    exact hj hi
  exact (Store.set_row_of_ne _ _ hji).trans (h j hj)

theorem ChangesOnly.mono (h : ChangesOnly p σ db) (hpq : ∀ j, p j → q j) : ChangesOnly q σ db :=
  fun j hj => h j fun hp => hj (hpq j hp)

theorem changesOnly_of_unchanged (h : Effect.unchanged.Holds σ db) : ChangesOnly p σ db :=
  fun j _ => h j

/-! ### One row -/

/-- The row `i` is replaced, and no other row is changed. -/
structure Rewrites (i : ι) (old new : ρ i) (σ : Session ρ κ) (db : Store ρ) : Prop
    extends Held i (some old) (some new) σ db where
  frame : ChangesOnly (· = i) σ db

/-- An `UPDATE` of the row `i` alone, whatever its version. -/
structure RowUpdate.Sets (u : RowUpdate ρ) (i : ι) (set : ρ i → ρ i) : Prop where
  self : ∀ r, u i r = some (some (set r))
  other : ∀ j r, j ≠ i → u j r = none

section Sets

variable {P : Protocol Λ ρ κ ε} {A A' : Session ρ κ → Store ρ → Prop} {set : ρ i → ρ i}

/-- An `UPDATE` of a row that is present and that the transaction has not changed. -/
theorem wp_update_found (hP : P.KeepsLocked) (hu : u.Sets i set) (hA : P.Stable A)
    (hA' : P.Stable A') (hwrite : ∀ {σ db r}, A σ db → A' (σ.write i (some (set r))) db)
    (hreq : ∀ {σ db}, A σ db → P.require .query σ db ∧ P.require (.row i) σ db)
    (hcheck : ∀ r e, C.check i (set r) = some e → P.allowed e)
    (hpresent : ∀ {σ db}, P.inv db → A σ db →
      ∃ r, db.row i = some r ∧ (σ.view db).row i = some r) (ha : A σ db) :
    wp C P ℓ (Proc.update u : Proc ρ κ ν ε ℕ)
      (fun _ σ db => (∃ old, Held i (some old) (some (set old)) σ db) ∧ A' σ db) σ db := by
  refine wp_update_present hu.other hA hreq ha ?_ ?_
  · intro σ db hi ha
    obtain ⟨r, -, hr⟩ := hpresent hi ha
    exact ⟨r, _, hr, hu.self r⟩
  · rintro σ db hi ha -
    obtain ⟨r, hdb, hr⟩ := hpresent hi ha
    refine ⟨fun e he => ?_, fun n σ' hstep db' hr' hi' => ?_⟩
    · obtain ⟨r₁, r₂, hr₁, hu₁, hc⟩ := Session.rowStep_error he
      obtain rfl := Option.some.inj (hr.symm.trans hr₁)
      cases (hu.self r).symm.trans hu₁
      exact hcheck r e hc
    · obtain ⟨-, -, rfl⟩ := Session.rowStep_ok_of_write hr (hu.self r) hstep
      exact ⟨⟨r, (held_write hdb _).rely (hP hr')⟩, hA'.rely (hwrite ha) hr' hi'⟩

/-- An `UPDATE` of a row that is held. -/
theorem wp_update_held (hP : P.KeepsLocked) {old : Option (ρ i)} {new : ρ i} (hu : u.Sets i set)
    (hA : P.Stable A) (hwrite : ∀ {σ db}, A σ db → A (σ.write i (some (set new))) db)
    (hreq : ∀ {σ db}, A σ db → P.require .query σ db ∧ P.require (.row i) σ db)
    (hcheck : ∀ e, C.check i (set new) = some e → P.allowed e) (h : Held i old (some new) σ db)
    (ha : A σ db) :
    wp C P ℓ (Proc.update u : Proc ρ κ ν ε ℕ)
      (fun _ σ db => Held i old (some (set new)) σ db ∧ A σ db) σ db := by
  refine wp_update_present hu.other ((held_stable hP i old (some new)).and hA)
    (fun h => hreq h.2) ⟨h, ha⟩ ?_ ?_
  · exact fun _ h => ⟨new, _, h.1.pending, hu.self new⟩
  · rintro σ db hi ⟨h, ha⟩ -
    refine ⟨fun e he => ?_, fun n σ' hstep db' hr' hi' => ?_⟩
    · obtain ⟨r₁, r₂, hr₁, hu₁, hc⟩ := Session.rowStep_error he
      obtain rfl := Option.some.inj (h.pending.symm.trans hr₁)
      cases (hu.self new).symm.trans hu₁
      exact hcheck e hc
    · obtain ⟨-, -, rfl⟩ := Session.rowStep_ok_of_write h.pending (hu.self new) hstep
      exact ⟨(held_write h.committed _).rely (hP hr'), hA.rely (hwrite ha) hr' hi'⟩

end Sets

section Rewrites

variable {old new : ρ i} {B : Session ρ κ → Store ρ → Prop} {set : ρ i → ρ i}

theorem Rewrites.rely (h : Rewrites i old new σ db)
    (hr : ∀ i ∈ σ.rows, db'.row i = db.row i) : Rewrites i old new σ db' :=
  ⟨h.toHeld.rely hr, h.frame.rely hr⟩

theorem rewrites_stable (i : ι) (old new : ρ i) :
    (rowProtocol inv assume : Protocol Λ ρ κ ε).Stable (Rewrites i old new) where
  rely h hr _ := h.rely hr
  saw _ h := ⟨⟨h.mem, h.committed, h.pending⟩, h.frame⟩

/-- The rows that are present stay present. -/
theorem Rewrites.isSome_row (h : Rewrites i old new σ db) (j : ι) :
    ((σ.view db).row j).isSome = (db.row j).isSome := by
  by_cases hj : j = i
  · subst hj
    rw [h.pending, h.committed]
    rfl
  · rw [h.frame j hj]

/-- The first `UPDATE` of a row that is present. -/
theorem wp_update_first (hu : u.Sets i set)
    (hB : Persistent (rowProtocol inv assume : Protocol Λ ρ κ ε) B)
    (hpresent : ∀ db, inv db → (db.row i).isSome = true) (h : Effect.unchanged.Holds σ db)
    (hb : B σ db) :
    wp C (rowProtocol inv assume) ℓ (Proc.update u : Proc ρ κ ν ε ℕ)
      (fun _ σ db => (∃ old, Rewrites i old (set old) σ db) ∧ B σ db) σ db := by
  refine wp_mono (wp_update_found rowProtocol_keepsLocked hu
    (Effect.unchanged.stable.and hB.toStable)
    ((changesOnly_stable rowProtocol_keepsLocked (· = i)).and hB.toStable) ?_
    (fun _ => ⟨trivial, trivial⟩) (fun _ _ _ => trivial) ?_ ⟨h, hb⟩) ?_
  · exact fun h => ⟨(changesOnly_of_unchanged h.1).write rfl, hB.write i _ h.2⟩
  · intro σ db hi h
    obtain ⟨r, hr⟩ := Option.isSome_iff_exists.mp (hpresent db hi)
    exact ⟨r, hr, (h.1 i).trans hr⟩
  · rintro - σ db - ⟨⟨old, hold⟩, hframe, hb⟩
    exact ⟨⟨old, hold, hframe⟩, hb⟩

/-- A later `UPDATE` of the row. -/
theorem wp_update_again (hu : u.Sets i set)
    (hB : Persistent (rowProtocol inv assume : Protocol Λ ρ κ ε) B)
    (h : Rewrites i old new σ db) (hb : B σ db) :
    wp C (rowProtocol inv assume) ℓ (Proc.update u : Proc ρ κ ν ε ℕ)
      (fun _ σ db => Rewrites i old (set new) σ db ∧ B σ db) σ db := by
  refine wp_mono (wp_update_held rowProtocol_keepsLocked hu
    ((changesOnly_stable rowProtocol_keepsLocked (· = i)).and hB.toStable)
    (fun h => ⟨h.1.write rfl, hB.write i _ h.2⟩) (fun _ => ⟨trivial, trivial⟩) (fun _ _ => trivial)
    h.toHeld ⟨h.frame, hb⟩) ?_
  rintro - σ db - ⟨hheld, hframe, hb⟩
  exact ⟨⟨hheld, hframe⟩, hb⟩

end Rewrites

/-! ### Inserted rows -/

/-- An `INSERT` that does not raise: the row was absent, and what is held otherwise stays. -/
theorem wp_insertOrRaise_held {P : Protocol Λ ρ κ ε} (hP : P.KeepsLocked) {r : ρ i} {e : ε}
    {A : Session ρ κ → Store ρ → Prop} (hA : P.Stable A)
    (hwrite : ∀ {σ db}, A σ db → A (σ.write i (some r)) db)
    (hreq : ∀ {σ db}, A σ db → P.require (.insert i) σ db)
    (herror : ∀ {σ db}, P.inv db → A σ db → ChangesOnly p σ db → P.assume ℓ (.insert i) σ db →
      db.row i ≠ none → P.allowed e)
    (hcheck : C.check i r = none) (h : A σ db) (hp : ChangesOnly p σ db) (hi : ¬p i) :
    wp C P ℓ (Proc.insertOrRaise i r e : Proc ρ κ ν ε Unit)
      (fun _ σ db => Held i none (some r) σ db ∧ ChangesOnly (fun j => p j ∨ j = i) σ db ∧ A σ db)
      σ db := by
  refine wp_insertOrRaise fun db₁ hr₁ hi₁ => ?_
  have h₁ : A σ db₁ := hA.rely h hr₁ hi₁
  have hp₁ : ChangesOnly p σ db₁ := hp.rely (hP hr₁)
  refine ⟨hreq h₁, fun ha => ⟨fun hne => ?_,
    fun hnone => ⟨fun e' he' => ?_, fun db₂ hr₂ hi₂ => ?_⟩⟩⟩
  · rw [hp₁ i hi] at hne
    exact herror hi₁ h₁ hp₁ ha hne
  · rw [hcheck] at he'
    cases he'
  · have hheld : Held i none (some r) (σ.write i (some r)) db₁ :=
      held_write ((hp₁ i hi).symm.trans hnone) _
    have hother : ChangesOnly (fun j => p j ∨ j = i) (σ.write i (some r)) db₁ :=
      (hp₁.mono fun _ => Or.inl).write (Or.inr rfl)
    exact ⟨hheld.rely (hP hr₂), hother.rely (hP hr₂), hA.rely (hwrite h₁) hr₂ hi₂⟩

/-- An `INSERT` of a row whose identifier has been drawn, so that it is locked and absent. -/
theorem wp_insertOrRaise_reserved {P : Protocol Λ ρ κ ε} (hP : P.KeepsLocked) {r : ρ i} {e : ε}
    {A : Session ρ κ → Store ρ → Prop} (hA : P.Stable A)
    (hwrite : ∀ {σ db}, A σ db → A (σ.write i (some r)) db)
    (hreq : ∀ {σ db}, A σ db → P.require (.insert i) σ db) (hcheck : C.check i r = none)
    (h : Held i none none σ db) (ha : A σ db) :
    wp C P ℓ (Proc.insertOrRaise i r e : Proc ρ κ ν ε Unit)
      (fun _ σ db => Held i none (some r) σ db ∧ A σ db) σ db := by
  refine wp_insertOrRaise fun db₁ hr₁ hi₁ => ?_
  have h₁ : Held i none none σ db₁ := h.rely (hP hr₁)
  have ha₁ : A σ db₁ := hA.rely ha hr₁ hi₁
  refine ⟨hreq ha₁, fun _ => ⟨fun hne => absurd h₁.pending hne, fun _ => ⟨fun e' he' => ?_, ?_⟩⟩⟩
  · rw [hcheck] at he'
    cases he'
  · intro db₂ hr₂ hi₂
    exact ⟨(held_write h₁.committed _).rely (hP hr₂), hA.rely (hwrite ha₁) hr₂ hi₂⟩

/-! ### The rows of an `UPDATE` -/

/-- What an `UPDATE` or `DELETE` makes of a version that it finds. -/
def RowUpdate.apply (u : RowUpdate ρ) (i : ι) (r : ρ i) : Option (ρ i) :=
  match u i r with
  | none => some r
  | some w => w

/-- The rows of `l` are locked and changed as `u` says; no other row is changed. -/
structure Applied (u : RowUpdate ρ) (l : List ι) (σ : Session ρ κ) (db : Store ρ) : Prop where
  found : ∀ i ∈ l, i ∈ σ.rows ∧ (σ.view db).row i = (db.row i).bind (u.apply i)
  other : ChangesOnly (· ∈ l) σ db
  /-- There are no other locks. -/
  rows : ∀ i ∈ σ.rows, i ∈ l

theorem Applied.rely {l : List ι} (h : Applied u l σ db)
    (hr : ∀ i ∈ σ.rows, db'.row i = db.row i) : Applied u l σ db' where
  found i hi := by
    obtain ⟨hmem, hrow⟩ := h.found i hi
    refine ⟨hmem, ?_⟩
    rw [σ.view_row_congr (hr i hmem), hr i hmem]
    exact hrow
  other := h.other.rely hr
  rows := h.rows

/-- Processing a row that is present applies `u` to it. -/
theorem Applied.rowStep {l : List ι} {n n' : ℕ} {σ' : Session ρ κ} (h : Applied u l σ db)
    (hi : i ∉ l) (hpresent : (db.row i).isSome = true)
    (hst : σ.rowStep C u db i n = .ok (n', σ')) : Applied u (i :: l) σ' db := by
  obtain ⟨r, hr⟩ := Option.isSome_iff_exists.mp hpresent
  have hview : (σ.view db).row i = some r := (h.other i hi).trans hr
  -- the session locks the row and shows the version that `u` makes of it
  obtain ⟨hmem, hrow, hothers⟩ : i ∈ σ'.rows ∧ (σ'.view db).row i = u.apply i r ∧
      ∀ j, j ≠ i → (j ∈ σ.rows → j ∈ σ'.rows) ∧ (σ'.view db).row j = (σ.view db).row j := by
    unfold RowUpdate.apply
    rcases Session.rowStep_cases hst with
      ⟨hnone, -, -⟩ | ⟨r', hr', hu, -, rfl⟩ | ⟨r', hr', hu, -, rfl⟩ | ⟨r', w, hr', hu, -, -, rfl⟩
    · rw [hview] at hnone
      cases hnone
    all_goals
      obtain rfl := Option.some.inj (hview.symm.trans hr')
      rw [hu]
    · exact ⟨List.mem_cons_self, hview, fun j _ => ⟨List.mem_cons_of_mem i, rfl⟩⟩
    · exact ⟨List.mem_cons_self, Store.set_row_self _ i none,
        fun j hj => ⟨List.mem_cons_of_mem i, Store.set_row_of_ne _ _ hj⟩⟩
    · exact ⟨List.mem_cons_self, Store.set_row_self _ i (some w),
        fun j hj => ⟨List.mem_cons_of_mem i, Store.set_row_of_ne _ _ hj⟩⟩
  refine ⟨fun j hj => ?_, fun j hj => ?_, fun j hj => ?_⟩
  · by_cases hji : j = i
    · subst hji
      rw [hr]
      exact ⟨hmem, hrow⟩
    · obtain ⟨hmem', hrow'⟩ := h.found j (List.mem_of_ne_of_mem hji hj)
      exact ⟨(hothers j hji).1 hmem', (hothers j hji).2.trans hrow'⟩
  · have hji : j ≠ i := fun he => hj (he ▸ List.mem_cons_self)
    exact (hothers j hji).2.trans (h.other j fun hm => hj (List.mem_cons_of_mem i hm))
  · rcases (Session.rowStep_locks hst).1 j hj with hj | rfl
    · exact List.mem_cons_of_mem i (h.rows j hj)
    · exact List.mem_cons_self

/-- An `UPDATE` by a session that has only read, of rows that cannot disappear. -/
theorem wp_update_applied {l : List (Store ρ)}
    (hstay : ∀ i r db db', inv db → inv db' → u i r ≠ none → (db.row i).isSome = true →
      (db'.row i).isSome = true) (h : Reading l σ db) (hrows : σ.rows = []) :
    wp C (rowProtocol inv assume) ℓ (Proc.update u : Proc ρ κ ν ε ℕ)
      (fun _ σ db => ∃ s, σ.reads = s :: l ∧ Applied u (s.matching u) σ db) σ db := by
  -- `done` are the rows of the snapshot that have been processed
  refine wp_update (fun rest _ σ db => ∃ s done, σ.reads = s :: l ∧ Applied u done σ db ∧
    (∀ i, i ∈ done ∨ i ∈ rest ↔ i ∈ s.matching u) ∧ rest.Nodup ∧ (∀ i ∈ rest, i ∉ done) ∧
      ∀ db, inv db → ∀ i ∈ rest, (db.row i).isSome = true)
    ⟨?_, fun _ _ _ => trivial, ?_, fun _ _ _ _ _ => trivial⟩ ?_ ?_
  · rintro rest n σ db db' ⟨s, done, hs, happ, hrest⟩ hr -
    exact ⟨s, done, hs, happ.rely hr, hrest⟩
  · rintro rest n σ db i n' σ' hi ⟨s, done, hs, happ, hmem, hnd, hdisj, hpresent⟩ hirest - hst
    have hreads : σ'.reads = σ.reads := by
      rcases Session.rowStep_cases hst with
        ⟨-, -, rfl⟩ | ⟨r, -, -, -, rfl⟩ | ⟨r, -, -, -, rfl⟩ | ⟨r, w, -, -, -, -, rfl⟩ <;> rfl
    refine ⟨s, i :: done, hreads.trans hs, happ.rowStep (hdisj i hirest) (hpresent db hi i hirest)
      hst, fun j => ?_, hnd.erase i, fun j hj => ?_, fun db hi j hj =>
        hpresent db hi j (List.mem_of_mem_erase hj)⟩
    · rw [← hmem j, List.mem_cons, hnd.mem_erase_iff]
      constructor
      · rintro ((rfl | hj) | ⟨-, hj⟩)
        · exact Or.inr hirest
        · exact Or.inl hj
        · exact Or.inr hj
      · rintro (hj | hj)
        · exact Or.inl (Or.inr hj)
        · by_cases hji : j = i
          · exact Or.inl (Or.inl hji)
          · exact Or.inr ⟨hji, hj⟩
    · obtain ⟨hji, hj⟩ := hnd.mem_erase_iff.mp hj
      rw [List.mem_cons]
      rintro (rfl | hd)
      · exact hji rfl
      · exact hdisj j hj hd
  · intro db' hr hi
    have h' := h.rely hr hi
    refine ⟨trivial, fun _ => ⟨σ.view db', [], congrArg _ h'.reads,
      ⟨fun i hi => absurd hi List.not_mem_nil, changesOnly_of_unchanged h'.unchanged,
        fun i hi => absurd (hrows ▸ hi) List.not_mem_nil⟩,
      fun i => ?_, Store.nodup_matching _ u, fun i _ => List.not_mem_nil, fun db'' hi'' i hm => ?_⟩⟩
    · exact ⟨fun h => h.resolve_left List.not_mem_nil, Or.inr⟩
    · obtain ⟨r, v, hrow, hu⟩ := Store.mem_matching.mp hm
      rw [h'.view_row i] at hrow
      refine hstay i r db' db'' hi hi'' (by rw [hu]; exact Option.some_ne_none v) ?_
      rw [hrow]
      rfl
  · rintro n σ db - ⟨s, done, hs, happ, hmem, -⟩
    have hiff : ∀ i, i ∈ done ↔ i ∈ s.matching u := fun i => by
      rw [← hmem i]
      exact ⟨Or.inl, fun h => h.resolve_right List.not_mem_nil⟩
    refine ⟨s, hs, fun i hi => happ.found i ((hiff i).mpr hi), fun i hi => ?_,
      fun i hi => (hiff i).mp (happ.rows i hi)⟩
    exact happ.other i fun hd => hi ((hiff i).mp hd)

end ReadCommitted
