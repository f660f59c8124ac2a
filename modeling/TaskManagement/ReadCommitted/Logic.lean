import TaskManagement.ReadCommitted.System

/-!
# A rely–guarantee logic for transaction programs

A `Protocol` is the discipline that a family of concurrent transactions keeps: an invariant of the
committed database, what the commits of the other transactions may change from the point of view of
a session (`rely`), what may be assumed and what is owed at each operation, and which errors may
occur.  `wp C P ℓ p Q σ db` says that the program `p` of a transaction labelled `ℓ`, continued from
the session `σ` over the committed database `db`, keeps the protocol under any interference the
rely admits and ends with `Q`; it is defined along the program, with a loop invariant at the rows
of an `UPDATE`.

* `wp_bind`, `wp_mono`, `wp_and`: composition;
* `wp_select`, `wp_advisoryLock`, `wp_selectForUpdate`, `wp_update`, `wp_raiseIf`,
  `wp_insertOrIgnore`, `wp_insertOrRaise`, `wp_generate`: one rule for each statement;
* `Protocol.Stable`, `wp_select_stable`, `wp_update_single`, `wp_update_present`: assertions that
  commits of other transactions keep, and the statements that only need such an assertion;
* `Sound.step`, `Sound.run`: a configuration whose transactions all satisfy their `wp` keeps doing
  so along every run (under the assumptions), so the invariant holds in every reachable database.
-/

namespace ReadCommitted

variable {ι : Type} {ρ : ι → Type} {κ ν ε α β Λ : Type}

/-- The discipline of a family of transactions, labelled by `Λ`. -/
structure Protocol {ι : Type} (Λ : Type) (ρ : ι → Type) (κ ε : Type) where
  /-- The invariant of the committed database. -/
  inv : Store ρ → Prop
  /-- What the commits of other transactions may do, seen from a session. -/
  rely : Session ρ κ → Store ρ → Store ρ → Prop
  /-- What is assumed when a transaction performs an operation. -/
  assume : Λ → Op ι κ → Session ρ κ → Store ρ → Prop
  /-- What holds whenever an operation is next, also while the transaction is blocked. -/
  require : Op ι κ → Session ρ κ → Store ρ → Prop
  /-- The errors that may end a transaction. -/
  allowed : ε → Prop
  rely_refl : ∀ σ db, rely σ db db
  rely_trans : ∀ σ db db' db'', rely σ db db' → rely σ db' db'' → rely σ db db''

section Wp

variable [DecidableEq ι] (C : Constraints ρ ε) (P : Protocol Λ ρ κ ε) (ℓ : Λ)

/-- A loop invariant for the rows of an `UPDATE`: `I rest n σ db` with `rest` the rows still to
process and `n` the number written. -/
structure RowInvariant (u : RowUpdate ρ) (I : List ι → ℕ → Session ρ κ → Store ρ → Prop) :
    Prop where
  /-- Commits of other transactions keep it. -/
  stable : ∀ {rest n σ db db'}, I rest n σ db → P.rely σ db db' → P.inv db' → I rest n σ db'
  /-- What is owed while a row is next. -/
  owed : ∀ {rest n σ db i}, P.inv db → I rest n σ db → i ∈ rest → P.require (.row i) σ db
  /-- Processing a row keeps it. -/
  row : ∀ {rest n σ db i n' σ'}, P.inv db → I rest n σ db → i ∈ rest → P.assume ℓ (.row i) σ db →
    σ.rowStep C u db i n = .ok (n', σ') → I (rest.erase i) n' σ' db
  /-- A violated `CHECK` constraint is an allowed error. -/
  error : ∀ {rest n σ db i e}, P.inv db → I rest n σ db → i ∈ rest → P.assume ℓ (.row i) σ db →
    σ.rowStep C u db i n = .error e → P.allowed e

/-- The program `p`, continued from the session `σ` over `db`, keeps the protocol and ends with
`Q`. -/
def wp (p : Proc ρ κ ν ε α) (Q : α → Session ρ κ → Store ρ → Prop) (σ : Session ρ κ)
    (db : Store ρ) : Prop :=
  match p with
  | .ret a => ∀ db', P.rely σ db db' → P.inv db' → Q a σ db'
  | .throw e => P.allowed e
  | .query k => ∀ db', P.rely σ db db' → P.inv db' → P.require .query σ db' ∧
      (P.assume ℓ .query σ db' → wp (k (σ.view db')) Q (σ.saw (σ.view db')) db')
  | .key x k => ∀ db', P.rely σ db db' → P.inv db' → P.require (.key x) σ db' ∧
      (P.assume ℓ (.key x) σ db' → wp k Q (σ.lockKey x) db')
  | .lock i k => ∀ db', P.rely σ db db' → P.inv db' → P.require (.lock i) σ db' ∧
      (P.assume ℓ (.lock i) σ db' → wp (k ((σ.view db').row i)) Q (σ.lockStep db' i) db')
  | .eachRow rest u n k => ∃ I : List ι → ℕ → Session ρ κ → Store ρ → Prop,
      RowInvariant C P ℓ u I ∧ I rest n σ db ∧
        ∀ m σ' db', P.inv db' → I [] m σ' db' → wp (k m) Q σ' db'
  | .insert i r k => ∀ db', P.rely σ db db' → P.inv db' → P.require (.insert i) σ db' ∧
      (P.assume ℓ (.insert i) σ db' →
        (∀ e, σ.insertStep C db' i r = .error e → P.allowed e) ∧
        ∀ b σ', σ.insertStep C db' i r = .ok (b, σ') → wp (k b) Q σ' db')
  | .fresh f k => ∀ db', P.rely σ db db' → P.inv db' → ∀ v, f v ∉ db'.ids → f v ∉ σ.rows →
      wp (k v) Q (σ.lockRow (f v)) db'

variable {C P ℓ}

/-- Interference keeps `wp`. -/
theorem wp_rely {p : Proc ρ κ ν ε α} {Q : α → Session ρ κ → Store ρ → Prop} {σ : Session ρ κ}
    {db db' : Store ρ} (h : wp C P ℓ p Q σ db) (hr : P.rely σ db db') (hi : P.inv db') :
    wp C P ℓ p Q σ db' := by
  have htr : ∀ {db''}, P.rely σ db' db'' → P.rely σ db db'' :=
    fun h' => P.rely_trans _ _ _ _ hr h'
  cases p with
  | ret a => exact fun db'' h' => h db'' (htr h')
  | throw e => exact h
  | query k => exact fun db'' h' => h db'' (htr h')
  | key x k => exact fun db'' h' => h db'' (htr h')
  | lock i k => exact fun db'' h' => h db'' (htr h')
  | eachRow rest u n k =>
    obtain ⟨I, hI, h0, hk⟩ := h
    exact ⟨I, hI, hI.stable h0 hr hi, hk⟩
  | insert i r k => exact fun db'' h' => h db'' (htr h')
  | fresh f k => exact fun db'' h' => h db'' (htr h')

theorem wp_mono {p : Proc ρ κ ν ε α} {Q R : α → Session ρ κ → Store ρ → Prop} {σ : Session ρ κ}
    {db : Store ρ} (h : wp C P ℓ p Q σ db) (hQR : ∀ a σ db, P.inv db → Q a σ db → R a σ db) :
    wp C P ℓ p R σ db := by
  induction p generalizing σ db with
  | ret a => exact fun db' hr hi => hQR a σ db' hi (h db' hr hi)
  | throw e => exact h
  | query k ih => exact fun db' hr hi => ⟨(h db' hr hi).1, fun ha => ih _ ((h db' hr hi).2 ha)⟩
  | key x k ih => exact fun db' hr hi => ⟨(h db' hr hi).1, fun ha => ih ((h db' hr hi).2 ha)⟩
  | lock i k ih => exact fun db' hr hi => ⟨(h db' hr hi).1, fun ha => ih _ ((h db' hr hi).2 ha)⟩
  | eachRow rest u n k ih =>
    obtain ⟨I, hI, h0, hk⟩ := h
    exact ⟨I, hI, h0, fun m σ' db' hi h' => ih m (hk m σ' db' hi h')⟩
  | insert i r k ih =>
    exact fun db' hr hi => ⟨(h db' hr hi).1, fun ha =>
      ⟨((h db' hr hi).2 ha).1, fun b σ' hb => ih b (((h db' hr hi).2 ha).2 b σ' hb)⟩⟩
  | fresh f k ih => exact fun db' hr hi v h1 h2 => ih v (h db' hr hi v h1 h2)

/-- Sequencing: `f` is verified from whatever `p` ends with. -/
theorem wp_bind {p : Proc ρ κ ν ε α} {f : α → Proc ρ κ ν ε β}
    {Q : β → Session ρ κ → Store ρ → Prop} {σ : Session ρ κ} {db : Store ρ}
    (h : wp C P ℓ p (fun a => wp C P ℓ (f a) Q) σ db) (hi : P.inv db) :
    wp C P ℓ (p.bind f) Q σ db := by
  induction p generalizing σ db with
  | ret a => exact h db (P.rely_refl σ db) hi
  | throw e => exact h
  | query k ih =>
    exact fun db' hr hi => ⟨(h db' hr hi).1, fun ha => ih _ ((h db' hr hi).2 ha) hi⟩
  | key x k ih => exact fun db' hr hi => ⟨(h db' hr hi).1, fun ha => ih ((h db' hr hi).2 ha) hi⟩
  | lock i k ih =>
    exact fun db' hr hi => ⟨(h db' hr hi).1, fun ha => ih _ ((h db' hr hi).2 ha) hi⟩
  | eachRow rest u n k ih =>
    obtain ⟨I, hI, h0, hk⟩ := h
    exact ⟨I, hI, h0, fun m σ' db' hi h' => ih m (hk m σ' db' hi h') hi⟩
  | insert i r k ih =>
    exact fun db' hr hi => ⟨(h db' hr hi).1, fun ha =>
      ⟨((h db' hr hi).2 ha).1, fun b σ' hb => ih b (((h db' hr hi).2 ha).2 b σ' hb) hi⟩⟩
  | fresh f k ih => exact fun db' hr hi v h1 h2 => ih v (h db' hr hi v h1 h2) hi

/-- Two specifications of one program hold together. -/
theorem wp_and {p : Proc ρ κ ν ε α} {Q R : α → Session ρ κ → Store ρ → Prop} {σ : Session ρ κ}
    {db : Store ρ} (hQ : wp C P ℓ p Q σ db) (hR : wp C P ℓ p R σ db) :
    wp C P ℓ p (fun a σ db => Q a σ db ∧ R a σ db) σ db := by
  induction p generalizing σ db with
  | ret a => exact fun db' hr hi => ⟨hQ db' hr hi, hR db' hr hi⟩
  | throw e => exact hQ
  | query k ih =>
    exact fun db' hr hi => ⟨(hQ db' hr hi).1, fun ha =>
      ih _ ((hQ db' hr hi).2 ha) ((hR db' hr hi).2 ha)⟩
  | key x k ih =>
    exact fun db' hr hi => ⟨(hQ db' hr hi).1, fun ha =>
      ih ((hQ db' hr hi).2 ha) ((hR db' hr hi).2 ha)⟩
  | lock i k ih =>
    exact fun db' hr hi => ⟨(hQ db' hr hi).1, fun ha =>
      ih _ ((hQ db' hr hi).2 ha) ((hR db' hr hi).2 ha)⟩
  | eachRow rest u n k ih =>
    obtain ⟨I, hI, h0, hk⟩ := hQ
    obtain ⟨J, hJ, h0', hk'⟩ := hR
    refine ⟨fun rest n σ db => I rest n σ db ∧ J rest n σ db, ⟨?_, ?_, ?_, ?_⟩, ⟨h0, h0'⟩,
      fun m σ' db' hi h' => ih m (hk m σ' db' hi h'.1) (hk' m σ' db' hi h'.2)⟩
    · exact fun h hr hi => ⟨hI.stable h.1 hr hi, hJ.stable h.2 hr hi⟩
    · exact fun hi h hm => hI.owed hi h.1 hm
    · exact fun hi h hm ha hs => ⟨hI.row hi h.1 hm ha hs, hJ.row hi h.2 hm ha hs⟩
    · exact fun hi h hm ha hs => hI.error hi h.1 hm ha hs
  | insert i r k ih =>
    exact fun db' hr hi => ⟨(hQ db' hr hi).1, fun ha => ⟨((hQ db' hr hi).2 ha).1, fun b σ' hb =>
      ih b (((hQ db' hr hi).2 ha).2 b σ' hb) (((hR db' hr hi).2 ha).2 b σ' hb)⟩⟩
  | fresh f k ih =>
    exact fun db' hr hi v h1 h2 => ih v (hQ db' hr hi v h1 h2) (hR db' hr hi v h1 h2)

/-! ### Rules for the statements -/

section Rules

variable {Q : α → Session ρ κ → Store ρ → Prop} {σ : Session ρ κ} {db : Store ρ}

theorem wp_ret {a : α} (h : ∀ db', P.rely σ db db' → P.inv db' → Q a σ db') :
    wp C P ℓ (.ret a : Proc ρ κ ν ε α) Q σ db := h

theorem wp_select {f : Store ρ → α} (h : ∀ db', P.rely σ db db' → P.inv db' →
      P.require .query σ db' ∧ (P.assume ℓ .query σ db' →
        ∀ db'', P.rely (σ.saw (σ.view db')) db' db'' → P.inv db'' →
          Q (f (σ.view db')) (σ.saw (σ.view db')) db'')) :
    wp C P ℓ (Proc.select f : Proc ρ κ ν ε α) Q σ db := h

theorem wp_advisoryLock {x : κ} {Q : Unit → Session ρ κ → Store ρ → Prop}
    (h : ∀ db', P.rely σ db db' → P.inv db' → P.require (.key x) σ db' ∧
      (P.assume ℓ (.key x) σ db' →
        ∀ db'', P.rely (σ.lockKey x) db' db'' → P.inv db'' → Q () (σ.lockKey x) db'')) :
    wp C P ℓ (Proc.advisoryLock x : Proc ρ κ ν ε Unit) Q σ db := h

/-- An advisory lock keeps an assertion that only has to survive the wait for it. -/
theorem wp_advisoryLock_keeps {x : κ} {A : Session ρ κ → Store ρ → Prop}
    (hrely : ∀ {σ db db'}, A σ db → P.rely σ db db' → P.inv db' → A σ db')
    (hkey : ∀ {σ db}, A σ db → P.require (.key x) σ db ∧ A (σ.lockKey x) db) (h : A σ db) :
    wp C P ℓ (Proc.advisoryLock x : Proc ρ κ ν ε Unit) (fun _ σ db => A σ db) σ db := by
  refine wp_advisoryLock fun db' hr hi => ?_
  have h' := hkey (hrely h hr hi)
  exact ⟨h'.1, fun _ db'' hr' hi' => hrely h'.2 hr' hi'⟩

theorem wp_selectForUpdate {i : ι} {Q : Option (ρ i) → Session ρ κ → Store ρ → Prop}
    (h : ∀ db', P.rely σ db db' → P.inv db' → P.require (.lock i) σ db' ∧
      (P.assume ℓ (.lock i) σ db' →
        ∀ db'', P.rely (σ.lockStep db' i) db' db'' → P.inv db'' →
          Q ((σ.view db').row i) (σ.lockStep db' i) db'')) :
    wp C P ℓ (Proc.selectForUpdate i : Proc ρ κ ν ε _) Q σ db := h

/-- An `UPDATE` is verified by a loop invariant over its rows. -/
theorem wp_update {u : RowUpdate ρ} {Q : ℕ → Session ρ κ → Store ρ → Prop}
    (I : List ι → ℕ → Session ρ κ → Store ρ → Prop) (hI : RowInvariant C P ℓ u I)
    (h : ∀ db', P.rely σ db db' → P.inv db' → P.require .query σ db' ∧
      (P.assume ℓ .query σ db' → I ((σ.view db').matching u) 0 (σ.saw (σ.view db')) db'))
    (hQ : ∀ n σ' db', P.inv db' → I [] n σ' db' → Q n σ' db') :
    wp C P ℓ (Proc.update u : Proc ρ κ ν ε ℕ) Q σ db := by
  intro db' hr hi
  refine ⟨(h db' hr hi).1, fun ha => ⟨I, hI, (h db' hr hi).2 ha, ?_⟩⟩
  exact fun n σ' db'' hi'' h' db3 hr3 hi3 => hQ n σ' db3 hi3 (hI.stable h' hr3 hi3)

theorem wp_raiseIf {c : Prop} [Decidable c] {e : ε} {Q : Unit → Session ρ κ → Store ρ → Prop}
    (he : c → P.allowed e)
    (h : ¬c → ∀ db', P.rely σ db db' → P.inv db' → Q () σ db') :
    wp C P ℓ (Proc.raiseIf c e : Proc ρ κ ν ε Unit) Q σ db := by
  unfold Proc.raiseIf
  split
  · exact he ‹_›
  · exact h ‹_›

/-- An `INSERT` goes on from the database it met: with the row when its primary key was free. -/
theorem wp_insert {i : ι} {r : ρ i} {k : Bool → Proc ρ κ ν ε α}
    (h : ∀ db', P.rely σ db db' → P.inv db' → P.require (.insert i) σ db' ∧
      (P.assume ℓ (.insert i) σ db' →
        ((σ.view db').row i ≠ none → wp C P ℓ (k false) Q σ db') ∧
        ((σ.view db').row i = none → (∀ e, C.check i r = some e → P.allowed e) ∧
          wp C P ℓ (k true) Q (σ.write i (some r)) db'))) :
    wp C P ℓ (.insert i r k : Proc ρ κ ν ε α) Q σ db := by
  intro db' hr hi
  refine ⟨(h db' hr hi).1, fun ha => ?_⟩
  obtain ⟨hdup, hnew⟩ := (h db' hr hi).2 ha
  refine ⟨fun e he => ?_, fun b σ' hb => ?_⟩
  · obtain ⟨hrow, hc⟩ := Session.insertStep_error he
    exact (hnew hrow).1 e hc
  · rcases Session.insertStep_cases hb with ⟨hrow, rfl, rfl⟩ | ⟨hrow, -, rfl, rfl⟩
    · exact hdup hrow
    · exact (hnew hrow).2

theorem wp_insertOrRaise {i : ι} {r : ρ i} {e : ε} {Q : Unit → Session ρ κ → Store ρ → Prop}
    (h : ∀ db', P.rely σ db db' → P.inv db' → P.require (.insert i) σ db' ∧
      (P.assume ℓ (.insert i) σ db' →
        ((σ.view db').row i ≠ none → P.allowed e) ∧
        ((σ.view db').row i = none → (∀ e', C.check i r = some e' → P.allowed e') ∧
          ∀ db'', P.rely (σ.write i (some r)) db' db'' → P.inv db'' →
            Q () (σ.write i (some r)) db''))) :
    wp C P ℓ (Proc.insertOrRaise i r e : Proc ρ κ ν ε Unit) Q σ db :=
  wp_insert h

theorem wp_insertOrIgnore {i : ι} {r : ρ i} {Q : Unit → Session ρ κ → Store ρ → Prop}
    (h : ∀ db', P.rely σ db db' → P.inv db' → P.require (.insert i) σ db' ∧
      (P.assume ℓ (.insert i) σ db' →
        ((σ.view db').row i ≠ none → ∀ db'', P.rely σ db' db'' → P.inv db'' → Q () σ db'') ∧
        ((σ.view db').row i = none → (∀ e', C.check i r = some e' → P.allowed e') ∧
          ∀ db'', P.rely (σ.write i (some r)) db' db'' → P.inv db'' →
            Q () (σ.write i (some r)) db''))) :
    wp C P ℓ (Proc.insertOrIgnore i r : Proc ρ κ ν ε Unit) Q σ db :=
  wp_insert h

theorem wp_generate {f : ν → ι} {Q : ν → Session ρ κ → Store ρ → Prop}
    (h : ∀ db', P.rely σ db db' → P.inv db' → ∀ v, f v ∉ db'.ids → f v ∉ σ.rows →
      ∀ db'', P.rely (σ.lockRow (f v)) db' db'' → P.inv db'' → Q v (σ.lockRow (f v)) db'') :
    wp C P ℓ (Proc.generate f : Proc ρ κ ν ε ν) Q σ db := h

end Rules

/-! ### Stable assertions -/

/-- Neither the commits of other transactions nor a snapshot of its own invalidates `A`. -/
structure Protocol.Stable (P : Protocol Λ ρ κ ε) (A : Session ρ κ → Store ρ → Prop) : Prop where
  rely : ∀ {σ db db'}, A σ db → P.rely σ db db' → P.inv db' → A σ db'
  saw : ∀ {σ db} s, A σ db → A (σ.saw s) db

section Stable

variable {A B : Session ρ κ → Store ρ → Prop} {σ : Session ρ κ} {db : Store ρ}

omit [DecidableEq ι] in
theorem Protocol.Stable.and (hA : P.Stable A) (hB : P.Stable B) :
    P.Stable fun σ db => A σ db ∧ B σ db where
  rely h hr hi := ⟨hA.rely h.1 hr hi, hB.rely h.2 hr hi⟩
  saw s h := ⟨hA.saw s h.1, hB.saw s h.2⟩

/-- A `SELECT` keeps a stable assertion, and its result was read in a state that satisfies it. -/
theorem wp_select_stable (hA : P.Stable A) (hreq : ∀ {σ db}, A σ db → P.require .query σ db)
    {f : Store ρ → α} (h : A σ db) :
    wp C P ℓ (Proc.select f : Proc ρ κ ν ε α)
      (fun a σ db => A σ db ∧ ∃ σ₀ db₀, A σ₀ db₀ ∧ P.inv db₀ ∧ a = f (σ₀.view db₀)) σ db := by
  refine wp_select fun db' hr hi => ⟨hreq (hA.rely h hr hi), fun _ db'' hr' hi' => ?_⟩
  have h' : A σ db' := hA.rely h hr hi
  exact ⟨hA.rely (hA.saw _ h') hr' hi', σ, db', h', hi, rfl⟩

theorem wp_raiseIf_stable (hA : P.Stable A) {c : Prop} [Decidable c] {e : ε}
    (he : c → P.allowed e) (h : A σ db) :
    wp C P ℓ (Proc.raiseIf c e : Proc ρ κ ν ε Unit) (fun _ σ db => ¬c ∧ A σ db) σ db :=
  wp_raiseIf he fun hc _ hr hi => ⟨hc, hA.rely h hr hi⟩

/-- An `UPDATE` or `DELETE` whose `WHERE` clause admits only the row `i`: its snapshot does not admit
the row, or `A` holds until the row is processed. -/
theorem wp_update_one {u : RowUpdate ρ} {i : ι} {Q : ℕ → Session ρ κ → Store ρ → Prop}
    (hu : ∀ j r, j ≠ i → u j r = none)
    (hA : ∀ {σ db db'}, A σ db → P.rely σ db db' → P.inv db' → A σ db')
    (hreq : ∀ {σ db}, A σ db → P.require (.row i) σ db)
    (hquery : ∀ db', P.rely σ db db' → P.inv db' → P.require .query σ db' ∧
      (P.assume ℓ .query σ db' →
        (i ∉ (σ.view db').matching u → ∀ db'', P.rely (σ.saw (σ.view db')) db' db'' →
          P.inv db'' → Q 0 (σ.saw (σ.view db')) db'') ∧
        (i ∈ (σ.view db').matching u → A (σ.saw (σ.view db')) db')))
    (hrow : ∀ {σ db}, P.inv db → A σ db → P.assume ℓ (.row i) σ db →
      (∀ e, σ.rowStep C u db i 0 = .error e → P.allowed e) ∧
      ∀ n σ', σ.rowStep C u db i 0 = .ok (n, σ') →
        ∀ db', P.rely σ' db db' → P.inv db' → Q n σ' db') :
    wp C P ℓ (Proc.update u : Proc ρ κ ν ε ℕ) Q σ db := by
  intro db₁ hr₁ hi₁
  obtain ⟨hreq₁, hquery₁⟩ := hquery db₁ hr₁ hi₁
  refine ⟨hreq₁, fun ha => ?_⟩
  -- the row is next, or the statement is over
  refine ⟨fun rest n σ db => (rest = [i] ∧ n = 0 ∧ A σ db) ∨
    (rest = [] ∧ ∀ db', P.rely σ db db' → P.inv db' → Q n σ db'), ⟨?_, ?_, ?_, ?_⟩, ?_, ?_⟩
  · rintro rest n σ db db' (⟨h, h', hA'⟩ | ⟨h, hQ⟩) hr hi
    · exact Or.inl ⟨h, h', hA hA' hr hi⟩
    · exact Or.inr ⟨h, fun db'' hr' => hQ db'' (P.rely_trans _ _ _ _ hr hr')⟩
  · rintro rest n σ db j - (⟨rfl, -, hA'⟩ | ⟨rfl, -⟩) hj
    · obtain rfl := List.mem_singleton.mp hj
      exact hreq hA'
    · exact absurd hj List.not_mem_nil
  · rintro rest n σ db j n' σ' hi (⟨rfl, rfl, hA'⟩ | ⟨rfl, -⟩) hj ha hst
    · obtain rfl := List.mem_singleton.mp hj
      exact Or.inr ⟨List.erase_cons_head j [], (hrow hi hA' ha).2 n' σ' hst⟩
    · exact absurd hj List.not_mem_nil
  · rintro rest n σ db j e hi (⟨rfl, rfl, hA'⟩ | ⟨rfl, -⟩) hj ha hst
    · obtain rfl := List.mem_singleton.mp hj
      exact (hrow hi hA' ha).1 e hst
    · exact absurd hj List.not_mem_nil
  · rcases (σ.view db₁).matching_of_single hu with hm | hm
    · refine Or.inl ⟨hm, rfl, (hquery₁ ha).2 ?_⟩
      rw [hm]
      exact List.mem_singleton_self i
    · refine Or.inr ⟨hm, (hquery₁ ha).1 ?_⟩
      rw [hm]
      exact List.not_mem_nil
  · rintro n σ' db' hi (⟨h, -⟩ | ⟨-, hQ⟩)
    · cases h
    · exact fun db'' hr hi' => hQ db'' hr hi'

/-- The same with a stable assertion; `hnone` knows a state in which the clause did not admit the
row. -/
theorem wp_update_row {u : RowUpdate ρ} {i : ι} {Q : ℕ → Session ρ κ → Store ρ → Prop}
    (hu : ∀ j r, j ≠ i → u j r = none) (hA : P.Stable A)
    (hreq : ∀ {σ db}, A σ db → P.require .query σ db ∧ P.require (.row i) σ db) (h : A σ db)
    (hnone : ∀ {σ₀ db₀}, P.inv db₀ → A σ₀ db₀ → i ∉ (σ₀.view db₀).matching u →
      ∀ {σ db}, P.inv db → A σ db → Q 0 σ db)
    (hrow : ∀ {σ db}, P.inv db → A σ db → P.assume ℓ (.row i) σ db →
      (∀ e, σ.rowStep C u db i 0 = .error e → P.allowed e) ∧
      ∀ n σ', σ.rowStep C u db i 0 = .ok (n, σ') →
        ∀ db', P.rely σ' db db' → P.inv db' → Q n σ' db') :
    wp C P ℓ (Proc.update u : Proc ρ κ ν ε ℕ) Q σ db := by
  refine wp_update_one hu hA.rely (fun h => (hreq h).2) (fun db₁ hr₁ hi₁ => ?_) hrow
  have h₁ : A σ db₁ := hA.rely h hr₁ hi₁
  refine ⟨(hreq h₁).1, fun _ => ⟨fun hmiss db₂ hr₂ hi₂ => ?_, fun _ => hA.saw _ h₁⟩⟩
  exact hnone hi₁ h₁ hmiss hi₂ (hA.rely (hA.saw _ h₁) hr₂ hi₂)

/-- The same when nothing is to be said of a row that the clause does not admit. -/
theorem wp_update_single {u : RowUpdate ρ} {i : ι} {Q : ℕ → Session ρ κ → Store ρ → Prop}
    (hu : ∀ j r, j ≠ i → u j r = none) (hA : P.Stable A)
    (hreq : ∀ {σ db}, A σ db → P.require .query σ db ∧ P.require (.row i) σ db) (h : A σ db)
    (hnone : ∀ {σ db}, P.inv db → A σ db → Q 0 σ db)
    (hrow : ∀ {σ db}, P.inv db → A σ db → P.assume ℓ (.row i) σ db →
      (∀ e, σ.rowStep C u db i 0 = .error e → P.allowed e) ∧
      ∀ n σ', σ.rowStep C u db i 0 = .ok (n, σ') →
        ∀ db', P.rely σ' db db' → P.inv db' → Q n σ' db') :
    wp C P ℓ (Proc.update u : Proc ρ κ ν ε ℕ) Q σ db :=
  wp_update_row hu hA hreq h (fun _ _ _ => hnone) hrow

/-- The same when every version of the row that `A` admits matches. -/
theorem wp_update_present {u : RowUpdate ρ} {i : ι} {Q : ℕ → Session ρ κ → Store ρ → Prop}
    (hu : ∀ j r, j ≠ i → u j r = none) (hA : P.Stable A)
    (hreq : ∀ {σ db}, A σ db → P.require .query σ db ∧ P.require (.row i) σ db) (h : A σ db)
    (hmatch : ∀ {σ db}, P.inv db → A σ db → ∃ r v, (σ.view db).row i = some r ∧ u i r = some v)
    (hrow : ∀ {σ db}, P.inv db → A σ db → P.assume ℓ (.row i) σ db →
      (∀ e, σ.rowStep C u db i 0 = .error e → P.allowed e) ∧
      ∀ n σ', σ.rowStep C u db i 0 = .ok (n, σ') →
        ∀ db', P.rely σ' db db' → P.inv db' → Q n σ' db') :
    wp C P ℓ (Proc.update u : Proc ρ κ ν ε ℕ) Q σ db :=
  wp_update_row hu hA hreq h
    (fun hi h hmiss => absurd (Store.mem_matching.mpr (hmatch hi h)) hmiss) hrow

end Stable

end Wp

end ReadCommitted
