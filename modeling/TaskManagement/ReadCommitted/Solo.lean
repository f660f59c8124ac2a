import TaskManagement.ReadCommitted.Effect
import TaskManagement.ReadCommitted.Validity

/-!
# Transactions that run alone

`Solo C allowed p s Q` says what the program `p` does when no other transaction interferes: from
the rows `s` it ends with a result and rows that satisfy `Q`, or with an `allowed` error.  The rules
`Solo.bind`, `Solo.update`, ... evaluate a program statement by statement; `Updated` is what an
`UPDATE` makes of the rows, in whatever order it processes them.  `Solo.run` carries a
specification over to the runs of the configuration that has the program as its only transaction.
-/

namespace ReadCommitted

variable {ι : Type} {ρ : ι → Type} {κ ν ε α β : Type}

/-- The protocol of a transaction that runs alone: nothing is committed beside it. -/
def soloProtocol (allowed : ε → Prop) : Protocol Unit ρ κ ε where
  inv _ := True
  rely _ db db' := db' = db
  assume _ _ _ _ := True
  require _ _ _ := True
  allowed := allowed
  rely_refl _ _ := rfl
  rely_trans _ _ _ _ h h' := h'.trans h

variable [DecidableEq ι]

/-- Run alone on the rows `s`, the program ends with `Q` or with an allowed error. -/
def Solo (C : Constraints ρ ε) (allowed : ε → Prop) (p : Proc ρ κ ν ε α) (s : Store ρ)
    (Q : α → Store ρ → Prop) : Prop :=
  ∀ (σ : Session ρ κ) db, σ.view db = s →
    wp C (soloProtocol allowed) () p (fun a σ' db' => db' = db ∧ Q a (σ'.view db')) σ db

/-- The rows `s'` are the rows `s` after the `UPDATE` or `DELETE` `u`. -/
def Updated (u : RowUpdate ρ) (s s' : Store ρ) : Prop :=
  ∀ i, s'.row i = (s.row i).bind fun r => (u i r).getD (some r)

/-- No row version that `u` writes violates a `CHECK` constraint. -/
def Fits (C : Constraints ρ ε) (u : RowUpdate ρ) (s : Store ρ) : Prop :=
  ∀ i r r', s.row i = some r → u i r = some (some r') → C.check i r' = none

omit [DecidableEq ι] in
/-- The rows after an `UPDATE` pass their checks. -/
theorem Updated.checked {C : Constraints ρ ε} {u : RowUpdate ρ} {s s' : Store ρ}
    (h : Updated u s s') (hs : Checked C s) (hu : Fits C u s) : Checked C s' := by
  intro i r' hr'
  rw [h] at hr'
  obtain ⟨r, hr, hrow⟩ := Option.bind_eq_some_iff.mp hr'
  cases hw : u i r with
  | none =>
    rw [hw] at hrow
    obtain rfl := Option.some.inj hrow
    exact hs i r hr
  | some w =>
    rw [hw] at hrow
    obtain rfl : w = some r' := hrow
    exact hu i r r' hr hw

namespace Solo

variable {C : Constraints ρ ε} {allowed : ε → Prop} {s : Store ρ} {Q : α → Store ρ → Prop}

theorem ret {a : α} (h : Q a s) : Solo C allowed (.ret a : Proc ρ κ ν ε α) s Q := by
  rintro σ db rfl
  exact wp_ret fun db' hr _ => ⟨hr, by rw [show db' = db from hr]; exact h⟩

theorem throw {e : ε} (h : allowed e) : Solo C allowed (.throw e : Proc ρ κ ν ε α) s Q :=
  fun _ _ _ => h

theorem bind {p : Proc ρ κ ν ε α} {f : α → Proc ρ κ ν ε β} {Q : β → Store ρ → Prop}
    (h : Solo C allowed p s fun a s' => Solo C allowed (f a) s' Q) :
    Solo C allowed (p.bind f) s Q := by
  intro σ db hs
  refine wp_bind (wp_mono (h σ db hs) ?_) trivial
  rintro a σ' db' - ⟨rfl, h'⟩
  exact h' σ' db' rfl

theorem mono {p : Proc ρ κ ν ε α} {R : α → Store ρ → Prop} (h : Solo C allowed p s Q)
    (hQ : ∀ a s', Q a s' → R a s') : Solo C allowed p s R := by
  intro σ db hs
  exact wp_mono (h σ db hs) fun a σ' db' _ h' => ⟨h'.1, hQ a _ h'.2⟩

/-- More errors may be allowed. -/
theorem allow {allowed' : ε → Prop} {p : Proc ρ κ ν ε α} (h : Solo C allowed p s Q)
    (he : ∀ e, allowed e → allowed' e) : Solo C allowed' p s Q := by
  suffices key : ∀ {R : α → Session ρ κ → Store ρ → Prop} (σ : Session ρ κ) db,
      wp C (soloProtocol allowed) () p R σ db → wp C (soloProtocol allowed') () p R σ db from
    fun σ db hs => key σ db (h σ db hs)
  clear h
  intro R σ db h
  induction p generalizing σ db with
  | ret a => exact h
  | throw e => exact he e h
  | query k ih => exact fun db' hr hi => ⟨trivial, fun ha => ih _ _ _ ((h db' hr hi).2 ha)⟩
  | key x k ih => exact fun db' hr hi => ⟨trivial, fun ha => ih _ _ ((h db' hr hi).2 ha)⟩
  | lock i k ih => exact fun db' hr hi => ⟨trivial, fun ha => ih _ _ _ ((h db' hr hi).2 ha)⟩
  | eachRow rest u n k ih =>
    obtain ⟨I, hI, h0, hk⟩ := h
    exact ⟨I, ⟨hI.stable, hI.owed, hI.row, fun hi hI' hmem ha hst =>
      he _ (hI.error hi hI' hmem ha hst)⟩, h0, fun m σ' db' hi h' => ih m _ _ (hk m σ' db' hi h')⟩
  | insert i r k ih =>
    exact fun db' hr hi => ⟨trivial, fun ha => ⟨fun e hst => he e (((h db' hr hi).2 ha).1 e hst),
      fun b σ' hst => ih b _ _ (((h db' hr hi).2 ha).2 b σ' hst)⟩⟩
  | fresh f k ih => exact fun db' hr hi v h1 h2 => ih v _ _ (h db' hr hi v h1 h2)

theorem select {f : Store ρ → α} (h : Q (f s) s) :
    Solo C allowed (Proc.select f : Proc ρ κ ν ε α) s Q := by
  rintro σ db rfl
  refine wp_select fun db₁ hr₁ _ => ⟨trivial, fun _ db₂ hr₂ _ => ?_⟩
  obtain rfl : db₁ = db := hr₁
  obtain rfl : db₂ = db₁ := hr₂
  exact ⟨rfl, h⟩

theorem advisoryLock {x : κ} {Q : Unit → Store ρ → Prop} (h : Q () s) :
    Solo C allowed (Proc.advisoryLock x : Proc ρ κ ν ε Unit) s Q := by
  rintro σ db rfl
  refine wp_advisoryLock fun db₁ hr₁ _ => ⟨trivial, fun _ db₂ hr₂ _ => ?_⟩
  obtain rfl : db₁ = db := hr₁
  obtain rfl : db₂ = db₁ := hr₂
  exact ⟨rfl, h⟩

theorem selectForUpdate {i : ι} {Q : Option (ρ i) → Store ρ → Prop} (h : Q (s.row i) s) :
    Solo C allowed (Proc.selectForUpdate i : Proc ρ κ ν ε _) s Q := by
  rintro σ db rfl
  refine wp_selectForUpdate fun db₁ hr₁ _ => ⟨trivial, fun _ db₂ hr₂ _ => ?_⟩
  obtain rfl : db₁ = db := hr₁
  obtain rfl : db₂ = db₁ := hr₂
  have hview : (σ.lockStep db₂ i).view db₂ = σ.view db₂ := by
    unfold Session.lockStep
    split <;> rfl
  rw [hview]
  exact ⟨rfl, h⟩

theorem raiseIf {c : Prop} [Decidable c] {e : ε} {Q : Unit → Store ρ → Prop} (he : c → allowed e)
    (h : ¬c → Q () s) : Solo C allowed (Proc.raiseIf c e : Proc ρ κ ν ε Unit) s Q := by
  unfold Proc.raiseIf
  split
  · exact throw (he ‹_›)
  · exact ret (h ‹_›)

/-- The generated value names a row that is not there. -/
theorem generate {f : ν → ι} {Q : ν → Store ρ → Prop} (h : ∀ v, s.row (f v) = none → Q v s) :
    Solo C allowed (Proc.generate f : Proc ρ κ ν ε ν) s Q := by
  rintro σ db rfl
  refine wp_generate fun db₁ hr₁ _ v hids hrows db₂ hr₂ _ => ?_
  obtain rfl : db₁ = db := hr₁
  obtain rfl : db₂ = db₁ := hr₂
  refine ⟨rfl, h v ?_⟩
  rw [σ.view_row_of_notMem db₂ hrows]
  by_contra hsome
  exact hids (db₂.mem_ids _ (Option.isSome_iff_ne_none.mpr hsome))

theorem insertOrRaise {i : ι} {r : ρ i} {e : ε} {Q : Unit → Store ρ → Prop}
    (hdup : s.row i ≠ none → allowed e) (hcheck : ∀ e', C.check i r = some e' → allowed e')
    (h : s.row i = none → Q () (s.set i (some r))) :
    Solo C allowed (Proc.insertOrRaise i r e : Proc ρ κ ν ε Unit) s Q := by
  rintro σ db rfl
  refine wp_insertOrRaise fun db₁ hr₁ _ => ⟨trivial, fun _ => ?_⟩
  obtain rfl : db₁ = db := hr₁
  refine ⟨hdup, fun hnone => ⟨hcheck, fun db₂ hr₂ _ => ?_⟩⟩
  obtain rfl : db₂ = db₁ := hr₂
  exact ⟨rfl, h hnone⟩

theorem insertOrIgnore {i : ι} {r : ρ i} {Q : Unit → Store ρ → Prop}
    (hcheck : ∀ e', C.check i r = some e' → allowed e') (hdup : s.row i ≠ none → Q () s)
    (h : s.row i = none → Q () (s.set i (some r))) :
    Solo C allowed (Proc.insertOrIgnore i r : Proc ρ κ ν ε Unit) s Q := by
  rintro σ db rfl
  refine wp_insertOrIgnore fun db₁ hr₁ _ => ⟨trivial, fun _ => ?_⟩
  obtain rfl : db₁ = db := hr₁
  refine ⟨fun hsome db₂ hr₂ _ => ?_, fun hnone => ⟨hcheck, fun db₂ hr₂ _ => ?_⟩⟩
  · obtain rfl : db₂ = db₁ := hr₂
    exact ⟨rfl, hdup hsome⟩
  · obtain rfl : db₂ = db₁ := hr₂
    exact ⟨rfl, h hnone⟩

/-- A program whose every statement conforms to `R` changes the rows as `R` admits. -/
theorem of_conforms {R : Effect ρ} {p : Proc ρ κ ν ε α} (hp : p.Conforms R) :
    Solo C (fun _ => True) p s fun _ s' => ∀ i, R.rel i (s.row i) (s'.row i) := by
  have hwrite : ∀ {σ : Session ρ κ} {db : Store ρ} {i : ι} {v : Option (ρ i)},
      (∀ j, R.rel j (s.row j) ((σ.view db).row j)) → R.rel i (s.row i) v →
        ∀ j, R.rel j (s.row j) (((σ.write i v).view db).row j) := by
    intro σ db i v h hv j
    rw [Session.write_view]
    by_cases hj : j = i
    · subst hj
      rwa [Store.set_row_self]
    · rw [Store.set_row_of_ne _ _ hj]
      exact h j
  suffices key : ∀ (σ : Session ρ κ) db, (∀ i, R.rel i (s.row i) ((σ.view db).row i)) →
      wp C (soloProtocol fun _ => True) () p
        (fun _ σ' db' => db' = db ∧ ∀ i, R.rel i (s.row i) ((σ'.view db').row i)) σ db from
    fun σ db hs => key σ db fun i => by rw [hs]; exact R.refl i _
  -- by induction on the program; the rows it sees stay related to those of `s`
  intro σ db h
  induction p generalizing σ with
  | ret a =>
    intro db' hr _
    obtain rfl : db' = db := hr
    exact ⟨rfl, h⟩
  | throw e => trivial
  | query k ih =>
    intro db' hr _
    obtain rfl : db' = db := hr
    exact ⟨trivial, fun _ => ih _ (hp _) _ h⟩
  | key x k ih =>
    intro db' hr _
    obtain rfl : db' = db := hr
    exact ⟨trivial, fun _ => ih hp _ h⟩
  | lock i k ih =>
    intro db' hr _
    obtain rfl : db' = db := hr
    refine ⟨trivial, fun _ => ih _ (hp _) _ fun j => ?_⟩
    unfold Session.lockStep
    split <;> exact h j
  | eachRow rest u n k ih =>
    refine ⟨fun _ _ σ' db' => db' = db ∧ ∀ i, R.rel i (s.row i) ((σ'.view db').row i),
      ⟨?_, ?_, ?_, ?_⟩, ⟨rfl, h⟩, ?_⟩
    · rintro rest n σ' db' db'' ⟨rfl, h'⟩ hr -
      obtain rfl : db'' = db' := hr
      exact ⟨rfl, h'⟩
    · exact fun _ _ _ => trivial
    · rintro rest n σ' db' i n' σ'' - ⟨rfl, h'⟩ - - hst
      rcases Session.rowStep_cases hst with
        ⟨-, -, rfl⟩ | ⟨r, -, -, -, rfl⟩ | ⟨r, hr, hu, -, rfl⟩ | ⟨r, r', hr, hu, -, -, rfl⟩
      · exact ⟨rfl, h'⟩
      · exact ⟨rfl, h'⟩
      · exact ⟨rfl, hwrite h' (hp.1 i _ r _ (hr ▸ h' i) hu)⟩
      · exact ⟨rfl, hwrite h' (hp.1 i _ r _ (hr ▸ h' i) hu)⟩
    · exact fun _ _ _ _ _ => trivial
    · rintro m σ' db' - ⟨rfl, h'⟩
      exact ih m (hp.2 m) σ' h'
  | insert i r k ih =>
    intro db' hr _
    obtain rfl : db' = db := hr
    refine ⟨trivial, fun _ => ⟨fun _ _ => trivial, fun b σ' hst => ?_⟩⟩
    rcases Session.insertStep_cases hst with ⟨-, rfl, rfl⟩ | ⟨hnone, -, rfl, rfl⟩
    · exact ih _ (hp.2 _) _ h
    · exact ih _ (hp.2 _) _ (hwrite h (hp.1 _ (hnone ▸ h i)))
  | fresh f k ih =>
    intro db' hr _ v _ _
    obtain rfl : db' = db := hr
    exact ih v (hp v) _ h

/-- The rows of an `UPDATE` that are done, while `rest` are still to be processed. -/
structure Updating (C : Constraints ρ ε) (u : RowUpdate ρ) (s : Store ρ) (rest : List ι) (n : ℕ)
    (s' : Store ρ) : Prop where
  nodup : rest.Nodup
  count : n + rest.length = (s.matching u).length
  mem : ∀ i ∈ rest, i ∈ s.matching u
  todo : ∀ i, i ∈ rest ∨ i ∉ s.matching u → s'.row i = s.row i
  done : ∀ i ∈ s.matching u, i ∉ rest →
    s'.row i = ((s.row i).bind fun r => (u i r).getD (some r)) ∧
    ∀ r r', s.row i = some r → u i r = some (some r') → C.check i r' = none

theorem Updating.row {u : RowUpdate ρ} {rest : List ι} {n n' : ℕ} {s : Store ρ}
    {σ σ' : Session ρ κ} {db : Store ρ} {i : ι} (h : Updating C u s rest n (σ.view db))
    (hi : i ∈ rest) (hst : σ.rowStep C u db i n = .ok (n', σ')) :
    Updating C u s (rest.erase i) n' (σ'.view db) := by
  obtain ⟨r, w, hr, hw⟩ := Store.mem_matching.mp (h.mem i hi)
  have hrow : (σ.view db).row i = some r := (h.todo i (Or.inl hi)).trans hr
  have hlen : (rest.erase i).length + 1 = rest.length := by
    rw [List.length_erase_of_mem hi]
    exact Nat.succ_pred_eq_of_pos (List.length_pos_of_mem hi)
  -- the row is written as `w`
  have hwritten : n' = n + 1 ∧ σ' = σ.write i w ∧ ∀ r', w = some r' → C.check i r' = none := by
    rcases Session.rowStep_cases hst with
      ⟨hnone, -, -⟩ | ⟨r₁, hr₁, hu, -, -⟩ | ⟨r₁, hr₁, hu, hn, rfl⟩ | ⟨r₁, r', hr₁, hu, hc, hn, rfl⟩
    · rw [hrow] at hnone
      cases hnone
    · obtain rfl := Option.some.inj (hrow.symm.trans hr₁)
      rw [hw] at hu
      cases hu
    · obtain rfl := Option.some.inj (hrow.symm.trans hr₁)
      obtain rfl := Option.some.inj (hw.symm.trans hu)
      exact ⟨hn, rfl, nofun⟩
    · obtain rfl := Option.some.inj (hrow.symm.trans hr₁)
      obtain rfl := Option.some.inj (hw.symm.trans hu)
      refine ⟨hn, rfl, ?_⟩
      rintro _ ⟨⟩
      exact hc
  obtain ⟨rfl, rfl, hcheck⟩ := hwritten
  rw [Session.write_view]
  refine ⟨h.nodup.erase i, by rw [← h.count]; omega, fun j hj => h.mem j (List.mem_of_mem_erase hj),
    fun j hj => ?_, fun j hj hj' => ?_⟩
  · have hne : j ≠ i := by
      rintro rfl
      rcases hj with hj | hj
      · exact h.nodup.not_mem_erase hj
      · exact hj (h.mem j hi)
    rw [Store.set_row_of_ne _ _ hne]
    exact h.todo j (hj.imp List.mem_of_mem_erase id)
  · by_cases hji : j = i
    · subst hji
      rw [Store.set_row_self, hr]
      refine ⟨by rw [Option.bind_some, hw]; rfl, fun r₁ r' hr₁ hu => ?_⟩
      obtain rfl := Option.some.inj hr₁
      exact hcheck r' (Option.some.inj (hw.symm.trans hu))
    · rw [Store.set_row_of_ne _ _ hji]
      exact h.done j hj fun hmem => hj' ((List.mem_erase_of_ne hji).mpr hmem)

/-- An `UPDATE` or `DELETE`: the rows after it do not depend on the order of its rows. -/
theorem update {u : RowUpdate ρ} {Q : ℕ → Store ρ → Prop}
    (herror : ∀ i r r' e, s.row i = some r → u i r = some (some r') → C.check i r' = some e →
      allowed e)
    (h : ∀ s', Updated u s s' → Fits C u s → Q (s.matching u).length s') :
    Solo C allowed (Proc.update u : Proc ρ κ ν ε ℕ) s Q := by
  rintro σ db rfl
  set s := σ.view db with hs
  refine wp_update (fun rest n σ' db' => db' = db ∧ Updating C u s rest n (σ'.view db'))
    ⟨?_, fun _ _ _ => trivial, ?_, ?_⟩ ?_ ?_
  · -- nobody else writes
    rintro rest n σ' db' db'' ⟨rfl, hup⟩ hr -
    obtain rfl : db'' = db' := hr
    exact ⟨rfl, hup⟩
  · rintro rest n σ' db' i n' σ'' - ⟨rfl, hup⟩ hi - hst
    exact ⟨rfl, hup.row hi hst⟩
  · rintro rest n σ' db' i e - ⟨rfl, hup⟩ hi - hst
    obtain ⟨r, r', hr, hu, hc⟩ := Session.rowStep_error hst
    exact herror i r r' e ((hup.todo i (Or.inl hi)).symm.trans hr) hu hc
  · -- at the snapshot no row is done
    intro db' hr _
    obtain rfl : db' = db := hr
    refine ⟨trivial, fun _ => ⟨rfl, Store.nodup_matching _ _, ?_, fun _ hi => hi, fun _ _ => rfl,
      fun i hi hi' => absurd hi hi'⟩⟩
    exact Nat.zero_add _
  · -- at the end no row is left
    rintro n σ' db' - ⟨rfl, hup⟩
    refine ⟨rfl, ?_⟩
    obtain rfl : n = (s.matching u).length := hup.count
    refine h _ (fun i => ?_) fun i r r' hr hu => ?_
    · by_cases hi : i ∈ s.matching u
      · exact (hup.done i hi List.not_mem_nil).1
      · rw [hup.todo i (Or.inr hi)]
        cases hr : s.row i with
        | none => rfl
        | some r =>
          cases hu : u i r with
          | none => rw [Option.bind_some, hu]; rfl
          | some w => exact absurd (Store.mem_matching.mpr ⟨r, w, hr, hu⟩) hi
    · exact (hup.done i (Store.mem_matching.mpr ⟨r, _, hr, hu⟩) List.not_mem_nil).2 r r' hr hu

/-! ### Runs -/

/-- The program is under way, has been cancelled, has committed rows that satisfy `Q`, or was rolled
back with an allowed error or because of a deferred constraint. -/
def Outcome (C : Constraints ρ ε) (allowed : ε → Prop) (s : Store ρ) (Q : α → Store ρ → Prop)
    (c : Config Unit ρ κ ν ε α) : Prop :=
  match c.tx () with
  | .active p σ => c.db = s ∧
      wp C (soloProtocol allowed) () p (fun a σ' db' => db' = s ∧ Q a (σ'.view db')) σ s
  | .done (.ok a) => Q a c.db ∧ C.deferred c.db = none
  | .done (.error e) => c.db = s ∧ (allowed e ∨ ∃ a s', Q a s' ∧ C.deferred s' = some e)
  | .cancelled => c.db = s

/-- What a specification says of the runs of a program that is the only transaction. -/
theorem run [DecidableEq κ] {p : Proc ρ κ ν ε α} (h : Solo C allowed p s Q)
    {c : Config Unit ρ κ ν ε α} (hrun : Reachable C (.init s fun _ : Unit => p) c) :
    Outcome C allowed s Q c := by
  induction hrun with
  | refl => exact ⟨rfl, h .start s rfl⟩
  | @step c c' t ch _ _ hst ih =>
    obtain ⟨q, σ, ht, hc'⟩ := c.step_cases hst
    unfold Outcome at ih
    rw [show t = () from rfl] at ht
    rw [ht] at ih
    obtain ⟨hdb, hwp⟩ := ih
    rcases hc' with rfl | ⟨db', x, hx, rfl⟩
    · unfold Outcome
      simpa using hdb
    · rw [hdb] at hx
      have ho := Proc.step_outcome hwp trivial (fun _ _ => trivial) hx
      unfold Outcome
      simp only [Function.update_self]
      cases x with
      | active p' σ' => exact ho
      | cancelled => exact ho.elim
      | done r =>
        cases r with
        | ok a =>
          obtain ⟨rfl, hd, -, -, hQ⟩ := ho
          exact ⟨hQ, hd⟩
        | error e =>
          obtain ⟨rfl, hor⟩ := ho
          refine ⟨rfl, hor.imp_right ?_⟩
          rintro ⟨a, _, hQ, hd⟩
          exact ⟨a, _, hQ.2, hd⟩

end Solo

end ReadCommitted
