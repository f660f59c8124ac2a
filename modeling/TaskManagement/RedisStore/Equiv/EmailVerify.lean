import TaskManagement.Ledger
import TaskManagement.RedisStore.EmailVerify

/-!
# The e-mail verification token store

`email_verify_safe`: in a run in which every replacement deletes the live token of its user, if
there is one, and in which no superseded token is restored while its user has no current token, a
user has at most one live token, a superseded token is never consumed, and a token is consumed at
most once more often than it is restored.  Without the first condition two replacements of one user
that overlap leave two live tokens, and without the second a superseded token comes back when the
current one has expired (`email_verify_unsafe`).

* `KeysStep` lists what a step can do to the keys (`keysStep_of_step`);
* `Inv` relates the events of a run to the store; a live token is the current one of its user.
-/

namespace EmailVerify

open Ledger

set_option linter.unusedSectionVars false

variable {T H U ι : Type} [AddCommMonoid T] [LinearOrder T] [IsOrderedAddMonoid T]
variable [DecidableEq H] [DecidableEq U]

/-- The entry of a live token. -/
abbrev live (s : Keys T H U) (h : H) : Option (Entry T (VerifyData T U)) :=
  s.string (.emailverify h)

/-- The token that was stored last for a user. -/
abbrev current (s : Keys T H U) (u : U) : Option (Entry T H) := s.string (.emailverifyCurrent u)

/-! ### The commands -/

/-- What storing the token `h` for `u` does to the keys. -/
structure Stores (ttl : T) (s s' : Keys T H U) (u : U) (h : H) : Prop where
  now : s'.now = s.now
  live_self : live s' h = some ⟨⟨u, s.now⟩, some (s.now + ttl)⟩
  live_of_ne : ∀ h', h' ≠ h → live s' h' = live s h'
  current_self : current s' u = some ⟨h, some (s.now + ttl)⟩
  current_of_ne : ∀ u', u' ≠ u → current s' u' = current s u'

section Commands

variable {ttl : T} (s : Keys T H U)

theorem stores_setEx (u : U) (h : H) (httl : 0 ≤ ttl) : Stores ttl s
    ((s.setEx (.emailverify h) ⟨u, s.now⟩ ttl).setEx (.emailverifyCurrent u) h ttl) u h where
  now := rfl
  live_self := by
    rw [live, Keyspace.setEx_string_of_ne _ _ _ (by simp)]
    exact Keyspace.setEx_string_self s (k := .emailverify h) _ httl
  live_of_ne h' hh := by
    rw [live, Keyspace.setEx_string_of_ne _ _ _ (by simp),
      Keyspace.setEx_string_of_ne _ _ _ (by simpa using hh)]
  current_self := Keyspace.setEx_string_self _ _ httl
  current_of_ne u' hu := by
    rw [current, Keyspace.setEx_string_of_ne _ _ _ (by simpa using hu),
      Keyspace.setEx_string_of_ne _ _ _ (by simp)]

/-- The token that was read before, if any, is deleted before the new one is stored. -/
theorem replaceEmailVerify_stores (u : U) (oldHash : Option H) (h : H) (httl : 0 ≤ ttl) :
    ∃ s₁, Stores ttl s₁ (replaceEmailVerify ttl s u oldHash h) u h ∧ s₁.now = s.now ∧
      (∀ u', current s₁ u' = current s u') ∧
      ∀ h', live s₁ h' = if oldHash = some h' then none else live s h' := by
  cases oldHash with
  | none => exact ⟨s, stores_setEx s u h httl, rfl, fun _ => rfl, fun _ => rfl⟩
  | some o =>
    refine ⟨s.del (.emailverify o), stores_setEx _ u h httl, rfl, fun u' => ?_, fun h' => ?_⟩
    · exact Keyspace.del_string_of_ne _ (by simp)
    · split_ifs with ho
      · obtain rfl := Option.some.inj ho
        exact Keyspace.del_string_self s
      · exact Keyspace.del_string_of_ne _ (by simpa using fun h => ho (by rw [h]))

theorem restoreEmailVerify_cases (h : H) (u : U) (httl : 0 ≤ ttl) :
    (restoreEmailVerify ttl s h u = (false, s)) ∨
      (restoreEmailVerify ttl s h u).1 = true ∧ (∀ c, current s u = some c → c.value = h) ∧
        Stores ttl s (restoreEmailVerify ttl s h u).2 u h := by
  unfold restoreEmailVerify
  cases hc : current s u with
  | none =>
    rw [Keyspace.get_of_none hc]
    exact Or.inr ⟨rfl, nofun, stores_setEx s u h httl⟩
  | some c =>
    rw [Keyspace.get_of_some hc]
    dsimp only
    split_ifs with hne
    · exact Or.inl rfl
    · refine Or.inr ⟨rfl, ?_, stores_setEx s u h httl⟩
      rintro _ ⟨⟩
      exact not_not.mp hne

theorem consumeEmailVerify_live_of_ne {h h' : H} (hh : h' ≠ h) :
    live (consumeEmailVerify s h).2 h' = live s h' :=
  Keyspace.del_string_of_ne _ (by simpa using hh)

theorem consumeEmailVerify_live_self (h : H) : live (consumeEmailVerify s h).2 h = none :=
  Keyspace.del_string_self s

theorem consumeEmailVerify_current (h : H) (u : U) :
    current (consumeEmailVerify s h).2 u = current s u :=
  Keyspace.del_string_of_ne _ (by simp)

end Commands

/-! ### What a step can do -/

variable [DecidableEq ι]

/-- The events of a run of `machine`. -/
abbrev Event (T H U ι : Type) [LE T] [DecidableLE T] : Type :=
  Machine.Event (State T H U ι) (Call T H U ι) (Reply U)

/-- The token and the user of a completed replacement. -/
def replacedToken (e : Event T H U ι) : Option (H × U) :=
  match e.call with
  | .replaceExec i => (e.pre.replacing i).map fun p => (p.tokenHash, p.userId)
  | _ => none

/-- The token and the user of a successful consumption. -/
def consumedToken (e : Event T H U ι) : Option (H × U) :=
  match e.call, e.reply with
  | .consume _ h, .consumed (some u) => some (h, u)
  | _, _ => none

/-- The token and the user of a successful restore. -/
def restoredToken (e : Event T H U ι) : Option (H × U) :=
  match e.call, e.reply with
  | .restore i, .restored true => e.pre.verifying i
  | _, _ => none

/-- What a step does to the keys, by the event it is. -/
inductive KeysStep (ttl : T) (e : Event T H U ι) (s' : State T H U ι) : Prop where
  /-- Nothing is stored or consumed; time may pass. -/
  | quiet : replacedToken e = none → consumedToken e = none → restoredToken e = none →
      (∀ k x, s'.keys.string k = some x ↔
        e.pre.keys.string k = some x ∧ x.alive s'.keys.now) → KeysStep ttl e s'
  | replace (i : ι) (p : Replacing H U) (s₁ : Keys T H U) : e.call = .replaceExec i →
      e.pre.replacing i = some p → s'.replacing i = none →
      replacedToken e = some (p.tokenHash, p.userId) → consumedToken e = none →
      restoredToken e = none → (∀ u, current s₁ u = current e.pre.keys u) →
      (∀ h, live s₁ h = if p.oldHash = some h then none else live e.pre.keys h) →
      Stores ttl s₁ s'.keys p.userId p.tokenHash → KeysStep ttl e s'
  | consume (h : H) (x : Entry T (VerifyData T U)) : replacedToken e = none →
      consumedToken e = some (h, x.value.userId) → restoredToken e = none →
      live e.pre.keys h = some x → live s'.keys h = none →
      (∀ h', h' ≠ h → live s'.keys h' = live e.pre.keys h') →
      (∀ u, current s'.keys u = current e.pre.keys u) → KeysStep ttl e s'
  | restore (i : ι) (h : H) (u : U) : e.call = .restore i → e.pre.verifying i = some (h, u) →
      replacedToken e = none → consumedToken e = none → restoredToken e = some (h, u) →
      (∀ c, current e.pre.keys u = some c → c.value = h) →
      Stores ttl e.pre.keys s'.keys u h → KeysStep ttl e s'

/-- What a step does to the calls under way. -/
structure FlowStep (e : Event T H U ι) (s' : State T H U ι) : Prop where
  issued : e.pre.issued ⊆ s'.issued
  replacing : ∀ i p, s'.replacing i = some p → e.pre.replacing i = some p ∨
    (p.tokenHash ∉ e.pre.issued ∧ p.tokenHash ∈ s'.issued ∧
      ∀ j, j ≠ i → s'.replacing j = e.pre.replacing j)
  verifying : ∀ i h u, s'.verifying i = some (h, u) →
    e.pre.verifying i = some (h, u) ∨ consumedToken e = some (h, u)

variable {ttl : T} {s s' : State T H U ι} {c : Call T H U ι} {r : Reply U}

/-- A token is stored by the second step of the request that has drawn it. -/
theorem KeysStep.replacing {e : Event T H U ι} (hk : KeysStep ttl e s') {h : H} {u : U}
    (hr : replacedToken e = some (h, u)) :
    ∃ i p, e.pre.replacing i = some p ∧ s'.replacing i = none ∧ p.tokenHash = h := by
  cases hk with
  | replace i p s₁ _ hi hi' hrp =>
    exact ⟨i, p, hi, hi', (Prod.mk.inj (Option.some.inj (hrp.symm.trans hr))).1⟩
  | quiet hn => rw [hn] at hr; cases hr
  | consume h' x hn => rw [hn] at hr; cases hr
  | restore i h' u' _ _ hn => rw [hn] at hr; cases hr

theorem keysStep_of_step (hpend : ∀ i p, s.replacing i = some p → 0 < ttl)
    (h : (machine ttl).step s c = some (r, s')) : KeysStep ttl ⟨s, c, r⟩ s' := by
  cases c with
  | replaceRead i u h' =>
    simp only [machine] at h
    split at h
    · obtain ⟨rfl, rfl⟩ := Prod.mk.inj (Option.some.inj h)
      exact .quiet rfl rfl rfl s.keys.string_iff_alive
    · cases h
  | replaceExec i =>
    simp only [machine] at h
    split at h
    · rename_i p hi
      obtain ⟨rfl, rfl⟩ := Prod.mk.inj (Option.some.inj h)
      obtain ⟨s₁, hs, -, hcur, hlive⟩ := replaceEmailVerify_stores s.keys p.userId p.oldHash
        p.tokenHash (hpend i p hi).le
      refine .replace i p s₁ rfl hi (Function.update_self i _ _) ?_ rfl rfl hcur hlive hs
      simp only [replacedToken, hi, Option.map_some]
    · cases h
  | consume i k =>
    simp only [machine] at h
    split at h
    · obtain ⟨rfl, rfl⟩ := Prod.mk.inj (Option.some.inj h)
      cases hx : live s.keys k with
      | none =>
        have hget : (consumeEmailVerify s.keys k).1 = none := by
          rw [consumeEmailVerify, Keyspace.get_of_none hx]
          rfl
        rw [hget]
        -- there is no such token
        refine .quiet rfl rfl rfl fun k' x => ?_
        have hsame : (consumeEmailVerify s.keys k).2.string k' = s.keys.string k' := by
          by_cases hk : k' = .emailverify k
          · subst hk
            exact (consumeEmailVerify_live_self s.keys k).trans hx.symm
          · exact Keyspace.del_string_of_ne _ hk
        rw [hsame]
        exact s.keys.string_iff_alive k' x
      | some x =>
        have hget : (consumeEmailVerify s.keys k).1 = some x.value.userId := by
          rw [consumeEmailVerify, Keyspace.get_of_some hx]
          rfl
        rw [hget]
        exact .consume k x rfl rfl rfl hx (consumeEmailVerify_live_self s.keys k)
          (fun _ => consumeEmailVerify_live_of_ne s.keys)
          (consumeEmailVerify_current s.keys k)
    · cases h
  | verified i =>
    simp only [machine] at h
    split at h
    · obtain ⟨rfl, rfl⟩ := Prod.mk.inj (Option.some.inj h)
      exact .quiet rfl rfl rfl s.keys.string_iff_alive
    · cases h
  | restore i =>
    simp only [machine] at h
    split at h
    · rename_i k u hi
      split at h
      · rename_i httl
        obtain ⟨rfl, rfl⟩ := Prod.mk.inj (Option.some.inj h)
        rcases restoreEmailVerify_cases s.keys k u httl.le with hf | ⟨ht, hcur, hs⟩
        · rw [hf]
          exact .quiet rfl rfl rfl s.keys.string_iff_alive
        · rw [ht]
          exact .restore i k u rfl hi rfl rfl hi hcur hs
      · cases h
    · cases h
  | tick d =>
    simp only [machine] at h
    split at h
    · obtain ⟨rfl, rfl⟩ := Prod.mk.inj (Option.some.inj h)
      exact .quiet rfl rfl rfl fun k x => s.keys.advance_string_eq_some d
    · cases h

theorem flowStep_of_step (h : (machine ttl).step s c = some (r, s')) : FlowStep ⟨s, c, r⟩ s' := by
  -- a call that ends leaves the others as they were
  have hend : ∀ {α : Type} {f : ι → Option α} {i j : ι} {a : α},
      Function.update f i none j = some a → f j = some a := by
    intro α f i j a hj
    by_cases hij : j = i
    · subst hij
      rw [Function.update_self] at hj
      cases hj
    · rwa [Function.update_of_ne hij] at hj
  cases c with
  | replaceRead i u h' =>
    simp only [machine] at h
    split at h
    · rename_i hg
      obtain ⟨rfl, rfl⟩ := Prod.mk.inj (Option.some.inj h)
      refine ⟨Finset.subset_insert h' _, fun j p hp => ?_, fun _ _ _ hv => Or.inl hv⟩
      by_cases hj : j = i
      · subst hj
        simp only [Function.update_self] at hp
        obtain rfl := Option.some.inj hp
        exact Or.inr ⟨hg.2.2, Finset.mem_insert_self h' _,
          fun k hk => Function.update_of_ne hk _ _⟩
      · simp only [Function.update_of_ne hj] at hp
        exact Or.inl hp
    · cases h
  | replaceExec i =>
    simp only [machine] at h
    split at h
    · obtain ⟨rfl, rfl⟩ := Prod.mk.inj (Option.some.inj h)
      exact ⟨subset_rfl, fun j q hq => Or.inl (hend hq), fun _ _ _ hv => Or.inl hv⟩
    · cases h
  | consume i k =>
    simp only [machine] at h
    split at h
    · obtain ⟨rfl, rfl⟩ := Prod.mk.inj (Option.some.inj h)
      refine ⟨subset_rfl, fun j q hq => Or.inl hq, fun j h' u hv => ?_⟩
      by_cases hj : j = i
      · subst hj
        simp only [Function.update_self] at hv
        obtain ⟨u', hu', hp⟩ := Option.map_eq_some_iff.mp hv
        obtain ⟨rfl, rfl⟩ := Prod.mk.inj hp
        rw [hu']
        exact Or.inr rfl
      · simp only [Function.update_of_ne hj] at hv
        exact Or.inl hv
    · cases h
  | verified i =>
    simp only [machine] at h
    split at h
    · obtain ⟨rfl, rfl⟩ := Prod.mk.inj (Option.some.inj h)
      exact ⟨subset_rfl, fun j q hq => Or.inl hq, fun j h' u hv => Or.inl (hend hv)⟩
    · cases h
  | restore i =>
    simp only [machine] at h
    split at h
    · split at h
      · obtain ⟨rfl, rfl⟩ := Prod.mk.inj (Option.some.inj h)
        exact ⟨subset_rfl, fun j q hq => Or.inl hq, fun j h' u hv => Or.inl (hend hv)⟩
      · cases h
    · cases h
  | tick d =>
    simp only [machine] at h
    split at h
    · obtain ⟨rfl, rfl⟩ := Prod.mk.inj (Option.some.inj h)
      exact ⟨subset_rfl, fun j q hq => Or.inl hq, fun _ _ _ hv => Or.inl hv⟩
    · cases h

/-- A replacement under way has passed `validate_ttl`. -/
theorem step_replacing_ttl (hpend : ∀ i p, s.replacing i = some p → 0 < ttl)
    (h : (machine ttl).step s c = some (r, s')) (i : ι) (p : Replacing H U)
    (hi : s'.replacing i = some p) : 0 < ttl := by
  rcases (flowStep_of_step h).replacing i p hi with hold | ⟨hnot, hin, -⟩
  · exact hpend i p hold
  · cases c with
    | replaceRead j u h' =>
      simp only [machine] at h
      split at h
      · rename_i hg
        exact hg.1
      · cases h
    | replaceExec j =>
      simp only [machine] at h
      split at h
      · exact hpend j _ ‹_›
      · cases h
    | restore j =>
      simp only [machine] at h
      split at h
      · split at h
        · assumption
        · cases h
      · cases h
    | _ =>
      simp only [machine] at h
      split at h
      · obtain ⟨-, rfl⟩ := Prod.mk.inj (Option.some.inj h)
        exact absurd hin hnot
      · cases h

/-! ### The condition -/

/-- If the event completes a replacement, it deletes the live token of its user, if there is one:
no other token of the user is live than the one that the `GET` has read. -/
def ReplaceReady (e : Event T H U ι) : Prop :=
  ∀ i p, e.call = .replaceExec i → e.pre.replacing i = some p → ∀ h x, live e.pre.keys h = some x →
    x.value.userId = p.userId → p.oldHash = some h

/-- If the event restores a token that the events `l` have superseded, its user has a current
token. -/
def RestoreReady (l : List (Event T H U ι)) (e : Event T H U ι) : Prop :=
  ∀ i h u, e.call = .restore i → e.pre.verifying i = some (h, u) → Superseded replacedToken l h u →
    (current e.pre.keys u).isSome

/-- Every event of the run meets the conditions. -/
def Ready (l : List (Event T H U ι)) : Prop :=
  ∀ l₁ e l₂, l = l₁ ++ e :: l₂ → ReplaceReady e ∧ RestoreReady l₁ e

theorem Ready.init {l : List (Event T H U ι)} {e : Event T H U ι} (h : Ready (l ++ [e])) :
    Ready l := by
  rintro l₁ e' l₂ rfl
  exact h l₁ e' (l₂ ++ [e]) (by simp)

theorem Ready.last {l : List (Event T H U ι)} {e : Event T H U ι} (h : Ready (l ++ [e])) :
    ReplaceReady e ∧ RestoreReady l e := h l e [] rfl

/-! ### The invariant -/

/-- How the events of a run and the store are related. -/
structure Inv (ttl : T) (l : List (Event T H U ι)) (s : State T H U ι) : Prop where
  replacing_ttl : ∀ i p, s.replacing i = some p → 0 < ttl
  /-- A live token is the current one of its user and expires with that record. -/
  live_current : ∀ h x, live s.keys h = some x → current s.keys x.value.userId = some ⟨h, x.expiry⟩
  live_replaced : ∀ h x, live s.keys h = some x → Occurs replacedToken l h x.value.userId
  verifying_replaced : ∀ i h u, s.verifying i = some (h, u) → Occurs replacedToken l h u
  replaced_issued : ∀ h u, Occurs replacedToken l h u → h ∈ s.issued
  replaced_user : ∀ h u u', Occurs replacedToken l h u → Occurs replacedToken l h u' → u = u'
  replacing_issued : ∀ i p, s.replacing i = some p → p.tokenHash ∈ s.issued
  replacing_fresh : ∀ i p, s.replacing i = some p → ∀ u, ¬Occurs replacedToken l p.tokenHash u
  replacing_inj : ∀ i j p q, s.replacing i = some p → s.replacing j = some q →
    p.tokenHash = q.tokenHash → i = j
  /-- A superseded token is gone and is not the current one of its user. -/
  superseded : ∀ h u, Superseded replacedToken l h u → live s.keys h = none ∧
    ∀ c, current s.keys u = some c → c.value ≠ h
  replaced_le : ∀ h, tally replacedToken l h ≤ 1
  count : ∀ h, tally consumedToken l h + (if (live s.keys h).isSome then 1 else 0) ≤
    tally restoredToken l h + tally replacedToken l h

theorem inv_init (ttl now : T) : Inv ttl [] (init now : State T H U ι) where
  replacing_ttl _ _ h := by cases h
  live_current _ _ h := by cases h
  live_replaced _ _ h := by cases h
  verifying_replaced _ _ _ h := by cases h
  replaced_issued _ _ h := by obtain ⟨e, he, -⟩ := h; cases he
  replaced_user _ _ _ h := by obtain ⟨e, he, -⟩ := h; cases he
  replacing_issued _ _ h := by cases h
  replacing_fresh _ _ h := by cases h
  replacing_inj _ _ _ _ h := by cases h
  superseded _ _ h := absurd h not_superseded_nil
  replaced_le _ := Nat.zero_le 1
  count _ := le_rfl

/-- A token that is live after a completed replacement of `p` and is not the new one was live
before, and was not deleted. -/
theorem Stores.live_of_replace {p : Replacing H U} {k k₁ k' : Keys T H U} {h : H}
    {x : Entry T (VerifyData T U)} (hs : Stores ttl k₁ k' p.userId p.tokenHash)
    (hlive : ∀ h, live k₁ h = if p.oldHash = some h then none else live k h)
    (hh : h ≠ p.tokenHash) (hx : live k' h = some x) : live k h = some x ∧ p.oldHash ≠ some h := by
  rw [hs.live_of_ne h hh, hlive] at hx
  split_ifs at hx with ho
  exact ⟨hx, ho⟩

section Step

variable {l : List (Event T H U ι)} {e : Event T H U ι} (hI : Inv ttl l e.pre)
  (hk : KeysStep ttl e s')

include hI hk

/-- A completed replacement is of a token that was not stored before. -/
theorem Inv.fresh {h : H} {u : U} (hr : replacedToken e = some (h, u)) (u' : U) :
    ¬Occurs replacedToken l h u' := by
  obtain ⟨i, p, hi, -, rfl⟩ := hk.replacing hr
  exact hI.replacing_fresh i p hi u'

theorem Inv.step_current (hready : ReplaceReady e) (h : H) (x : Entry T (VerifyData T U))
    (hx : live s'.keys h = some x) : current s'.keys x.value.userId = some ⟨h, x.expiry⟩ := by
  cases hk with
  | quiet _ _ _ hstr =>
    obtain ⟨hx', ha⟩ := (hstr _ _).mp hx
    exact (hstr _ _).mpr ⟨hI.live_current h x hx', ha⟩
  | replace i p s₁ hc hi _ _ _ _ hcur hlive hs =>
    by_cases hh : h = p.tokenHash
    · subst hh
      rw [hs.live_self] at hx
      obtain rfl := Option.some.inj hx
      exact hs.current_self
    · obtain ⟨hx', hold⟩ := hs.live_of_replace hlive hh hx
      have hu : x.value.userId ≠ p.userId := fun hu => hold (hready i p hc hi h x hx' hu)
      rw [hs.current_of_ne _ hu, hcur]
      exact hI.live_current h x hx'
  | consume h' y _ _ _ _ hnone hne hcur =>
    have hh : h ≠ h' := by
      rintro rfl
      rw [hnone] at hx
      cases hx
    rw [hcur]
    exact hI.live_current h x (hne h hh ▸ hx)
  | restore i h' u _ _ _ _ _ hcur hs =>
    by_cases hh : h = h'
    · subst hh
      rw [hs.live_self] at hx
      obtain rfl := Option.some.inj hx
      exact hs.current_self
    · rw [hs.live_of_ne h hh] at hx
      have hu : x.value.userId ≠ u := by
        rintro rfl
        exact hh (hcur _ (hI.live_current h x hx))
      rw [hs.current_of_ne _ hu]
      exact hI.live_current h x hx

theorem Inv.step_live_replaced (h : H) (x : Entry T (VerifyData T U))
    (hx : live s'.keys h = some x) : Occurs replacedToken (l ++ [e]) h x.value.userId := by
  cases hk with
  | quiet _ _ _ hstr => exact (hI.live_replaced h x ((hstr _ _).mp hx).1).snoc
  | replace i p s₁ _ _ _ hr _ _ _ hlive hs =>
    by_cases hh : h = p.tokenHash
    · subst hh
      rw [hs.live_self] at hx
      obtain rfl := Option.some.inj hx
      exact occurs_last hr
    · exact (hI.live_replaced h x (hs.live_of_replace hlive hh hx).1).snoc
  | consume h' y _ _ _ _ hnone hne =>
    have hh : h ≠ h' := by
      rintro rfl
      rw [hnone] at hx
      cases hx
    exact (hI.live_replaced h x (hne h hh ▸ hx)).snoc
  | restore i h' u _ hv _ _ _ _ hs =>
    by_cases hh : h = h'
    · subst hh
      rw [hs.live_self] at hx
      obtain rfl := Option.some.inj hx
      exact (hI.verifying_replaced i h u hv).snoc
    · exact (hI.live_replaced h x (hs.live_of_ne h hh ▸ hx)).snoc

theorem Inv.step_superseded (hready : ReplaceReady e) (hrestore : RestoreReady l e) (h : H) (u : U)
    (hsup : Superseded replacedToken (l ++ [e]) h u) :
    live s'.keys h = none ∧ ∀ c, current s'.keys u = some c → c.value ≠ h := by
  have hnone : (∀ x, live s'.keys h ≠ some x) → live s'.keys h = none :=
    fun hx => Option.eq_none_iff_forall_ne_some.mpr hx
  rcases superseded_snoc hsup with hold | ⟨⟨h₁, hr₁⟩, hocc⟩
  · obtain ⟨hgone, hcurrent⟩ := hI.superseded h u hold
    cases hk with
    | quiet _ _ _ hstr =>
      refine ⟨hnone fun x hx => ?_, fun c hc => hcurrent c ((hstr _ _).mp hc).1⟩
      have hx' : live e.pre.keys h = some x := ((hstr _ _).mp hx).1
      rw [hgone] at hx'
      cases hx'
    | replace i p s₁ _ hi _ _ _ _ hcur hlive hs =>
      have hh : h ≠ p.tokenHash := by
        rintro rfl
        exact hI.replacing_fresh i p hi u hold.occurs
      refine ⟨hnone fun x hx => ?_, fun c hc => ?_⟩
      · have hx' := (hs.live_of_replace hlive hh hx).1
        rw [hgone] at hx'
        cases hx'
      · by_cases hu : u = p.userId
        · subst hu
          rw [hs.current_self] at hc
          obtain rfl := Option.some.inj hc
          exact hh.symm
        · rw [hs.current_of_ne u hu, hcur] at hc
          exact hcurrent c hc
    | consume h' y _ _ _ _ hnone' hne hcur =>
      refine ⟨?_, fun c hc => hcurrent c (hcur u ▸ hc)⟩
      by_cases hh : h = h'
      · rw [hh]
        exact hnone'
      · exact (hne h hh).trans hgone
    | restore i h' u' hc hv _ _ _ hcur hs =>
      have hh : h ≠ h' := by
        -- the user of a superseded token has a current token, which is another one
        rintro rfl
        obtain rfl := hI.replaced_user h u u' hold.occurs (hI.verifying_replaced i h u' hv)
        obtain ⟨c, hc'⟩ := Option.isSome_iff_exists.mp (hrestore i h u hc hv hold)
        exact hcurrent c hc' (hcur c hc')
      refine ⟨(hs.live_of_ne h hh).trans hgone, fun c hc => ?_⟩
      by_cases hu : u = u'
      · subst hu
        rw [hs.current_self] at hc
        obtain rfl := Option.some.inj hc
        exact hh.symm
      · exact hcurrent c (hs.current_of_ne u hu ▸ hc)
  · -- the event supersedes `h`
    cases hk with
    | quiet hn => rw [hn] at hr₁; cases hr₁
    | consume h' y hn => rw [hn] at hr₁; cases hr₁
    | restore i h' u' _ _ hn => rw [hn] at hr₁; cases hr₁
    | replace i p s₁ hc hi _ hr _ _ hcur hlive hs =>
      obtain ⟨rfl, rfl⟩ := Prod.mk.inj (Option.some.inj (hr.symm.trans hr₁))
      have hh : h ≠ p.tokenHash := by
        rintro rfl
        exact hI.replacing_fresh i p hi _ hocc
      refine ⟨hnone fun x hx => ?_, fun c hc => ?_⟩
      · obtain ⟨hx', hold⟩ := hs.live_of_replace hlive hh hx
        have huser := hI.replaced_user h _ _ (hI.live_replaced h x hx') hocc
        exact hold (hready i p hc hi h x hx' huser)
      · rw [hs.current_self] at hc
        obtain rfl := Option.some.inj hc
        exact hh.symm

theorem Inv.step_replaced_le (h : H) : tally replacedToken (l ++ [e]) h ≤ 1 := by
  have hle := hI.replaced_le h
  cases hr : replacedToken e with
  | none =>
    rw [tally_snoc_none hr]
    exact hle
  | some x =>
    rw [tally_snoc_some hr]
    split_ifs with hh
    · rw [tally_eq_zero (hh ▸ hI.fresh hk hr)]
    · exact hle

theorem Inv.step_count (h : H) :
    tally consumedToken (l ++ [e]) h + (if (live s'.keys h).isSome then 1 else 0) ≤
      tally restoredToken (l ++ [e]) h + tally replacedToken (l ++ [e]) h := by
  have hold := hI.count h
  -- a token is live at most once
  have hone : (if (live s'.keys h).isSome then 1 else 0) ≤ 1 := by
    split_ifs <;> omega
  have hle : (∀ x, live s'.keys h = some x → live e.pre.keys h = some x) →
      (if (live s'.keys h).isSome then 1 else 0) ≤ if (live e.pre.keys h).isSome then 1 else 0 := by
    intro hx
    cases hl : live s'.keys h with
    | none => exact Nat.zero_le _
    | some x => rw [hx x hl]
  cases hk with
  | quiet hr hc hs hstr =>
    rw [tally_snoc_none hr, tally_snoc_none hc, tally_snoc_none hs]
    have := hle fun x hx => ((hstr _ _).mp hx).1
    omega
  | replace i p s₁ _ _ _ hr hc hs _ hlive hst =>
    rw [tally_snoc_some hr, tally_snoc_none hc, tally_snoc_none hs]
    by_cases hh : p.tokenHash = h
    · rw [if_pos hh]
      omega
    · rw [if_neg hh]
      have := hle fun x hx => (hst.live_of_replace hlive (Ne.symm hh) hx).1
      omega
  | consume h' y hr hc hs hy hnone hne =>
    rw [tally_snoc_none hr, tally_snoc_some hc, tally_snoc_none hs]
    by_cases hh : h' = h
    · subst hh
      rw [hy] at hold
      rw [if_pos rfl, hnone]
      simp only [Option.isSome_none, Option.isSome_some, Bool.false_eq_true, if_false,
        if_true] at hold ⊢
      omega
    · rw [if_neg hh, hne h (Ne.symm hh)]
      omega
  | restore i h' u _ _ hr hc hs _ hst =>
    rw [tally_snoc_none hr, tally_snoc_none hc, tally_snoc_some hs]
    by_cases hh : h' = h
    · rw [if_pos hh]
      omega
    · rw [if_neg hh, hst.live_of_ne h (Ne.symm hh)]
      omega

/-- A step that meets the conditions keeps the invariant. -/
theorem Inv.step (hf : FlowStep e s') (httl : ∀ i p, s'.replacing i = some p → 0 < ttl)
    (hready : ReplaceReady e) (hrestore : RestoreReady l e) : Inv ttl (l ++ [e]) s' where
  replacing_ttl := httl
  live_current := hI.step_current hk hready
  live_replaced := hI.step_live_replaced hk
  verifying_replaced i h u hv := by
    rcases hf.verifying i h u hv with hv | hc
    · exact (hI.verifying_replaced i h u hv).snoc
    · cases hk with
      | consume h' x _ hc' _ hx =>
        obtain ⟨rfl, rfl⟩ := Prod.mk.inj (Option.some.inj (hc'.symm.trans hc))
        exact (hI.live_replaced h' x hx).snoc
      | quiet _ hn => rw [hn] at hc; cases hc
      | replace i p s₁ _ _ _ _ hn => rw [hn] at hc; cases hc
      | restore i h' u' _ _ _ hn => rw [hn] at hc; cases hc
  replaced_issued h u ho := by
    rcases occurs_snoc ho with ho | hr
    · exact hf.issued (hI.replaced_issued h u ho)
    · obtain ⟨i, p, hi, -, rfl⟩ := hk.replacing hr
      exact hf.issued (hI.replacing_issued i p hi)
  replaced_user h u u' ho ho' := by
    rcases occurs_snoc ho with ho | hr
    · rcases occurs_snoc ho' with ho' | hr'
      · exact hI.replaced_user h u u' ho ho'
      · exact absurd ho (hI.fresh hk hr' u)
    · rcases occurs_snoc ho' with ho' | hr'
      · exact absurd ho' (hI.fresh hk hr u')
      · exact (Prod.mk.inj (Option.some.inj (hr.symm.trans hr'))).2
  replacing_issued i p hi := by
    rcases hf.replacing i p hi with hi | ⟨-, hnew, -⟩
    · exact hf.issued (hI.replacing_issued i p hi)
    · exact hnew
  replacing_fresh i p hi u ho := by
    rcases hf.replacing i p hi with hi' | ⟨hn, -, -⟩
    · rcases occurs_snoc ho with ho | hr
      · exact hI.replacing_fresh i p hi' u ho
      · -- the request that has drawn the token has ended
        obtain ⟨j, q, hj, hj', hq⟩ := hk.replacing hr
        obtain rfl := hI.replacing_inj j i q p hj hi' hq
        rw [hj'] at hi
        cases hi
    · rcases occurs_snoc ho with ho | hr
      · exact hn (hI.replaced_issued _ u ho)
      · obtain ⟨j, q, hj, -, hq⟩ := hk.replacing hr
        exact hn (hq ▸ hI.replacing_issued j q hj)
  replacing_inj i j p q hi hj hpq := by
    rcases hf.replacing i p hi with hi' | ⟨hn, -, hother⟩
    · rcases hf.replacing j q hj with hj' | ⟨hn', -, -⟩
      · exact hI.replacing_inj i j p q hi' hj' hpq
      · exact absurd (hpq ▸ hI.replacing_issued i p hi') hn'
    · by_contra hij
      have hj' := hother j (Ne.symm hij) ▸ hj
      exact hn (hpq ▸ hI.replacing_issued j q hj')
  superseded := hI.step_superseded hk hready hrestore
  replaced_le := hI.step_replaced_le hk
  count := hI.step_count hk

end Step

/-- The invariant holds along every run that meets the conditions. -/
theorem inv_of_run {l : List (Event T H U ι)} {now : T} (h : (machine ttl).Run (init now) l s)
    (hready : Ready l) : Inv ttl l s := by
  revert hready
  refine h.induction (fun l s => Ready l → Inv ttl l s) (fun _ => inv_init ttl now) ?_
  intro l s c r s' _ ih hs hready
  have hI := ih hready.init
  exact hI.step (keysStep_of_step hI.replacing_ttl hs) (flowStep_of_step hs)
    (step_replacing_ttl hI.replacing_ttl hs) hready.last.1 hready.last.2

/-- No two live tokens belong to one user. -/
def OneLive (s : Keys T H U) : Prop :=
  ∀ k k' x x', live s k = some x → live s k' = some x' → x.value.userId = x'.value.userId → k = k'

/-- No token is consumed after it has been superseded. -/
def SupersededGone (l : List (Event T H U ι)) : Prop :=
  ∀ l₁ e l₂, l = l₁ ++ e :: l₂ → ∀ h u, Superseded replacedToken l₁ h u →
    ∀ u', consumedToken e ≠ some (h, u')

/-- A token is consumed at most once more often than it is restored. -/
def ConsumedOnce (l : List (Event T H U ι)) : Prop :=
  ∀ h, tally consumedToken l h ≤ 1 + tally restoredToken l h

/-- **The verification-token store is safe** when every replacement deletes the live token of its
user and no superseded token is restored for a user without a current token. -/
theorem email_verify_safe {now : T} {l : List (Event T H U ι)}
    (h : (machine ttl).Run (init now) l s) (hready : Ready l) :
    OneLive s.keys ∧ SupersededGone l ∧ ConsumedOnce l := by
  have hI := inv_of_run h hready
  refine ⟨fun k k' x x' hx hx' hu => ?_, ?_, fun k => ?_⟩
  · have h₁ := hI.live_current k x hx
    rw [hu, hI.live_current k' x' hx'] at h₁
    exact (Entry.mk.inj (Option.some.inj h₁)).1.symm
  · rintro l₁ e l₂ rfl k u hsup u' hc
    obtain ⟨hpre, s₁, hstep, -⟩ := h.split
    have hI' : Inv ttl l₁ e.pre := by
      refine inv_of_run hpre fun l₃ e' l₄ hl => hready l₃ e' (l₄ ++ e :: l₂) ?_
      rw [hl, List.append_assoc, List.cons_append]
    have hgone := (hI'.superseded k u hsup).1
    have hk := keysStep_of_step hI'.replacing_ttl hstep
    cases hk with
    | consume k₁ x _ hc' _ hx =>
      obtain ⟨rfl, -⟩ := Prod.mk.inj (Option.some.inj (hc'.symm.trans hc))
      rw [hgone] at hx
      cases hx
    | quiet _ hn => rw [hn] at hc; cases hc
    | replace i p s₁ _ _ _ _ hn => rw [hn] at hc; cases hc
    | restore i h' u' _ _ _ hn => rw [hn] at hc; cases hc
  · have := hI.count k
    have := hI.replaced_le k
    omega

/-- A token is replaced while it is being verified, and the database of that verification fails. -/
def supersededRun : List (Event ℕ Bool Unit Bool) × State ℕ Bool Unit Bool :=
  (machine 10).runOf (init 0)
    [.replaceRead false () false, .replaceExec false, .consume false false,
      .replaceRead true () true, .replaceExec true, .restore false, .consume false false] (by decide)

theorem ready_supersededRun : Ready supersededRun.1 := by
  refine fun l₁ e l₂ hl => Machine.forall_split (P := fun l₁ e => ReplaceReady e ∧ RestoreReady l₁ e)
    (fun i hi => ?_) hl
  match i, hi with
  | 0, _ => exact ⟨nofun, nofun⟩
  | 1, _ =>
    refine ⟨fun i p hc hp h x hx => ?_, nofun⟩
    cases h <;> cases hx
  | 2, _ => exact ⟨nofun, nofun⟩
  | 3, _ => exact ⟨nofun, nofun⟩
  | 4, _ =>
    refine ⟨fun i p hc hp h x hx => ?_, nofun⟩
    cases h <;> cases hx
  | 5, _ => exact ⟨nofun, fun i h u hc hv _ => rfl⟩
  | 6, _ => exact ⟨nofun, nofun⟩

theorem email_verify_safe_supersededRun : OneLive supersededRun.2.keys ∧
    SupersededGone supersededRun.1 ∧ ConsumedOnce supersededRun.1 :=
  email_verify_safe (Machine.run_runOf _ _ _ _ :
    (machine 10).Run (init 0) supersededRun.1 supersededRun.2) ready_supersededRun

/-- Two replacements for one user overlap. -/
def overlapRun : List (Event ℕ ℕ ℕ ℕ) × State ℕ ℕ ℕ ℕ :=
  (machine 10).runOf (init 0)
    [.replaceRead 0 7 1, .replaceRead 1 7 2, .replaceExec 0, .replaceExec 1] (by decide)

/-- A superseded token is restored after the current one has expired. -/
def lateRestoreRun : List (Event ℕ ℕ ℕ ℕ) × State ℕ ℕ ℕ ℕ :=
  (machine 10).runOf (init 0)
    [.replaceRead 0 7 1, .replaceExec 0, .consume 0 1, .replaceRead 1 7 2, .replaceExec 1,
      .tick 11, .restore 0, .consume 0 1] (by decide)

/-- Without the conditions a user can have two live tokens, and a superseded token can be
consumed. -/
theorem email_verify_unsafe :
    (¬∀ (l : List (Event ℕ ℕ ℕ ℕ)) (s : State ℕ ℕ ℕ ℕ),
      (machine 10).Run (init 0) l s → OneLive s.keys) ∧
    ¬∀ (l : List (Event ℕ ℕ ℕ ℕ)) (s : State ℕ ℕ ℕ ℕ),
      (machine 10).Run (init 0) l s → SupersededGone l := by
  constructor
  · intro hall
    have hrun : (machine 10).Run (init 0) overlapRun.1 overlapRun.2 := Machine.run_runOf _ _ _ _
    exact absurd (hall _ _ hrun 1 2 ⟨⟨7, 0⟩, some 10⟩ ⟨⟨7, 0⟩, some 10⟩ rfl rfl rfl) (by decide)
  · intro hall
    have hrun : (machine 10).Run (init 0) lateRestoreRun.1 lateRestoreRun.2 :=
      Machine.run_runOf _ _ _ _
    have hl : lateRestoreRun.1 = lateRestoreRun.1.take 7 ++ lateRestoreRun.1.get ⟨7, by decide⟩ ::
        [] := rfl
    refine hall _ _ hrun _ _ _ hl 1 7 ⟨lateRestoreRun.1.take 4,
      lateRestoreRun.1.get ⟨4, by decide⟩, (lateRestoreRun.1.take 7).drop 5, rfl, ⟨2, rfl⟩,
      lateRestoreRun.1.get ⟨1, by decide⟩, ?_, rfl⟩ 7 rfl
    exact List.mem_cons_of_mem _ List.mem_cons_self

end EmailVerify
