import TaskManagement.RedisStore.PasswordReset

/-!
# The password-reset token store

`password_reset_safe`: along every run of `PasswordReset.machine`, a live token of a user is the
user's current one, with the same expiry, so that a user has at most one; a token superseded by a
later save is never consumed; and a token is consumed at most once more often than it is restored.

* `step_cases` lists what a step can do;
* `Inv` relates the events of a run to the store.  A superseded token that was consumed cannot be
  restored because the current token lasts at least as long as the record of the consumption
  (`Inv.superseded`).
-/

namespace PasswordReset

set_option linter.unusedSectionVars false

variable {T H U ι : Type} [AddCommMonoid T] [LinearOrder T] [IsOrderedAddMonoid T]
variable [DecidableEq H] [DecidableEq U]

/-- The entry of a live token. -/
abbrev live (s : Keys T H U) (h : H) : Option (Entry T (ResetData T U)) := s.string (.pwreset h)

/-- The current token of a user. -/
abbrev current (s : Keys T H U) (u : U) : Option (Entry T H) := s.string (.pwresetCurrent u)

/-- The token of a user that was consumed last. -/
abbrev consumed (s : Keys T H U) (u : U) : Option (Entry T H) := s.string (.pwresetConsumed u)

/-! ### The scripts -/

/-- What storing the token `h` for `u` does to the keys. -/
structure Stores (ttl : T) (s s' : Keys T H U) (u : U) (h : H) : Prop where
  now : s'.now = s.now
  live_self : live s' h = some ⟨⟨u, s.now⟩, some (s.now + ttl)⟩
  current_self : current s' u = some ⟨h, some (s.now + ttl)⟩
  current_of_ne : ∀ u', u' ≠ u → current s' u' = current s u'
  consumed : consumed s' = consumed s

section Scripts

variable {ttl : T} (s : Keys T H U)

theorem stores_setEx (u : U) (h : H) (httl : 0 ≤ ttl) :
    Stores ttl s ((s.setEx (.pwreset h) ⟨u, s.now⟩ ttl).setEx (.pwresetCurrent u) h ttl) u h where
  now := rfl
  live_self := by
    rw [live, Keyspace.setEx_string_of_ne _ _ _ (by simp)]
    exact Keyspace.setEx_string_self s (k := .pwreset h) _ httl
  current_self := Keyspace.setEx_string_self _ _ httl
  current_of_ne u' hu := by
    rw [current, Keyspace.setEx_string_of_ne _ _ _ (by simpa using hu),
      Keyspace.setEx_string_of_ne _ _ _ (by simp)]
  consumed := by
    funext u'
    rw [PasswordReset.consumed, Keyspace.setEx_string_of_ne _ _ _ (by simp),
      Keyspace.setEx_string_of_ne _ _ _ (by simp)]

theorem setEx_live_of_ne {u : U} {h h' : H} (hh : h' ≠ h) :
    live ((s.setEx (.pwreset h) ⟨u, s.now⟩ ttl).setEx (.pwresetCurrent u) h ttl) h' = live s h' := by
  rw [live, Keyspace.setEx_string_of_ne _ _ _ (by simp),
    Keyspace.setEx_string_of_ne _ _ _ (by simpa using hh)]

/-- The outcomes of saving: the current hash has changed, or the new token replaces the current
one. -/
theorem savePasswordReset_cases (u : U) (oldHash : Option H) (h : H) (httl : 0 ≤ ttl) :
    savePasswordReset ttl s u oldHash h = (false, s) ∨
      (savePasswordReset ttl s u oldHash h).1 = true ∧
        Stores ttl s (savePasswordReset ttl s u oldHash h).2 u h ∧
        ∀ h' e, h' ≠ h → live (savePasswordReset ttl s u oldHash h).2 h' = some e →
          live s h' = some e ∧ s.get (.pwresetCurrent u) ≠ some h' := by
  unfold savePasswordReset
  by_cases hc : s.get (.pwresetCurrent u) = oldHash
  · refine Or.inr ?_
    simp only [hc, ne_eq, not_true_eq_false, if_false]
    cases oldHash with
    | none =>
      refine ⟨trivial, stores_setEx s u h httl, fun h' e hne he => ?_⟩
      rw [setEx_live_of_ne s hne] at he
      exact ⟨he, by simp⟩
    | some o =>
      have hs := stores_setEx (s.del (.pwreset o)) u h httl
      refine ⟨trivial, ⟨hs.now, hs.live_self, hs.current_self, fun u' hu => ?_, ?_⟩,
        fun h' e hne he => ?_⟩
      · rw [hs.current_of_ne u' hu, current, Keyspace.del_string_of_ne _ (by simp)]
      · rw [hs.consumed]
        funext u'
        exact Keyspace.del_string_of_ne _ (by simp)
      · rw [setEx_live_of_ne _ hne] at he
        by_cases ho : h' = o
        · subst ho
          rw [live, Keyspace.del_string_self] at he
          cases he
        · rw [live, Keyspace.del_string_of_ne _ (by simpa using ho)] at he
          exact ⟨he, by simpa using Ne.symm ho⟩
  · exact Or.inl (by simp only [ne_eq, hc, not_false_eq_true, if_true])

/-- What consuming the token `h` of `u` does to the keys. -/
structure Consumes (ttl : T) (s s' : Keys T H U) (u : U) (h : H) : Prop where
  now : s'.now = s.now
  live_self : live s' h = none
  live_of_ne : ∀ h', h' ≠ h → live s' h' = live s h'
  current_of_ne : ∀ u', u' ≠ u → current s' u' = current s u'
  consumed_self : consumed s' u = some ⟨h, some (s.now + ttl)⟩
  consumed_of_ne : ∀ u', u' ≠ u → consumed s' u' = consumed s u'

theorem consumePasswordReset_cases (h : H) (httl : 0 ≤ ttl) :
    consumePasswordReset ttl s h = (none, s) ∨
      ∃ e, live s h = some e ∧ s.get (.pwresetCurrent e.value.userId) = some h ∧
        (consumePasswordReset ttl s h).1 = some e.value.userId ∧
        Consumes ttl s (consumePasswordReset ttl s h).2 e.value.userId h := by
  unfold consumePasswordReset
  cases he : live s h with
  | none =>
    rw [Keyspace.get_of_none he]
    exact Or.inl rfl
  | some e =>
    rw [Keyspace.get_of_some he]
    by_cases hc : s.get (.pwresetCurrent e.value.userId) = some h
    · refine Or.inr ⟨e, rfl, hc, ?_⟩
      simp only [hc, ne_eq, not_true_eq_false, if_false]
      refine ⟨trivial, rfl, ?_, fun h' hh => ?_, fun u hu => ?_, ?_, fun u hu => ?_⟩
      · rw [live, Keyspace.setEx_string_of_ne _ _ _ (by simp),
          Keyspace.del_string_of_ne _ (by simp), Keyspace.del_string_self]
      · rw [live, Keyspace.setEx_string_of_ne _ _ _ (by simp),
          Keyspace.del_string_of_ne _ (by simp), Keyspace.del_string_of_ne _ (by simpa using hh)]
      · rw [current, Keyspace.setEx_string_of_ne _ _ _ (by simp),
          Keyspace.del_string_of_ne _ (by simpa using hu), Keyspace.del_string_of_ne _ (by simp)]
      · exact Keyspace.setEx_string_self _ _ httl
      · rw [consumed, Keyspace.setEx_string_of_ne _ _ _ (by simpa using hu),
          Keyspace.del_string_of_ne _ (by simp), Keyspace.del_string_of_ne _ (by simp)]
    · simp only [ne_eq, hc, not_false_eq_true, if_true, true_or]

theorem restorePasswordReset_cases (h : H) (u : U) (httl : 0 ≤ ttl) :
    restorePasswordReset ttl s h u = (false, s) ∨
      (restorePasswordReset ttl s h u).1 = true ∧
        (∃ c, consumed s u = some c ∧ c.value = h) ∧ current s u = none ∧ live s h = none ∧
        Stores ttl s (restorePasswordReset ttl s h u).2 u h ∧
        ∀ h', h' ≠ h → live (restorePasswordReset ttl s h u).2 h' = live s h' := by
  unfold restorePasswordReset
  by_cases hc : s.get (.pwresetConsumed u) = some h
  · simp only [hc, ne_eq, not_true_eq_false, if_false]
    cases hcur : current s u with
    | some e =>
      simp only [Keyspace.existsKey_of_some hcur, if_true, true_or]
    | none =>
      simp only [Keyspace.existsKey_of_none hcur, Bool.false_eq_true, if_false]
      cases hl : live s h with
      | some e => simp only [Keyspace.existsKey_of_some hl, if_true, true_or]
      | none =>
        simp only [Keyspace.existsKey_of_none hl, Bool.false_eq_true, if_false]
        obtain ⟨c, hcs, hv⟩ := Option.map_eq_some_iff.mp hc
        exact Or.inr ⟨trivial, ⟨c, hcs, hv⟩, trivial, trivial, stores_setEx s u h httl,
          fun h' hh => setEx_live_of_ne s hh⟩
  · simp only [ne_eq, hc, not_false_eq_true, if_true, true_or]

end Scripts

/-! ### What a step can do -/

variable [DecidableEq ι]

/-- The events of a run of `machine`. -/
abbrev Event (T H U ι : Type) [LE T] [DecidableLE T] : Type :=
  Machine.Event (State T H U ι) (Call T H U ι) (Reply U)

/-- The token and the user of a successful save. -/
def savedToken (e : Event T H U ι) : Option (H × U) :=
  match e.call, e.reply with
  | .saveExec i, .saved true => (e.pre.pending i).map fun p => (p.tokenHash, p.userId)
  | _, _ => none

/-- The token and the user of a successful consumption. -/
def consumedToken (e : Event T H U ι) : Option (H × U) :=
  match e.call, e.reply with
  | .consume h, .consumed (some u) => some (h, u)
  | _, _ => none

/-- The token and the user of a successful restore. -/
def restoredToken (e : Event T H U ι) : Option (H × U) :=
  match e.call, e.reply with
  | .restore h u, .restored true => some (h, u)
  | _, _ => none

/-- What a step does to the keys, by the event it is. -/
inductive KeysStep (ttl : T) (e : Event T H U ι) (s' : State T H U ι) : Prop where
  /-- Nothing is stored; time may pass. -/
  | quiet : savedToken e = none → consumedToken e = none → restoredToken e = none →
      e.pre.keys.now ≤ s'.keys.now →
      (∀ k x, s'.keys.string k = some x ↔
        e.pre.keys.string k = some x ∧ x.alive s'.keys.now) → KeysStep ttl e s'
  | save (i : ι) (p : Pending H U) : e.pre.pending i = some p → s'.pending i = none →
      savedToken e = some (p.tokenHash, p.userId) → consumedToken e = none →
      restoredToken e = none → Stores ttl e.pre.keys s'.keys p.userId p.tokenHash →
      (∀ h x, h ≠ p.tokenHash → live s'.keys h = some x → live e.pre.keys h = some x ∧
        e.pre.keys.get (.pwresetCurrent p.userId) ≠ some h) → KeysStep ttl e s'
  | consume (h : H) (x : Entry T (ResetData T U)) : savedToken e = none →
      consumedToken e = some (h, x.value.userId) → restoredToken e = none →
      live e.pre.keys h = some x → Consumes ttl e.pre.keys s'.keys x.value.userId h →
      KeysStep ttl e s'
  | restore (h : H) (u : U) (c : Entry T H) : savedToken e = none → consumedToken e = none →
      restoredToken e = some (h, u) → consumed e.pre.keys u = some c → c.value = h →
      current e.pre.keys u = none → live e.pre.keys h = none →
      Stores ttl e.pre.keys s'.keys u h →
      (∀ h', h' ≠ h → live s'.keys h' = live e.pre.keys h') → KeysStep ttl e s'

/-- What a step does to the saves under way. -/
structure PendingStep (s s' : State T H U ι) : Prop where
  issued : s.issued ⊆ s'.issued
  pending : ∀ i p, s'.pending i = some p → s.pending i = some p ∨
    (p.tokenHash ∉ s.issued ∧ p.tokenHash ∈ s'.issued ∧ ∀ j, j ≠ i → s'.pending j = s.pending j)

variable {ttl : T} {s s' : State T H U ι} {c : Call T H U ι} {r : Reply U} {e : Event T H U ι}

/-- A token is saved by the second step of the save that has drawn it. -/
theorem KeysStep.saving (hk : KeysStep ttl e s') {h : H} {u : U} (hs : savedToken e = some (h, u)) :
    ∃ i p, e.pre.pending i = some p ∧ s'.pending i = none ∧ p.tokenHash = h := by
  cases hk with
  | save i p hi hi' hsv =>
    exact ⟨i, p, hi, hi', (Prod.mk.inj (Option.some.inj (hsv.symm.trans hs))).1⟩
  | quiet hn => rw [hn] at hs; cases hs
  | consume h' x hn => rw [hn] at hs; cases hs
  | restore h' u' c hn => rw [hn] at hs; cases hs

/-- What a step of the machine can do. -/
theorem step_cases (hpend : ∀ i p, s.pending i = some p → 0 < ttl)
    (h : (machine ttl).step s c = some (r, s')) :
    KeysStep ttl ⟨s, c, r⟩ s' ∧ PendingStep s s' := by
  have keep : ∀ {s' : State T H U ι}, s'.issued = s.issued → s'.pending = s.pending →
      PendingStep s s' := fun hi hp => ⟨hi.ge, fun i p h => Or.inl (hp ▸ h)⟩
  cases c with
  | saveRead i u h' =>
    simp only [machine] at h
    split at h
    · rename_i hg
      obtain ⟨rfl, rfl⟩ := Prod.mk.inj (Option.some.inj h)
      refine ⟨.quiet rfl rfl rfl le_rfl s.keys.string_iff_alive,
        Finset.subset_insert h' _, fun j p hp => ?_⟩
      by_cases hj : j = i
      · subst hj
        simp only [Function.update_self] at hp
        obtain rfl := Option.some.inj hp
        exact Or.inr ⟨hg.2.2, Finset.mem_insert_self h' _,
          fun k hk => Function.update_of_ne hk _ _⟩
      · simp only [Function.update_of_ne hj] at hp
        exact Or.inl hp
    · cases h
  | saveExec i =>
    simp only [machine] at h
    split at h
    · rename_i p hi
      obtain ⟨rfl, rfl⟩ := Prod.mk.inj (Option.some.inj h)
      refine ⟨?_, subset_rfl, fun j q hq => ?_⟩
      · rcases savePasswordReset_cases s.keys p.userId p.oldHash p.tokenHash
          (le_of_lt (hpend i p hi)) with hf | ⟨ht, hs, hl⟩
        · rw [hf]
          exact .quiet rfl rfl rfl le_rfl s.keys.string_iff_alive
        · rw [ht]
          refine .save i p hi (Function.update_self i _ _) ?_ rfl rfl hs hl
          simp only [savedToken, hi, Option.map_some]
      · by_cases hj : j = i
        · subst hj
          simp only [Function.update_self] at hq
          cases hq
        · simp only [Function.update_of_ne hj] at hq
          exact Or.inl hq
    · cases h
  | consume k =>
    simp only [machine] at h
    split at h
    · rename_i httl
      obtain ⟨rfl, rfl⟩ := Prod.mk.inj (Option.some.inj h)
      refine ⟨?_, keep rfl rfl⟩
      rcases consumePasswordReset_cases s.keys k (le_of_lt httl) with hf | ⟨x, hx, hc, hr, hs⟩
      · rw [hf]
        exact .quiet rfl rfl rfl le_rfl s.keys.string_iff_alive
      · rw [hr]
        exact .consume k x rfl rfl rfl hx hs
    · cases h
  | restore k u =>
    simp only [machine] at h
    split at h
    · rename_i httl
      obtain ⟨rfl, rfl⟩ := Prod.mk.inj (Option.some.inj h)
      refine ⟨?_, keep rfl rfl⟩
      rcases restorePasswordReset_cases s.keys k u (le_of_lt httl) with
        hf | ⟨ht, ⟨x, hx, hv⟩, hcur, hlive, hs, hl⟩
      · rw [hf]
        exact .quiet rfl rfl rfl le_rfl s.keys.string_iff_alive
      · rw [ht]
        exact .restore k u x rfl rfl rfl hx hv hcur hlive hs hl
    · cases h
  | tick d =>
    simp only [machine] at h
    split at h
    · rename_i hd
      obtain ⟨rfl, rfl⟩ := Prod.mk.inj (Option.some.inj h)
      exact ⟨.quiet rfl rfl rfl (le_add_of_nonneg_right hd)
        (fun k x => s.keys.advance_string_eq_some d), keep rfl rfl⟩
    · cases h

/-! ### The invariant -/

/-- How many events of `l` save, consume and restore the token `h`. -/
def saves (l : List (Event T H U ι)) (h : H) : ℕ :=
  l.countP fun e => (savedToken e).any fun x => decide (x.1 = h)

@[inherit_doc saves]
def consumes (l : List (Event T H U ι)) (h : H) : ℕ :=
  l.countP fun e => (consumedToken e).any fun x => decide (x.1 = h)

@[inherit_doc saves]
def restores (l : List (Event T H U ι)) (h : H) : ℕ :=
  l.countP fun e => (restoredToken e).any fun x => decide (x.1 = h)

/-- The token `h` of `u` was saved in the run `l`, and another one of `u` was saved after it. -/
def Superseded (l : List (Event T H U ι)) (h : H) (u : U) : Prop :=
  ∃ l₁ e l₂, l = l₁ ++ e :: l₂ ∧ (∃ h', savedToken e = some (h', u)) ∧
    ∃ e₀ ∈ l₁, savedToken e₀ = some (h, u)

/-- How the events of a run and the store are related. -/
structure Inv (ttl : T) (l : List (Event T H U ι)) (s : State T H U ι) : Prop where
  pending_ttl : ∀ i p, s.pending i = some p → 0 < ttl
  /-- A live token is the current one of its user and expires with that record. -/
  live_current : ∀ h x, live s.keys h = some x → current s.keys x.value.userId = some ⟨h, x.expiry⟩
  expiry : ∀ u c, consumed s.keys u = some c → ∃ x, c.expiry = some x ∧ x ≤ s.keys.now + ttl
  live_saved : ∀ h x, live s.keys h = some x → ∃ e ∈ l, savedToken e = some (h, x.value.userId)
  consumed_saved : ∀ u c, consumed s.keys u = some c → ∃ e ∈ l, savedToken e = some (c.value, u)
  saved_issued : ∀ e ∈ l, ∀ h u, savedToken e = some (h, u) → h ∈ s.issued
  saved_user : ∀ e ∈ l, ∀ e' ∈ l, ∀ h u u', savedToken e = some (h, u) →
    savedToken e' = some (h, u') → u = u'
  pending_issued : ∀ i p, s.pending i = some p → p.tokenHash ∈ s.issued
  pending_fresh : ∀ i p, s.pending i = some p → ∀ e ∈ l, ∀ u, savedToken e ≠ some (p.tokenHash, u)
  pending_inj : ∀ i j p q, s.pending i = some p → s.pending j = some q →
    p.tokenHash = q.tokenHash → i = j
  /-- A superseded token is gone, and while its consumption is remembered there is a current
  token. -/
  superseded : ∀ h u, Superseded l h u → live s.keys h = none ∧
    ∀ c x, consumed s.keys u = some c → c.value = h → c.expiry = some x →
      ∃ d y, current s.keys u = some d ∧ d.expiry = some y ∧ x ≤ y
  saves_le : ∀ h, saves l h ≤ 1
  count : ∀ h, consumes l h + (if (live s.keys h).isSome then 1 else 0) ≤ restores l h + saves l h

theorem inv_init (ttl now : T) : Inv ttl [] (init now : State T H U ι) where
  pending_ttl _ _ h := by cases h
  live_current _ _ h := by cases h
  expiry _ _ h := by cases h
  live_saved _ _ h := by cases h
  consumed_saved _ _ h := by cases h
  saved_issued _ h := absurd h List.not_mem_nil
  saved_user _ h := absurd h List.not_mem_nil
  pending_issued _ _ h := by cases h
  pending_fresh _ _ h := by cases h
  pending_inj _ _ _ _ h := by cases h
  superseded _ _ h := by
    obtain ⟨l₁, e, l₂, hl, -⟩ := h
    simp at hl
  saves_le _ := Nat.zero_le 1
  count _ := le_rfl

theorem superseded_snoc {l : List (Event T H U ι)} {e : Event T H U ι} {h : H} {u : U}
    (hs : Superseded (l ++ [e]) h u) : Superseded l h u ∨
      (∃ h', savedToken e = some (h', u)) ∧ ∃ e₀ ∈ l, savedToken e₀ = some (h, u) := by
  obtain ⟨l₁, e', l₂, hl, he', h₀⟩ := hs
  rcases Machine.split_snoc hl with ⟨rfl, rfl⟩ | ⟨l₃, rfl⟩
  · exact Or.inr ⟨he', h₀⟩
  · exact Or.inl ⟨l₁, e', l₃, rfl, he', h₀⟩

theorem saves_snoc (l : List (Event T H U ι)) (e : Event T H U ι) (h : H) :
    saves (l ++ [e]) h =
      saves l h + if (savedToken e).any (fun x => decide (x.1 = h)) then 1 else 0 := by
  rw [saves, List.countP_append, List.countP_singleton]
  rfl

theorem consumes_snoc (l : List (Event T H U ι)) (e : Event T H U ι) (h : H) :
    consumes (l ++ [e]) h =
      consumes l h + if (consumedToken e).any (fun x => decide (x.1 = h)) then 1 else 0 := by
  rw [consumes, List.countP_append, List.countP_singleton]
  rfl

theorem restores_snoc (l : List (Event T H U ι)) (e : Event T H U ι) (h : H) :
    restores (l ++ [e]) h =
      restores l h + if (restoredToken e).any (fun x => decide (x.1 = h)) then 1 else 0 := by
  rw [restores, List.countP_append, List.countP_singleton]
  rfl

/-- A token without a save has none in the count. -/
theorem saves_eq_zero {l : List (Event T H U ι)} {h : H}
    (hl : ∀ e ∈ l, ∀ u, savedToken e ≠ some (h, u)) : saves l h = 0 := by
  refine List.countP_eq_zero.mpr fun e he hany => ?_
  obtain ⟨⟨h', u⟩, hx, hh⟩ := (Option.any_eq_true _ _).mp hany
  obtain rfl : h' = h := of_decide_eq_true hh
  exact hl e he u hx

section Step

variable {l : List (Event T H U ι)} {e : Event T H U ι} (hI : Inv ttl l e.pre)
  (hk : KeysStep ttl e s') (hp : PendingStep e.pre s')

include hI hk

/-- A new save is of a token that was not saved before. -/
theorem Inv.fresh {h : H} {u : U} (hs : savedToken e = some (h, u)) :
    ∀ e' ∈ l, ∀ u', savedToken e' ≠ some (h, u') := by
  obtain ⟨i, p, hi, -, rfl⟩ := hk.saving hs
  exact hI.pending_fresh i p hi

theorem Inv.step_current (h : H) (x : Entry T (ResetData T U)) (hx : live s'.keys h = some x) :
    current s'.keys x.value.userId = some ⟨h, x.expiry⟩ := by
  cases hk with
  | quiet _ _ _ _ hstr =>
    obtain ⟨hl, ha⟩ := (hstr _ _).mp hx
    exact (hstr _ _).mpr ⟨hI.live_current h x hl, ha⟩
  | save i p _ _ _ _ _ hs hl =>
    by_cases hh : h = p.tokenHash
    · subst hh
      rw [hs.live_self] at hx
      obtain rfl := Option.some.inj hx
      exact hs.current_self
    · -- another token stays only when it belongs to another user
      obtain ⟨hl', hne⟩ := hl h x hh hx
      have hu : x.value.userId ≠ p.userId := by
        intro hu
        rw [← hu, Keyspace.get_of_some (hI.live_current h x hl')] at hne
        exact hne rfl
      rw [hs.current_of_ne _ hu]
      exact hI.live_current h x hl'
  | consume k y _ _ _ hy hc =>
    have hne : h ≠ k := by
      rintro rfl
      rw [hc.live_self] at hx
      cases hx
    rw [hc.live_of_ne h hne] at hx
    have hu : x.value.userId ≠ y.value.userId := by
      intro hu
      -- each of the two would be the current token of the user
      have h₁ := hI.live_current h x hx
      rw [hu, hI.live_current k y hy] at h₁
      exact hne (Entry.mk.inj (Option.some.inj h₁)).1.symm
    rw [hc.current_of_ne _ hu]
    exact hI.live_current h x hx
  | restore k u c _ _ _ _ _ hcur _ hs hl =>
    by_cases hh : h = k
    · subst hh
      rw [hs.live_self] at hx
      obtain rfl := Option.some.inj hx
      exact hs.current_self
    · -- a restore needs that its user has no current token
      rw [hl h hh] at hx
      have hu : x.value.userId ≠ u := by
        rintro rfl
        rw [hI.live_current h x hx] at hcur
        cases hcur
      rw [hs.current_of_ne _ hu]
      exact hI.live_current h x hx

theorem Inv.step_expiry (u : U) (c : Entry T H) (hc : consumed s'.keys u = some c) :
    ∃ x, c.expiry = some x ∧ x ≤ s'.keys.now + ttl := by
  cases hk with
  | quiet _ _ _ hle hstr =>
    obtain ⟨x, hx, hxle⟩ := hI.expiry u c ((hstr _ _).mp hc).1
    exact ⟨x, hx, hxle.trans (add_le_add_left hle ttl)⟩
  | save i p _ _ _ _ _ hs =>
    rw [hs.consumed] at hc
    rw [hs.now]
    exact hI.expiry u c hc
  | consume k y _ _ _ hy hcs =>
    rw [hcs.now]
    by_cases hu : u = y.value.userId
    · subst hu
      rw [hcs.consumed_self] at hc
      obtain rfl := Option.some.inj hc
      exact ⟨_, rfl, le_rfl⟩
    · rw [hcs.consumed_of_ne u hu] at hc
      exact hI.expiry u c hc
  | restore k u' c' _ _ _ _ _ _ _ hs =>
    rw [hs.consumed] at hc
    rw [hs.now]
    exact hI.expiry u c hc

theorem Inv.step_live_saved (h : H) (x : Entry T (ResetData T U)) (hx : live s'.keys h = some x) :
    ∃ e' ∈ l ++ [e], savedToken e' = some (h, x.value.userId) := by
  have hold : live e.pre.keys h = some x →
      ∃ e' ∈ l ++ [e], savedToken e' = some (h, x.value.userId) := by
    intro hl
    obtain ⟨e', he', hs⟩ := hI.live_saved h x hl
    exact ⟨e', List.mem_append_left _ he', hs⟩
  cases hk with
  | quiet _ _ _ _ hstr => exact hold ((hstr _ _).mp hx).1
  | save i p _ _ hsv _ _ hs hl =>
    by_cases hh : h = p.tokenHash
    · subst hh
      rw [hs.live_self] at hx
      obtain rfl := Option.some.inj hx
      exact ⟨e, List.mem_append_right _ List.mem_cons_self, hsv⟩
    · exact hold (hl h x hh hx).1
  | consume k y _ _ _ hy hc =>
    have hne : h ≠ k := by
      rintro rfl
      rw [hc.live_self] at hx
      cases hx
    exact hold (hc.live_of_ne h hne ▸ hx)
  | restore k u c _ _ _ hcs hcv _ _ hs hl =>
    by_cases hh : h = k
    · subst hh
      rw [hs.live_self] at hx
      obtain rfl := Option.some.inj hx
      obtain ⟨e', he', hsv⟩ := hI.consumed_saved u c hcs
      exact ⟨e', List.mem_append_left _ he', hcv ▸ hsv⟩
    · exact hold (hl h hh ▸ hx)

theorem Inv.step_consumed_saved (u : U) (c : Entry T H) (hc : consumed s'.keys u = some c) :
    ∃ e' ∈ l ++ [e], savedToken e' = some (c.value, u) := by
  have hold : consumed e.pre.keys u = some c →
      ∃ e' ∈ l ++ [e], savedToken e' = some (c.value, u) := by
    intro hl
    obtain ⟨e', he', hs⟩ := hI.consumed_saved u c hl
    exact ⟨e', List.mem_append_left _ he', hs⟩
  cases hk with
  | quiet _ _ _ _ hstr => exact hold ((hstr _ _).mp hc).1
  | save i p _ _ _ _ _ hs => exact hold (hs.consumed ▸ hc)
  | consume k y _ _ _ hy hcs =>
    by_cases hu : u = y.value.userId
    · subst hu
      rw [hcs.consumed_self] at hc
      obtain rfl := Option.some.inj hc
      obtain ⟨e', he', hs⟩ := hI.live_saved k y hy
      exact ⟨e', List.mem_append_left _ he', hs⟩
    · exact hold (hcs.consumed_of_ne u hu ▸ hc)
  | restore k u' c' _ _ _ _ _ _ _ hs => exact hold (hs.consumed ▸ hc)

/-- A token that was superseded before the step. -/
theorem Inv.step_superseded_before {h : H} {u : U} (hold : Superseded l h u) :
    live s'.keys h = none ∧ ∀ c x, consumed s'.keys u = some c → c.value = h →
      c.expiry = some x → ∃ d y, current s'.keys u = some d ∧ d.expiry = some y ∧ x ≤ y := by
  obtain ⟨hgone, hcur⟩ := hI.superseded h u hold
  obtain ⟨l₁, e₁, l₂, rfl, -, e₀, he₀, hs₀⟩ := hold
  have hmem : e₀ ∈ l₁ ++ e₁ :: l₂ := List.mem_append_left _ he₀
  cases hk with
  | quiet _ _ _ _ hstr =>
    constructor
    · cases hx : live s'.keys h with
      | none => rfl
      | some x =>
        have hx' : live e.pre.keys h = some x := ((hstr _ _).mp hx).1
        rw [hgone] at hx'
        cases hx'
    · intro c x hc hv hx
      obtain ⟨hc', ha⟩ := (hstr _ _).mp hc
      obtain ⟨d, y, hd, hy, hle⟩ := hcur c x hc' hv hx
      refine ⟨d, y, (hstr _ _).mpr ⟨hd, ?_⟩, hy, hle⟩
      rw [Entry.alive, hx] at ha
      rw [Entry.alive, hy]
      exact decide_eq_true ((of_decide_eq_true ha).trans hle)
  | save i p hi _ _ _ _ hs hl =>
    have hne : h ≠ p.tokenHash := by
      rintro rfl
      exact hI.pending_fresh i p hi e₀ hmem u hs₀
    constructor
    · cases hx : live s'.keys h with
      | none => rfl
      | some x =>
        have := (hl h x hne hx).1
        rw [hgone] at this
        cases this
    · intro c x hc hv hx
      rw [hs.consumed] at hc
      by_cases hu : u = p.userId
      · subst hu
        obtain ⟨x', hx', hle⟩ := hI.expiry _ c hc
        obtain rfl := Option.some.inj (hx.symm.trans hx')
        exact ⟨_, _, hs.current_self, rfl, hle⟩
      · rw [hs.current_of_ne u hu]
        exact hcur c x hc hv hx
  | consume k y _ _ _ hy hcs =>
    have hne : h ≠ k := by
      rintro rfl
      rw [hgone] at hy
      cases hy
    refine ⟨(hcs.live_of_ne h hne).trans hgone, fun c x hc hv hx => ?_⟩
    by_cases hu : u = y.value.userId
    · subst hu
      rw [hcs.consumed_self] at hc
      obtain rfl := Option.some.inj hc
      exact absurd hv.symm hne
    · rw [hcs.current_of_ne u hu]
      rw [hcs.consumed_of_ne u hu] at hc
      exact hcur c x hc hv hx
  | restore k u' c' _ _ _ hcs hcv hnone _ hs hl =>
    have hne : h ≠ k := by
      -- a superseded token cannot be restored: its user has a current token
      rintro rfl
      obtain ⟨e', he', hsv⟩ := hI.consumed_saved u' c' hcs
      obtain rfl := hI.saved_user e' he' e₀ hmem h u' u (hcv ▸ hsv) hs₀
      obtain ⟨x', hx', -⟩ := hI.expiry u' c' hcs
      obtain ⟨d, y, hd, -, -⟩ := hcur c' x' hcs hcv hx'
      rw [hnone] at hd
      cases hd
    refine ⟨(hl h hne).trans hgone, fun c x hc hv hx => ?_⟩
    rw [hs.consumed] at hc
    by_cases hu : u = u'
    · subst hu
      obtain ⟨x', hx', hle⟩ := hI.expiry u c hc
      obtain rfl := Option.some.inj (hx.symm.trans hx')
      exact ⟨_, _, hs.current_self, rfl, hle⟩
    · rw [hs.current_of_ne u hu]
      exact hcur c x hc hv hx

/-- A token that the step supersedes. -/
theorem Inv.step_superseded_now {h : H} {u : U} (hsup : ∃ h', savedToken e = some (h', u))
    (hsaved : ∃ e₀ ∈ l, savedToken e₀ = some (h, u)) :
    live s'.keys h = none ∧ ∀ c x, consumed s'.keys u = some c → c.value = h →
      c.expiry = some x → ∃ d y, current s'.keys u = some d ∧ d.expiry = some y ∧ x ≤ y := by
  obtain ⟨h₁, hs₁⟩ := hsup
  obtain ⟨e₀, he₀, hs₀⟩ := hsaved
  cases hk with
  | quiet hn => rw [hn] at hs₁; cases hs₁
  | consume k y hn => rw [hn] at hs₁; cases hs₁
  | restore k u' c' hn => rw [hn] at hs₁; cases hs₁
  | save i p hi _ hsv _ _ hs hl =>
    obtain ⟨rfl, rfl⟩ := Prod.mk.inj (Option.some.inj (hsv.symm.trans hs₁))
    have hne : h ≠ p.tokenHash := by
      rintro rfl
      exact hI.pending_fresh i p hi e₀ he₀ _ hs₀
    constructor
    · cases hx : live s'.keys h with
      | none => rfl
      | some x =>
        obtain ⟨hl', hcur⟩ := hl h x hne hx
        obtain ⟨e', he', hs'⟩ := hI.live_saved h x hl'
        have hu := hI.saved_user e' he' e₀ he₀ h _ _ hs' hs₀
        rw [← hu, Keyspace.get_of_some (hI.live_current h x hl')] at hcur
        exact absurd rfl hcur
    · intro c x hc hv hx
      rw [hs.consumed] at hc
      obtain ⟨x', hx', hle⟩ := hI.expiry _ c hc
      obtain rfl := Option.some.inj (hx.symm.trans hx')
      exact ⟨_, _, hs.current_self, rfl, hle⟩

theorem Inv.step_superseded (h : H) (u : U) (hsup : Superseded (l ++ [e]) h u) :
    live s'.keys h = none ∧ ∀ c x, consumed s'.keys u = some c → c.value = h →
      c.expiry = some x → ∃ d y, current s'.keys u = some d ∧ d.expiry = some y ∧ x ≤ y := by
  rcases superseded_snoc hsup with hold | ⟨hnow, hsaved⟩
  · exact hI.step_superseded_before hk hold
  · exact hI.step_superseded_now hk hnow hsaved

theorem Inv.step_saves_le (h : H) : saves (l ++ [e]) h ≤ 1 := by
  rw [saves_snoc]
  split
  · rename_i hany
    obtain ⟨⟨h', u⟩, hs, hh⟩ := (Option.any_eq_true _ _).mp hany
    obtain rfl : h' = h := of_decide_eq_true hh
    rw [saves_eq_zero (hI.fresh hk hs)]
  · exact hI.saves_le h

theorem Inv.step_count (h : H) : consumes (l ++ [e]) h + (if (live s'.keys h).isSome then 1 else 0)
    ≤ restores (l ++ [e]) h + saves (l ++ [e]) h := by
  have hold := hI.count h
  have hle : (live s'.keys h = live e.pre.keys h ∨ live s'.keys h = none) →
      (if (live s'.keys h).isSome then 1 else 0) ≤ if (live e.pre.keys h).isSome then 1 else 0 := by
    rintro (hl | hl)
    · rw [hl]
    · rw [hl]
      exact Nat.zero_le _
  rw [saves_snoc, consumes_snoc, restores_snoc]
  cases hk with
  | quiet hs hc hr _ hstr =>
    have := hle (by
      cases hx : live s'.keys h with
      | none => exact Or.inr rfl
      | some x => exact Or.inl ((hstr _ _).mp hx).1.symm)
    simp only [hs, hc, hr, Option.any_none, Bool.false_eq_true, if_false]
    omega
  | save i p hi _ hs hc hr hst hl =>
    simp only [hs, hc, hr, Option.any_none, Option.any_some, Bool.false_eq_true, if_false,
      decide_eq_true_eq]
    by_cases hh : p.tokenHash = h
    · subst hh
      rw [if_pos rfl, hst.live_self]
      have hgone : live e.pre.keys p.tokenHash = none := by
        cases hx : live e.pre.keys p.tokenHash with
        | none => rfl
        | some x =>
          obtain ⟨e', he', hs'⟩ := hI.live_saved _ x hx
          exact absurd hs' (hI.pending_fresh i p hi e' he' _)
      rw [hgone] at hold
      simp only [Option.isSome_none, Option.isSome_some, Bool.false_eq_true, if_false,
        if_true] at hold ⊢
      omega
    · rw [if_neg hh]
      have := hle (by
        cases hx : live s'.keys h with
        | none => exact Or.inr rfl
        | some x => exact Or.inl (hl h x (Ne.symm hh) hx).1.symm)
      omega
  | consume k y hs hc hr hy hcs =>
    simp only [hs, hc, hr, Option.any_none, Option.any_some, Bool.false_eq_true, if_false,
      decide_eq_true_eq]
    by_cases hh : k = h
    · subst hh
      rw [hy] at hold
      rw [if_pos rfl, hcs.live_self]
      simp only [Option.isSome_none, Option.isSome_some, Bool.false_eq_true, if_false,
        if_true] at hold ⊢
      omega
    · rw [if_neg hh]
      have := hle (Or.inl (hcs.live_of_ne h (Ne.symm hh)))
      omega
  | restore k u c hs hc hr _ _ _ hgone hst hl =>
    simp only [hs, hc, hr, Option.any_none, Option.any_some, Bool.false_eq_true, if_false,
      decide_eq_true_eq]
    by_cases hh : k = h
    · subst hh
      rw [hgone] at hold
      rw [if_pos rfl, hst.live_self]
      simp only [Option.isSome_none, Option.isSome_some, Bool.false_eq_true, if_false,
        if_true] at hold ⊢
      omega
    · rw [if_neg hh]
      have := hle (Or.inl (hl h (Ne.symm hh)))
      omega

include hp in
/-- A step keeps the invariant. -/
theorem Inv.step (httl : ∀ i p, s'.pending i = some p → 0 < ttl) : Inv ttl (l ++ [e]) s' where
  pending_ttl := httl
  live_current := hI.step_current hk
  expiry := hI.step_expiry hk
  live_saved := hI.step_live_saved hk
  consumed_saved := hI.step_consumed_saved hk
  saved_issued e' he' h u hs := by
    rcases List.mem_append.mp he' with he' | he'
    · exact hp.issued (hI.saved_issued e' he' h u hs)
    · obtain rfl := List.mem_singleton.mp he'
      obtain ⟨i, p, hi, -, rfl⟩ := hk.saving hs
      exact hp.issued (hI.pending_issued i p hi)
  saved_user e₁ he₁ e₂ he₂ h u₁ u₂ hs₁ hs₂ := by
    rcases List.mem_append.mp he₁ with h₁ | h₁ <;> rcases List.mem_append.mp he₂ with h₂ | h₂
    · exact hI.saved_user e₁ h₁ e₂ h₂ h u₁ u₂ hs₁ hs₂
    · obtain rfl := List.mem_singleton.mp h₂
      exact absurd hs₁ (hI.fresh hk hs₂ e₁ h₁ u₁)
    · obtain rfl := List.mem_singleton.mp h₁
      exact absurd hs₂ (hI.fresh hk hs₁ e₂ h₂ u₂)
    · obtain rfl := List.mem_singleton.mp h₁
      obtain rfl := List.mem_singleton.mp h₂
      exact (Prod.mk.inj (Option.some.inj (hs₁.symm.trans hs₂))).2
  pending_issued i p hi := by
    rcases hp.pending i p hi with hi | ⟨-, hnew, -⟩
    · exact hp.issued (hI.pending_issued i p hi)
    · exact hnew
  pending_fresh i p hi e' he' u hs := by
    have hissued : p.tokenHash ∉ e.pre.issued → False := by
      intro hn
      rcases List.mem_append.mp he' with he' | he'
      · exact hn (hI.saved_issued e' he' _ u hs)
      · obtain rfl := List.mem_singleton.mp he'
        obtain ⟨j, q, hj, -, hq⟩ := hk.saving hs
        exact hn (hq ▸ hI.pending_issued j q hj)
    rcases hp.pending i p hi with hi' | ⟨hn, -, -⟩
    · rcases List.mem_append.mp he' with he' | he'
      · exact hI.pending_fresh i p hi' e' he' u hs
      · obtain rfl := List.mem_singleton.mp he'
        -- the save that has drawn the token has ended
        obtain ⟨j, q, hj, hj', hq⟩ := hk.saving hs
        obtain rfl := hI.pending_inj j i q p hj hi' hq
        rw [hj'] at hi
        cases hi
    · exact hissued hn
  pending_inj i j p q hi hj hpq := by
    rcases hp.pending i p hi with hi' | ⟨hn, -, hother⟩
    · rcases hp.pending j q hj with hj' | ⟨hn', -, -⟩
      · exact hI.pending_inj i j p q hi' hj' hpq
      · exact absurd (hpq ▸ hI.pending_issued i p hi') hn'
    · by_contra hij
      have hj' := hother j (Ne.symm hij) ▸ hj
      exact hn (hpq ▸ hI.pending_issued j q hj')
  superseded := hI.step_superseded hk
  saves_le := hI.step_saves_le hk
  count := hI.step_count hk

end Step

/-- A save under way has passed `validate_ttl`. -/
theorem step_pending_ttl (hpend : ∀ i p, s.pending i = some p → 0 < ttl)
    (h : (machine ttl).step s c = some (r, s')) : ∀ i p, s'.pending i = some p → 0 < ttl := by
  intro i p hi
  cases c with
  | saveRead j u h' =>
    simp only [machine] at h
    split at h
    · rename_i hg
      exact hg.1
    · cases h
  | saveExec j =>
    simp only [machine] at h
    split at h
    · rename_i q hj
      exact hpend j q hj
    · cases h
  | consume k =>
    simp only [machine] at h
    split at h
    · assumption
    · cases h
  | restore k u =>
    simp only [machine] at h
    split at h
    · assumption
    · cases h
  | tick d =>
    simp only [machine] at h
    split at h
    · obtain ⟨-, rfl⟩ := Prod.mk.inj (Option.some.inj h)
      exact hpend i p hi
    · cases h

/-- The invariant holds along every run. -/
theorem inv_of_run {l : List (Event T H U ι)} {now : T}
    (h : (machine ttl).Run (init now) l s) : Inv ttl l s := by
  refine h.induction (Inv ttl) (inv_init ttl now) fun l s c r s' _ hI hs => ?_
  obtain ⟨hk, hp⟩ := step_cases hI.pending_ttl hs
  exact Inv.step hI hk hp (step_pending_ttl hI.pending_ttl hs)

/-- **The password-reset store is safe.** In every reachable state a live token of a user is the
user's current one, with the same expiry, and so the only one; a token superseded by a later save
for the same user is never consumed; and a token is consumed at most once more often than it is
restored. -/
theorem password_reset_safe {now : T} {l : List (Event T H U ι)}
    (h : (machine ttl).Run (init now) l s) :
    (∀ k x, live s.keys k = some x → current s.keys x.value.userId = some ⟨k, x.expiry⟩) ∧
    (∀ k k' x x', live s.keys k = some x → live s.keys k' = some x' →
      x.value.userId = x'.value.userId → k = k') ∧
    (∀ l₁ e₁ l₂ e₂ l₃ k k' u, l = l₁ ++ e₁ :: (l₂ ++ e₂ :: l₃) → savedToken e₁ = some (k, u) →
      savedToken e₂ = some (k', u) → ∀ e ∈ l₃, ∀ u', consumedToken e ≠ some (k, u')) ∧
    ∀ k, consumes l k ≤ 1 + restores l k := by
  have hI := inv_of_run h
  refine ⟨hI.live_current, fun k k' x x' hx hx' hu => ?_, ?_, fun k => ?_⟩
  · have h₁ := hI.live_current k x hx
    rw [hu, hI.live_current k' x' hx'] at h₁
    exact (Entry.mk.inj (Option.some.inj h₁)).1.symm
  · rintro l₁ e₁ l₂ e₂ l₃ k k' u rfl hs₁ hs₂ e he u' hc
    obtain ⟨l₄, l₅, rfl⟩ := List.append_of_mem he
    have hrun : (machine ttl).Run (init now)
        ((l₁ ++ e₁ :: l₂ ++ e₂ :: l₄) ++ e :: l₅) s := by
      simpa only [List.append_assoc, List.cons_append] using h
    obtain ⟨hpre, s₁, hstep, -⟩ := hrun.split
    have hI' := inv_of_run hpre
    -- before the event the token is superseded, and so it is not live
    have hgone := (hI'.superseded k u
      ⟨l₁ ++ e₁ :: l₂, e₂, l₄, rfl, ⟨k', hs₂⟩, e₁, by simp, hs₁⟩).1
    obtain ⟨hk, -⟩ := step_cases hI'.pending_ttl hstep
    cases hk with
    | quiet _ hn => rw [hn] at hc; cases hc
    | save i p _ _ _ hn => rw [hn] at hc; cases hc
    | consume k₁ x _ hk₁ _ hx =>
      obtain ⟨rfl, -⟩ := Prod.mk.inj (Option.some.inj (hk₁.symm.trans hc))
      rw [hgone] at hx
      cases hx
    | restore k₁ u₁ c₁ _ hn => rw [hn] at hc; cases hc
  · have := hI.count k
    have := hI.saves_le k
    omega

/-- A token is consumed, another one is saved, and the first is restored and presented again. -/
def supersededRun : List (Event ℕ ℕ ℕ ℕ) × State ℕ ℕ ℕ ℕ :=
  (machine 10).runOf (init 0)
    [.saveRead 0 7 1, .saveExec 0, .consume 1, .saveRead 0 7 2, .saveExec 0, .restore 1 7,
      .consume 1, .consume 2] (by decide)

theorem password_reset_safe_supersededRun :
    consumes supersededRun.1 2 = 1 ∧ consumes supersededRun.1 2 ≤ 1 + restores supersededRun.1 2 ∧
      ∃ l₁ e₁ l₂ e₂ l₃, supersededRun.1 = l₁ ++ e₁ :: (l₂ ++ e₂ :: l₃) ∧ l₃.length = 3 ∧
        savedToken e₁ = some (1, 7) ∧ savedToken e₂ = some (2, 7) ∧
        ∀ e ∈ l₃, ∀ u, consumedToken e ≠ some (1, u) := by
  have hrun : (machine 10).Run (init 0) supersededRun.1 supersededRun.2 :=
    Machine.run_runOf _ _ _ _
  have hl : supersededRun.1 = supersededRun.1.take 1 ++ supersededRun.1.get ⟨1, by decide⟩ ::
      ([supersededRun.1.get ⟨2, by decide⟩, supersededRun.1.get ⟨3, by decide⟩] ++
        supersededRun.1.get ⟨4, by decide⟩ :: supersededRun.1.drop 5) := rfl
  exact ⟨by decide, (password_reset_safe hrun).2.2.2 2, _, _, _, _, _, hl, rfl, rfl, rfl,
    (password_reset_safe hrun).2.2.1 _ _ _ _ _ 1 2 7 hl rfl rfl⟩

end PasswordReset
