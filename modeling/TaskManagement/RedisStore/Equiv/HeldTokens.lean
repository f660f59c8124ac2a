import TaskManagement.Requests
import TaskManagement.RedisStore.Equiv.EmailVerify
import TaskManagement.RedisStore.Equiv.PasswordReset

/-!
# Tokens that a call has consumed

What others can do to a token between its consumption and the end of the call that has consumed it.

* `EmailVerify.Exclusive`: a token is live, or about to be stored, or held by one call;
* `EmailVerify.current_latest`: the current token of a user is the one that was stored last;
* `EmailVerify.restore_canConsume`, `PasswordReset.Held.restore`: when the call that holds a token
  can make it live again.
-/

namespace EmailVerify

open Ledger Requests

set_option linter.unusedSectionVars false

variable {T H U ι : Type} [AddCommMonoid T] [LinearOrder T] [IsOrderedAddMonoid T]
variable [DecidableEq H] [DecidableEq U] [DecidableEq ι]

/-- The token and the user of a step that stores a token. -/
def storedToken (e : Event T H U ι) : Option (H × U) :=
  (replacedToken e).orElse fun _ => restoredToken e

/-- The call that a step belongs to. -/
def Call.caller : Call T H U ι → Option ι
  | .replaceRead i _ _ | .replaceExec i | .consume i _ | .verified i | .restore i => some i
  | .tick _ => none

variable {ttl now : T} {s s' : State T H U ι} {c : Call T H U ι} {r : Reply U}
variable {l : List (Event T H U ι)}

/-- The call belongs to `i`. -/
def Call.isOf (i : ι) (c : Call T H U ι) : Bool := decide (c.caller = some i)

/-- The token can be consumed. -/
def CanConsume (s : State T H U ι) (h : H) : Prop := (consumeEmailVerify s.keys h).1 ≠ none

/-! ### The calls that hold a token -/

/-- The steps of other calls leave what a call holds. -/
theorem step_verifying_of_ne {i : ι} (hc : c.caller ≠ some i)
    (hs : (machine ttl).step s c = some (r, s')) : s'.verifying i = s.verifying i := by
  cases c with
  | consume j k =>
    simp only [machine] at hs
    split at hs
    · obtain ⟨rfl, rfl⟩ := Prod.mk.inj (Option.some.inj hs)
      exact Function.update_of_ne (fun h => hc (by rw [h]; rfl)) _ _
    · cases hs
  | verified j =>
    simp only [machine] at hs
    split at hs
    · obtain ⟨rfl, rfl⟩ := Prod.mk.inj (Option.some.inj hs)
      exact Function.update_of_ne (fun h => hc (by rw [h]; rfl)) _ _
    · cases hs
  | restore j =>
    simp only [machine] at hs
    split at hs
    · split at hs
      · obtain ⟨rfl, rfl⟩ := Prod.mk.inj (Option.some.inj hs)
        exact Function.update_of_ne (fun h => hc (by rw [h]; rfl)) _ _
      · cases hs
    · cases hs
  | _ =>
    simp only [machine] at hs
    split at hs
    · obtain ⟨rfl, rfl⟩ := Prod.mk.inj (Option.some.inj hs)
      rfl
    · cases hs

/-! ### Exclusion -/

/-- Where a token can be: live in the store, about to be stored, or consumed by a call. -/
inductive Holder (ι : Type) : Type where
  | keys
  | replacing (i : ι)
  | verifying (i : ι)

def Holds (s : State T H U ι) (h : H) : Holder ι → Prop
  | .keys => ∃ x, live s.keys h = some x
  | .replacing i => ∃ p, s.replacing i = some p ∧ p.tokenHash = h
  | .verifying i => ∃ u, s.verifying i = some (h, u)

/-- A token is in one place. -/
structure Exclusive (ttl : T) (s : State T H U ι) : Prop where
  ttl_pos : ∀ h a, Holds s h a → 0 < ttl
  issued : ∀ h a, Holds s h a → h ∈ s.issued
  unique : ∀ h a b, Holds s h a → Holds s h b → a = b

/-- What a step does to the places of the token `h`. -/
inductive Moves (ttl : T) (s s' : State T H U ι) (h : H) : Prop where
  | kept : (∀ a, Holds s' h a → Holds s h a) → Moves ttl s s' h
  | fresh (b : Holder ι) : 0 < ttl → h ∉ s.issued → h ∈ s'.issued →
      (∀ a, Holds s' h a → a = b ∨ Holds s h a) → Moves ttl s s' h
  /-- The token goes from `a` to `b`. -/
  | passed (a b : Holder ι) : Holds s h a →
      (∀ a', Holds s' h a' → a' = b ∨ Holds s h a' ∧ a' ≠ a) → Moves ttl s s' h

theorem exclusive_init (ttl now : T) : Exclusive ttl (init now : State T H U ι) := by
  have hnone : ∀ h a, ¬Holds (init now : State T H U ι) h a := by
    rintro h (_ | i | i) ⟨x, hx⟩
    · cases hx
    · cases hx.1
    · cases hx
  exact ⟨fun h a ha => absurd ha (hnone h a), fun h a ha => absurd ha (hnone h a),
    fun h a _ ha => absurd ha (hnone h a)⟩

theorem Exclusive.step (hE : Exclusive ttl s) (hi : s.issued ⊆ s'.issued)
    (hm : ∀ h, Moves ttl s s' h) : Exclusive ttl s' where
  ttl_pos h a ha := by
    cases hm h with
    | kept hk => exact hE.ttl_pos h a (hk a ha)
    | fresh b httl => exact httl
    | passed b => exact hE.ttl_pos h b ‹_›
  issued h a ha := by
    cases hm h with
    | kept hk => exact hi (hE.issued h a (hk a ha))
    | fresh b _ _ hin => exact hin
    | passed b => exact hi (hE.issued h b ‹_›)
  unique h a b ha hb := by
    cases hm h with
    | kept hk => exact hE.unique h a b (hk a ha) (hk b hb)
    | fresh d _ hni _ hn =>
      have hnew : ∀ a, Holds s' h a → a = d := fun a ha =>
        (hn a ha).resolve_right fun h' => hni (hE.issued h a h')
      rw [hnew a ha, hnew b hb]
    | passed d d' hd hn =>
      have hnew : ∀ a, Holds s' h a → a = d' := fun a ha =>
        (hn a ha).resolve_right fun h' => h'.2 (hE.unique h a d h'.1 hd)
      rw [hnew a ha, hnew b hb]

/-- The steps that store nothing new keep every token that is live where it was. -/
theorem holds_of_quiet (hl : ∀ h x, live s'.keys h = some x → ∃ y, live s.keys h = some y)
    (hr : ∀ i p, s'.replacing i = some p → s.replacing i = some p)
    (hv : ∀ i x, s'.verifying i = some x → s.verifying i = some x) (h : H) (a : Holder ι)
    (ha : Holds s' h a) : Holds s h a := by
  cases a with
  | keys =>
    obtain ⟨x, hx⟩ := ha
    exact hl h x hx
  | replacing i =>
    obtain ⟨p, hp, rfl⟩ := ha
    exact ⟨p, hr i p hp, rfl⟩
  | verifying i =>
    obtain ⟨u, hu⟩ := ha
    exact ⟨u, hv i (h, u) hu⟩

/-- A call that ends leaves the others as they were. -/
theorem update_none_eq_some {α : Type} {f : ι → Option α} {i j : ι} {a : α}
    (h : Function.update f i none j = some a) : f j = some a ∧ j ≠ i := by
  by_cases hij : j = i
  · subst hij
    rw [Function.update_self] at h
    cases h
  · rw [Function.update_of_ne hij] at h
    exact ⟨h, hij⟩

/-- A request draws the token `k`, or leaves the tokens. -/
theorem moves_replaceRead {i : ι} {u : U} {k : H}
    (hs : (machine ttl).step s (.replaceRead i u k) = some (r, s')) (h : H) : Moves ttl s s' h := by
  simp only [machine] at hs
  split at hs
  · rename_i hg
    obtain ⟨rfl, rfl⟩ := Prod.mk.inj (Option.some.inj hs)
    by_cases hk : h = k
    · subst hk
      refine .fresh (.replacing i) hg.1 hg.2.2 (Finset.mem_insert_self h _) fun a ha => ?_
      cases a with
      | keys => exact Or.inr ha
      | verifying j => exact Or.inr ha
      | replacing j =>
        by_cases hj : j = i
        · exact Or.inl (by rw [hj])
        · obtain ⟨p, hp, hh⟩ := ha
          exact Or.inr ⟨p, (Function.update_of_ne hj _ _).symm.trans hp, hh⟩
    · refine .kept fun a ha => ?_
      cases a with
      | keys => exact ha
      | verifying j => exact ha
      | replacing j =>
        obtain ⟨p, hp, hh⟩ := ha
        by_cases hj : j = i
        · subst hj
          simp only [Function.update_self] at hp
          obtain rfl := Option.some.inj hp
          exact absurd hh.symm hk
        · exact ⟨p, (Function.update_of_ne hj _ _).symm.trans hp, hh⟩
  · cases hs

/-- The token of a request gets its key. -/
theorem Exclusive.moves_replaceExec (hE : Exclusive ttl s) {i : ι}
    (hs : (machine ttl).step s (.replaceExec i) = some (r, s')) (h : H) : Moves ttl s s' h := by
  simp only [machine] at hs
  split at hs
  · rename_i p hp
    obtain ⟨rfl, rfl⟩ := Prod.mk.inj (Option.some.inj hs)
    have hpos := hE.ttl_pos _ (.replacing i) ⟨p, hp, rfl⟩
    obtain ⟨s₁, hst, -, -, hl⟩ := replaceEmailVerify_stores s.keys p.userId p.oldHash
      p.tokenHash hpos.le
    by_cases hk : h = p.tokenHash
    · subst hk
      refine .passed (.replacing i) .keys ⟨p, hp, rfl⟩ fun a ha => ?_
      cases a with
      | keys => exact Or.inl rfl
      | verifying j => exact Or.inr ⟨ha, by simp⟩
      | replacing j =>
        obtain ⟨q, hq, hh⟩ := ha
        obtain ⟨hq', hj⟩ := update_none_eq_some hq
        exact Or.inr ⟨⟨q, hq', hh⟩, by simpa using hj⟩
    · refine .kept fun a ha => ?_
      cases a with
      | keys =>
        obtain ⟨x, hx⟩ := ha
        exact ⟨x, (hst.live_of_replace hl hk hx).1⟩
      | verifying j => exact ha
      | replacing j =>
        obtain ⟨q, hq, hh⟩ := ha
        exact ⟨q, (update_none_eq_some hq).1, hh⟩
  · cases hs

/-- The token `k` is taken from its key, if it has one. -/
theorem moves_consume {i : ι} {k : H}
    (hs : (machine ttl).step s (.consume i k) = some (r, s')) (h : H) : Moves ttl s s' h := by
  simp only [machine] at hs
  split at hs
  · obtain ⟨rfl, rfl⟩ := Prod.mk.inj (Option.some.inj hs)
    by_cases hk : h = k
    · subst hk
      cases hx : live s.keys h with
      | some x =>
        refine .passed .keys (.verifying i) ⟨x, hx⟩ fun a ha => ?_
        cases a with
        | keys =>
          obtain ⟨y, hy⟩ := ha
          rw [consumeEmailVerify_live_self] at hy
          cases hy
        | replacing j => exact Or.inr ⟨ha, by simp⟩
        | verifying j =>
          by_cases hj : j = i
          · exact Or.inl (by rw [hj])
          · obtain ⟨u, hu⟩ := ha
            exact Or.inr ⟨⟨u, (Function.update_of_ne hj _ _).symm.trans hu⟩, by simp⟩
      | none =>
        have hget : (consumeEmailVerify s.keys h).1 = none := by
          rw [consumeEmailVerify, Keyspace.get_of_none hx]
          rfl
        refine .kept (holds_of_quiet ?_ ?_ ?_ h)
        · intro h' y hy
          by_cases hh : h' = h
          · subst hh
            simp only [consumeEmailVerify_live_self] at hy
            cases hy
          · exact ⟨y, (consumeEmailVerify_live_of_ne s.keys hh).symm.trans hy⟩
        · exact fun _ _ hp => hp
        · intro j v hv
          simp only [hget, Option.map_none] at hv
          exact (update_none_eq_some hv).1
    · refine .kept fun a ha => ?_
      cases a with
      | keys =>
        obtain ⟨x, hx⟩ := ha
        exact ⟨x, (consumeEmailVerify_live_of_ne s.keys hk).symm.trans hx⟩
      | replacing j => exact ha
      | verifying j =>
        obtain ⟨u, hu⟩ := ha
        by_cases hj : j = i
        · subst hj
          simp only [Function.update_self] at hu
          obtain ⟨u', -, hp⟩ := Option.map_eq_some_iff.mp hu
          exact absurd (Prod.mk.inj hp).1.symm hk
        · exact ⟨u, (Function.update_of_ne hj _ _).symm.trans hu⟩
  · cases hs

/-- A token that was taken gets its key back. -/
theorem moves_restore {i : ι}
    (hs : (machine ttl).step s (.restore i) = some (r, s')) (h : H) : Moves ttl s s' h := by
  simp only [machine] at hs
  split at hs
  · rename_i k u hi
    split at hs
    · rename_i httl
      obtain ⟨rfl, rfl⟩ := Prod.mk.inj (Option.some.inj hs)
      rcases restoreEmailVerify_cases s.keys k u httl.le with hf | ⟨-, -, hst⟩
      · refine .kept (holds_of_quiet ?_ ?_ ?_ h)
        · intro h x hx
          simp only [hf] at hx
          exact ⟨x, hx⟩
        · exact fun _ _ hp => hp
        · exact fun _ _ hv => (update_none_eq_some hv).1
      · by_cases hk : h = k
        · subst hk
          refine .passed (.verifying i) .keys ⟨u, hi⟩ fun a ha => ?_
          cases a with
          | keys => exact Or.inl rfl
          | replacing j => exact Or.inr ⟨ha, by simp⟩
          | verifying j =>
            obtain ⟨u', hu⟩ := ha
            exact Or.inr ⟨⟨u', (update_none_eq_some hu).1⟩,
              by simpa using (update_none_eq_some hu).2⟩
        · refine .kept fun a ha => ?_
          cases a with
          | keys =>
            obtain ⟨x, hx⟩ := ha
            exact ⟨x, (hst.live_of_ne h hk).symm.trans hx⟩
          | replacing j => exact ha
          | verifying j =>
            obtain ⟨u', hu⟩ := ha
            exact ⟨u', (update_none_eq_some hu).1⟩
    · cases hs
  · cases hs

theorem Exclusive.moves (hE : Exclusive ttl s) (hs : (machine ttl).step s c = some (r, s'))
    (h : H) : Moves ttl s s' h := by
  cases c with
  | replaceRead i u k => exact moves_replaceRead hs h
  | replaceExec i => exact hE.moves_replaceExec hs h
  | consume i k => exact moves_consume hs h
  | verified i =>
    simp only [machine] at hs
    split at hs
    · obtain ⟨rfl, rfl⟩ := Prod.mk.inj (Option.some.inj hs)
      refine .kept (holds_of_quiet ?_ ?_ ?_ h)
      · exact fun h x hx => ⟨x, hx⟩
      · exact fun _ _ hp => hp
      · exact fun _ _ hv => (update_none_eq_some hv).1
    · cases hs
  | restore i => exact moves_restore hs h
  | tick d =>
    simp only [machine] at hs
    split at hs
    · obtain ⟨rfl, rfl⟩ := Prod.mk.inj (Option.some.inj hs)
      refine .kept (holds_of_quiet ?_ ?_ ?_ h)
      · exact fun h x hx => ⟨x, ((s.keys.advance_string_eq_some d).mp hx).1⟩
      · exact fun _ _ hp => hp
      · exact fun _ _ hv => hv
    · cases hs

theorem exclusive_of_run (hrun : (machine ttl).Run (init now) l s) : Exclusive ttl s :=
  hrun.induction (fun _ s => Exclusive ttl s) (exclusive_init ttl now)
    fun _ _ _ _ _ _ hE hs => hE.step (flowStep_of_step hs).issued (hE.moves hs)

/-! ### The token stored last -/

/-- The current token of a user is the one that was stored last. -/
theorem current_latest (hrun : (machine ttl).Run (init now) l s) :
    ∀ u x, current s.keys u = some x → latest storedToken l u = some x.value := by
  refine hrun.induction (fun l s => ∀ u x, current s.keys u = some x →
    latest storedToken l u = some x.value) (fun u x h => by cases h) ?_
  intro l s c r s' hl ih hs u x hx
  have hpos : ∀ i p, s.replacing i = some p → 0 < ttl := fun i p hp =>
    (exclusive_of_run hl).ttl_pos _ (.replacing i) ⟨p, hp, rfl⟩
  have hstores : ∀ {k k' : Keys T H U} {u' : U} {h' : H} {e : Event T H U ι},
      Stores ttl k k' u' h' → storedToken e = some (h', u') →
      (∀ u x, current k u = some x → latest storedToken l u = some x.value) →
      current k' u = some x → latest storedToken (l ++ [e]) u = some x.value := by
    intro k k' u' h' e hst he ih hx
    by_cases hu : u = u'
    · subst hu
      rw [hst.current_self] at hx
      obtain rfl := Option.some.inj hx
      exact latest_snoc_self he
    · rw [latest_snoc_of_ne he (Ne.symm hu)]
      exact ih u x ((hst.current_of_ne u hu).symm.trans hx)
  cases keysStep_of_step hpos hs with
  | quiet hr hc hre hstr =>
    rw [latest_snoc_none (by rw [storedToken, hr, hre]; rfl)]
    exact ih u x ((hstr _ _).mp hx).1
  | replace i p s₁ _ _ _ hr _ _ hcur _ hst =>
    exact hstores hst (by rw [storedToken, hr]; rfl)
      (fun u x h => ih u x ((hcur u).symm.trans h)) hx
  | consume k y hr _ hre _ _ _ hcur =>
    rw [latest_snoc_none (by rw [storedToken, hr, hre]; rfl)]
    exact ih u x ((hcur u).symm.trans hx)
  | restore i k u' _ _ hr _ hre _ hst =>
    exact hstores hst (by rw [storedToken, hr, hre]; rfl) ih hx

/-! ### A token that the call `i` holds -/

theorem canConsume_iff {h : H} : CanConsume s h ↔ ∃ x, live s.keys h = some x := by
  rw [CanConsume, consumeEmailVerify, ← Option.isSome_iff_ne_none, Option.isSome_map,
    Keyspace.get, Option.isSome_map]
  exact Option.isSome_iff_exists

section Held

variable {i : ι} {h : H} {u : U} {j j' : Journal (State T H U ι) (Call T H U ι) (Reply U)}

theorem step_consume_verifying (hs : (machine ttl).step s (.consume i h) =
    some (.consumed (some u), s')) : s'.verifying i = some (h, u) := by
  simp only [machine] at hs
  split at hs
  · obtain ⟨hr, rfl⟩ := Prod.mk.inj (Option.some.inj hs)
    rw [Reply.consumed.inj hr]
    exact Function.update_self i _ _
  · cases hs

theorem reaches_verifying (hj : Journal.Reaches (machine ttl) (Call.isOf i) j j') :
    j'.state.verifying i = j.state.verifying i := by
  refine hj.induction (fun k => k.state.verifying i = j.state.verifying i) rfl ?_
  intro k c r s hk hc hs
  exact (step_verifying_of_ne (of_decide_eq_false hc) hs).trans hk

/-- Nobody can consume a token that a call holds. -/
theorem not_canConsume (hrun : (machine ttl).Run (init now) l s)
    (hv : s.verifying i = some (h, u)) : ¬CanConsume s h := by
  intro hc
  obtain ⟨x, hx⟩ := canConsume_iff.mp hc
  have heq := (exclusive_of_run hrun).unique h .keys (.verifying i) ⟨x, hx⟩ ⟨u, hv⟩
  cases heq

/-- The restore of the token that the call `i` holds: the token can be consumed again, unless
another one was stored for its user. -/
theorem restore_canConsume (hrun : (machine ttl).Run (init now) j.events j.state)
    (hv : j.state.verifying i = some (h, u)) :
    CanConsume (j.make (machine ttl) (.restore i)).2.state h ∨
      latest storedToken (j.make (machine ttl) (.restore i)).2.events u ≠ some h := by
  have httl := (exclusive_of_run hrun).ttl_pos h (.verifying i) ⟨u, hv⟩
  have hstep : (machine ttl).step j.state (.restore i) =
      some (.restored (restoreEmailVerify ttl j.state.keys h u).1, { j.state with
        keys := (restoreEmailVerify ttl j.state.keys h u).2
        verifying := Function.update j.state.verifying i none }) := by
    simp only [machine, hv, httl, if_true]
  rw [Journal.make_of_some hstep]
  rcases restoreEmailVerify_cases j.state.keys h u httl.le with hf | ⟨-, -, hst⟩
  · -- refused: the current token of the user is another one
    refine Or.inr ?_
    rw [hf, latest_snoc_none rfl]
    unfold restoreEmailVerify at hf
    cases hcur : current j.state.keys u with
    | none =>
      rw [Keyspace.get_of_none hcur] at hf
      cases (Prod.mk.inj hf).1
    | some x =>
      rw [current_latest hrun u x hcur]
      intro heq
      rw [Keyspace.get_of_some hcur] at hf
      simp only [Option.some.inj heq, ne_eq, not_true_eq_false, if_false] at hf
      cases (Prod.mk.inj hf).1
  · exact Or.inl (canConsume_iff.mpr ⟨_, hst.live_self⟩)

end Held

end EmailVerify

namespace PasswordReset

open Ledger Requests

set_option linter.unusedSectionVars false

variable {T H U ι : Type} [AddCommMonoid T] [LinearOrder T] [IsOrderedAddMonoid T]
variable [DecidableEq H] [DecidableEq U] [DecidableEq ι]

/-- The token and the user of a step that stores a token. -/
def storedToken (e : Event T H U ι) : Option (H × U) :=
  (savedToken e).orElse fun _ => restoredToken e

/-- The call restores the token `h`. -/
def Call.restores (h : H) : Call T H U ι → Bool
  | .restore k _ => decide (k = h)
  | _ => false

/-- The token can be consumed. -/
def CanConsume (ttl : T) (s : State T H U ι) (h : H) : Prop :=
  (consumePasswordReset ttl s.keys h).1 ≠ none

variable {ttl now : T} {s s' : State T H U ι} {c : Call T H U ι} {r : Reply U}
variable {l : List (Event T H U ι)} {h : H} {u : U} {x₀ : T}
variable {j j' : Journal (State T H U ι) (Call T H U ι) (Reply U)}

/-- The call has consumed the token `h` of `u`, and its consumption is remembered until `x₀`. -/
structure Held (ttl now : T) (h : H) (u : U) (x₀ : T)
    (j : Journal (State T H U ι) (Call T H U ι) (Reply U)) : Prop where
  run : (machine ttl).Run (init now) j.events j.state
  issued : h ∈ j.state.issued
  not_live : live j.state.keys h = none
  not_pending : ∀ i p, j.state.pending i = some p → p.tokenHash ≠ h
  expiry : ∀ e, consumed j.state.keys u = some e → e.value = h → e.expiry = some x₀
  /-- No other token was stored for the user since. -/
  of_latest : latest storedToken j.events u = some h → current j.state.keys u = none ∧
    (j.state.keys.now ≤ x₀ → consumed j.state.keys u = some ⟨h, some x₀⟩)

theorem pending_ttl_of_run (hrun : (machine ttl).Run (init now) l s) :
    ∀ i p, s.pending i = some p → 0 < ttl := (inv_of_run hrun).pending_ttl

/-- A step that restores a token is a call to do so. -/
theorem restoredToken_call {e : Event T H U ι} {k : H} {u : U}
    (h : restoredToken e = some (k, u)) : e.call = .restore k u := by
  rw [restoredToken] at h
  split at h
  · rename_i hc _
    obtain ⟨rfl, rfl⟩ := Prod.mk.inj (Option.some.inj h)
    exact hc
  · cases h

/-- The steps of others leave the token with the call that holds it. -/
theorem Held.step (hH : Held ttl now h u x₀ j) (hc : c.restores h = false)
    (hs : (machine ttl).step j.state c = some (r, s')) :
    Held ttl now h u x₀ ⟨s', j.events ++ [⟨j.state, c, r⟩]⟩ := by
  obtain ⟨hk, hp⟩ := step_cases (pending_ttl_of_run hH.run) hs
  have hI := inv_of_run hH.run
  have hpend : ∀ i p, s'.pending i = some p → p.tokenHash ≠ h := by
    intro i p hi
    rcases hp.pending i p hi with hold | ⟨hn, -⟩
    · exact hH.not_pending i p hold
    · rintro rfl
      exact hn hH.issued
  suffices hkeys : live s'.keys h = none ∧
      (∀ e, consumed s'.keys u = some e → e.value = h → e.expiry = some x₀) ∧
      (latest storedToken (j.events ++ [⟨j.state, c, r⟩]) u = some h →
        current s'.keys u = none ∧
          (s'.keys.now ≤ x₀ → consumed s'.keys u = some ⟨h, some x₀⟩)) from
    ⟨.snoc hH.run hs, hp.issued hH.issued, hkeys.1, hpend, hkeys.2.1, hkeys.2.2⟩
  cases hk with
  | quiet hsv _ hre hle hstr =>
    have hsto : storedToken ⟨j.state, c, r⟩ = none := by rw [storedToken, hsv, hre]; rfl
    refine ⟨Option.eq_none_iff_forall_ne_some.mpr fun x hx => ?_,
      fun e he hv => hH.expiry e ((hstr _ _).mp he).1 hv, fun hlat => ?_⟩
    · cases hH.not_live.symm.trans ((hstr _ _).mp hx).1
    · rw [latest_snoc_none hsto] at hlat
      obtain ⟨hcur, hcon⟩ := hH.of_latest hlat
      refine ⟨Option.eq_none_iff_forall_ne_some.mpr fun x hx => ?_, fun hnow =>
        (hstr _ _).mpr ⟨hcon (hle.trans hnow), decide_eq_true hnow⟩⟩
      cases hcur.symm.trans ((hstr _ _).mp hx).1
  | save i p hi _ hsv _ _ hst hl =>
    have hsto : storedToken ⟨j.state, c, r⟩ = some (p.tokenHash, p.userId) := by
      rw [storedToken, hsv]
      rfl
    have hne := hH.not_pending i p hi
    refine ⟨Option.eq_none_iff_forall_ne_some.mpr fun x hx => ?_, fun e he hv => ?_,
      fun hlat => ?_⟩
    · have hold := (hl h x (Ne.symm hne) hx).1
      rw [hH.not_live] at hold
      cases hold
    · rw [hst.consumed] at he
      exact hH.expiry e he hv
    · by_cases hu : p.userId = u
      · rw [latest_snoc_self (hu ▸ hsto)] at hlat
        exact absurd (Option.some.inj hlat) hne
      · rw [latest_snoc_of_ne hsto hu] at hlat
        rw [hst.current_of_ne u (Ne.symm hu), hst.consumed, hst.now]
        exact hH.of_latest hlat
  | consume k x hsv _ hre hx hcs =>
    have hsto : storedToken ⟨j.state, c, r⟩ = none := by rw [storedToken, hsv, hre]; rfl
    have hne : k ≠ h := by
      rintro rfl
      rw [hH.not_live] at hx
      cases hx
    refine ⟨(hcs.live_of_ne h (Ne.symm hne)).trans hH.not_live, fun e he hv => ?_,
      fun hlat => ?_⟩
    · by_cases hu : u = x.value.userId
      · subst hu
        rw [hcs.consumed_self] at he
        obtain rfl := Option.some.inj he
        exact absurd hv hne
      · exact hH.expiry e ((hcs.consumed_of_ne u hu).symm.trans he) hv
    · rw [latest_snoc_none hsto] at hlat
      obtain ⟨hcur, hcon⟩ := hH.of_latest hlat
      -- a token of the user that is live would be the current one
      have hu : u ≠ x.value.userId := by
        rintro rfl
        rw [hI.live_current k x hx] at hcur
        cases hcur
      rw [hcs.current_of_ne u hu, hcs.consumed_of_ne u hu, hcs.now]
      exact ⟨hcur, hcon⟩
  | restore k u' e hsv _ hre _ _ _ _ hst hl =>
    have hsto : storedToken ⟨j.state, c, r⟩ = some (k, u') := by rw [storedToken, hsv, hre]; rfl
    have hne : k ≠ h := by
      have hcall : c = .restore k u' := restoredToken_call hre
      rw [hcall] at hc
      exact of_decide_eq_false hc
    refine ⟨(hl h (Ne.symm hne)).trans hH.not_live, fun e he hv => ?_, fun hlat => ?_⟩
    · rw [hst.consumed] at he
      exact hH.expiry e he hv
    · by_cases hu : u' = u
      · rw [latest_snoc_self (hu ▸ hsto)] at hlat
        exact absurd (Option.some.inj hlat) hne
      · rw [latest_snoc_of_ne hsto hu] at hlat
        rw [hst.current_of_ne u (Ne.symm hu), hst.consumed, hst.now]
        exact hH.of_latest hlat

theorem Held.reaches (hH : Held ttl now h u x₀ j)
    (hj : Journal.Reaches (machine ttl) (Call.restores h) j j') : Held ttl now h u x₀ j' :=
  hj.induction (Held ttl now h u x₀) hH fun _ _ _ _ hk hc hs => hk.step hc hs

/-- Nobody can consume a token that a call holds. -/
theorem Held.not_canConsume (hH : Held ttl now h u x₀ j) : ¬CanConsume ttl j.state h := by
  rw [CanConsume, not_not, consumePasswordReset, Keyspace.get_of_none hH.not_live]

/-- Once a token is consumed its user has no current token. -/
theorem consumePasswordReset_current (s : Keys T H U) (h : H) (u : U)
    (hc : (consumePasswordReset ttl s h).1 = some u) :
    current (consumePasswordReset ttl s h).2 u = none := by
  unfold consumePasswordReset at hc ⊢
  cases hl : live s h with
  | none =>
    rw [Keyspace.get_of_none hl] at hc
    cases hc
  | some e =>
    simp only [Keyspace.get_of_some hl] at hc ⊢
    split at hc
    · cases hc
    · rename_i hcur
      obtain rfl := Option.some.inj hc
      rw [if_neg hcur, current, Keyspace.setEx_string_of_ne _ _ _ (by simp)]
      exact Keyspace.del_string_self _

/-- The step that consumes a token. -/
theorem step_consume (hs : (machine ttl).step s c = some (r, s'))
    (hc : consumedToken ⟨s, c, r⟩ = some (h, u)) : 0 < ttl ∧
      (consumePasswordReset ttl s.keys h).1 = some u ∧
      s' = { s with keys := (consumePasswordReset ttl s.keys h).2 } := by
  rw [consumedToken] at hc
  split at hc
  · rename_i k u' hcall hreply
    obtain ⟨rfl, rfl⟩ := Prod.mk.inj (Option.some.inj hc)
    simp only at hcall hreply
    subst hcall
    simp only [machine] at hs
    split at hs
    · rename_i httl
      obtain ⟨hr, rfl⟩ := Prod.mk.inj (Option.some.inj hs)
      exact ⟨httl, Reply.consumed.inj (hr.trans hreply), rfl⟩
    · cases hs
  · cases hc

/-- The call that consumes a token holds it. -/
theorem held_of_consume (hrun : (machine ttl).Run (init now) j.events j.state)
    (hs : (machine ttl).step j.state (.consume h) = some (.consumed (some u), s')) :
    Held ttl now h u (j.state.keys.now + ttl)
      ⟨s', j.events ++ [⟨j.state, .consume h, .consumed (some u)⟩]⟩ := by
  obtain ⟨httl, hans, rfl⟩ := step_consume hs rfl
  have hI := inv_of_run hrun
  obtain ⟨x, hx, hcur, rfl, hcs⟩ : ∃ x, live j.state.keys h = some x ∧
      j.state.keys.get (.pwresetCurrent x.value.userId) = some h ∧ x.value.userId = u ∧
      Consumes ttl j.state.keys (consumePasswordReset ttl j.state.keys h).2 x.value.userId h := by
    rcases consumePasswordReset_cases j.state.keys h httl.le with hf | ⟨x, hx, hcur, hu, hcs⟩
    · rw [hf] at hans
      cases hans
    · exact ⟨x, hx, hcur, Option.some.inj (hu.symm.trans hans), hcs⟩
  obtain ⟨e, he, hsv⟩ := hI.live_saved h x hx
  refine ⟨.snoc hrun hs, hI.saved_issued e he h _ hsv, hcs.live_self, ?_, fun y hy _ => ?_,
    fun _ => ⟨consumePasswordReset_current j.state.keys h _ hans, fun _ => hcs.consumed_self⟩⟩
  · rintro i p hi rfl
    exact hI.pending_fresh i p hi e he _ hsv
  · rw [hcs.consumed_self] at hy
    obtain rfl := Option.some.inj hy
    rfl

/-- The restore of the token that a call holds: in time, the token can be consumed again unless
another one was stored for its user; afterwards it is refused. -/
theorem Held.restore (hH : Held ttl now h u x₀ j) (httl : 0 < ttl) :
    (j.make (machine ttl) (.restore h u)).2.state.keys.now = j.state.keys.now ∧
      (j.state.keys.now ≤ x₀ →
        CanConsume ttl (j.make (machine ttl) (.restore h u)).2.state h ∨
          latest storedToken (j.make (machine ttl) (.restore h u)).2.events u ≠ some h) ∧
      (x₀ < j.state.keys.now →
        ¬CanConsume ttl (j.make (machine ttl) (.restore h u)).2.state h) := by
  have hstep : (machine ttl).step j.state (.restore h u) =
      some (.restored (restorePasswordReset ttl j.state.keys h u).1, { j.state with
        keys := (restorePasswordReset ttl j.state.keys h u).2 }) := by
    simp only [machine, httl, if_true]
  rw [Journal.make_of_some hstep]
  rcases restorePasswordReset_cases j.state.keys h u httl.le with
    hf | ⟨-, ⟨e, he, hv⟩, -, -, hst, -⟩
  · rw [hf]
    refine ⟨rfl, fun hnow => Or.inr ?_, fun _ => hH.not_canConsume⟩
    rw [latest_snoc_none rfl]
    intro hlat
    obtain ⟨hcur, hcon⟩ := hH.of_latest hlat
    rw [restorePasswordReset, Keyspace.get_of_some (hcon hnow), if_neg (by simp),
      Keyspace.existsKey_of_none hcur, if_neg (by simp),
      Keyspace.existsKey_of_none hH.not_live, if_neg (by simp)] at hf
    cases (Prod.mk.inj hf).1
  · refine ⟨hst.now, fun _ => Or.inl ?_, fun hlt => ?_⟩
    · rw [CanConsume, consumePasswordReset, Keyspace.get_of_some hst.live_self]
      simp only [Keyspace.get_of_some hst.current_self, ne_eq, not_true_eq_false, if_false,
        reduceCtorEq, not_false_eq_true]
    · -- its consumption would still be remembered
      exact absurd (Keyspace.now_le_expiry _ he (hH.expiry e he hv)) (not_le.mpr hlt)

end PasswordReset
