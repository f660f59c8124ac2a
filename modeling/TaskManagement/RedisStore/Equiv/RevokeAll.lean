import TaskManagement.RedisStore.Equiv.RefreshToken

/-!
# Revoking all refresh tokens of a user

`revoke_all_refresh_tokens` reads the index of the user in one step and deletes what it read in
another.  `revokeAll_complete`: when no token that was live at the first step is rotated between
the two, none of these tokens, and no token obtained from one of them, is rotated after the second.
`revokeAll_incomplete` is a run in which a rotation in between leaves a live token.

* `Covered`: every live token is in the index of its user, and the index does not expire before it;
  every step but `revoke_all_refresh_tokens` keeps this (`covered_step`).
-/

namespace RefreshToken

set_option linter.unusedSectionVars false

variable {T H U F ι : Type} [AddCommMonoid T] [LinearOrder T] [IsOrderedAddMonoid T]
variable [DecidableEq H] [DecidableEq U] [DecidableEq F]

/-! ### The index of a user -/

/-- Every live token is in the index of its user, and the index lasts as long as the token. -/
def Covered (s : Keys T H U F) : Prop :=
  ∀ h e, liveToken s h = some e → ∃ S, s.set e.value.userId = some S ∧ h ∈ S.value ∧
    ∀ x, S.expiry = some x → ∃ y, e.expiry = some y ∧ y ≤ x

section Commands

variable {ttl : T} {s : Keys T H U F}

/-- Every live token expires within `ttl`. -/
def ExpiresWithin (ttl : T) (s : Keys T H U F) : Prop :=
  ∀ h e, liveToken s h = some e → ∃ x, e.expiry = some x ∧ x ≤ s.now + ttl

theorem covered_storeRefreshToken (hc : Covered s) (he : ExpiresWithin ttl s) (h : H) (u : U)
    (f : F) (httl : 0 ≤ ttl) : Covered (storeRefreshToken ttl s h u f) := by
  have hself : (storeRefreshToken ttl s h u f).set u =
      some ⟨insert h (s.smembers u), some (s.now + ttl)⟩ :=
    Keyspace.sadd_expireSet_set s h httl
  intro k e hk
  by_cases hkh : k = h
  · subst hkh
    rw [storeRefreshToken_token _ k u f httl] at hk
    obtain rfl := Option.some.inj hk
    refine ⟨_, hself, Finset.mem_insert_self k _, fun x hx => ⟨_, rfl, ?_⟩⟩
    exact (Option.some.inj hx).le
  · rw [liveToken, storeRefreshToken_string_of_ne _ (by simpa using hkh)] at hk
    obtain ⟨S, hS, hmem, hexp⟩ := hc k e hk
    by_cases hu : e.value.userId = u
    · subst hu
      refine ⟨_, hself, Finset.mem_insert_of_mem (Keyspace.mem_smembers hS hmem), fun x hx => ?_⟩
      obtain ⟨y, hy, hle⟩ := he k e hk
      exact ⟨y, hy, hle.trans (Option.some.inj hx).le⟩
    · refine ⟨S, ?_, hmem, hexp⟩
      rw [← hS]
      exact Keyspace.sadd_expireSet_set_of_ne s h hu

theorem covered_srem {k : H} {e : Entry T (RefreshData T U F)} {S : Entry T (Finset H)} {u : U}
    {h : H} (hS : s.set e.value.userId = some S) (hk : k ∈ S.value) (hne : k ≠ h) :
    ∃ S', (s.srem u h).set e.value.userId = some S' ∧ k ∈ S'.value ∧ S'.expiry = S.expiry := by
  by_cases hu : e.value.userId = u
  · subst hu
    exact ⟨_, s.srem_set_self h hS hk hne, Finset.mem_erase.mpr ⟨hne, hk⟩, rfl⟩
  · exact ⟨S, by rw [Keyspace.srem_set_of_ne _ _ hu, hS], hk, rfl⟩

theorem covered_replaceToken (hc : Covered s) (he : ExpiresWithin ttl s) {old new : H}
    {e₀ : Entry T (RefreshData T U F)} (hne : old ≠ new) (httl : 0 ≤ ttl) :
    Covered (replaceToken ttl s old new e₀.value) := by
  have hself : (replaceToken ttl s old new e₀.value).set e₀.value.userId =
      some ⟨insert new ((s.srem e₀.value.userId old).smembers e₀.value.userId),
        some (s.now + ttl)⟩ :=
    Keyspace.sadd_expireSet_set _ new httl
  intro k e hk
  by_cases hkn : k = new
  · subst hkn
    rw [replaceToken_token_new _ old k e₀.value httl] at hk
    obtain rfl := Option.some.inj hk
    refine ⟨_, hself, Finset.mem_insert_self k _, fun x hx => ⟨_, rfl, ?_⟩⟩
    exact (Option.some.inj hx).le
  · have hko : k ≠ old := by
      rintro rfl
      rw [replaceToken_token_old _ e₀.value hne] at hk
      cases hk
    rw [replaceToken_token_of_ne _ e₀.value hko hkn] at hk
    obtain ⟨S, hS, hmem, hexp⟩ := hc k e hk
    by_cases hu : e.value.userId = e₀.value.userId
    · obtain ⟨S', hS', hmem', -⟩ := covered_srem (u := e₀.value.userId) hS hmem hko
      rw [hu] at hS' ⊢
      refine ⟨_, hself, Finset.mem_insert_of_mem (Keyspace.mem_smembers hS' hmem'), fun x hx => ?_⟩
      obtain ⟨y, hy, hle⟩ := he k e hk
      exact ⟨y, hy, hle.trans (Option.some.inj hx).le⟩
    · refine ⟨S, ?_, hmem, hexp⟩
      rw [← hS]
      exact (Keyspace.sadd_expireSet_set_of_ne _ new hu).trans (Keyspace.srem_set_of_ne s old hu)

theorem covered_revokeRefreshToken (hc : Covered s) (h : H) (u : U) :
    Covered (revokeRefreshToken s h u) := by
  intro k e hk
  have hkh : k ≠ h := by
    rintro rfl
    have hn : liveToken (revokeRefreshToken s k u) k = none := Keyspace.del_string_self s
    rw [hn] at hk
    cases hk
  have hk' := (deletesTokens_revokeRefreshToken h u).token k e hk
  obtain ⟨S, hS, hmem, hexp⟩ := hc k e hk'
  obtain ⟨S', hS', hmem', hexp'⟩ :=
    covered_srem (s := s.del (.refresh h)) (u := u) hS hmem hkh
  exact ⟨S', hS', hmem', by rw [hexp']; exact hexp⟩

theorem covered_setEx_marker (hc : Covered s) (u : U) (f : F) :
    Covered (s.setEx (.refreshFamilyRevoked u f) () ttl) := by
  intro k e hk
  rw [liveToken, Keyspace.setEx_string_of_ne _ _ _ (by simp)] at hk
  exact hc k e hk

theorem covered_execTokenFamily (hc : Covered s) (u : U) (f : F) (toDelete : List H) :
    Covered (execTokenFamily ttl s u f toDelete) := by
  unfold execTokenFamily
  generalize hs' : s.setEx (.refreshFamilyRevoked u f) () ttl = s'
  have hc' : Covered s' := hs' ▸ covered_setEx_marker hc u f
  clear hs'
  induction toDelete generalizing s' with
  | nil => exact hc'
  | cons h l ih => exact ih _ (covered_revokeRefreshToken hc' h u)

theorem covered_advance (hc : Covered s) (d : T) : Covered (s.advance d) := by
  intro k e hk
  obtain ⟨hk', ha⟩ := (s.advance_string_eq_some d).mp hk
  obtain ⟨S, hS, hmem, hexp⟩ := hc k e hk'
  refine ⟨S, (s.advance_set_eq_some d).mpr ⟨hS, ?_⟩, hmem, hexp⟩
  rw [Entry.alive]
  cases hx : S.expiry with
  | none => rfl
  | some x =>
    obtain ⟨y, hy, hyx⟩ := hexp x hx
    exact decide_eq_true ((Keyspace.now_le_expiry _ hk hy).trans hyx)

/-- The block of `revoke_all_refresh_tokens` deletes every token it was given. -/
theorem execAllRefreshTokens_token {u : U} {tokenHashes : List H} {h : H} (hh : h ∈ tokenHashes) :
    liveToken (execAllRefreshTokens s u tokenHashes) h = none := by
  suffices hgen : ∀ (s : Keys T H U F), liveToken s h = none ∨ h ∈ tokenHashes →
      liveToken (tokenHashes.foldl (fun s h => s.del (.refresh h)) s) h = none from
    hgen s (Or.inr hh)
  clear hh
  induction tokenHashes with
  | nil => exact fun s hs => hs.resolve_right List.not_mem_nil
  | cons k l ih =>
    intro s hs
    refine ih _ ?_
    by_cases hk : h = k
    · subst hk
      exact Or.inl (Keyspace.del_string_self s)
    · refine hs.imp (fun hn => ?_) fun hm => (List.mem_cons.mp hm).resolve_left hk
      rw [liveToken, Keyspace.del_string_of_ne _ (by simpa using hk)]
      exact hn

theorem execAllRefreshTokens_set {u u' : U} (tokenHashes : List H) (hu : u' ≠ u) :
    (execAllRefreshTokens s u tokenHashes).set u' = s.set u' := by
  rw [execAllRefreshTokens, Keyspace.delSet_set_of_ne _ hu]
  suffices hgen : ∀ s : Keys T H U F,
      (tokenHashes.foldl (fun s h => s.del (.refresh h)) s).set = s.set from congrFun (hgen s) u'
  induction tokenHashes with
  | nil => exact fun _ => rfl
  | cons h l ih => exact fun s => ih _

/-- The live tokens of the user are among `tokenHashes`. -/
def Lists (s : Keys T H U F) (u : U) (tokenHashes : List H) : Prop :=
  ∀ h e, liveToken s h = some e → e.value.userId = u → h ∈ tokenHashes

/-- `SMEMBERS` lists every live token of a user whose tokens are all indexed. -/
theorem Covered.lists (hc : Covered s) {u : U} {tokenHashes : List H}
    (hl : s.ListsMembers u tokenHashes) : Lists s u tokenHashes := by
  rintro h e he rfl
  obtain ⟨I, hI, hmem, -⟩ := hc h e he
  exact hl.mem hI hmem

/-- The block of `revoke_all_refresh_tokens` leaves no token of the user when all of them are
listed. -/
theorem execAllRefreshTokens_user {u : U} {tokenHashes : List H} (hl : Lists s u tokenHashes)
    {h : H}
    {e : Entry T (RefreshData T U F)}
    (he : liveToken (execAllRefreshTokens s u tokenHashes) h = some e) : e.value.userId ≠ u := by
  intro hu
  have hmem := hl h e ((deletesTokens_execAllRefreshTokens u tokenHashes).token h e he) hu
  rw [execAllRefreshTokens_token hmem] at he
  cases he

theorem covered_execAllRefreshTokens (hc : Covered s) {u : U} {tokenHashes : List H}
    (hl : Lists s u tokenHashes) : Covered (execAllRefreshTokens s u tokenHashes) := by
  intro h e he
  have hu := execAllRefreshTokens_user hl he
  obtain ⟨I, hI, hrest⟩ := hc h e ((deletesTokens_execAllRefreshTokens u tokenHashes).token h e he)
  exact ⟨I, (execAllRefreshTokens_set tokenHashes hu).trans hI, hrest⟩

end Commands

/-! ### Runs with one call -/

variable [DecidableEq ι]
variable {ttl : T} {s s' : State T H U F ι} {c : Call T H U F ι} {r : Reply T U F}
  {l : List (Event T H U F ι)}

/-- The call is the first step of `revoke_all_refresh_tokens`. -/
def IsAllRead (c : Call T H U F ι) : Prop := ∃ i u members, c = .allRead i u members

/-- Every call of `revoke_all_refresh_tokens` under way satisfies `φ`. -/
def AllPending (φ : U → List H → Prop) (s : State T H U F ι) : Prop :=
  ∀ i u members, s.pending i = some (.all u members) → φ u members

theorem allPending_update {φ : U → List H → Prop} {i : ι} {x : Option (Pending H U F)}
    (hs : AllPending φ s) (h : s'.pending = Function.update s.pending i x)
    (hx : ∀ u members, x ≠ some (.all u members)) : AllPending φ s' := by
  intro j u members hp
  rw [h] at hp
  by_cases hj : j = i
  · subst hj
    rw [Function.update_self] at hp
    exact absurd hp (hx u members)
  · rw [Function.update_of_ne hj] at hp
    exact hs j u members hp

/-- A step other than the first step of a call starts no call. -/
theorem allPending_step {φ : U → List H → Prop} (hc : ¬IsAllRead c) (hs : AllPending φ s)
    (h : (machine ttl).step s c = some (r, s')) : AllPending φ s' := by
  cases step_cases h with
  | store _ _ _ | rotate _ _ | revoke | tick _ => exact hs
  | familyRead _ _ | familyGet _ | familyExec _ | allExec _ =>
    exact allPending_update hs rfl (by simp)
  | @allRead i u members => exact absurd ⟨i, u, members, rfl⟩ hc

/-- Every step keeps the indexes complete, as long as no call of `revoke_all_refresh_tokens` is
under way. -/
theorem covered_step (hI : Inv ttl l s) (hn : AllPending (fun _ _ => False) s)
    (hc : Covered s.keys) (h : (machine ttl).step s c = some (r, s')) : Covered s'.keys := by
  cases step_cases h with
  | @store k u f httl => exact covered_storeRefreshToken hc hI.expiry k u f httl.le
  | @rotate old new httl hnew =>
    have hcase := rotateRefreshToken_cases s.keys ttl old new
    generalize rotateRefreshToken ttl s.keys old new = x at hcase ⊢
    cases hcase with
    | rotated e ht hm =>
      have hne : old ≠ new := fun h => hnew (h ▸ hI.live_issued old e ht)
      exact covered_replaceToken hc hI.expiry hne httl.le
    | familyRevoked e ht hm => exact hc
    | reused e ht hu => exact covered_setEx_marker hc _ _
    | unknown ht hu => exact hc
  | @revoke k u => exact covered_revokeRefreshToken hc k u
  | familyRead _ _ | familyGet _ | allRead _ => exact hc
  | familyExec _ => exact covered_execTokenFamily hc _ _ _
  | @allExec i u members hi =>
    -- no such call is under way
    exact (hn i u members hi).elim
  | @tick d hd => exact covered_advance hc d

/-- Before the call, every live token is in the index of its user. -/
theorem covered_run {now : T} (h : (machine ttl).Run (init now) l s)
    (hl : ∀ e ∈ l, ¬IsAllRead e.call) :
    AllPending (fun _ _ => False) s ∧ Covered s.keys := by
  revert hl
  refine h.induction (fun l s => (∀ e ∈ l, ¬IsAllRead e.call) →
    AllPending (fun _ _ => False) s ∧ Covered s.keys) (fun _ => ⟨?_, ?_⟩) ?_
  · intro i u members hp
    cases hp
  · intro k e hk
    cases hk
  · intro l s c r s' hrun ih hs hl
    obtain ⟨hn, hc⟩ := ih fun e he => hl e (List.mem_append_left _ he)
    exact ⟨allPending_step (hl _ (List.mem_append_right _ List.mem_cons_self)) hn hs,
      covered_step (inv_of_run hrun) hn hc hs⟩

/-- `b` is obtained from `a` by the rotations in `l`. -/
def ObtainedBy (l : List (Event T H U F ι)) : H → H → Prop :=
  Relation.ReflTransGen fun a b =>
    ∃ e ∈ l, ∃ d, e.call = .rotate a b ∧ e.reply = .rotated (.refreshData d)

/-- A run with one call of `revoke_all_refresh_tokens(u)`, whose two steps are the events `a` and
`b`. -/
structure RevokeAllRun (ttl now : T) (u : U) (l₁ : List (Event T H U F ι)) (a : Event T H U F ι)
    (l₂ : List (Event T H U F ι)) (b : Event T H U F ι) (l₃ : List (Event T H U F ι))
    (s : State T H U F ι) : Prop where
  run : (machine ttl).Run (init now) (l₁ ++ a :: (l₂ ++ b :: l₃)) s
  read : ∃ i members, a.call = .allRead i u members
  exec : ∃ i, b.call = .allExec i
  one : ∀ e ∈ l₁ ++ l₂ ++ l₃, ¬IsAllRead e.call

/-- No token of `u` that was live at the event `a`, and none obtained from it by the rotations in
`l`, can be rotated in `s`. -/
def AllRevoked (ttl : T) (u : U) (a : Event T H U F ι) (l : List (Event T H U F ι))
    (s : State T H U F ι) : Prop :=
  ∀ h e, liveToken a.pre.keys h = some e → e.value.userId = u → ∀ h', ObtainedBy l h h' →
    ∀ new d s', (machine ttl).step s (.rotate h' new) ≠ some (.rotated (.refreshData d), s')

/-- No token of `u` that was live at the event `a` is rotated in `l`. -/
def NotRotatedIn (u : U) (a : Event T H U F ι) (l : List (Event T H U F ι)) : Prop :=
  ∀ e ∈ l, ∀ h u' f, Rotated e h u' f →
    ∀ e', liveToken a.pre.keys h = some e' → e'.value.userId ≠ u

/-- A token that is gone and whose hash is in use stays gone along a run. -/
theorem gone_of_run {now : T} {l₁ l₂ : List (Event T H U F ι)} {s₁ : State T H U F ι} {h : H}
    (h₁ : (machine ttl).Run (init now) l₁ s₁) (h₂ : (machine ttl).Run s₁ l₂ s)
    (hi : h ∈ s₁.issued) (hn : liveToken s₁.keys h = none) :
    h ∈ s.issued ∧ liveToken s.keys h = none := by
  induction h₂ with
  | nil => exact ⟨hi, hn⟩
  | snoc hl hs ih =>
    have hI := inv_of_run (h₁.append hl)
    exact ⟨(hI.evolves hs).issued ih.1, hI.step_gone hs ih.1 ih.2⟩

/-- The calls under way along a run without a new call. -/
theorem allPending_run {φ : U → List H → Prop} {s₁ : State T H U F ι}
    (h : (machine ttl).Run s₁ l s) (hs : AllPending φ s₁) (hl : ∀ e ∈ l, ¬IsAllRead e.call) :
    AllPending φ s := by
  induction h with
  | nil => exact hs
  | snoc _ hst ih =>
    exact allPending_step (hl _ (List.mem_append_right _ List.mem_cons_self))
      (ih fun e he => hl e (List.mem_append_left _ he)) hst

/-- A hash in use stays in use along a run. -/
theorem issued_of_run {now : T} {l₁ l₂ : List (Event T H U F ι)} {s₁ : State T H U F ι}
    (h₁ : (machine ttl).Run (init now) l₁ s₁) (h₂ : (machine ttl).Run s₁ l₂ s) :
    s₁.issued ⊆ s.issued := by
  induction h₂ with
  | nil => exact subset_rfl
  | snoc hl hs ih => exact ih.trans ((inv_of_run (h₁.append hl)).evolves hs).issued

/-- After the second step of the call, the tokens that were live at the first are gone for good. -/
theorem RevokeAllRun.gone {now : T} {u : U} {l₁ l₂ l₃ : List (Event T H U F ι)}
    {a b : Event T H U F ι} (h : RevokeAllRun ttl now u l₁ a l₂ b l₃ s) {k : H}
    {e : Entry T (RefreshData T U F)} (hk : liveToken a.pre.keys k = some e)
    (hu : e.value.userId = u) : ∃ s₂, (machine ttl).Run (init now) (l₁ ++ a :: l₂ ++ [b]) s₂ ∧
      (machine ttl).Run s₂ l₃ s ∧ k ∈ s₂.issued ∧ liveToken s₂.keys k = none := by
  obtain ⟨hrun, ⟨i, members, ha⟩, ⟨j, hb⟩, hone⟩ := h
  obtain ⟨hrun₁, s₁, hs₁, hrest⟩ := hrun.split
  obtain ⟨hrun₂, s₂, hs₂, hrun₃⟩ := hrest.split
  have hall : (machine ttl).Run (init now) (l₁ ++ a :: l₂) b.pre := by
    rw [← List.singleton_append, ← List.append_assoc]
    exact (hrun₁.snoc hs₁).append hrun₂
  refine ⟨s₂, hall.snoc hs₂, hrun₃, ?_⟩
  -- the first step finds `k` in the index
  obtain ⟨hnone, hcov⟩ := covered_run hrun₁ fun e he => hone e (by simp [he])
  have hkiss := (inv_of_run hrun₁).live_issued k e hk
  obtain ⟨hmem, hpend⟩ : k ∈ members ∧
      AllPending (fun u' l => u' = u ∧ l = members) s₁ := by
    rw [ha] at hs₁
    generalize a.reply = r₁ at hs₁
    cases step_cases hs₁ with
    | allRead hm =>
      refine ⟨hcov.lists hm k e hk hu, fun i' u' l' hp => ?_⟩
      by_cases hi : i' = i
      · subst hi
        simp only [Function.update_self] at hp
        obtain ⟨rfl, rfl⟩ := Pending.all.inj (Option.some.inj hp)
        exact ⟨rfl, rfl⟩
      · simp only [Function.update_of_ne hi] at hp
        exact (hnone i' u' l' hp).elim
  -- the second step deletes what the first one found
  have hpend₂ := allPending_run hrun₂ hpend fun e he => hone e (by simp [he])
  have hiss : k ∈ b.pre.issued := by
    refine issued_of_run (hrun₁.snoc hs₁) hrun₂ ?_
    exact ((inv_of_run hrun₁).evolves hs₁).issued hkiss
  rw [hb] at hs₂
  generalize b.reply = r₂ at hs₂
  cases step_cases hs₂ with
  | @allExec _ u' l' hj =>
    obtain ⟨rfl, rfl⟩ := hpend₂ j u' l' hj
    exact ⟨hiss, execAllRefreshTokens_token hmem⟩

/-- **`revoke_all_refresh_tokens` is complete when nothing it read is rotated before it deletes.**
-/
theorem revokeAll_complete {now : T} {u : U} {l₁ l₂ l₃ : List (Event T H U F ι)}
    {a b : Event T H U F ι} (h : RevokeAllRun ttl now u l₁ a l₂ b l₃ s)
    (hno : NotRotatedIn u a l₂) : AllRevoked ttl u a (l₂ ++ l₃) s := by
  intro k e hk hu k' hob new d s' hstep
  obtain ⟨s₂, hrun₂, hrun₃, hiss, hnone⟩ := h.gone hk hu
  -- `k` itself is never rotated, so nothing is obtained from it
  have hkk : k' = k := by
    rcases hob.cases_head with rfl | ⟨k₁, ⟨e₁, he₁, ⟨u₁, t₁, f₁⟩, hc₁, hr₁⟩, -⟩
    · rfl
    · rcases List.mem_append.mp he₁ with he₁ | he₁
      · exact absurd hu (hno e₁ he₁ k u₁ f₁ ⟨k₁, t₁, hc₁, hr₁⟩ e hk)
      · obtain ⟨l₄, l₅, rfl⟩ := List.append_of_mem he₁
        obtain ⟨hrun₄, s₃, hs₃, -⟩ := hrun₃.split
        obtain ⟨⟨e₂, ht, -⟩, -⟩ := (inv_of_run (hrun₂.append hrun₄)).rotated rfl hs₃
          ⟨k₁, t₁, hc₁, hr₁⟩
        rw [(gone_of_run hrun₂ hrun₄ hiss hnone).2] at ht
        cases ht
  subst hkk
  obtain ⟨-, ⟨e₂, ht, -⟩, -⟩ := step_rotated (inv_of_run (hrun₂.append hrun₃)).live_issued hstep
  rw [(gone_of_run hrun₂ hrun₃ hiss hnone).2] at ht
  cases ht

/-- The token is rotated after the call has read the index. -/
def racedRun : List (Event ℕ ℕ ℕ ℕ ℕ) × State ℕ ℕ ℕ ℕ ℕ :=
  (machine 10).runOf (init 0) [.store 0 7 5, .allRead 0 7 [0], .rotate 0 1, .allExec 0] (by decide)

/-- Without the condition, a token obtained by a rotation in between survives the call. -/
theorem revokeAll_incomplete :
    ¬∀ (l₁ : List (Event ℕ ℕ ℕ ℕ ℕ)) (a : Event ℕ ℕ ℕ ℕ ℕ) (l₂ : List (Event ℕ ℕ ℕ ℕ ℕ))
      (b : Event ℕ ℕ ℕ ℕ ℕ) (l₃ : List (Event ℕ ℕ ℕ ℕ ℕ)) (s : State ℕ ℕ ℕ ℕ ℕ),
      RevokeAllRun 10 0 7 l₁ a l₂ b l₃ s → AllRevoked 10 7 a (l₂ ++ l₃) s := by
  intro hall
  have hrun : (machine 10).Run (init 0) racedRun.1 racedRun.2 := Machine.run_runOf _ _ _ _
  have hr : RevokeAllRun 10 0 7 [racedRun.1.get ⟨0, by decide⟩]
      (racedRun.1.get ⟨1, by decide⟩) [racedRun.1.get ⟨2, by decide⟩]
      (racedRun.1.get ⟨3, by decide⟩) [] racedRun.2 := by
    refine ⟨hrun, ⟨0, [0], rfl⟩, ⟨0, rfl⟩, fun e he => ?_⟩
    have hcases : e = racedRun.1.get ⟨0, by decide⟩ ∨ e = racedRun.1.get ⟨2, by decide⟩ := by
      simpa using he
    rintro ⟨i, u, members, hc⟩
    rcases hcases with rfl | rfl
    · cases hc
    · cases hc
  refine hall _ _ _ _ _ _ hr 0 ⟨⟨7, 0, 5⟩, some 10⟩ rfl rfl 1 ?_ 2 ⟨7, 0, 5⟩ _ rfl
  exact .single ⟨_, List.mem_singleton.mpr rfl, ⟨7, 0, 5⟩, rfl, rfl⟩

/-- A call that no rotation races with. -/
def quietRun : List (Event ℕ ℕ ℕ ℕ ℕ) × State ℕ ℕ ℕ ℕ ℕ :=
  (machine 10).runOf (init 0) [.store 0 7 5, .rotate 0 1, .allRead 0 7 [1], .allExec 0] (by decide)

theorem revokeAll_complete_quietRun :
    ∃ a, AllRevoked 10 7 a [] quietRun.2 ∧ (liveToken a.pre.keys 1).isSome := by
  have hrun : (machine 10).Run (init 0) quietRun.1 quietRun.2 := Machine.run_runOf _ _ _ _
  have hr : RevokeAllRun 10 0 7 [quietRun.1.get ⟨0, by decide⟩, quietRun.1.get ⟨1, by decide⟩]
      (quietRun.1.get ⟨2, by decide⟩) [] (quietRun.1.get ⟨3, by decide⟩) [] quietRun.2 := by
    refine ⟨hrun, ⟨0, [1], rfl⟩, ⟨0, rfl⟩, fun e he => ?_⟩
    have hcases : e = quietRun.1.get ⟨0, by decide⟩ ∨ e = quietRun.1.get ⟨1, by decide⟩ :=
      List.mem_pair.mp (by simpa using he)
    rintro ⟨i, u, members, hc⟩
    rcases hcases with rfl | rfl
    · cases hc
    · cases hc
  exact ⟨_, revokeAll_complete hr fun e he => absurd he List.not_mem_nil, rfl⟩

end RefreshToken
