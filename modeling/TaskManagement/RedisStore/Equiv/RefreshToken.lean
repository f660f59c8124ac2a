import TaskManagement.RedisStore.RefreshToken
import Mathlib.Algebra.Order.Group.Nat

/-!
# Rotation safety of the refresh tokens

`refresh_rotation_safe`: along every run of `RefreshToken.machine`, a family has at most one live
token, no token is rotated twice, and once a rotated token is presented again within `ttl` of its
rotation, or `revoke_token_family` has run for the family, no token of the family is rotated.

* `step_evolves` says once what any step can do to the tokens and to the markers;
* `Inv` relates the events of a run to the store: in particular the marker of a revoked family
  outlives every token of the family (`Inv.killed`), which is why the expiry of the marker does not
  matter;
* `inv_of_run` is the induction.
-/

namespace RefreshToken

set_option linter.unusedSectionVars false

variable {T H U F ι : Type} [AddCommMonoid T] [LinearOrder T] [IsOrderedAddMonoid T]
variable [DecidableEq H] [DecidableEq U] [DecidableEq F]

/-- The entry of a live token. -/
abbrev liveToken (s : Keys T H U F) (h : H) : Option (Entry T (RefreshData T U F)) :=
  s.string (.refresh h)

/-- The entry that remembers a rotated token. -/
abbrev usedToken (s : Keys T H U F) (h : H) : Option (Entry T (UsedData T U F)) :=
  s.string (.refreshUsed h)

/-- The marker of a revoked family. -/
abbrev marker (s : Keys T H U F) (u : U) (f : F) : Option (Entry T Unit) :=
  s.string (.refreshFamilyRevoked u f)

/-! ### The commands -/

section Commands

variable {ttl : T} (s : Keys T H U F)

@[simp] theorem storeRefreshToken_now (h : H) (u : U) (f : F) :
    (storeRefreshToken ttl s h u f).now = s.now := rfl

theorem storeRefreshToken_string_of_ne {h : H} {u : U} {f : F} {k : Key H U F}
    (hk : k ≠ .refresh h) : (storeRefreshToken ttl s h u f).string k = s.string k :=
  Keyspace.setEx_string_of_ne s _ ttl hk

theorem storeRefreshToken_token (h : H) (u : U) (f : F) (httl : 0 ≤ ttl) :
    liveToken (storeRefreshToken ttl s h u f) h = some ⟨⟨u, s.now, f⟩, some (s.now + ttl)⟩ :=
  Keyspace.setEx_string_self s (k := .refresh h) ⟨u, s.now, f⟩ httl

@[simp] theorem replaceToken_now (old new : H) (d : RefreshData T U F) :
    (replaceToken ttl s old new d).now = s.now := rfl

/-- The three keys that a rotation writes. -/
theorem replaceToken_string (old new : H) (d : RefreshData T U F) :
    (replaceToken ttl s old new d).string =
      (((s.del (.refresh old)).setEx (.refreshUsed old) ⟨d.userId, d.familyId, s.now⟩ ttl).setEx
        (.refresh new) ⟨d.userId, s.now, d.familyId⟩ ttl).string := rfl

theorem replaceToken_token_new (old new : H) (d : RefreshData T U F) (httl : 0 ≤ ttl) :
    liveToken (replaceToken ttl s old new d) new =
      some ⟨⟨d.userId, s.now, d.familyId⟩, some (s.now + ttl)⟩ := by
  rw [liveToken, replaceToken_string]
  exact Keyspace.setEx_string_self _ _ httl

theorem replaceToken_token_old {old new : H} (d : RefreshData T U F) (hne : old ≠ new) :
    liveToken (replaceToken ttl s old new d) old = none := by
  rw [liveToken, replaceToken_string, Keyspace.setEx_string_of_ne _ _ _ (by simpa using hne),
    Keyspace.setEx_string_of_ne _ _ _ (by simp), Keyspace.del_string_self]

theorem replaceToken_token_of_ne {old new h : H} (d : RefreshData T U F) (ho : h ≠ old)
    (hn : h ≠ new) : liveToken (replaceToken ttl s old new d) h = liveToken s h := by
  rw [liveToken, replaceToken_string, Keyspace.setEx_string_of_ne _ _ _ (by simpa using hn),
    Keyspace.setEx_string_of_ne _ _ _ (by simp), Keyspace.del_string_of_ne _ (by simpa using ho)]

theorem replaceToken_used_old (old new : H) (d : RefreshData T U F) (httl : 0 ≤ ttl) :
    usedToken (replaceToken ttl s old new d) old =
      some ⟨⟨d.userId, d.familyId, s.now⟩, some (s.now + ttl)⟩ := by
  rw [usedToken, replaceToken_string, Keyspace.setEx_string_of_ne _ _ _ (by simp)]
  exact Keyspace.setEx_string_self _ _ httl

theorem replaceToken_used_of_ne {old new h : H} (d : RefreshData T U F) (ho : h ≠ old) :
    usedToken (replaceToken ttl s old new d) h = usedToken s h := by
  rw [usedToken, replaceToken_string, Keyspace.setEx_string_of_ne _ _ _ (by simp),
    Keyspace.setEx_string_of_ne _ _ _ (by simpa using ho),
    Keyspace.del_string_of_ne _ (by simp)]

theorem replaceToken_revoked (old new : H) (d : RefreshData T U F) (u : U) (f : F) :
    marker (replaceToken ttl s old new d) u f = marker s u f := by
  rw [marker, replaceToken_string, Keyspace.setEx_string_of_ne _ _ _ (by simp),
    Keyspace.setEx_string_of_ne _ _ _ (by simp), Keyspace.del_string_of_ne _ (by simp)]

/-- The four outcomes of the rotation script. -/
inductive RotateCase (ttl : T) (s : Keys T H U F) (old new : H) :
    RotateResult T U F × Keys T H U F → Prop where
  /-- The token is live and its family is not revoked. -/
  | rotated (e : Entry T (RefreshData T U F)) : liveToken s old = some e →
      marker s e.value.userId e.value.familyId = none →
      RotateCase ttl s old new (.refreshData ⟨e.value.userId, s.now, e.value.familyId⟩,
        replaceToken ttl s old new e.value)
  /-- The token is live, its family is revoked. -/
  | familyRevoked (e : Entry T (RefreshData T U F)) : liveToken s old = some e →
      marker s e.value.userId e.value.familyId ≠ none →
      RotateCase ttl s old new (.tokenReused e.value.userId e.value.familyId, s)
  /-- The token was rotated before: its family is revoked now. -/
  | reused (e : Entry T (UsedData T U F)) : liveToken s old = none → usedToken s old = some e →
      RotateCase ttl s old new (.tokenReused e.value.userId e.value.familyId,
        s.setEx (.refreshFamilyRevoked e.value.userId e.value.familyId) () ttl)
  | unknown : liveToken s old = none → usedToken s old = none → RotateCase ttl s old new (.none, s)

theorem rotateRefreshToken_cases (ttl : T) (old new : H) :
    RotateCase ttl s old new (rotateRefreshToken ttl s old new) := by
  unfold rotateRefreshToken
  cases ht : liveToken s old with
  | some e =>
    rw [Keyspace.get_of_some ht]
    cases hr : marker s e.value.userId e.value.familyId with
    | none =>
      simp only [Keyspace.existsKey_of_none hr, Bool.false_eq_true, if_false]
      exact .rotated e ht hr
    | some m =>
      simp only [Keyspace.existsKey_of_some hr, if_true]
      exact .familyRevoked e ht (by rw [hr]; exact Option.some_ne_none m)
  | none =>
    rw [Keyspace.get_of_none ht]
    cases hu : usedToken s old with
    | some e =>
      rw [Keyspace.get_of_some hu]
      exact .reused e ht hu
    | none =>
      rw [Keyspace.get_of_none hu]
      exact .unknown ht hu

/-- Only a live token is rotated. -/
theorem rotateRefreshToken_refreshData {s : Keys T H U F} {old new : H} {d : RefreshData T U F}
    (h : (rotateRefreshToken ttl s old new).1 = .refreshData d) :
    ∃ e, liveToken s old = some e ∧ e.value.familyId = d.familyId := by
  have hc := rotateRefreshToken_cases s ttl old new
  generalize rotateRefreshToken ttl s old new = x at hc h
  cases hc with
  | rotated e ht hm =>
    obtain rfl := RotateResult.refreshData.inj h
    exact ⟨e, ht, rfl⟩
  | familyRevoked e ht hm => cases h
  | reused e ht hu => cases h
  | unknown ht hu => cases h

/-- A set of commands that only deletes tokens: nothing else of the values changes. -/
structure DeletesTokens (s s' : Keys T H U F) : Prop where
  now : s'.now = s.now
  token : ∀ h e, liveToken s' h = some e → liveToken s h = some e
  used : usedToken s' = usedToken s
  revoked : marker s' = marker s

theorem DeletesTokens.refl : DeletesTokens s s := ⟨rfl, fun _ _ h => h, rfl, rfl⟩

variable {s}

theorem DeletesTokens.trans {s' s'' : Keys T H U F} (h : DeletesTokens s s')
    (h' : DeletesTokens s' s'') : DeletesTokens s s'' :=
  ⟨h'.now.trans h.now, fun k e hk => h.token k e (h'.token k e hk), h'.used.trans h.used,
    h'.revoked.trans h.revoked⟩

theorem deletesTokens_del (h : H) : DeletesTokens s (s.del (.refresh h)) where
  now := rfl
  token h' e he := by
    by_cases hh : h' = h
    · subst hh
      rw [liveToken, Keyspace.del_string_self] at he
      cases he
    · rwa [liveToken, Keyspace.del_string_of_ne _ (by simpa using hh)] at he
  used := by
    funext h'
    exact Keyspace.del_string_of_ne _ (by simp)
  revoked := by
    funext u f
    exact Keyspace.del_string_of_ne _ (by simp)

theorem deletesTokens_revokeRefreshToken (h : H) (u : U) :
    DeletesTokens s (revokeRefreshToken s h u) :=
  let hd := deletesTokens_del (s := s) h
  ⟨hd.now, hd.token, hd.used, hd.revoked⟩

theorem deletesTokens_foldl (f : Keys T H U F → H → Keys T H U F)
    (hf : ∀ s h, DeletesTokens s (f s h)) (l : List H) : DeletesTokens s (l.foldl f s) := by
  induction l generalizing s with
  | nil => exact .refl s
  | cons h l ih => exact (hf s h).trans ih

/-- The tokens deleted by the block of `revoke_token_family`, after the marker is set. -/
theorem deletesTokens_execTokenFamily (u : U) (f : F) (toDelete : List H) :
    DeletesTokens (s.setEx (.refreshFamilyRevoked u f) () ttl)
      (execTokenFamily ttl s u f toDelete) :=
  deletesTokens_foldl _ (fun _ h => deletesTokens_revokeRefreshToken h u) toDelete

theorem deletesTokens_execAllRefreshTokens (u : U) (tokenHashes : List H) :
    DeletesTokens s (execAllRefreshTokens s u tokenHashes) :=
  let hd := deletesTokens_foldl (s := s) (fun s h => s.del (.refresh h))
    (fun _ h => deletesTokens_del h) tokenHashes
  ⟨hd.now, hd.token, hd.used, hd.revoked⟩

theorem setEx_marker_revoked (u : U) (f : F) (httl : 0 ≤ ttl) :
    marker (s.setEx (.refreshFamilyRevoked u f) () ttl) u f = some ⟨(), some (s.now + ttl)⟩ :=
  Keyspace.setEx_string_self s (k := .refreshFamilyRevoked u f) () httl

end Commands

/-! ### What a step can do -/

variable [DecidableEq ι]

/-- The events of a run of `machine`. -/
abbrev Event (T H U F ι : Type) [LE T] [DecidableLE T] : Type :=
  Machine.Event (State T H U F ι) (Call T H U F ι) (Reply T U F)

/-- A token `h` that the step from `s` to `s'` puts into the store. -/
inductive Issued (ttl : T) (s : State T H U F ι) (c : Call T H U F ι) (s' : State T H U F ι) :
    H → Entry T (RefreshData T U F) → Prop where
  | store (h : H) (u : U) (f : F) : c = .store h u f → h ∉ s.issued → h ∈ s'.issued →
      f ∉ s.families → f ∈ s'.families →
      Issued ttl s c s' h ⟨⟨u, s.keys.now, f⟩, some (s.keys.now + ttl)⟩
  | rotate (old new : H) (e : Entry T (RefreshData T U F)) : c = .rotate old new →
      liveToken s.keys old = some e → marker s.keys e.value.userId e.value.familyId = none →
      new ∉ s.issued → new ∈ s'.issued → liveToken s'.keys old = none →
      Issued ttl s c s' new
        ⟨⟨e.value.userId, s.keys.now, e.value.familyId⟩, some (s.keys.now + ttl)⟩

/-- A family revocation under way after a step was under way before it, or its family id is
recorded. -/
def PendingKept (ttl : T) (s s' : State T H U F ι) : Prop :=
  ∀ i u f todo found, s'.pending i = some (.family u f todo found) →
    (validateTtl ttl ∧ f ∈ s'.families) ∨ ∃ todo' found', s.pending i = some (.family u f todo' found')

/-- What any step of the machine does to the store. -/
structure Evolves (ttl : T) (s : State T H U F ι) (c : Call T H U F ι) (s' : State T H U F ι) :
    Prop where
  now_le : s.keys.now ≤ s'.keys.now
  issued : s.issued ⊆ s'.issued
  families : s.families ⊆ s'.families
  pending : PendingKept ttl s s'
  token : ∀ h e, liveToken s'.keys h = some e → liveToken s.keys h = some e ∨ Issued ttl s c s' h e
  used : ∀ h e, usedToken s.keys h = some e → e.alive s'.keys.now → liveToken s.keys h = none →
    usedToken s'.keys h = some e
  revoked : ∀ u f m, marker s.keys u f = some m → m.alive s'.keys.now →
    marker s'.keys u f = some m ∨ marker s'.keys u f = some ⟨(), some (s.keys.now + ttl)⟩

variable {ttl : T} {s s' : State T H U F ι} {c : Call T H U F ι} {r : Reply T U F}

theorem pendingKept_of_eq (h : s'.pending = s.pending) : PendingKept ttl s s' :=
  fun _ _ _ todo found hp => Or.inr ⟨todo, found, by rw [← h]; exact hp⟩

/-- Updating one revocation under way keeps what is said about the others. -/
theorem pendingKept_update {i : ι} {x : Option (Pending H U F)}
    (h : s'.pending = Function.update s.pending i x)
    (hx : ∀ u f todo found, x = some (.family u f todo found) → (validateTtl ttl ∧ f ∈ s'.families) ∨
      ∃ todo' found', s.pending i = some (.family u f todo' found')) : PendingKept ttl s s' := by
  intro j u f todo found hp
  rw [h] at hp
  by_cases hj : j = i
  · subst hj
    rw [Function.update_self] at hp
    exact hx u f todo found hp
  · rw [Function.update_of_ne hj] at hp
    exact Or.inr ⟨todo, found, hp⟩

/-- A step that only deletes tokens. -/
theorem DeletesTokens.evolves (h : DeletesTokens s.keys s'.keys) (hi : s'.issued = s.issued)
    (hf : s'.families = s.families) (hp : PendingKept ttl s s') : Evolves ttl s c s' where
  now_le := h.now.ge
  issued := hi.ge
  families := hf.ge
  pending := hp
  token k e he := Or.inl (h.token k e he)
  used k e he _ _ := by rw [h.used]; exact he
  revoked u f m hm _ := Or.inl (by rw [h.revoked]; exact hm)

/-- Storing the marker of a revoked family and deleting tokens. -/
theorem DeletesTokens.evolves_marker {u : U} {f : F} (httl : 0 ≤ ttl)
    (h : DeletesTokens (s.keys.setEx (.refreshFamilyRevoked u f) () ttl) s'.keys)
    (hi : s.issued ⊆ s'.issued) (hf : s'.families = s.families) (hp : PendingKept ttl s s') :
    Evolves ttl s c s' where
  now_le := h.now.ge
  issued := hi
  families := hf.ge
  pending := hp
  token k e he := by
    have := h.token k e he
    rw [liveToken, Keyspace.setEx_string_of_ne _ _ _ (by simp)] at this
    exact Or.inl this
  used k e he _ _ := by
    rw [h.used, usedToken, Keyspace.setEx_string_of_ne _ _ _ (by simp)]
    exact he
  revoked u' f' m hm _ := by
    rw [h.revoked]
    by_cases hk : u' = u ∧ f' = f
    · obtain ⟨rfl, rfl⟩ := hk
      exact Or.inr (setEx_marker_revoked u' f' httl)
    · refine Or.inl ?_
      rw [marker, Keyspace.setEx_string_of_ne _ _ _ (by simpa using hk)]
      exact hm

theorem evolves_store {h : H} {u : U} {f : F} (httl : 0 ≤ ttl) (hh : h ∉ s.issued)
    (hf : f ∉ s.families) : Evolves ttl s (.store h u f)
      { s with
        keys := storeRefreshToken ttl s.keys h u f
        issued := insert h s.issued
        families := insert f s.families } where
  now_le := le_rfl
  issued := Finset.subset_insert h s.issued
  families := Finset.subset_insert f s.families
  pending := pendingKept_of_eq rfl
  token k e he := by
    by_cases hk : k = h
    · subst hk
      rw [storeRefreshToken_token _ k u f httl] at he
      obtain rfl := Option.some.inj he
      exact Or.inr (.store k u f rfl hh (Finset.mem_insert_self k _) hf
        (Finset.mem_insert_self f _))
    · rw [liveToken, storeRefreshToken_string_of_ne _ (by simpa using hk)] at he
      exact Or.inl he
  used k e he _ _ := by
    rw [usedToken, storeRefreshToken_string_of_ne _ (by simp)]
    exact he
  revoked u' f' m hm _ := by
    rw [marker, storeRefreshToken_string_of_ne _ (by simp)]
    exact Or.inl hm

theorem evolves_rotate {old new : H} (httl : 0 ≤ ttl) (hnew : new ∉ s.issued)
    (hlive : ∀ h e, liveToken s.keys h = some e → h ∈ s.issued) : Evolves ttl s (.rotate old new)
      { s with
        keys := (rotateRefreshToken ttl s.keys old new).2
        issued := insert new s.issued } := by
  have hsub := Finset.subset_insert new s.issued
  have hc := rotateRefreshToken_cases s.keys ttl old new
  generalize rotateRefreshToken ttl s.keys old new = x at hc ⊢
  cases hc with
  | rotated e ht hm =>
    -- the new hash was never used
    have hne : old ≠ new := fun h => hnew (h ▸ hlive old e ht)
    refine ⟨le_rfl, hsub, subset_rfl, pendingKept_of_eq rfl,
      fun h e' he' => ?_, fun h e' he' _ hn => ?_, fun u f m hm' _ => Or.inl ?_⟩
    · by_cases hh : h = new
      · subst hh
        rw [replaceToken_token_new _ old h e.value httl] at he'
        obtain rfl := Option.some.inj he'
        exact Or.inr (.rotate old h e rfl ht hm hnew (Finset.mem_insert_self h _)
          (replaceToken_token_old _ e.value hne))
      · by_cases ho : h = old
        · subst ho
          rw [replaceToken_token_old _ e.value hh] at he'
          cases he'
        · rw [replaceToken_token_of_ne _ e.value ho hh] at he'
          exact Or.inl he'
    · have ho : h ≠ old := by
        rintro rfl
        rw [ht] at hn
        cases hn
      rw [replaceToken_used_of_ne _ e.value ho]
      exact he'
    · rw [replaceToken_revoked]
      exact hm'
  | familyRevoked e ht hm =>
    exact ⟨le_rfl, hsub, subset_rfl, pendingKept_of_eq rfl,
      fun h e' he' => Or.inl he', fun h e' he' _ _ => he', fun u f m hm' _ => Or.inl hm'⟩
  | reused e ht hu =>
    exact DeletesTokens.evolves_marker httl (.refl _) hsub rfl
      (pendingKept_of_eq rfl)
  | unknown ht hu =>
    exact ⟨le_rfl, hsub, subset_rfl, pendingKept_of_eq rfl,
      fun h e' he' => Or.inl he', fun h e' he' _ _ => he', fun u f m hm' _ => Or.inl hm'⟩

theorem evolves_tick {d : T} (hd : 0 ≤ d) :
    Evolves ttl s (.tick d) { s with keys := s.keys.advance d } where
  now_le := le_add_of_nonneg_right hd
  issued := subset_rfl
  families := subset_rfl
  pending := pendingKept_of_eq rfl
  token _ _ he := Or.inl (s.keys.advance_string_eq_some d |>.mp he).1
  used _ _ he ha _ := s.keys.advance_string_eq_some d |>.mpr ⟨he, ha⟩
  revoked _ _ _ hm ha := Or.inl (s.keys.advance_string_eq_some d |>.mpr ⟨hm, ha⟩)

variable (ttl s) in
/-- The steps of the machine, one case for each call. -/
inductive StepCase : Call T H U F ι → Reply T U F → State T H U F ι → Prop
  | store {h : H} {u : U} {f : F} (httl : 0 < ttl) (hh : h ∉ s.issued) (hf : f ∉ s.families) :
      StepCase (.store h u f) .done { s with
        keys := storeRefreshToken ttl s.keys h u f
        issued := insert h s.issued
        families := insert f s.families }
  | rotate {old new : H} (httl : 0 < ttl) (hnew : new ∉ s.issued) :
      StepCase (.rotate old new) (.rotated (rotateRefreshToken ttl s.keys old new).1) { s with
        keys := (rotateRefreshToken ttl s.keys old new).2
        issued := insert new s.issued }
  | revoke {h : H} {u : U} :
      StepCase (.revoke h u) .done { s with keys := revokeRefreshToken s.keys h u }
  | familyRead {i : ι} {u : U} {f : F} {members : List H} (httl : 0 < ttl)
      (hm : s.keys.ListsMembers u members) :
      StepCase (.familyRead i u f members) .done { s with
        families := insert f s.families
        pending := Function.update s.pending i (some (.family u f members [])) }
  | familyGet {i : ι} {u : U} {f : F} {h : H} {todo toDelete found : List H}
      (hi : s.pending i = some (.family u f (h :: todo) toDelete)) :
      StepCase (.familyGet i) .done { s with
        pending := Function.update s.pending i (some (.family u f todo found)) }
  | familyExec {i : ι} {u : U} {f : F} {toDelete : List H}
      (hi : s.pending i = some (.family u f [] toDelete)) :
      StepCase (.familyExec i) (.count toDelete.length) { s with
        keys := execTokenFamily ttl s.keys u f toDelete
        pending := Function.update s.pending i none }
  | allRead {i : ι} {u : U} {members : List H} (hm : s.keys.ListsMembers u members) :
      StepCase (.allRead i u members) .done { s with
        pending := Function.update s.pending i (some (.all u members)) }
  | allExec {i : ι} {u : U} {tokenHashes : List H}
      (hi : s.pending i = some (.all u tokenHashes)) :
      StepCase (.allExec i) (.count tokenHashes.length) { s with
        keys := execAllRefreshTokens s.keys u tokenHashes
        pending := Function.update s.pending i none }
  | tick {d : T} (hd : 0 ≤ d) : StepCase (.tick d) .done { s with keys := s.keys.advance d }

theorem step_cases (h : (machine ttl).step s c = some (r, s')) : StepCase ttl s c r s' := by
  cases c with
  | store h' u f =>
    simp only [machine] at h
    split_ifs at h with hg
    obtain ⟨rfl, rfl⟩ := Prod.mk.inj (Option.some.inj h)
    exact .store hg.1 hg.2.1 hg.2.2
  | rotate old new =>
    simp only [machine] at h
    split_ifs at h with hg
    obtain ⟨rfl, rfl⟩ := Prod.mk.inj (Option.some.inj h)
    exact .rotate hg.1 hg.2
  | revoke h' u =>
    obtain ⟨rfl, rfl⟩ := Prod.mk.inj (Option.some.inj h)
    exact .revoke
  | familyRead i u f members =>
    simp only [machine] at h
    split_ifs at h with hg
    obtain ⟨rfl, rfl⟩ := Prod.mk.inj (Option.some.inj h)
    exact .familyRead hg.1 hg.2.2
  | familyGet i =>
    simp only [machine] at h
    split at h
    · obtain ⟨rfl, rfl⟩ := Prod.mk.inj (Option.some.inj h)
      exact .familyGet ‹_›
    · cases h
  | familyExec i =>
    simp only [machine] at h
    split at h
    · obtain ⟨rfl, rfl⟩ := Prod.mk.inj (Option.some.inj h)
      exact .familyExec ‹_›
    · cases h
  | allRead i u members =>
    simp only [machine] at h
    split_ifs at h with hg
    obtain ⟨rfl, rfl⟩ := Prod.mk.inj (Option.some.inj h)
    exact .allRead hg.2
  | allExec i =>
    simp only [machine] at h
    split at h
    · obtain ⟨rfl, rfl⟩ := Prod.mk.inj (Option.some.inj h)
      exact .allExec ‹_›
    · cases h
  | tick d =>
    simp only [machine] at h
    split_ifs at h with hd
    obtain ⟨rfl, rfl⟩ := Prod.mk.inj (Option.some.inj h)
    exact .tick hd

/-- What a step of the machine does to the store. -/
theorem step_evolves (hlive : ∀ h e, liveToken s.keys h = some e → h ∈ s.issued)
    (hpend : ∀ i u f todo found, s.pending i = some (.family u f todo found) → validateTtl ttl)
    (h : (machine ttl).step s c = some (r, s')) : Evolves ttl s c s' := by
  cases step_cases h with
  | store httl hh hf => exact evolves_store httl.le hh hf
  | rotate httl hnew => exact evolves_rotate httl.le hnew hlive
  | @revoke h' u =>
    exact (deletesTokens_revokeRefreshToken h' u).evolves rfl rfl (pendingKept_of_eq rfl)
  | familyRead httl hm =>
    refine ⟨le_rfl, subset_rfl, Finset.subset_insert _ _, pendingKept_update rfl ?_,
      fun h e he => Or.inl he, fun h e he _ _ => he, fun u f m hm _ => Or.inl hm⟩
    rintro u' f' todo found ⟨⟩
    exact Or.inl ⟨httl, Finset.mem_insert_self _ _⟩
  | familyGet hi =>
    refine DeletesTokens.evolves (.refl _) rfl rfl (pendingKept_update rfl ?_)
    rintro u' f' todo' found' ⟨⟩
    exact Or.inr ⟨_, _, hi⟩
  | @familyExec i u f found hi =>
    refine (deletesTokens_execTokenFamily u f found).evolves_marker
      (le_of_lt (hpend i u f [] found hi)) subset_rfl rfl (pendingKept_update rfl ?_)
    rintro u' f' todo' found' ⟨⟩
  | allRead hm =>
    refine DeletesTokens.evolves (.refl _) rfl rfl (pendingKept_update rfl ?_)
    rintro u' f' todo' found' ⟨⟩
  | @allExec i u l hi =>
    refine (deletesTokens_execAllRefreshTokens u l).evolves rfl rfl (pendingKept_update rfl ?_)
    rintro u' f' todo' found' ⟨⟩
  | tick hd => exact evolves_tick hd

/-- A hash that is in use after a step was in use before, unless the step issues it. -/
theorem step_issued (h : (machine ttl).step s c = some (r, s')) {k : H} (hk : k ∈ s'.issued) :
    k ∈ s.issued ∨ (∃ u f, c = .store k u f) ∨ ∃ old, c = .rotate old k := by
  cases step_cases h with
  | @store k' u f =>
    rcases Finset.mem_insert.mp hk with rfl | hk'
    · exact Or.inr (Or.inl ⟨u, f, rfl⟩)
    · exact Or.inl hk'
  | @rotate old new =>
    rcases Finset.mem_insert.mp hk with rfl | hk'
    · exact Or.inr (Or.inr ⟨old, rfl⟩)
    · exact Or.inl hk'
  | _ => exact Or.inl hk

/-- A family that is known after a step was known before, unless the step names it. -/
theorem step_families (h : (machine ttl).step s c = some (r, s')) {f : F} (hf : f ∈ s'.families) :
    f ∈ s.families ∨ (∃ k u, c = .store k u f) ∨ ∃ i u members, c = .familyRead i u f members := by
  cases step_cases h with
  | @store k u f' =>
    rcases Finset.mem_insert.mp hf with rfl | hf'
    · exact Or.inr (Or.inl ⟨k, u, rfl⟩)
    · exact Or.inl hf'
  | @familyRead i u f' members =>
    rcases Finset.mem_insert.mp hf with rfl | hf'
    · exact Or.inr (Or.inr ⟨i, u, members, rfl⟩)
    · exact Or.inl hf'
  | _ => exact Or.inl hf

/-- A revoked token is gone. -/
theorem revokeRefreshToken_token (s : Keys T H U F) (k : H) (u : U) :
    liveToken (revokeRefreshToken s k u) k = none := Keyspace.del_string_self s

/-! ### Rotations and revocations -/

/-- The event is a successful rotation of the token `h` of the family `f` of `u`. -/
def Rotated (e : Event T H U F ι) (h : H) (u : U) (f : F) : Prop :=
  ∃ new t, e.call = .rotate h new ∧ e.reply = .rotated (.refreshData ⟨u, t, f⟩)

/-- After the events `l`, the event presents a token of the family `f` of `u` within `ttl` of its
rotation. -/
def Reused (ttl : T) (l : List (Event T H U F ι)) (e : Event T H U F ι) (u : U) (f : F) : Prop :=
  ∃ h new, e.call = .rotate h new ∧
    ∃ e₀ ∈ l, Rotated e₀ h u f ∧ e.pre.keys.now ≤ e₀.pre.keys.now + ttl

/-- The event is the last step of `revoke_token_family(u, f)`. -/
def FamilyRevoked (e : Event T H U F ι) (u : U) (f : F) : Prop :=
  ∃ i toDelete, e.call = .familyExec i ∧ e.pre.pending i = some (.family u f [] toDelete)

/-- The family `f` of `u` was revoked somewhere in the run `l`. -/
def Killed (ttl : T) (l : List (Event T H U F ι)) (u : U) (f : F) : Prop :=
  ∃ l₁ e l₂, l = l₁ ++ e :: l₂ ∧ (Reused ttl l₁ e u f ∨ FamilyRevoked e u f)

/-- How the events of a run and the store are related. -/
structure Inv (ttl : T) (l : List (Event T H U F ι)) (s : State T H U F ι) : Prop where
  expiry : ∀ h e, liveToken s.keys h = some e → ∃ x, e.expiry = some x ∧ x ≤ s.keys.now + ttl
  live_issued : ∀ h e, liveToken s.keys h = some e → h ∈ s.issued
  live_family : ∀ h e, liveToken s.keys h = some e → e.value.familyId ∈ s.families
  pending : ∀ i u f todo found, s.pending i = some (.family u f todo found) →
    validateTtl ttl ∧ f ∈ s.families
  /-- A family has at most one live token. -/
  unique : ∀ h h' e e', liveToken s.keys h = some e → liveToken s.keys h' = some e' →
    e.value.familyId = e'.value.familyId → h = h'
  /-- A rotated token is gone for good. -/
  gone : ∀ e ∈ l, ∀ h u f, Rotated e h u f →
    h ∈ s.issued ∧ liveToken s.keys h = none ∧ f ∈ s.families
  /-- A rotation is remembered for `ttl`. -/
  used : ∀ e ∈ l, ∀ h u f, Rotated e h u f → s.keys.now ≤ e.pre.keys.now + ttl →
    usedToken s.keys h = some ⟨⟨u, f, e.pre.keys.now⟩, some (e.pre.keys.now + ttl)⟩
  /-- The marker of a revoked family outlives the tokens of the family. -/
  killed : ∀ u f, Killed ttl l u f → f ∈ s.families ∧
    ∀ h e x, liveToken s.keys h = some e → e.value.userId = u → e.value.familyId = f →
      e.expiry = some x → ∃ m y, marker s.keys u f = some m ∧ m.expiry = some y ∧ x ≤ y

theorem inv_init (ttl now : T) : Inv ttl [] (init now : State T H U F ι) where
  expiry _ _ h := by cases h
  live_issued _ _ h := by cases h
  live_family _ _ h := by cases h
  pending _ _ _ _ _ h := by cases h
  unique _ _ _ _ h := by cases h
  gone _ h := absurd h List.not_mem_nil
  used _ h := absurd h List.not_mem_nil
  killed _ _ h := by
    obtain ⟨l₁, e, l₂, hl, -⟩ := h
    simp at hl

/-- What a successful rotation found and what it leaves. -/
theorem step_rotated {old new : H} {u : U} {f : F} {t : T}
    (hlive : ∀ h e, liveToken s.keys h = some e → h ∈ s.issued)
    (h : (machine ttl).step s (.rotate old new) = some (.rotated (.refreshData ⟨u, t, f⟩), s')) :
    s'.keys.now = s.keys.now ∧
      (∃ e, liveToken s.keys old = some e ∧ e.value.userId = u ∧ e.value.familyId = f) ∧
      marker s.keys u f = none ∧ liveToken s'.keys old = none ∧
      usedToken s'.keys old = some ⟨⟨u, f, s.keys.now⟩, some (s.keys.now + ttl)⟩ := by
  simp only [machine] at h
  split at h
  · rename_i hg
    obtain ⟨hr, rfl⟩ := Prod.mk.inj (Option.some.inj h)
    have hc := rotateRefreshToken_cases s.keys ttl old new
    generalize rotateRefreshToken ttl s.keys old new = x at hc hr ⊢
    cases hc with
    | rotated e ht hm =>
      obtain ⟨rfl, -, rfl⟩ := RefreshData.mk.inj (RotateResult.refreshData.inj (Reply.rotated.inj hr))
      have hne : old ≠ new := fun h => hg.2 (h ▸ hlive old e ht)
      exact ⟨rfl, ⟨e, ht, rfl, rfl⟩, hm, replaceToken_token_old _ e.value hne,
        replaceToken_used_old _ old new e.value (le_of_lt hg.1)⟩
    | familyRevoked e ht hm => cases hr
    | reused e ht hu => cases hr
    | unknown ht hu => cases hr
  · cases h

/-- Presenting a token that was rotated sets the marker of its family. -/
theorem step_reused {old new : H} {e : Entry T (UsedData T U F)} (ht : liveToken s.keys old = none)
    (hu : usedToken s.keys old = some e) (h : (machine ttl).step s (.rotate old new) = some (r, s')) :
    (∀ h, liveToken s'.keys h = liveToken s.keys h) ∧
      marker s'.keys e.value.userId e.value.familyId = some ⟨(), some (s.keys.now + ttl)⟩ := by
  cases step_cases h with
  | rotate httl _ =>
    have hc := rotateRefreshToken_cases s.keys ttl old new
    generalize rotateRefreshToken ttl s.keys old new = x at hc ⊢
    cases hc with
    | rotated e' ht' hm => rw [ht] at ht'; cases ht'
    | familyRevoked e' ht' hm => rw [ht] at ht'; cases ht'
    | reused e' ht' hu' =>
      obtain rfl := Option.some.inj (hu.symm.trans hu')
      exact ⟨fun h => Keyspace.setEx_string_of_ne _ _ _ (by simp), setEx_marker_revoked _ _ httl.le⟩
    | unknown ht' hu' => rw [hu] at hu'; cases hu'

/-- The last step of `revoke_token_family` sets the marker and issues no token. -/
theorem step_familyExec {i : ι} {u : U} {f : F} {toDelete : List H}
    (hi : s.pending i = some (.family u f [] toDelete)) (httl : 0 ≤ ttl)
    (h : (machine ttl).step s (.familyExec i) = some (r, s')) :
    (∀ h e, liveToken s'.keys h = some e → liveToken s.keys h = some e) ∧
      marker s'.keys u f = some ⟨(), some (s.keys.now + ttl)⟩ := by
  simp only [machine, hi] at h
  obtain ⟨-, rfl⟩ := Prod.mk.inj (Option.some.inj h)
  have hd : DeletesTokens (s.keys.setEx (.refreshFamilyRevoked u f) () ttl)
      (execTokenFamily ttl s.keys u f toDelete) := deletesTokens_execTokenFamily u f toDelete
  refine ⟨fun h e he => ?_, ?_⟩
  · have := hd.token h e he
    rwa [liveToken, Keyspace.setEx_string_of_ne _ _ _ (by simp)] at this
  · rw [hd.revoked]
    exact setEx_marker_revoked u f httl

section Step

variable {l : List (Event T H U F ι)} (hI : Inv ttl l s) (h : (machine ttl).step s c = some (r, s'))

include hI h

theorem Inv.evolves : Evolves ttl s c s' :=
  step_evolves hI.live_issued (fun i u f todo found hp => (hI.pending i u f todo found hp).1) h

theorem Inv.step_unique (k k' : H) (e e' : Entry T (RefreshData T U F))
    (he : liveToken s'.keys k = some e) (he' : liveToken s'.keys k' = some e')
    (hf : e.value.familyId = e'.value.familyId) : k = k' := by
  have hev := hI.evolves h
  -- a token that was live before and one that is issued now are in different families
  have old_new : ∀ k k' e e', liveToken s'.keys k = some e → liveToken s.keys k = some e →
      Issued ttl s c s' k' e' → e.value.familyId = e'.value.familyId → False := by
    intro k k' e e' hs' hs hiss hf
    cases hiss with
    | store k₀ u f hc hh hh' hf' hf'' =>
      obtain rfl : e.value.familyId = f := hf
      exact hf' (hI.live_family k e hs)
    | rotate old new e₀ hc ht hm hn hn' hgone =>
      obtain rfl := hI.unique k old e e₀ hs ht hf
      rw [hgone] at hs'
      cases hs'
  rcases hev.token k e he with hs | hiss <;> rcases hev.token k' e' he' with hs' | hiss'
  · exact hI.unique k k' e e' hs hs' hf
  · exact (old_new k k' e e' he hs hiss' hf).elim
  · exact (old_new k' k e' e he' hs' hiss hf.symm).elim
  · cases hiss with
    | store k₀ u f hc =>
      subst hc
      cases hiss' with
      | store k₁ u' f' hc' => exact (Call.store.inj hc').1
      | rotate old new e₀ hc' => cases hc'
    | rotate old new e₀ hc =>
      subst hc
      cases hiss' with
      | store k₁ u' f' hc' => cases hc'
      | rotate old' new' e₀' hc' => exact (Call.rotate.inj hc').2

theorem Inv.step_expiry (k : H) (e : Entry T (RefreshData T U F))
    (he : liveToken s'.keys k = some e) : ∃ x, e.expiry = some x ∧ x ≤ s'.keys.now + ttl := by
  have hev := hI.evolves h
  have hle : s.keys.now + ttl ≤ s'.keys.now + ttl := add_le_add_left hev.now_le ttl
  rcases hev.token k e he with hs | hiss
  · obtain ⟨x, hx, hxle⟩ := hI.expiry k e hs
    exact ⟨x, hx, hxle.trans hle⟩
  · cases hiss with
    | store k₀ u f => exact ⟨_, rfl, hle⟩
    | rotate old new e₀ => exact ⟨_, rfl, hle⟩

/-- A token that is gone and whose hash is in use stays gone. -/
theorem Inv.step_gone {k : H} (hk : k ∈ s.issued) (hn : liveToken s.keys k = none) :
    liveToken s'.keys k = none := by
  cases he : liveToken s'.keys k with
  | none => rfl
  | some e =>
    rcases (hI.evolves h).token k e he with hs | hiss
    · rw [hn] at hs
      cases hs
    · cases hiss with
      | store k₀ u f hc hh => exact absurd hk hh
      | rotate old new e₀ hc ht hm hnew => exact absurd hk hnew

/-- The marker of a family stays ahead of its tokens. -/
theorem Inv.step_marker {u : U} {f : F} (hf : f ∈ s.families)
    (hm : ∀ h e x, liveToken s.keys h = some e → e.value.userId = u → e.value.familyId = f →
      e.expiry = some x → ∃ m y, marker s.keys u f = some m ∧ m.expiry = some y ∧ x ≤ y)
    (k : H) (e : Entry T (RefreshData T U F)) (x : T) (he : liveToken s'.keys k = some e)
    (hu' : e.value.userId = u) (hf' : e.value.familyId = f) (hx : e.expiry = some x) :
    ∃ m y, marker s'.keys u f = some m ∧ m.expiry = some y ∧ x ≤ y := by
  have hev := hI.evolves h
  rcases hev.token k e he with hs | hiss
  · obtain ⟨m, y, hmk, hy, hxy⟩ := hm k e x hs hu' hf' hx
    have halive : m.alive s'.keys.now := by
      rw [Entry.alive, hy]
      exact decide_eq_true ((Keyspace.now_le_expiry _ he hx).trans hxy)
    rcases hev.revoked u f m hmk halive with hm' | hm'
    · exact ⟨m, y, hm', hy, hxy⟩
    · obtain ⟨x', hx', hle⟩ := hI.expiry k e hs
      obtain rfl := Option.some.inj (hx.symm.trans hx')
      exact ⟨_, _, hm', rfl, hle⟩
  · cases hiss with
    | store k₀ u₀ f₀ hc hh hh' hnf =>
      obtain rfl : f₀ = f := hf'
      exact absurd hf hnf
    | rotate old new e₀ hc ht hnone =>
      obtain ⟨x', hx', -⟩ := hI.expiry old e₀ ht
      obtain ⟨m, y, hmk, -, -⟩ := hm old e₀ x' ht hu' hf' hx'
      subst hu' hf'
      rw [hnone] at hmk
      cases hmk

/-- A step keeps the invariant. -/
theorem Inv.step : Inv ttl (l ++ [⟨s, c, r⟩]) s' := by
  have hev := hI.evolves h
  refine ⟨hI.step_expiry h, fun k e he => ?_, fun k e he => ?_, fun i u f todo found hp => ?_,
    hI.step_unique h, ?gone, ?used, ?killed⟩
  · rcases hev.token k e he with hs | hiss
    · exact hev.issued (hI.live_issued k e hs)
    · cases hiss with
      | store k₀ u f hc hh hh' => exact hh'
      | rotate old new e₀ hc ht hm hn hn' => exact hn'
  · rcases hev.token k e he with hs | hiss
    · exact hev.families (hI.live_family k e hs)
    · cases hiss with
      | store k₀ u f hc hh hh' hf hf' => exact hf'
      | rotate old new e₀ hc ht => exact hev.families (hI.live_family old e₀ ht)
  · rcases hev.pending i u f todo found hp with hp | ⟨todo', found', hp⟩
    · exact hp
    · obtain ⟨hv, hf⟩ := hI.pending i u f todo' found' hp
      exact ⟨hv, hev.families hf⟩
  case gone =>
    intro e he k u f hrot
    rcases List.mem_append.mp he with he | he
    · obtain ⟨hk, hn, hf⟩ := hI.gone e he k u f hrot
      exact ⟨hev.issued hk, hI.step_gone h hk hn, hev.families hf⟩
    · obtain rfl := List.mem_singleton.mp he
      obtain ⟨new, t, rfl, rfl⟩ := hrot
      obtain ⟨-, ⟨e, ht, rfl, rfl⟩, -, hn, -⟩ := step_rotated hI.live_issued h
      exact ⟨hev.issued (hI.live_issued k e ht), hn, hev.families (hI.live_family k e ht)⟩
  case used =>
    intro e he k u f hrot hle
    rcases List.mem_append.mp he with he | he
    · refine hev.used k _ (hI.used e he k u f hrot (hev.now_le.trans hle)) (decide_eq_true hle)
        (hI.gone e he k u f hrot).2.1
    · obtain rfl := List.mem_singleton.mp he
      obtain ⟨new, t, rfl, rfl⟩ := hrot
      exact (step_rotated hI.live_issued h).2.2.2.2
  case killed =>
    rintro u f ⟨l₁, e, l₂, hl, hkill⟩
    rcases Machine.split_snoc hl with ⟨rfl, rfl⟩ | ⟨l₃, hl₃⟩
    · rcases hkill with ⟨k, new, rfl, e₀, he₀, hrot, hle⟩ | ⟨i, toDelete, rfl, hi⟩
      · -- a rotated token is presented again
        obtain ⟨hk, hn, hf⟩ := hI.gone e₀ he₀ k u f hrot
        obtain ⟨htok, hm⟩ := step_reused hn (hI.used e₀ he₀ k u f hrot hle) h
        refine ⟨hev.families hf, fun k' e x he _ _ hx => ⟨_, _, hm, rfl, ?_⟩⟩
        obtain ⟨x', hx', hle'⟩ := hI.expiry k' e (htok k' ▸ he)
        exact Option.some.inj (hx.symm.trans hx') ▸ hle'
      · -- the block of `revoke_token_family` runs
        obtain ⟨httl, hf⟩ := hI.pending i u f [] toDelete hi
        obtain ⟨htok, hm⟩ := step_familyExec hi (le_of_lt httl) h
        refine ⟨hev.families hf, fun k' e x he _ _ hx => ⟨_, _, hm, rfl, ?_⟩⟩
        obtain ⟨x', hx', hle'⟩ := hI.expiry k' e (htok k' e he)
        exact Option.some.inj (hx.symm.trans hx') ▸ hle'
    · obtain ⟨hf, hm⟩ := hI.killed u f ⟨l₁, e, l₃, hl₃, hkill⟩
      exact ⟨hev.families hf, hI.step_marker h hf hm⟩

end Step

/-- The invariant holds along every run. -/
theorem inv_of_run {l : List (Event T H U F ι)} {now : T}
    (h : (machine ttl).Run (init now) l s) : Inv ttl l s :=
  h.induction (Inv ttl) (inv_init ttl now) fun _ _ _ _ _ _ hI hs => hI.step hs

/-- A successful rotation of an invariant state: the token is live and its family not revoked. -/
theorem Inv.rotated {l : List (Event T H U F ι)} (hI : Inv ttl l s) {e : Event T H U F ι} {h : H}
    {u : U} {f : F} (hpre : e.pre = s)
    (hs : (machine ttl).step e.pre e.call = some (e.reply, s')) (hrot : Rotated e h u f) :
    (∃ e', liveToken s.keys h = some e' ∧ e'.value.userId = u ∧ e'.value.familyId = f) ∧
      marker s.keys u f = none := by
  obtain ⟨new, t, hc, hr⟩ := hrot
  subst hpre
  rw [hc, hr] at hs
  obtain ⟨-, ht, hm, -⟩ := step_rotated hI.live_issued hs
  exact ⟨ht, hm⟩

/-- **Rotation safety.** In every reachable state a family has at most one live token; no token is
rotated twice; and once a rotated token of a family is presented again within `ttl` of its
rotation, or `revoke_token_family` has run for the family, no token of the family is rotated. -/
theorem refresh_rotation_safe {now : T} {l : List (Event T H U F ι)}
    (h : (machine ttl).Run (init now) l s) :
    (∀ k k' e e', liveToken s.keys k = some e → liveToken s.keys k' = some e' →
      e.value.familyId = e'.value.familyId → k = k') ∧
    (∀ l₁ e l₂ k u f, l = l₁ ++ e :: l₂ → Rotated e k u f →
      ∀ e' ∈ l₂, ∀ u' f', ¬Rotated e' k u' f') ∧
    ∀ l₁ e l₂ u f, l = l₁ ++ e :: l₂ → Reused ttl l₁ e u f ∨ FamilyRevoked e u f →
      ∀ e' ∈ l₂, ∀ k, ¬Rotated e' k u f := by
  refine ⟨(inv_of_run h).unique, ?_, ?_⟩
  · rintro l₁ e l₂ k u f rfl hrot e' he' u' f' hrot'
    obtain ⟨l₃, l₄, rfl⟩ := List.append_of_mem he'
    rw [← List.cons_append, ← List.append_assoc] at h
    obtain ⟨hrun, s₁, hs, -⟩ := h.split
    have hI := inv_of_run hrun
    obtain ⟨⟨e₁, ht, -, -⟩, -⟩ := hI.rotated rfl hs hrot'
    rw [(hI.gone e (by simp) k u f hrot).2.1] at ht
    cases ht
  · rintro l₁ e l₂ u f rfl hkill e' he' k hrot'
    obtain ⟨l₃, l₄, rfl⟩ := List.append_of_mem he'
    rw [← List.cons_append, ← List.append_assoc] at h
    obtain ⟨hrun, s₁, hs, -⟩ := h.split
    have hI := inv_of_run hrun
    obtain ⟨⟨e₁, ht, hu, hf⟩, hnone⟩ := hI.rotated rfl hs hrot'
    obtain ⟨x, hx, -⟩ := hI.expiry k e₁ ht
    obtain ⟨m, y, hm, -, -⟩ := (hI.killed u f ⟨l₁, e, l₃, rfl, hkill⟩).2 k e₁ x ht hu hf hx
    rw [hnone] at hm
    cases hm

/-- A token is rotated and presented again; then its successor is presented. -/
def reuseRun : List (Event ℕ ℕ ℕ ℕ ℕ) × State ℕ ℕ ℕ ℕ ℕ :=
  (machine 10).runOf (init 0)
    [.store 0 7 5, .rotate 0 1, .tick 3, .rotate 0 2, .rotate 1 3] (by decide)

theorem refresh_rotation_safe_reuseRun :
    ∃ l₁ e l₂, reuseRun.1 = l₁ ++ e :: l₂ ∧ Reused 10 l₁ e 7 5 ∧ l₂.length = 1 ∧
      ∀ e' ∈ l₂, ∀ k, ¬Rotated e' k 7 5 := by
  have hrun : (machine 10).Run (init 0) reuseRun.1 reuseRun.2 := Machine.run_runOf _ _ _ _
  have hl : reuseRun.1 =
      reuseRun.1.take 3 ++ reuseRun.1.get ⟨3, by decide⟩ :: reuseRun.1.drop 4 := rfl
  have hr : Reused 10 (reuseRun.1.take 3) (reuseRun.1.get ⟨3, by decide⟩) 7 5 :=
    ⟨0, 2, rfl, (reuseRun.1.take 3).get ⟨1, by decide⟩, List.get_mem _ _, ⟨1, 0, rfl, rfl⟩,
      by decide⟩
  exact ⟨_, _, _, hl, hr, rfl, (refresh_rotation_safe hrun).2.2 _ _ _ _ _ hl (Or.inl hr)⟩

end RefreshToken
