import TaskManagement.Users.CredentialChange
import TaskManagement.RedisStore.Equiv.Session
import TaskManagement.RedisStore.Equiv.RevokeAll

/-!
# A change of the password ends the logins with the old one

`change_kills_logins`: in a run in which no login issues a credential after the password it was
checked against has changed, or while a change of the password that has already read the index
concerned is under way, no session and no refresh token of a login with an old password is accepted
after the change has returned success.  `late_login_survives` is a run without the condition: the
login reads the row before the commit and creates its session after the revocation.

* `Current`: what is live of a login belongs to its user, whose password has not changed since;
* `Holds`: what a call of `change_password` or `reset_password` has achieved so far;
* `Inv.step`: every step keeps both, for the logins and the changes of a state.
-/

namespace CredentialChange

set_option linter.unusedSectionVars false

open UserDb (Uuid User)
open Accounts (World)
open Session (session)
open RefreshToken (liveToken)

variable {T S H F ι : Type} [Ring T] [LinearOrder T] [IsStrictOrderedRing T] [FloorRing T]
variable [DecidableEq S] [DecidableEq H] [DecidableEq F]

/-! ### The keys of the refresh tokens -/

/-- The indexes are complete, a token lives for `ttl` at most, and its hash and family are in use. -/
structure TokenKeys (ttl : T) (s : RefreshToken.Keys T H Uuid F) (hashes : Finset H)
    (families : Finset F) : Prop where
  covered : RefreshToken.Covered s
  expires : RefreshToken.ExpiresWithin ttl s
  issued : ∀ h e, liveToken s h = some e → h ∈ hashes
  family : ∀ h e, liveToken s h = some e → e.value.familyId ∈ families

section Tokens

variable {ttl : T} {s s' : RefreshToken.Keys T H Uuid F} {hashes : Finset H} {families : Finset F}

/-- The tokens after `store_refresh_token`. -/
theorem store_token {h k : H} {u : Uuid} {f : F} {e : Entry T (RefreshToken.RefreshData T Uuid F)}
    (httl : 0 ≤ ttl) (he : liveToken (RefreshToken.storeRefreshToken ttl s h u f) k = some e) :
    (k = h ∧ e = ⟨⟨u, s.now, f⟩, some (s.now + ttl)⟩) ∨ liveToken s k = some e := by
  by_cases hk : k = h
  · subst hk
    rw [RefreshToken.storeRefreshToken_token _ k u f httl] at he
    exact Or.inl ⟨rfl, (Option.some.inj he).symm⟩
  · rw [liveToken, RefreshToken.storeRefreshToken_string_of_ne _ (by simpa using hk)] at he
    exact Or.inr he

/-- The tokens after `rotate_refresh_token`. -/
theorem rotate_token {old new k : H} {e : Entry T (RefreshToken.RefreshData T Uuid F)}
    (httl : 0 ≤ ttl) (hne : ∀ e, liveToken s old = some e → old ≠ new)
    (he : liveToken (RefreshToken.rotateRefreshToken ttl s old new).2 k = some e) :
    liveToken s k = some e ∨ ∃ e₀, liveToken s old = some e₀ ∧ k = new ∧
      e = ⟨⟨e₀.value.userId, s.now, e₀.value.familyId⟩, some (s.now + ttl)⟩ := by
  have hc := RefreshToken.rotateRefreshToken_cases s ttl old new
  generalize RefreshToken.rotateRefreshToken ttl s old new = x at hc he
  cases hc with
  | rotated e₀ ht hm =>
    by_cases hk : k = new
    · subst hk
      rw [RefreshToken.replaceToken_token_new _ old k e₀.value httl] at he
      exact Or.inr ⟨e₀, ht, rfl, (Option.some.inj he).symm⟩
    · by_cases hko : k = old
      · subst hko
        rw [RefreshToken.replaceToken_token_old _ e₀.value (hne e₀ ht)] at he
        cases he
      · rw [RefreshToken.replaceToken_token_of_ne _ e₀.value hko hk] at he
        exact Or.inl he
  | familyRevoked e₀ ht hm => exact Or.inl he
  | reused e₀ ht hu =>
    rw [liveToken, Keyspace.setEx_string_of_ne _ _ _ (by simp)] at he
    exact Or.inl he
  | unknown ht hu => exact Or.inl he

theorem rotate_now (old new : H) :
    (RefreshToken.rotateRefreshToken ttl s old new).2.now = s.now := by
  have hc := RefreshToken.rotateRefreshToken_cases s ttl old new
  generalize RefreshToken.rotateRefreshToken ttl s old new = x at hc
  cases hc <;> rfl

theorem covered_rotate (hk : TokenKeys ttl s hashes families) {old new : H} (httl : 0 ≤ ttl)
    (hnew : new ∉ hashes) :
    RefreshToken.Covered (RefreshToken.rotateRefreshToken ttl s old new).2 := by
  have hc := RefreshToken.rotateRefreshToken_cases s ttl old new
  generalize RefreshToken.rotateRefreshToken ttl s old new = x at hc ⊢
  cases hc with
  | rotated e ht hm =>
    have hne : old ≠ new := fun h => hnew (h ▸ hk.issued old e ht)
    exact RefreshToken.covered_replaceToken hk.covered hk.expires hne httl
  | familyRevoked e ht hm => exact hk.covered
  | reused e ht hu => exact RefreshToken.covered_setEx_marker hk.covered _ _
  | unknown ht hu => exact hk.covered

theorem TokenKeys.store (hk : TokenKeys ttl s hashes families) (h : H) (u : Uuid) (f : F)
    (httl : 0 ≤ ttl) : TokenKeys ttl (RefreshToken.storeRefreshToken ttl s h u f)
      (insert h hashes) (insert f families) where
  covered := RefreshToken.covered_storeRefreshToken hk.covered hk.expires h u f httl
  expires k e he := by
    rcases store_token httl he with ⟨-, rfl⟩ | he'
    · exact ⟨_, rfl, le_rfl⟩
    · exact hk.expires k e he'
  issued k e he := by
    rcases store_token httl he with ⟨rfl, -⟩ | he'
    · exact Finset.mem_insert_self k hashes
    · exact Finset.mem_insert_of_mem (hk.issued k e he')
  family k e he := by
    rcases store_token httl he with ⟨-, rfl⟩ | he'
    · exact Finset.mem_insert_self f families
    · exact Finset.mem_insert_of_mem (hk.family k e he')

theorem TokenKeys.rotate (hk : TokenKeys ttl s hashes families) (old : H) {new : H}
    (httl : 0 ≤ ttl) (hnew : new ∉ hashes) :
    TokenKeys ttl (RefreshToken.rotateRefreshToken ttl s old new).2 (insert new hashes) families := by
  have hne : ∀ e, liveToken s old = some e → old ≠ new := fun e he h =>
    hnew (h ▸ hk.issued old e he)
  refine ⟨covered_rotate hk httl hnew, fun k e he => ?_, fun k e he => ?_, fun k e he => ?_⟩
  · rw [rotate_now]
    rcases rotate_token httl hne he with he' | ⟨e₀, ht, -, rfl⟩
    · exact hk.expires k e he'
    · exact ⟨_, rfl, le_rfl⟩
  · rcases rotate_token httl hne he with he' | ⟨e₀, ht, rfl, -⟩
    · exact Finset.mem_insert_of_mem (hk.issued k e he')
    · exact Finset.mem_insert_self k hashes
  · rcases rotate_token httl hne he with he' | ⟨e₀, ht, -, rfl⟩
    · exact hk.family k e he'
    · exact hk.family old e₀ ht

theorem TokenKeys.delete (hk : TokenKeys ttl s hashes families) (hd : RefreshToken.DeletesTokens s s')
    (hc : RefreshToken.Covered s') : TokenKeys ttl s' hashes families where
  covered := hc
  expires k e he := by
    rw [hd.now]
    exact hk.expires k e (hd.token k e he)
  issued k e he := hk.issued k e (hd.token k e he)
  family k e he := hk.family k e (hd.token k e he)

theorem TokenKeys.advance (hk : TokenKeys ttl s hashes families) {d : T} (hd : 0 ≤ d) :
    TokenKeys ttl (s.advance d) hashes families := by
  have hold : ∀ k e, liveToken (s.advance d) k = some e → liveToken s k = some e := fun k e he =>
    ((s.advance_string_eq_some d).mp he).1
  refine ⟨RefreshToken.covered_advance hk.covered d, fun k e he => ?_,
    fun k e he => hk.issued k e (hold k e he), fun k e he => hk.family k e (hold k e he)⟩
  obtain ⟨x, hx, hle⟩ := hk.expires k e (hold k e he)
  exact ⟨x, hx, hle.trans (add_le_add_left (le_add_of_nonneg_right hd) ttl)⟩

end Tokens

/-! ### What a login and a change have achieved -/

/-- What is live of the credential belongs to the user of the login, whose password is the one that
was checked. -/
def Current (s : State T S H F) (login : Login S H F) : Credential S H F → Prop
  | .session sid => sid ∈ s.sessionIds ∧ ∀ e, session s.sessions sid = some e →
      e.value.userId = login.userId ∧ login.passwordVersion = s.passwordVersion login.userId
  | .refreshToken _ f => f ∈ s.families ∧ ∀ h e, liveToken s.tokens h = some e →
      e.value.familyId = f →
      e.value.userId = login.userId ∧ login.passwordVersion = s.passwordVersion login.userId

/-- The user has no session. -/
def NoSessions (s : State T S H F) (u : Uuid) : Prop :=
  ∀ sid e, session s.sessions sid = some e → e.value.userId ≠ u

/-- The user has no refresh token. -/
def NoTokens (s : State T S H F) (u : Uuid) : Prop :=
  ∀ h e, liveToken s.tokens h = some e → e.value.userId ≠ u

/-- What a change of the password of `u` has achieved in a phase. -/
def Holds (s : State T S H F) (u : Uuid) : Phase S H → Prop
  | .checked => True
  | .sessionsRead sessionIds => Session.Lists s.sessions u sessionIds
  | .sessionsDeleted => NoSessions s u
  | .tokensRead tokenHashes => NoSessions s u ∧ RefreshToken.Lists s.tokens u tokenHashes
  | .tokensDeleted => NoSessions s u ∧ NoTokens s u
  | .succeeded passwordVersion => passwordVersion ≤ s.passwordVersion u
  | .failed => True

/-- The change has read the index of the sessions and has not ended. -/
def Phase.ReadSessions : Phase S H → Prop
  | .sessionsRead _ | .sessionsDeleted | .tokensRead _ | .tokensDeleted => True
  | .checked | .succeeded _ | .failed => False

/-- The change has read the index of the refresh tokens and has not ended. -/
def Phase.ReadTokens : Phase S H → Prop
  | .tokensRead _ | .tokensDeleted => True
  | .checked | .sessionsRead _ | .sessionsDeleted | .succeeded _ | .failed => False

/-- The invariant of a state. -/
structure Inv (settings : Settings T) (s : State T S H F) : Prop where
  sessions : Session.Covered settings.session.sessionTtl s.sessions
  tokens : TokenKeys settings.refreshTtl s.tokens s.tokenHashes s.families
  login : ∀ login ∈ s.logins, ∀ c, login.credential = some c → Current s login c
  change : ∀ change ∈ s.changes, Holds s change.userId change.phase

variable {settings : Settings T} {s s' : State T S H F}

/-- Every session of `u` in `s'` is one in `s`. -/
def KeepsSessions (s s' : State T S H F) (u : Uuid) : Prop :=
  ∀ sid e, session s'.sessions sid = some e → e.value.userId = u →
    ∃ e', session s.sessions sid = some e' ∧ e'.value.userId = u

/-- Every refresh token of `u` in `s'` is one in `s`. -/
def KeepsTokens (s s' : State T S H F) (u : Uuid) : Prop :=
  ∀ h e, liveToken s'.tokens h = some e → e.value.userId = u →
    ∃ e', liveToken s.tokens h = some e' ∧ e'.value.userId = u

theorem NoSessions.mono {u : Uuid} (h : NoSessions s u) (hs : KeepsSessions s s' u) :
    NoSessions s' u := by
  intro sid e he hu
  obtain ⟨e', he', hu'⟩ := hs sid e he hu
  exact h sid e' he' hu'

theorem NoTokens.mono {u : Uuid} (h : NoTokens s u) (ht : KeepsTokens s s' u) : NoTokens s' u := by
  intro k e he hu
  obtain ⟨e', he', hu'⟩ := ht k e he hu
  exact h k e' he' hu'

theorem sessionsListed_mono {u : Uuid} {sessionIds : List S}
    (h : Session.Lists s.sessions u sessionIds) (hs : KeepsSessions s s' u) :
    Session.Lists s'.sessions u sessionIds := by
  intro sid e he hu
  obtain ⟨e', he', hu'⟩ := hs sid e he hu
  exact h sid e' he' hu'

theorem tokensListed_mono {u : Uuid} {tokenHashes : List H}
    (h : RefreshToken.Lists s.tokens u tokenHashes) (ht : KeepsTokens s s' u) :
    RefreshToken.Lists s'.tokens u tokenHashes := by
  intro k e he hu
  obtain ⟨e', he', hu'⟩ := ht k e he hu
  exact h k e' he' hu'

/-- A step keeps what a change has achieved unless it adds something that the change has already
looked for. -/
theorem Holds.mono {u : Uuid} {p : Phase S H} (h : Holds s u p)
    (hs : p.ReadSessions → KeepsSessions s s' u) (ht : p.ReadTokens → KeepsTokens s s' u)
    (hv : s.passwordVersion u ≤ s'.passwordVersion u) : Holds s' u p := by
  cases p with
  | checked => trivial
  | sessionsRead sessionIds => exact sessionsListed_mono h (hs trivial)
  | sessionsDeleted => exact NoSessions.mono h (hs trivial)
  | tokensRead tokenHashes => exact ⟨h.1.mono (hs trivial), tokensListed_mono h.2 (ht trivial)⟩
  | tokensDeleted => exact ⟨h.1.mono (hs trivial), h.2.mono (ht trivial)⟩
  | succeeded v => exact le_trans h hv
  | failed => trivial

/-- A step keeps what is known of a login if what is live of known ids was live before. -/
theorem Current.mono {login : Login S H F} {c : Credential S H F} (h : Current s login c)
    (hids : s.sessionIds ⊆ s'.sessionIds) (hfam : s.families ⊆ s'.families)
    (hs : ∀ sid ∈ s.sessionIds, ∀ e, session s'.sessions sid = some e →
      ∃ e', session s.sessions sid = some e' ∧ e'.value.userId = e.value.userId)
    (ht : ∀ h e, liveToken s'.tokens h = some e → e.value.familyId ∈ s.families →
      ∃ h' e', liveToken s.tokens h' = some e' ∧ e'.value.userId = e.value.userId ∧
        e'.value.familyId = e.value.familyId)
    (hv : s'.passwordVersion = s.passwordVersion) : Current s' login c := by
  cases c with
  | session sid =>
    refine ⟨hids h.1, fun e he => ?_⟩
    obtain ⟨e', he', hu⟩ := hs sid h.1 e he
    rw [hv, ← hu]
    exact h.2 e' he'
  | refreshToken k f =>
    refine ⟨hfam h.1, fun k' e he hf => ?_⟩
    obtain ⟨k'', e', he', hu, hf'⟩ := ht k' e he (hf ▸ h.1)
    rw [hv, ← hu]
    exact h.2 k'' e' he' (hf'.trans hf)

/-! ### Steps that add nothing -/

/-- The step adds no session and no refresh token. -/
structure Shrinks (s s' : State T S H F) : Prop where
  session : ∀ sid e, session s'.sessions sid = some e →
    ∃ e', session s.sessions sid = some e' ∧ e'.value = e.value
  token : ∀ h e, liveToken s'.tokens h = some e → liveToken s.tokens h = some e
  sessionIds : s'.sessionIds = s.sessionIds
  families : s'.families = s.families
  passwordVersion : s'.passwordVersion = s.passwordVersion

theorem Shrinks.of_eq (hs : s'.sessions = s.sessions) (ht : s'.tokens = s.tokens)
    (hi : s'.sessionIds = s.sessionIds) (hf : s'.families = s.families)
    (hv : s'.passwordVersion = s.passwordVersion) : Shrinks s s' :=
  ⟨fun _ e he => ⟨e, hs ▸ he, rfl⟩, fun _ _ he => ht ▸ he, hi, hf, hv⟩

theorem Shrinks.keepsSessions (h : Shrinks s s') (u : Uuid) : KeepsSessions s s' u := by
  intro sid e he hu
  obtain ⟨e', he', hv⟩ := h.session sid e he
  exact ⟨e', he', by rw [hv, hu]⟩

theorem Shrinks.keepsTokens (h : Shrinks s s') (u : Uuid) : KeepsTokens s s' u :=
  fun k e he hu => ⟨e, h.token k e he, hu⟩

theorem Shrinks.current (h : Shrinks s s') {login : Login S H F} {c : Credential S H F}
    (hc : Current s login c) : Current s' login c := by
  refine hc.mono h.sessionIds.ge h.families.ge (fun _ _ e he => ?_)
    (fun k e he _ => ⟨k, e, h.token k e he, rfl, rfl⟩) h.passwordVersion
  obtain ⟨e', he', hv⟩ := h.session _ e he
  exact ⟨e', he', by rw [hv]⟩

theorem Shrinks.holds (h : Shrinks s s') {u : Uuid} {p : Phase S H} (hp : Holds s u p) :
    Holds s' u p :=
  hp.mono (fun _ => h.keepsSessions u) (fun _ => h.keepsTokens u) (by rw [h.passwordVersion])

/-- A step that adds nothing keeps the invariant if the new phases hold. -/
theorem Inv.of_shrinks (hI : Inv settings s) (h : Shrinks s s')
    (hs : Session.Covered settings.session.sessionTtl s'.sessions)
    (ht : TokenKeys settings.refreshTtl s'.tokens s'.tokenHashes s'.families)
    (hl : ∀ login ∈ s'.logins, login ∈ s.logins ∨ login.credential = none)
    (hc : ∀ change ∈ s'.changes, change ∈ s.changes ∨ Holds s' change.userId change.phase) :
    Inv settings s' where
  sessions := hs
  tokens := ht
  login login hmem c hcred := by
    rcases hl login hmem with hmem' | hnone
    · exact h.current (hI.login login hmem' c hcred)
    · rw [hnone] at hcred
      cases hcred
  change change hmem := by
    rcases hc change hmem with hmem' | hholds
    · exact h.holds (hI.change change hmem')
    · exact hholds

/-- Only the changes, or the logins without a credential, are written. -/
theorem Inv.of_calls (hI : Inv settings s) (hs : s'.sessions = s.sessions)
    (ht : s'.tokens = s.tokens) (hi : s'.sessionIds = s.sessionIds)
    (hh : s'.tokenHashes = s.tokenHashes) (hf : s'.families = s.families)
    (hv : s'.passwordVersion = s.passwordVersion)
    (hl : ∀ login ∈ s'.logins, login ∈ s.logins ∨ login.credential = none)
    (hc : ∀ change ∈ s'.changes, change ∈ s.changes ∨ Holds s' change.userId change.phase) :
    Inv settings s' :=
  hI.of_shrinks (.of_eq hs ht hi hf hv) (hs ▸ hI.sessions) (by rw [ht, hh, hf]; exact hI.tokens)
    hl hc

theorem mem_goto {i : ℕ} {change change' : Change S H} {p : Phase S H}
    (h : change' ∈ (s.goto i change p).changes) :
    change' ∈ s.changes ∨ change' = { change with phase := p } :=
  List.mem_or_eq_of_mem_set h

theorem inv_goto (hI : Inv settings s) {i : ℕ} {change : Change S H} {p : Phase S H}
    (hp : Holds s change.userId p) : Inv settings (s.goto i change p) := by
  refine hI.of_calls rfl rfl rfl rfl rfl rfl (fun _ h => Or.inl h) fun change' h => ?_
  rcases mem_goto h with h | rfl
  · exact Or.inl h
  · exact Or.inr ((Shrinks.of_eq (s := s) rfl rfl rfl rfl rfl).holds hp)

theorem inv_begin (hI : Inv settings s) (u : Uuid) (passwordHash : String) :
    Inv settings (s.begin u passwordHash) := by
  refine hI.of_calls rfl rfl rfl rfl rfl rfl (fun _ h => Or.inl h) fun change h => ?_
  rcases List.mem_append.mp h with h | h
  · exact Or.inl h
  · obtain rfl := List.mem_singleton.mp h
    exact Or.inr trivial

theorem inv_login (hI : Inv settings s) (u : Uuid) (v : ℕ) :
    Inv settings { s with logins := s.logins ++ [⟨u, v, none⟩] } := by
  refine hI.of_calls rfl rfl rfl rfl rfl rfl (fun login h => ?_) fun _ h => Or.inl h
  rcases List.mem_append.mp h with h | h
  · exact Or.inl h
  · obtain rfl := List.mem_singleton.mp h
    exact Or.inr rfl

theorem inv_sessionsExec (hI : Inv settings s) {i : ℕ} {change : Change S H} {sessionIds : List S}
    (hl : Session.Lists s.sessions change.userId sessionIds) :
    Inv settings ({ s with
      sessions := Session.deleteAllSessions s.sessions change.userId sessionIds }.goto i change
        .sessionsDeleted) := by
  have hI' : Inv settings
      { s with sessions := Session.deleteAllSessions s.sessions change.userId sessionIds } :=
    hI.of_shrinks ⟨fun _ e he => ⟨e, (Session.deleteAllSessions_session he).1, rfl⟩,
      fun _ _ h => h, rfl, rfl, rfl⟩ (Session.covered_deleteAllSessions hI.sessions hl) hI.tokens
      (fun _ h => Or.inl h) fun _ h => Or.inl h
  exact inv_goto hI' fun _ _ he => Session.deleteAllSessions_user hl he

theorem inv_tokensExec (hI : Inv settings s) {i : ℕ} {change : Change S H} {tokenHashes : List H}
    (hs : NoSessions s change.userId)
    (hl : RefreshToken.Lists s.tokens change.userId tokenHashes) :
    Inv settings ({ s with
      tokens := RefreshToken.execAllRefreshTokens s.tokens change.userId tokenHashes }.goto i change
        .tokensDeleted) := by
  have hd := RefreshToken.deletesTokens_execAllRefreshTokens (s := s.tokens) change.userId
    tokenHashes
  have hI' : Inv settings
      { s with tokens := RefreshToken.execAllRefreshTokens s.tokens change.userId tokenHashes } :=
    hI.of_shrinks ⟨fun _ e he => ⟨e, he, rfl⟩, hd.token, rfl, rfl, rfl⟩ hI.sessions
      (hI.tokens.delete hd (RefreshToken.covered_execAllRefreshTokens hI.tokens.covered hl))
      (fun _ h => Or.inl h) fun _ h => Or.inl h
  exact inv_goto hI' ⟨hs, fun _ _ he => RefreshToken.execAllRefreshTokens_user hl he⟩

theorem inv_rollback (hI : Inv settings s) (login : Login S H F) :
    Inv settings (s.rollback login) := by
  unfold State.rollback
  split
  · rename_i sid _
    exact hI.of_shrinks ⟨fun _ e he => ⟨e, (Session.deleteSession_session he).2, rfl⟩,
      fun _ _ h => h, rfl, rfl, rfl⟩ (Session.covered_deleteSession hI.sessions sid login.userId)
      hI.tokens (fun _ h => Or.inl h) fun _ h => Or.inl h
  · rename_i h _ _
    have hd := RefreshToken.deletesTokens_revokeRefreshToken (s := s.tokens) h login.userId
    exact hI.of_shrinks ⟨fun _ e he => ⟨e, he, rfl⟩, hd.token, rfl, rfl, rfl⟩ hI.sessions
      (hI.tokens.delete hd (RefreshToken.covered_revokeRefreshToken hI.tokens.covered h _))
      (fun _ h => Or.inl h) fun _ h => Or.inl h
  · exact hI

theorem inv_tick (hI : Inv settings s) {d : T} (hd : 0 ≤ d) :
    Inv settings
      { s with sessions := s.sessions.advance d, tokens := s.tokens.advance d } := by
  have hs : ∀ sid e, session (s.sessions.advance d) sid = some e → session s.sessions sid = some e :=
    fun _ _ he => ((s.sessions.advance_string_eq_some d).mp he).1
  have ht : ∀ h e, liveToken (s.tokens.advance d) h = some e → liveToken s.tokens h = some e :=
    fun _ _ he => ((s.tokens.advance_string_eq_some d).mp he).1
  exact hI.of_shrinks ⟨fun sid e he => ⟨e, hs sid e he, rfl⟩, ht, rfl, rfl, rfl⟩
    (Session.covered_advance hI.sessions hd) (hI.tokens.advance hd)
    (fun _ h => Or.inl h) fun _ h => Or.inl h

theorem inv_authenticate (hI : Inv settings s) {sid : S}
    (hs : Session.Covered settings.session.sessionTtl
      (Session.authenticate settings.session s.sessions sid).2) :
    Inv settings { s with sessions := (Session.authenticate settings.session s.sessions sid).2 } :=
  hI.of_shrinks ⟨fun _ _ he => Session.authenticate_session _ he, fun _ _ h => h, rfl, rfl, rfl⟩ hs
    hI.tokens (fun _ h => Or.inl h) fun _ h => Or.inl h

/-! ### Steps that add a session or a refresh token -/

/-- No change of the password of `u` has read the index of the sessions and not ended. -/
def NoneReadSessions (s : State T S H F) (u : Uuid) : Prop :=
  ∀ change ∈ s.changes, change.userId = u → ¬change.phase.ReadSessions

/-- No change of the password of `u` has read the index of the refresh tokens and not ended. -/
def NoneReadTokens (s : State T S H F) (u : Uuid) : Prop :=
  ∀ change ∈ s.changes, change.userId = u → ¬change.phase.ReadTokens

/-- A login issues a credential of the password it has checked. -/
theorem inv_issue (hI : Inv settings s) {i : ℕ} {login : Login S H F} {c : Credential S H F}
    (hc : Current s login c) : Inv settings (s.issue i login c) := by
  have heq : Shrinks s (s.issue i login c) := .of_eq rfl rfl rfl rfl rfl
  refine ⟨hI.sessions, hI.tokens, fun login' hmem c' hc' => heq.current ?_,
    fun change hmem => heq.holds (hI.change change hmem)⟩
  rcases List.mem_or_eq_of_mem_set hmem with hmem | rfl
  · exact hI.login login' hmem c' hc'
  · obtain rfl := Option.some.inj hc'
    -- `Current` does not look at the credential of the login
    cases c with
    | session sid => exact hc
    | refreshToken h f => exact hc

theorem inv_createSession (hI : Inv settings s) {u : Uuid} {sid : S} {csrfToken : String}
    {ip : Option String} (httl : 0 ≤ settings.session.sessionTtl) (hsid : sid ∉ s.sessionIds)
    (hnone : NoneReadSessions s u) :
    Inv settings { s with
      sessions := Session.createSession settings.session.sessionTtl s.sessions sid csrfToken u ip
      sessionIds := insert sid s.sessionIds } := by
  refine ⟨Session.covered_createSession hI.sessions sid csrfToken u ip httl, hI.tokens,
    fun login hmem c hc => ?_, fun change hmem => ?_⟩
  · refine (hI.login login hmem c hc).mono (Finset.subset_insert sid _) subset_rfl
      (fun sid' hsid' e he => ?_) (fun h e he _ => ⟨h, e, he, rfl, rfl⟩) rfl
    rcases Session.createSession_session httl he with ⟨rfl, -⟩ | ⟨-, he'⟩
    · exact absurd hsid' hsid
    · exact ⟨e, he', rfl⟩
  · refine (hI.change change hmem).mono (fun hread sid' e he hu => ?_)
      (fun _ h e he hu => ⟨e, he, hu⟩) le_rfl
    rcases Session.createSession_session httl he with ⟨-, rfl⟩ | ⟨-, he'⟩
    · exact absurd hread (hnone change hmem hu.symm)
    · exact ⟨e, he', hu⟩

theorem current_createSession {login : Login S H F} {sid : S} {csrfToken : String}
    {ip : Option String} (httl : 0 ≤ settings.session.sessionTtl)
    (hv : login.passwordVersion = s.passwordVersion login.userId) :
    Current { s with
      sessions := Session.createSession settings.session.sessionTtl s.sessions sid csrfToken
        login.userId ip
      sessionIds := insert sid s.sessionIds } login (.session sid) := by
  refine ⟨Finset.mem_insert_self sid _, fun e he => ⟨?_, hv⟩⟩
  rcases Session.createSession_session httl he with ⟨-, rfl⟩ | ⟨hne, -⟩
  · rfl
  · exact absurd rfl hne

theorem inv_storeRefreshToken (hI : Inv settings s) {u : Uuid} {h : H} {f : F}
    (httl : 0 ≤ settings.refreshTtl) (hf : f ∉ s.families) (hnone : NoneReadTokens s u) :
    Inv settings { s with
      tokens := RefreshToken.storeRefreshToken settings.refreshTtl s.tokens h u f
      tokenHashes := insert h s.tokenHashes
      families := insert f s.families } := by
  refine ⟨hI.sessions, hI.tokens.store h u f httl, fun login hmem c hc => ?_, fun change hmem => ?_⟩
  · refine (hI.login login hmem c hc).mono subset_rfl (Finset.subset_insert f _)
      (fun _ _ e he => ⟨e, he, rfl⟩) (fun k e he hfam => ?_) rfl
    rcases store_token httl he with ⟨-, rfl⟩ | he'
    · exact absurd hfam hf
    · exact ⟨k, e, he', rfl, rfl⟩
  · refine (hI.change change hmem).mono (fun _ sid e he hu => ⟨e, he, hu⟩)
      (fun hread k e he hu => ?_) le_rfl
    rcases store_token httl he with ⟨-, rfl⟩ | he'
    · exact absurd hread (hnone change hmem hu.symm)
    · exact ⟨e, he', hu⟩

theorem current_storeRefreshToken (hI : Inv settings s) {login : Login S H F} {h : H} {f : F}
    (httl : 0 ≤ settings.refreshTtl) (hf : f ∉ s.families)
    (hv : login.passwordVersion = s.passwordVersion login.userId) :
    Current { s with
      tokens := RefreshToken.storeRefreshToken settings.refreshTtl s.tokens h login.userId f
      tokenHashes := insert h s.tokenHashes
      families := insert f s.families } login (.refreshToken h f) := by
  refine ⟨Finset.mem_insert_self f _, fun k e he hfam => ⟨?_, hv⟩⟩
  rcases store_token httl he with ⟨-, rfl⟩ | he'
  · rfl
  · exact absurd (hfam ▸ hI.tokens.family k e he') hf

theorem inv_refresh (hI : Inv settings s) {old new : H} (httl : 0 ≤ settings.refreshTtl)
    (hnew : new ∉ s.tokenHashes)
    (hnone : ∀ e, liveToken s.tokens old = some e → NoneReadTokens s e.value.userId) :
    Inv settings { s with
      tokens := (RefreshToken.rotateRefreshToken settings.refreshTtl s.tokens old new).2
      tokenHashes := insert new s.tokenHashes } := by
  have hne : ∀ e, liveToken s.tokens old = some e → old ≠ new := fun e he h =>
    hnew (h ▸ hI.tokens.issued old e he)
  refine ⟨hI.sessions, hI.tokens.rotate old httl hnew, fun login hmem c hc => ?_,
    fun change hmem => ?_⟩
  · refine (hI.login login hmem c hc).mono subset_rfl subset_rfl
      (fun _ _ e he => ⟨e, he, rfl⟩) (fun k e he _ => ?_) rfl
    rcases rotate_token httl hne he with he' | ⟨e₀, ht, -, rfl⟩
    · exact ⟨k, e, he', rfl, rfl⟩
    · exact ⟨old, e₀, ht, rfl, rfl⟩
  · refine (hI.change change hmem).mono (fun _ sid e he hu => ⟨e, he, hu⟩)
      (fun hread k e he hu => ?_) le_rfl
    rcases rotate_token httl hne he with he' | ⟨e₀, ht, -, rfl⟩
    · exact ⟨e, he', hu⟩
    · exact absurd hread (hnone e₀ ht change hmem hu.symm)

/-! ### The commit -/

/-- What is live of the other users is not affected, and of the user nothing is live. -/
theorem current_commit {u : Uuid} {users : List User} (hs : NoSessions s u) (ht : NoTokens s u)
    {login : Login S H F} {c : Credential S H F} (h : Current s login c) :
    Current { s with
      users := users
      passwordVersion := Function.update s.passwordVersion u (s.passwordVersion u + 1) } login c := by
  by_cases hu : login.userId = u
  · cases c with
    | session sid => exact ⟨h.1, fun e he => absurd ((h.2 e he).1.trans hu) (hs sid e he)⟩
    | refreshToken k f =>
      exact ⟨h.1, fun k' e he hf => absurd ((h.2 k' e he hf).1.trans hu) (ht k' e he)⟩
  · cases c with
    | session sid =>
      simp only [Current, Function.update_of_ne hu]
      exact h
    | refreshToken k f =>
      simp only [Current, Function.update_of_ne hu]
      exact h

/-- The commit of a change: nothing that was issued for the old password is left. -/
theorem inv_commit (hI : Inv settings s) {i : ℕ} {change : Change S H}
    (hs : NoSessions s change.userId) (ht : NoTokens s change.userId) :
    Inv settings ({ s with
      users := Accounts.spUpdateUserPassword s.users change.userId change.newPasswordHash
      passwordVersion := Function.update s.passwordVersion change.userId
        (s.passwordVersion change.userId + 1) }.goto i change
          (.succeeded (s.passwordVersion change.userId + 1))) := by
  generalize hs' : ({ s with
      users := Accounts.spUpdateUserPassword s.users change.userId change.newPasswordHash
      passwordVersion := Function.update s.passwordVersion change.userId
        (s.passwordVersion change.userId + 1) } : State T S H F) = s'
  have hI' : Inv settings s' := by
    subst hs'
    refine ⟨hI.sessions, hI.tokens, fun login hmem c hc => ?_, fun change' hmem => ?_⟩
    · exact current_commit hs ht (hI.login login hmem c hc)
    · refine (hI.change change' hmem).mono (fun _ sid e he hu => ⟨e, he, hu⟩)
        (fun _ h e he hu => ⟨e, he, hu⟩) ?_
      by_cases hu : change'.userId = change.userId
      · simp [hu]
      · simp [Function.update_of_ne hu]
  refine inv_goto hI' ?_
  subst hs'
  simp [Holds]

/-! ### Runs -/

/-- The events of a run of `machine`. -/
abbrev Event (T S H F : Type) [LE T] [DecidableLE T] : Type :=
  Machine.Event (State T S H F) (Call T S H F) (Reply T S F)

/-- The condition on a step.  A login that issues a session or a token was checked against the
current password, and no change of it under way has already read the index; a refresh does not run
while a change has read the index; an authentication does not shorten the life of the index of the
sessions below that of another session. -/
structure Undisturbed (settings : Settings T) (e : Event T S H F) : Prop where
  session : ∀ i sid csrfToken ip login, e.call = .issueSession i sid csrfToken ip →
    e.pre.logins[i]? = some login →
    login.passwordVersion = e.pre.passwordVersion login.userId ∧
      NoneReadSessions e.pre login.userId
  tokens : ∀ i h f login, e.call = .issueTokens i h f → e.pre.logins[i]? = some login →
    login.passwordVersion = e.pre.passwordVersion login.userId ∧ NoneReadTokens e.pre login.userId
  refresh : ∀ old new d, e.call = .refresh old new → liveToken e.pre.tokens old = some d →
    NoneReadTokens e.pre d.value.userId
  authenticate : ∀ sid, e.call = .authenticate sid →
    Session.TouchCovers settings.session ⟨e.pre.sessions, .authenticate sid, .done⟩

variable {w : World ι} {c : Call T S H F} {r : Reply T S F}

theorem inv_stepLogin (hI : Inv settings s) {i : ℕ} {login : Login S H F}
    (hlogin : s.logins[i]? = some login) (hi : c.login? = some i)
    (h : stepLogin settings s i login c = some (r, s')) (hok : Undisturbed settings ⟨s, c, r⟩) :
    Inv settings s' := by
  cases c with
  | issueSession j sid csrfToken ip =>
    obtain rfl := Option.some.inj hi
    simp only [stepLogin] at h
    split at h
    · rename_i hg
      obtain ⟨-, rfl⟩ := Prod.mk.inj (Option.some.inj h)
      obtain ⟨hv, hnone⟩ := hok.session j sid csrfToken ip login rfl hlogin
      exact inv_issue (inv_createSession hI hg.1.le hg.2.2 hnone)
        (current_createSession hg.1.le hv)
    · cases h
  | issueTokens j k f =>
    obtain rfl := Option.some.inj hi
    simp only [stepLogin] at h
    split at h
    · rename_i hg
      obtain ⟨-, rfl⟩ := Prod.mk.inj (Option.some.inj h)
      obtain ⟨hv, hnone⟩ := hok.tokens j k f login rfl hlogin
      have httl : 0 ≤ settings.refreshTtl := le_of_lt hg.1
      exact inv_issue (inv_storeRefreshToken hI httl hg.2.2.2 hnone)
        (current_storeRefreshToken hI httl hg.2.2.2 hv)
    · cases h
  | rollbackLogin j =>
    obtain ⟨-, rfl⟩ := Prod.mk.inj (Option.some.inj h)
    exact inv_rollback hI login
  | _ => cases hi

theorem inv_stepChange (hI : Inv settings s) {i : ℕ} {change : Change S H}
    (hchange : s.changes[i]? = some change) (h : stepChange s i change c = some (r, s')) :
    Inv settings s' := by
  have hholds := hI.change change (List.mem_of_getElem? hchange)
  unfold stepChange at h
  split at h
  · -- `delete_all_sessions` reads the index
    split at h
    · split at h
      · rename_i hl
        obtain ⟨-, rfl⟩ := Prod.mk.inj (Option.some.inj h)
        exact inv_goto hI (hI.sessions.lists hl)
      · cases h
    · cases h
  · split at h
    · rename_i hp
      obtain ⟨-, rfl⟩ := Prod.mk.inj (Option.some.inj h)
      rw [hp] at hholds
      -- the sessions that were read are deleted
      exact inv_sessionsExec hI hholds
    · cases h
  · -- `revoke_all_refresh_tokens` reads the index
    split at h
    · rename_i hp
      split at h
      · rename_i hl
        obtain ⟨-, rfl⟩ := Prod.mk.inj (Option.some.inj h)
        rw [hp] at hholds
        exact inv_goto hI ⟨hholds, hI.tokens.covered.lists hl⟩
      · cases h
    · cases h
  · split at h
    · rename_i hp
      obtain ⟨-, rfl⟩ := Prod.mk.inj (Option.some.inj h)
      rw [hp] at hholds
      -- the tokens that were read are deleted
      exact inv_tokensExec hI hholds.1 hholds.2
    · cases h
  · split at h
    · rename_i hp
      obtain ⟨-, rfl⟩ := Prod.mk.inj (Option.some.inj h)
      rw [hp] at hholds
      -- the new password is committed
      exact inv_commit hI hholds.1 hholds.2
    · cases h
  · split at h
    · cases h
    · obtain ⟨-, rfl⟩ := Prod.mk.inj (Option.some.inj h)
      exact inv_goto hI trivial
  · cases h

theorem inv_stepFirst (hI : Inv settings s) (h : stepFirst w settings s c = some (r, s'))
    (hok : Undisturbed settings ⟨s, c, r⟩) : Inv settings s' := by
  cases c with
  | login identifier password =>
    simp only [stepFirst] at h
    split at h
    · split at h
      · obtain ⟨-, rfl⟩ := Prod.mk.inj (Option.some.inj h)
        exact inv_login hI _ _
      · obtain ⟨-, rfl⟩ := Prod.mk.inj (Option.some.inj h)
        exact hI
    · obtain ⟨-, rfl⟩ := Prod.mk.inj (Option.some.inj h)
      exact hI
    · obtain ⟨-, rfl⟩ := Prod.mk.inj (Option.some.inj h)
      exact hI
  | authenticate sid =>
    simp only [stepFirst] at h
    split at h
    · rename_i httl
      obtain ⟨-, rfl⟩ := Prod.mk.inj (Option.some.inj h)
      exact inv_authenticate hI (Session.covered_authenticate hI.sessions httl
        (hok.authenticate sid rfl))
    · cases h
  | refresh old new =>
    simp only [stepFirst] at h
    split at h
    · rename_i hg
      obtain ⟨-, rfl⟩ := Prod.mk.inj (Option.some.inj h)
      exact inv_refresh hI (le_of_lt hg.1) hg.2 fun d hd => hok.refresh old new d rfl hd
    · cases h
  | changePassword u currentPassword newPassword salt =>
    simp only [stepFirst] at h
    split at h
    · obtain ⟨-, rfl⟩ := Prod.mk.inj (Option.some.inj h)
      exact hI
    · split at h
      · obtain ⟨-, rfl⟩ := Prod.mk.inj (Option.some.inj h)
        exact inv_begin hI u _
      · obtain ⟨-, rfl⟩ := Prod.mk.inj (Option.some.inj h)
        exact hI
  | resetPassword u newPassword salt =>
    obtain ⟨-, rfl⟩ := Prod.mk.inj (Option.some.inj h)
    exact inv_begin hI u _
  | otherWrite users =>
    simp only [stepFirst] at h
    split at h
    · obtain ⟨-, rfl⟩ := Prod.mk.inj (Option.some.inj h)
      exact hI.of_calls rfl rfl rfl rfl rfl rfl (fun _ h => Or.inl h) fun _ h => Or.inl h
    · cases h
  | tick d =>
    simp only [stepFirst] at h
    split at h
    · rename_i hd
      obtain ⟨-, rfl⟩ := Prod.mk.inj (Option.some.inj h)
      exact inv_tick hI hd
    · cases h
  | _ => cases h

/-- An undisturbed step keeps the invariant. -/
theorem Inv.step (hI : Inv settings s) (h : (machine w settings).step s c = some (r, s'))
    (hok : Undisturbed settings ⟨s, c, r⟩) : Inv settings s' := by
  simp only [machine] at h
  split at h
  · rename_i i _ hi
    obtain ⟨login, hlogin, h⟩ := Option.bind_eq_some_iff.mp h
    exact inv_stepLogin hI hlogin hi h hok
  · obtain ⟨change, hchange, h⟩ := Option.bind_eq_some_iff.mp h
    exact inv_stepChange hI hchange h
  · exact inv_stepFirst hI h hok

theorem inv_init (settings : Settings T) (now : T) (users : List User) :
    Inv settings (init now users : State T S H F) where
  sessions _ _ h := by cases h
  tokens :=
    { covered := fun _ _ h => by cases h
      expires := fun _ _ h => by cases h
      issued := fun _ _ h => by cases h
      family := fun _ _ h => by cases h }
  login _ h := absurd h List.not_mem_nil
  change _ h := absurd h List.not_mem_nil

theorem inv_run {now : T} {users : List User} {l : List (Event T S H F)}
    (h : (machine w settings).Run (init now users) l s)
    (hok : ∀ e ∈ l, Undisturbed settings e) : Inv settings s := by
  revert hok
  refine h.induction (fun l s => (∀ e ∈ l, Undisturbed settings e) → Inv settings s)
    (fun _ => inv_init settings now users) fun l s c r s' _ ih hs hok => ?_
  exact (ih fun e he => hok e (List.mem_append_left _ he)).step hs
    (hok _ (List.mem_append_right _ List.mem_cons_self))

/-- The session of the credential is accepted, or a refresh token of its family: the one that the
login has issued, or one obtained from it by refreshes. -/
def Accepted (settings : Settings T) (s : State T S H F) : Credential S H F → Prop
  | .session sid => ∃ u sid', (Session.authenticate settings.session s.sessions sid).1 =
      .context u sid'
  | .refreshToken _ f => ∃ h new d,
      (RefreshToken.rotateRefreshToken settings.refreshTtl s.tokens h new).1 = .refreshData d ∧
        d.familyId = f

/-- No credential of a login that was checked against an older password than the one of a successful
change is accepted. -/
def OldLoginsKilled (settings : Settings T) (s : State T S H F) : Prop :=
  ∀ change ∈ s.changes, ∀ v, change.phase = .succeeded v → ∀ login ∈ s.logins,
    login.userId = change.userId → login.passwordVersion < v →
      ∀ c, login.credential = some c → ¬Accepted settings s c

/-- What is accepted is of the current password. -/
theorem Current.passwordVersion_of_accepted {login : Login S H F} {c : Credential S H F}
    (h : Current s login c) (ha : Accepted settings s c) :
    login.passwordVersion = s.passwordVersion login.userId := by
  cases c with
  | session sid =>
    obtain ⟨u, sid', hctx⟩ := ha
    obtain ⟨e, he⟩ := Session.authenticate_context hctx
    exact (h.2 e he).2
  | refreshToken k f =>
    obtain ⟨k', new, d, hrot, rfl⟩ := ha
    obtain ⟨e, he, hf⟩ := RefreshToken.rotateRefreshToken_refreshData hrot
    exact (h.2 k' e he hf).2

/-- **A change of the password kills the old logins.** In a run of undisturbed steps, once a change
of the password has returned success, nothing that a login with an older password has issued is
accepted. -/
theorem change_kills_logins {now : T} {users : List User} {l : List (Event T S H F)}
    (h : (machine w settings).Run (init now users) l s)
    (hok : ∀ e ∈ l, Undisturbed settings e) : OldLoginsKilled settings s := by
  have hI := inv_run h hok
  intro change hchange v hphase login hlogin hu hv c hc hacc
  have hcur := (hI.login login hlogin c hc).passwordVersion_of_accepted hacc
  have hle := hI.change change hchange
  rw [hphase] at hle
  have hle' : v ≤ s.passwordVersion change.userId := hle
  rw [hu] at hcur
  omega

/-- A user with a password, and hashes that are the passwords. -/
def exampleWorld : World Unit where
  lower email := email
  hashPassword password _ := password
  verifyPassword password passwordHash := decide (password = passwordHash)
  googleUsername sub := sub
  mailboxOwner _ := ()
  googleOwner _ := ()

def exampleUsers : List User := [⟨"hanako", "hanako@example.com", some "old", .member, true, some 0⟩]

def exampleSettings : Settings ℤ := ⟨⟨10, 100⟩, 50⟩

/-- The login checks the old password before the change and creates its session afterwards. -/
def lateLoginRun : List (Event ℤ ℕ ℕ ℕ) × State ℤ ℕ ℕ ℕ :=
  (machine exampleWorld exampleSettings).runOf (init 0 exampleUsers)
    [.login "hanako" "old", .changePassword 0 (some "old") "new" 1, .sessionsRead 0 [],
      .sessionsExec 0, .tokensRead 0 [], .tokensExec 0, .commit 0, .issueSession 0 1 "csrf" none]
    (by decide)

/-- Without the condition the session of a login with the old password is accepted after the
change. -/
theorem late_login_survives : ¬∀ (l : List (Event ℤ ℕ ℕ ℕ)) (s : State ℤ ℕ ℕ ℕ),
    (machine exampleWorld exampleSettings).Run (init 0 exampleUsers) l s →
      OldLoginsKilled exampleSettings s := by
  intro hall
  have hkilled := hall _ _ (Machine.run_runOf _ _ _ _ :
    (machine exampleWorld exampleSettings).Run (init 0 exampleUsers) lateLoginRun.1 lateLoginRun.2)
  refine hkilled ⟨0, "new", .succeeded 1⟩ ?_ 1 rfl ⟨0, 0, some (.session 1)⟩ ?_ rfl (by decide) _
    rfl ⟨0, 1, rfl⟩
  · exact List.mem_singleton.mpr rfl
  · exact List.mem_singleton.mpr rfl

/-- A session of the old password is revoked by the change, and a login with the new one follows. -/
def changedRun : List (Event ℤ ℕ ℕ ℕ) × State ℤ ℕ ℕ ℕ :=
  (machine exampleWorld exampleSettings).runOf (init 0 exampleUsers)
    [.login "hanako" "old", .issueSession 0 1 "csrf" none, .changePassword 0 (some "old") "new" 1,
      .sessionsRead 0 [1], .sessionsExec 0, .tokensRead 0 [], .tokensExec 0, .commit 0,
      .login "hanako" "new", .issueSession 1 2 "csrf" none]
    (by decide)

theorem change_kills_logins_changedRun : OldLoginsKilled exampleSettings changedRun.2 ∧
    Accepted exampleSettings changedRun.2 (.session 2) := by
  have hrun : (machine exampleWorld exampleSettings).Run (init 0 exampleUsers) changedRun.1
      changedRun.2 := Machine.run_runOf _ _ _ _
  refine ⟨change_kills_logins hrun fun e he => ?_, 0, 2, rfl⟩
  obtain ⟨⟨i, hi⟩, rfl⟩ := List.get_of_mem he
  match i, hi with
  | 0, _ => exact ⟨nofun, nofun, nofun, nofun⟩
  | 1, _ =>
    refine ⟨fun j sid csrfToken ip login hc hlogin => ?_, nofun, nofun, nofun⟩
    obtain ⟨rfl, -⟩ := Call.issueSession.inj hc
    obtain rfl := Option.some.inj (show some _ = some login from hlogin)
    exact ⟨rfl, fun change hmem => absurd hmem List.not_mem_nil⟩
  | 2, _ => exact ⟨nofun, nofun, nofun, nofun⟩
  | 3, _ => exact ⟨nofun, nofun, nofun, nofun⟩
  | 4, _ => exact ⟨nofun, nofun, nofun, nofun⟩
  | 5, _ => exact ⟨nofun, nofun, nofun, nofun⟩
  | 6, _ => exact ⟨nofun, nofun, nofun, nofun⟩
  | 7, _ => exact ⟨nofun, nofun, nofun, nofun⟩
  | 8, _ => exact ⟨nofun, nofun, nofun, nofun⟩
  | 9, _ =>
    refine ⟨fun j sid csrfToken ip login hc hlogin => ?_, nofun, nofun, nofun⟩
    obtain ⟨rfl, -⟩ := Call.issueSession.inj hc
    obtain rfl := Option.some.inj (show some _ = some login from hlogin)
    refine ⟨rfl, fun change hmem _ hread => ?_⟩
    -- the change has succeeded
    obtain rfl := List.mem_singleton.mp hmem
    exact hread

end CredentialChange
