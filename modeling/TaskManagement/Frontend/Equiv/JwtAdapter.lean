import TaskManagement.Frontend.JwtAdapter

/-!
# Refreshes of the JWT adapter

`single_flight`: in every run at most one refresh request is in flight and no request is sent more
than twice; `refreshPromise` is cleared whenever no refresh is in flight exactly in the runs in
which no refresh throws before its first `await`.  After such a refresh the adapter keeps a promise
that is settled already, and never refreshes again (`not_idleCleared`).

`logged_out_token`: the access token stays away after a logout exactly in the runs in which no
refresh brings a token while the user is logged out (`token_resurrected`).

* `PromiseStep`, `RequestStep` and `TokenStep` list what a step can do to each part of the state;
* `Inv` is what every run keeps.
-/

namespace JwtAdapter

set_option linter.unusedSectionVars false

variable {Tok ι : Type} {csrf : String}

/-- The events of a run of `machine`. -/
abbrev Event (Tok ι : Type) : Type := Machine.Event (State Tok ι) (Call Tok ι) Unit

/-! ### What a step does to the promises -/

/-- What `refresh()` finds, when the event starts a refresh. -/
def startedRefresh (e : Event Tok ι) : Option Env :=
  match e.pre.refreshPromise with
  | some _ => none
  | none =>
    match e.call with
    | .restoreSession env => some env
    | .unauthorized i env =>
      match e.pre.requests i with
      | some r => if r.retried ∨ r.refreshExempt then none else some env
      | none => none
    | _ => none

/-- The event starts a refresh that throws before its first `await`. -/
def ThrowsAtOnce (csrf : String) (e : Event Tok ι) : Prop :=
  ∃ env, startedRefresh e = some env ∧ env.throws csrf

/-- What a step does to the promises, by the event it is. -/
inductive PromiseStep (csrf : String) (e : Event Tok ι) (s' : State Tok ι) : Prop where
  | quiet : startedRefresh e = none → s'.refreshPromise = e.pre.refreshPromise →
      s'.promises = e.pre.promises → PromiseStep csrf e s'
  | start (env : Env) : startedRefresh e = some env → e.pre.refreshPromise = none →
      s'.refreshPromise = some e.pre.promises.length →
      s'.promises = e.pre.promises ++ [if env.throws csrf then .settled false else .pending] →
      PromiseStep csrf e s'
  | finish (p : ℕ) (ok : Bool) : startedRefresh e = none → e.pre.promises[p]? = some .pending →
      s'.refreshPromise = none → s'.promises = e.pre.promises.set p (.settled ok) →
      PromiseStep csrf e s'

theorem refresh_refreshPromise (s : State Tok ι) (env : Env) :
    (refresh csrf s env).refreshPromise = some s.promises.length := by
  unfold refresh
  split_ifs <;> rfl

theorem refresh_promises (s : State Tok ι) (env : Env) : (refresh csrf s env).promises =
    s.promises ++ [if env.throws csrf then .settled false else .pending] := by
  unfold refresh
  split_ifs <;> rfl

theorem refresh_requests (s : State Tok ι) (env : Env) :
    (refresh csrf s env).requests = s.requests := by
  unfold refresh
  split_ifs <;> rfl

theorem refresh_accessToken (s : State Tok ι) (env : Env) :
    (refresh csrf s env).accessToken = s.accessToken ∨ (refresh csrf s env).accessToken = none := by
  unfold refresh
  split_ifs
  · exact Or.inr rfl
  · exact Or.inl rfl

theorem sharedRefresh_of_none {s : State Tok ι} (h : s.refreshPromise = none) (env : Env) :
    sharedRefresh csrf s env = (s.promises.length, refresh csrf s env) := by
  unfold sharedRefresh
  rw [h]

theorem sharedRefresh_of_some {s : State Tok ι} {p : ℕ} (h : s.refreshPromise = some p)
    (env : Env) :
    sharedRefresh csrf s env = (p, s) := by
  unfold sharedRefresh
  rw [h]

theorem sharedRefresh_requests (s : State Tok ι) (env : Env) :
    (sharedRefresh csrf s env).2.requests = s.requests := by
  cases h : s.refreshPromise with
  | none =>
    rw [sharedRefresh_of_none h]
    exact refresh_requests s env
  | some p => rw [sharedRefresh_of_some h]

theorem sharedRefresh_accessToken (csrf : String) (s : State Tok ι) (env : Env) :
    (sharedRefresh csrf s env).2.accessToken = s.accessToken ∨
      (sharedRefresh csrf s env).2.accessToken = none := by
  cases h : s.refreshPromise with
  | none =>
    rw [sharedRefresh_of_none h]
    exact refresh_accessToken s env
  | some p =>
    rw [sharedRefresh_of_some h]
    exact Or.inl rfl

/-- A call that asks for a refresh starts one when no promise is kept, and does nothing
otherwise. -/
theorem promiseStep_of_sharedRefresh {e : Event Tok ι} {s' : State Tok ι} (env : Env)
    (hask : e.pre.refreshPromise = none → startedRefresh e = some env)
    (hp : s'.refreshPromise = (sharedRefresh csrf e.pre env).2.refreshPromise)
    (hl : s'.promises = (sharedRefresh csrf e.pre env).2.promises) : PromiseStep csrf e s' := by
  cases h : e.pre.refreshPromise with
  | none =>
    rw [sharedRefresh_of_none h] at hp hl
    refine .start env (hask h) h ?_ ?_
    · rw [hp, refresh_refreshPromise]
    · rw [hl, refresh_promises]
  | some p =>
    rw [sharedRefresh_of_some h] at hp hl
    refine .quiet ?_ hp hl
    simp only [startedRefresh, h]

/-- An event that is no 401 and no `restoreSession` starts no refresh. -/
theorem startedRefresh_eq_none {e : Event Tok ι} (h₁ : ∀ env, e.call ≠ .restoreSession env)
    (h₂ : ∀ i env, e.call ≠ .unauthorized i env) : startedRefresh e = none := by
  unfold startedRefresh
  split
  · rfl
  · split
    · exact absurd ‹_› (h₁ _)
    · exact absurd ‹_› (h₂ _ _)
    · rfl

variable [DecidableEq ι] {s s' : State Tok ι} {c : Call Tok ι} {r : Unit}

variable (csrf s) in
/-- The steps of the machine, one case for each call and for each way a request goes on. -/
inductive StepCase : Call Tok ι → State Tok ι → Prop
  | request {i : ι} {refreshExempt logoutExempt : Bool} :
      StepCase (.request i refreshExempt logoutExempt)
        (setRequest s i ⟨1, false, refreshExempt, logoutExempt, .inFlight⟩)
  | answered {i : ι} {q : Request} (hi : s.requests i = some q) :
      StepCase (.answered i) (setRequest s i { q with phase := .done })
  | unauthorized {i : ι} {q : Request} {env : Env} (hi : s.requests i = some q) :
      StepCase (.unauthorized i env) (onUnauthorized csrf s i q env)
  | refused {i : ι} {q : Request} (hi : s.requests i = some q) (hq : q.phase = .refused) :
      StepCase (.resume i) (afterUnauthorized s i q false)
  | resumed {i : ι} {q : Request} {p : ℕ} {ok : Bool} (hi : s.requests i = some q)
      (hq : q.phase = .waiting p) (hp : s.promises[p]? = some (.settled ok)) :
      StepCase (.resume i) (afterUnauthorized s i q ok)
  | restoreSession {env : Env} :
      StepCase (.restoreSession env) (sharedRefresh csrf s env).2
  | refreshAnswered {p : ℕ} {answer : Answer Tok} (hp : s.promises[p]? = some .pending) :
      StepCase (.refreshAnswered p answer) (finishRefresh s p answer)
  | loginSuccess {accessToken : Option Tok} :
      StepCase (.loginSuccess accessToken) (onLoginSuccess s accessToken)
  | logout : StepCase .logout (onLogout s)

theorem step_cases (h : (machine csrf).step s c = some (r, s')) : StepCase csrf s c s' := by
  cases c with
  | request i refreshExempt logoutExempt =>
    simp only [machine] at h
    split at h
    · obtain ⟨-, rfl⟩ := Prod.mk.inj (Option.some.inj h)
      exact .request
    · cases h
  | answered i =>
    simp only [machine] at h
    split at h
    · split_ifs at h
      obtain ⟨-, rfl⟩ := Prod.mk.inj (Option.some.inj h)
      exact .answered ‹_›
    · cases h
  | unauthorized i env =>
    simp only [machine] at h
    split at h
    · split_ifs at h
      obtain ⟨-, rfl⟩ := Prod.mk.inj (Option.some.inj h)
      exact .unauthorized ‹_›
    · cases h
  | resume i =>
    simp only [machine] at h
    split at h
    · rename_i q hi
      split at h
      · rename_i hq
        obtain ⟨-, rfl⟩ := Prod.mk.inj (Option.some.inj h)
        exact .refused hi hq
      · rename_i p hq
        split at h
        · rename_i ok hp
          obtain ⟨-, rfl⟩ := Prod.mk.inj (Option.some.inj h)
          exact .resumed hi hq hp
        · cases h
      · cases h
    · cases h
  | restoreSession env =>
    obtain ⟨-, rfl⟩ := Prod.mk.inj (Option.some.inj h)
    exact .restoreSession
  | refreshAnswered p answer =>
    simp only [machine] at h
    split_ifs at h with hp
    obtain ⟨-, rfl⟩ := Prod.mk.inj (Option.some.inj h)
    exact .refreshAnswered hp
  | loginSuccess accessToken =>
    obtain ⟨-, rfl⟩ := Prod.mk.inj (Option.some.inj h)
    exact .loginSuccess
  | logout =>
    obtain ⟨-, rfl⟩ := Prod.mk.inj (Option.some.inj h)
    exact .logout

theorem promiseStep_of_step (h : (machine csrf).step s c = some (r, s')) :
    PromiseStep csrf ⟨s, c, r⟩ s' := by
  have hresume (i : ι) (q : Request) (ok : Bool) :
      PromiseStep csrf ⟨s, .resume i, r⟩ (afterUnauthorized s i q ok) := by
    unfold afterUnauthorized
    split_ifs <;> exact .quiet (startedRefresh_eq_none (by simp) (by simp)) rfl rfl
  cases step_cases h with
  | request | answered _ | logout =>
    exact .quiet (startedRefresh_eq_none (by simp) (by simp)) rfl rfl
  | @unauthorized i q env hi =>
    unfold onUnauthorized
    split_ifs with hexempt
    · refine .quiet ?_ rfl rfl
      unfold startedRefresh
      simp only [hi, hexempt, if_true]
      split <;> rfl
    · refine promiseStep_of_sharedRefresh env (fun hnone => ?_) rfl rfl
      have hask : startedRefresh ⟨s, .unauthorized i env, r⟩ =
          if q.retried ∨ q.refreshExempt then none else some env := by
        simp only [startedRefresh, show s.refreshPromise = none from hnone, hi]
      rw [hask, if_neg hexempt]
  | refused _ _ | resumed _ _ _ => exact hresume _ _ _
  | @restoreSession env =>
    refine promiseStep_of_sharedRefresh env (fun hnone => ?_) rfl rfl
    simp only [startedRefresh, show s.refreshPromise = none from hnone]
  | @refreshAnswered p answer hp =>
    have hquiet : startedRefresh (⟨s, .refreshAnswered p answer, r⟩ : Event Tok ι) = none :=
      startedRefresh_eq_none (by simp) (by simp)
    cases answer with
    | success accessToken =>
      cases accessToken <;> exact .finish p true hquiet hp rfl rfl
    | failure => exact .finish p false hquiet hp rfl rfl
  | @loginSuccess accessToken =>
    have hquiet : startedRefresh (⟨s, .loginSuccess accessToken, r⟩ : Event Tok ι) = none :=
      startedRefresh_eq_none (by simp) (by simp)
    cases accessToken <;> exact .quiet hquiet rfl rfl

/-! ### What a step does to the requests -/

/-- Where the request `q` of a state after a step comes from: it was there before, it is new, or the
step took one of the moves of the interceptor with it. -/
inductive RequestStep (e : Event Tok ι) (i : ι) (q : Request) : Prop where
  | same : e.pre.requests i = some q → RequestStep e i q
  | sent : q.sent = 1 → q.retried = false → q.phase = .inFlight → RequestStep e i q
  | settled (q₀ : Request) : e.pre.requests i = some q₀ → q.sent = q₀.sent →
      q.retried = q₀.retried → (∀ p, q.phase ≠ .waiting p) → RequestStep e i q
  | asked (q₀ : Request) (p : ℕ) : e.pre.requests i = some q₀ → q.sent = q₀.sent →
      q₀.retried = false → q.retried = true → q.phase = .waiting p → RequestStep e i q
  | resent (q₀ : Request) (p : ℕ) : e.pre.requests i = some q₀ → q₀.phase = .waiting p →
      q.sent = q₀.sent + 1 → q.retried = q₀.retried → q.phase = .inFlight → RequestStep e i q

/-- A step that sets the request `i`, and no other. -/
theorem requestStep_of_setRequest {e : Event Tok ι} {t : State Tok ι} {i j : ι} {q q' : Request}
    (hj : (setRequest t i q).requests j = some q') (ht : t.requests = e.pre.requests)
    (hq : RequestStep e i q) : RequestStep e j q' := by
  have hupd : (setRequest t i q).requests = Function.update e.pre.requests i (some q) := by
    rw [← ht]
    rfl
  rw [hupd] at hj
  by_cases hij : j = i
  · subst hij
    rw [Function.update_self] at hj
    obtain rfl := Option.some.inj hj
    exact hq
  · rw [Function.update_of_ne hij] at hj
    exact .same hj

/-- A request that is not sent again has its answer. -/
theorem requestStep_of_logout {i j : ι} {q q₀ : Request} (hj : s.requests j = some q₀)
    (hq : (afterUnauthorized s j q₀ false).requests i = some q) :
    RequestStep ⟨s, .resume j, r⟩ i q := by
  unfold afterUnauthorized at hq
  simp only [Bool.false_eq_true, if_false] at hq
  refine requestStep_of_setRequest hq ?_ (.settled q₀ hj rfl rfl (by simp))
  split_ifs <;> rfl

theorem requestStep_of_step (h : (machine csrf).step s c = some (r, s')) (i : ι) (q : Request)
    (hq : s'.requests i = some q) : RequestStep ⟨s, c, r⟩ i q := by
  cases step_cases h with
  | request => exact requestStep_of_setRequest hq rfl (.sent rfl rfl rfl)
  | answered hj => exact requestStep_of_setRequest hq rfl (.settled _ hj rfl rfl (by simp))
  | @unauthorized j q₀ env hj =>
    unfold onUnauthorized at hq
    split_ifs at hq with hexempt
    · exact requestStep_of_setRequest hq rfl (.settled q₀ hj rfl rfl (by simp))
    · have hretried : q₀.retried = false := by
        simpa using fun hr => hexempt (Or.inl hr)
      exact requestStep_of_setRequest hq (sharedRefresh_requests s env)
        (.asked q₀ _ hj rfl hretried rfl rfl)
  | refused hj _ => exact requestStep_of_logout hj hq
  | @resumed j q₀ p ok hj hp _ =>
    cases ok with
    | true => exact requestStep_of_setRequest hq rfl (.resent q₀ p hj hp rfl rfl rfl)
    | false => exact requestStep_of_logout hj hq
  | restoreSession => exact .same ((congrFun (sharedRefresh_requests s _) i).symm.trans hq)
  | @refreshAnswered p answer _ =>
    have hsame : (finishRefresh s p answer).requests = s.requests := by
      cases answer with
      | success accessToken => cases accessToken <;> rfl
      | failure => rfl
    exact .same ((congrFun hsame i).symm.trans hq)
  | @loginSuccess accessToken =>
    have hsame : (onLoginSuccess s accessToken).requests = s.requests := by
      cases accessToken <;> rfl
    exact .same ((congrFun hsame i).symm.trans hq)
  | logout => exact .same hq

/-! ### What a step does to the access token -/

/-- The event runs `onLogout`, or clears the token store. -/
def LogsOut (e : Event Tok ι) : Prop :=
  match e.call with
  | .logout => True
  | .resume i => ∃ q, e.pre.requests i = some q ∧ q.logoutExempt = false ∧
      (q.phase = .refused ∨ ∃ p, q.phase = .waiting p ∧ e.pre.promises[p]? = some (.settled false))
  | _ => False

/-- The event is a login success. -/
def LogsIn (e : Event Tok ι) : Prop := ∃ accessToken, e.call = .loginSuccess accessToken

/-- The event is a refresh response that brings a token. -/
def BringsToken (e : Event Tok ι) : Prop := ∃ p t, e.call = .refreshAnswered p (.success (some t))

/-- What a step does to the access token, by the event it is. -/
inductive TokenStep (e : Event Tok ι) (s' : State Tok ι) : Prop where
  | login : LogsIn e → ¬LogsOut e → TokenStep e s'
  | refreshed : BringsToken e → ¬LogsOut e → ¬LogsIn e → s'.accessToken ≠ none → TokenStep e s'
  | cleared : ¬LogsIn e → ¬BringsToken e → s'.accessToken = none → TokenStep e s'
  | same : ¬LogsOut e → ¬LogsIn e → ¬BringsToken e → s'.accessToken = e.pre.accessToken →
      TokenStep e s'

/-- A request that is not sent again logs out, unless it is exempt. -/
theorem tokenStep_of_logout {i : ι} {q : Request} (hi : s.requests i = some q) :
    TokenStep ⟨s, .resume i, r⟩ (afterUnauthorized s i q false) := by
  have hin : ¬LogsIn (⟨s, .resume i, r⟩ : Event Tok ι) := by simp [LogsIn]
  have hbring : ¬BringsToken (⟨s, .resume i, r⟩ : Event Tok ι) := by simp [BringsToken]
  cases hexempt : q.logoutExempt with
  | false =>
    refine .cleared hin hbring ?_
    simp only [afterUnauthorized, hexempt, Bool.false_eq_true, if_false]
    rfl
  | true =>
    refine .same ?_ hin hbring ?_
    · rintro ⟨q', hq', hexempt', -⟩
      obtain rfl := Option.some.inj (hi.symm.trans hq')
      rw [hexempt] at hexempt'
      cases hexempt'
    · simp only [afterUnauthorized, hexempt, Bool.false_eq_true, if_false, if_true]
      rfl

theorem tokenStep_of_step (h : (machine csrf).step s c = some (r, s')) :
    TokenStep ⟨s, c, r⟩ s' := by
  cases step_cases h with
  | request | answered _ =>
    exact .same (by simp [LogsOut]) (by simp [LogsIn]) (by simp [BringsToken]) rfl
  | @unauthorized i q env _ =>
    unfold onUnauthorized
    split_ifs
    · exact .same (by simp [LogsOut]) (by simp [LogsIn]) (by simp [BringsToken]) rfl
    · rcases sharedRefresh_accessToken csrf s env with ht | ht
      · exact .same (by simp [LogsOut]) (by simp [LogsIn]) (by simp [BringsToken]) ht
      · exact .cleared (by simp [LogsIn]) (by simp [BringsToken]) ht
  | refused hi _ => exact tokenStep_of_logout hi
  | @resumed i q p ok hi hp hok =>
    cases ok with
    | false => exact tokenStep_of_logout hi
    | true =>
      -- a request that is sent again does not log out
      refine .same ?_ (by simp [LogsIn]) (by simp [BringsToken]) rfl
      rintro ⟨q', hq', -, hphase⟩
      obtain rfl := Option.some.inj (hi.symm.trans hq')
      rcases hphase with hphase | ⟨p', hp', hfalse⟩
      · cases hp.symm.trans hphase
      · obtain rfl := Phase.waiting.inj (hp.symm.trans hp')
        cases hok.symm.trans hfalse
  | @restoreSession env =>
    rcases sharedRefresh_accessToken csrf s env with ht | ht
    · exact .same (by simp [LogsOut]) (by simp [LogsIn]) (by simp [BringsToken]) ht
    · exact .cleared (by simp [LogsIn]) (by simp [BringsToken]) ht
  | @refreshAnswered p answer _ =>
    cases answer with
    | success accessToken =>
      cases accessToken with
      | none => exact .same (by simp [LogsOut]) (by simp [LogsIn]) (by simp [BringsToken]) rfl
      | some t =>
        refine .refreshed ⟨p, t, rfl⟩ (by simp [LogsOut]) (by simp [LogsIn]) ?_
        exact Option.some_ne_none t
    | failure => exact .cleared (by simp [LogsIn]) (by simp [BringsToken]) rfl
  | @loginSuccess accessToken => exact .login ⟨accessToken, rfl⟩ (by simp [LogsOut])
  | logout => exact .cleared (by simp [LogsIn]) (by simp [BringsToken]) rfl

/-! ### One refresh at a time -/

/-- What every run keeps. -/
structure Inv (s : State Tok ι) : Prop where
  /-- A refresh in flight is the promise that is kept. -/
  pending_kept : ∀ p, s.promises[p]? = some .pending → s.refreshPromise = some p
  sent_le : ∀ i q, s.requests i = some q → q.sent ≤ 2
  /-- A request that was not sent again yet was sent once. -/
  sent_once : ∀ i q, s.requests i = some q →
    (q.retried = false ∨ ∃ p, q.phase = .waiting p) → q.sent ≤ 1
  waiting_retried : ∀ i q p, s.requests i = some q → q.phase = .waiting p → q.retried = true

theorem inv_init : Inv (init : State Tok ι) where
  pending_kept := by simp [init]
  sent_le := by simp [init]
  sent_once := by simp [init]
  waiting_retried := by simp [init]

/-- While no promise is kept, no refresh is in flight. -/
theorem Inv.not_pending (hI : Inv s) (hnone : s.refreshPromise = none) (p : ℕ) :
    s.promises[p]? ≠ some .pending := by
  intro hp
  have hkept := hI.pending_kept p hp
  rw [hnone] at hkept
  cases hkept

theorem pending_of_snoc {l : List RefreshResult} {a : RefreshResult} {p : ℕ}
    (h : (l ++ [a])[p]? = some .pending) : l[p]? = some .pending ∨ p = l.length ∧ a = .pending := by
  rcases Nat.lt_trichotomy p l.length with hlt | rfl | hgt
  · rw [List.getElem?_append_left hlt] at h
    exact Or.inl h
  · rw [List.getElem?_concat_length] at h
    exact Or.inr ⟨rfl, Option.some.inj h⟩
  · rw [List.getElem?_eq_none (by simpa using Nat.succ_le_of_lt hgt)] at h
    cases h

/-- Only a promise that is added can be in flight after a step and not before. -/
theorem PromiseStep.pending_kept {e : Event Tok ι} (h : PromiseStep csrf e s') (hI : Inv e.pre)
    (p : ℕ) (hp : s'.promises[p]? = some .pending) : s'.refreshPromise = some p := by
  cases h with
  | quiet _ hr hl =>
    rw [hl] at hp
    rw [hr]
    exact hI.pending_kept p hp
  | start env _ hnone hr hl =>
    rw [hl] at hp
    rcases pending_of_snoc hp with hp | ⟨rfl, -⟩
    · exact absurd hp (hI.not_pending hnone p)
    · exact hr
  | finish q ok _ hq hr hl =>
    rw [hl] at hp
    by_cases hpq : q = p
    · subst hpq
      rw [List.getElem?_set_self'] at hp
      simp [hq] at hp
    · rw [List.getElem?_set_ne hpq] at hp
      have hkept := hI.pending_kept p hp
      rw [hI.pending_kept q hq] at hkept
      exact absurd (Option.some.inj hkept) hpq

theorem Inv.step {e : Event Tok ι} (hI : Inv e.pre) (hp : PromiseStep csrf e s')
    (hq : ∀ i q, s'.requests i = some q → RequestStep e i q) : Inv s' where
  pending_kept := hp.pending_kept hI
  sent_le i q h := by
    cases hq i q h with
    | same h₀ => exact hI.sent_le i q h₀
    | sent hs => omega
    | settled q₀ h₀ hs => exact hs ▸ hI.sent_le i q₀ h₀
    | asked q₀ p h₀ hs => exact hs ▸ hI.sent_le i q₀ h₀
    | resent q₀ p h₀ hw hs =>
      have := hI.sent_once i q₀ h₀ (Or.inr ⟨p, hw⟩)
      omega
  sent_once i q h hor := by
    cases hq i q h with
    | same h₀ => exact hI.sent_once i q h₀ hor
    | sent hs => omega
    | settled q₀ h₀ hs hr hnw =>
      rcases hor with hor | ⟨p, hw⟩
      · exact hs ▸ hI.sent_once i q₀ h₀ (Or.inl (hr ▸ hor))
      · exact absurd hw (hnw p)
    | asked q₀ p h₀ hs hr => exact hs ▸ hI.sent_once i q₀ h₀ (Or.inl hr)
    | resent q₀ p h₀ hw _ hr hph =>
      rcases hor with hor | ⟨p', hw'⟩
      · rw [hr, hI.waiting_retried i q₀ p h₀ hw] at hor
        cases hor
      · cases hph.symm.trans hw'
  waiting_retried i q p h hw := by
    cases hq i q h with
    | same h₀ => exact hI.waiting_retried i q p h₀ hw
    | sent _ _ hph => cases hph.symm.trans hw
    | settled q₀ h₀ _ _ hnw => exact absurd hw (hnw p)
    | asked q₀ p' _ _ _ hr => exact hr
    | resent q₀ p' _ _ _ _ hph => cases hph.symm.trans hw

variable {l : List (Event Tok ι)}

theorem inv_of_run (h : (machine csrf).Run init l s) : Inv s :=
  h.induction (fun _ s => Inv s) inv_init fun _ _ _ _ _ _ hI hs =>
    hI.step (promiseStep_of_step hs) (requestStep_of_step hs)

/-- At most one refresh request is in flight. -/
def OneInFlight (s : State Tok ι) : Prop :=
  ∀ p q : ℕ, s.promises[p]? = some .pending → s.promises[q]? = some .pending → p = q

/-- Every request was sent at most twice. -/
def SentAtMostTwice (s : State Tok ι) : Prop := ∀ i q, s.requests i = some q → q.sent ≤ 2

/-- If no refresh is in flight, `refreshPromise` is null. -/
def IdleCleared (s : State Tok ι) : Prop :=
  (∀ p : ℕ, s.promises[p]? ≠ some .pending) → s.refreshPromise = none

/-- A refresh that throws at once leaves a settled promise behind. -/
theorem not_idleCleared {e : Event Tok ι} (hI : Inv e.pre) (hp : PromiseStep csrf e s')
    (ht : ThrowsAtOnce csrf e) : ¬IdleCleared s' := by
  obtain ⟨env, hstart, hthrows⟩ := ht
  cases hp with
  | quiet hn => rw [hn] at hstart; cases hstart
  | finish q ok hn => rw [hn] at hstart; cases hstart
  | start env' hstart' hnone hr hl =>
    obtain rfl := Option.some.inj (hstart'.symm.trans hstart)
    rw [if_pos hthrows] at hl
    have hnot : ∀ p : ℕ, s'.promises[p]? ≠ some .pending := by
      intro p hpend
      rw [hl] at hpend
      rcases pending_of_snoc hpend with hpend | ⟨-, hpend⟩
      · exact hI.not_pending hnone p hpend
      · cases hpend
    intro hidle
    have hnull := hidle hnot
    rw [hr] at hnull
    cases hnull

/-- While no refresh throws at once, a promise that is kept is in flight. -/
theorem kept_pending (h : (machine csrf).Run init l s) (hl : ∀ e ∈ l, ¬ThrowsAtOnce csrf e) :
    ∀ p : ℕ, s.refreshPromise = some p → s.promises[p]? = some .pending := by
  revert hl
  refine h.induction (fun l s => (∀ e ∈ l, ¬ThrowsAtOnce csrf e) →
    ∀ p : ℕ, s.refreshPromise = some p → s.promises[p]? = some .pending) (by simp [init]) ?_
  intro l s c r s' _ ih hs hl p hp
  have hbefore := ih fun e he => hl e (List.mem_append_left _ he)
  have hnow := hl ⟨s, c, r⟩ (List.mem_append_right _ List.mem_cons_self)
  cases promiseStep_of_step hs with
  | quiet _ hr hpr =>
    rw [hr] at hp
    rw [hpr]
    exact hbefore p hp
  | start env hstart _ hr hpr =>
    have hno : ¬env.throws csrf = true := fun ht => hnow ⟨env, hstart, ht⟩
    rw [hr] at hp
    obtain rfl := Option.some.inj hp
    rw [hpr, if_neg hno]
    exact List.getElem?_concat_length
  | finish q ok _ _ hr _ =>
    rw [hr] at hp
    cases hp

/-- **Refreshes are single-flight**: at most one is in flight, and every request is sent at most
twice.  An adapter that is idle in every state of the run keeps no promise exactly when no refresh
of the run throws before its first `await`. -/
theorem single_flight (h : (machine csrf).Run init l s) :
    OneInFlight s ∧ SentAtMostTwice s ∧
      ((∀ l₁ l₂ s₁, l = l₁ ++ l₂ → (machine csrf).Run init l₁ s₁ → IdleCleared s₁) ↔
        ∀ e ∈ l, ¬ThrowsAtOnce csrf e) := by
  have hI := inv_of_run h
  refine ⟨fun p q hp hq => ?_, hI.sent_le, fun hall e he ht => ?_, fun hl l₁ l₂ s₁ hl₁ h₁ => ?_⟩
  · exact Option.some.inj ((hI.pending_kept p hp).symm.trans (hI.pending_kept q hq))
  · obtain ⟨l₁, l₂, rfl⟩ := List.append_of_mem he
    obtain ⟨hpre, s₁, hs, -⟩ := h.split
    have hafter : (machine csrf).Run init (l₁ ++ [e]) s₁ := .snoc hpre hs
    refine not_idleCleared (inv_of_run hpre) (promiseStep_of_step hs) ht ?_
    exact hall (l₁ ++ [e]) l₂ s₁ (by simp) hafter
  · have hl' : ∀ e ∈ l₁, ¬ThrowsAtOnce csrf e := fun e he =>
      hl e (hl₁ ▸ List.mem_append_left _ he)
    intro hidle
    refine Option.eq_none_iff_forall_ne_some.mpr fun p hp => ?_
    exact hidle p (kept_pending h₁ hl' p hp)

/-- A session is restored while the CSRF cookie is malformed. -/
def malformedCookieRun : List (Event ℕ ℕ) × State ℕ ℕ :=
  (machine "cerberus_csrf").runOf init [.restoreSession ⟨[("cerberus_csrf", "%")], false⟩]
    (by decide)

/-- Two requests are answered 401 and share a refresh; both are sent again, and the first is refused
for good. -/
def sharedRefreshRun : List (Event ℕ ℕ) × State ℕ ℕ :=
  (machine "cerberus_csrf").runOf init
    [.request 0 false false, .request 1 false false,
      .unauthorized 0 ⟨[("cerberus_csrf", "c5")], false⟩,
      .unauthorized 1 ⟨[("cerberus_csrf", "c5")], false⟩,
      .refreshAnswered 0 (.success (some 7)), .resume 1, .resume 0, .answered 1,
      .unauthorized 0 ⟨[("cerberus_csrf", "c5")], false⟩, .resume 0] (by decide)

theorem single_flight_sharedRefreshRun :
    OneInFlight sharedRefreshRun.2 ∧ SentAtMostTwice sharedRefreshRun.2 ∧
      ∀ l₁ l₂ s₁, sharedRefreshRun.1 = l₁ ++ l₂ →
        (machine "cerberus_csrf").Run init l₁ s₁ → IdleCleared s₁ := by
  obtain ⟨hone, htwice, hiff⟩ := single_flight (Machine.run_runOf _ _ _ _ :
    (machine "cerberus_csrf").Run init sharedRefreshRun.1 sharedRefreshRun.2)
  refine ⟨hone, htwice, hiff.mpr ?_⟩
  have hno : ∀ e ∈ sharedRefreshRun.1,
      (startedRefresh e).any (Env.throws "cerberus_csrf") = false := by decide
  rintro e he ⟨env, hstart, ht⟩
  have he' := hno e he
  rw [hstart, Option.any_some, ht] at he'
  cases he'

/-- After a malformed cookie no refresh is in flight, and `refreshPromise` is not null. -/
theorem refreshPromise_kept : ¬∀ (l : List (Event ℕ ℕ)) (s : State ℕ ℕ),
    (machine "cerberus_csrf").Run init l s → IdleCleared s := by
  intro hall
  have hrun : (machine "cerberus_csrf").Run init malformedCookieRun.1 malformedCookieRun.2 :=
    Machine.run_runOf _ _ _ _
  have hidle : ∀ p : ℕ, malformedCookieRun.2.promises[p]? ≠ some .pending := by
    have hp : malformedCookieRun.2.promises = [.settled false] := by decide
    rw [hp]
    intro p
    cases p <;> simp
  have hnull := hall _ _ hrun hidle
  have hkept : malformedCookieRun.2.refreshPromise = some 0 := by decide
  rw [hkept] at hnull
  cases hnull

/-! ### No token after a logout -/

/-- A logout has run, and no login success after it. -/
def LoggedOut (l : List (Event Tok ι)) : Prop :=
  ∃ l₁ e l₂, l = l₁ ++ e :: l₂ ∧ LogsOut e ∧ ∀ e' ∈ l₂, ¬LogsIn e'

theorem LoggedOut.snoc {e : Event Tok ι} (h : LoggedOut l) (he : ¬LogsIn e) :
    LoggedOut (l ++ [e]) := by
  obtain ⟨l₁, e₀, l₂, rfl, hout, hin⟩ := h
  refine ⟨l₁, e₀, l₂ ++ [e], by simp, hout, fun e' he' => ?_⟩
  rcases List.mem_append.mp he' with he' | he'
  · exact hin e' he'
  · exact List.mem_singleton.mp he' ▸ he

theorem loggedOut_snoc {e : Event Tok ι} (h : LoggedOut (l ++ [e])) :
    LogsOut e ∨ (LoggedOut l ∧ ¬LogsIn e) := by
  obtain ⟨l₁, e₀, l₂, hl, hout, hin⟩ := h
  induction l₂ using List.reverseRecOn with
  | nil =>
    obtain ⟨-, he⟩ := List.append_inj' hl rfl
    exact Or.inl (List.singleton_inj.mp he ▸ hout)
  | append_singleton l₂ e₁ _ =>
    rw [← List.cons_append, ← List.append_assoc] at hl
    obtain ⟨rfl, he⟩ := List.append_inj' hl rfl
    obtain rfl := List.singleton_inj.mp he
    refine Or.inr ⟨⟨l₁, e₀, l₂, rfl, hout, fun e' he' => ?_⟩, ?_⟩
    · exact hin e' (List.mem_append_left _ he')
    · exact hin e (List.mem_append_right _ List.mem_cons_self)

/-- Some refresh of the run brings a token while the user is logged out. -/
def TokenAfterLogout (l : List (Event Tok ι)) : Prop :=
  ∃ l₁ e l₂, l = l₁ ++ e :: l₂ ∧ BringsToken e ∧ LoggedOut l₁

theorem TokenAfterLogout.append (l₂ : List (Event Tok ι)) (h : TokenAfterLogout l) :
    TokenAfterLogout (l ++ l₂) := by
  obtain ⟨l₁, e, l₃, rfl, hb, hout⟩ := h
  exact ⟨l₁, e, l₃ ++ l₂, by simp, hb, hout⟩

/-- While no refresh brings a token to a user who is logged out, there is none. -/
theorem accessToken_of_loggedOut (h : (machine csrf).Run init l s) (hl : ¬TokenAfterLogout l)
    (hout : LoggedOut l) : s.accessToken = none := by
  revert hl hout
  refine h.induction (fun l s => ¬TokenAfterLogout l → LoggedOut l → s.accessToken = none)
    (fun _ _ => rfl) ?_
  intro l s c r s' _ ih hs hl hout
  have hbefore : LoggedOut l → s.accessToken = none := ih fun ht => hl (ht.append _)
  cases tokenStep_of_step hs with
  | cleared _ _ hnone => exact hnone
  | login hin hno =>
    rcases loggedOut_snoc hout with ho | ⟨-, hni⟩
    · exact absurd ho hno
    · exact absurd hin hni
  | refreshed hb hno hin _ =>
    rcases loggedOut_snoc hout with ho | ⟨ho, -⟩
    · exact absurd ho hno
    · exact absurd ⟨l, _, [], rfl, hb, ho⟩ hl
  | same hno hin _ hsame =>
    rcases loggedOut_snoc hout with ho | ⟨ho, -⟩
    · exact absurd ho hno
    · exact hsame.trans (hbefore ho)

/-- **No token after a logout**: in every state of the run the access token is null from a logout
to the next login success, exactly when no refresh brings a token in between. -/
theorem logged_out_token (h : (machine csrf).Run init l s) :
    (∀ l₁ l₂ s₁, l = l₁ ++ l₂ → (machine csrf).Run init l₁ s₁ → LoggedOut l₁ →
      s₁.accessToken = none) ↔ ¬TokenAfterLogout l := by
  constructor
  · rintro hall ⟨l₁, e, l₂, rfl, hb, hout⟩
    obtain ⟨hpre, s₁, hs, -⟩ := h.split
    have hafter : (machine csrf).Run init (l₁ ++ [e]) s₁ := .snoc hpre hs
    cases tokenStep_of_step hs with
    | refreshed _ _ hin htoken =>
      exact htoken (hall (l₁ ++ [e]) l₂ s₁ (by simp) hafter (hout.snoc hin))
    | cleared _ hno => exact hno hb
    | same _ _ hno => exact hno hb
    | login hin =>
      obtain ⟨p, t, hcall⟩ := hb
      obtain ⟨token, hcall'⟩ := hin
      cases hcall.symm.trans hcall'
  · intro hl l₁ l₂ s₁ hl₁ h₁ hout
    exact accessToken_of_loggedOut h₁ (fun ht => hl (hl₁ ▸ ht.append l₂)) hout

/-- The user logs out while a refresh is in flight. -/
def logoutRun : List (Event ℕ ℕ) × State ℕ ℕ :=
  (machine "cerberus_csrf").runOf init
    [.restoreSession ⟨[], false⟩, .logout, .refreshAnswered 0 (.success (some 7))] (by decide)

theorem logged_out_token_logoutRun :
    (∀ l₁ l₂ s₁, logoutRun.1 = l₁ ++ l₂ → (machine "cerberus_csrf").Run init l₁ s₁ → LoggedOut l₁ →
      s₁.accessToken = none) ↔ ¬TokenAfterLogout logoutRun.1 :=
  logged_out_token (Machine.run_runOf _ _ _ _ :
    (machine "cerberus_csrf").Run init logoutRun.1 logoutRun.2)

/-- The response of a refresh that was in flight brings the token back after a logout. -/
theorem token_resurrected : ¬∀ (l : List (Event ℕ ℕ)) (s : State ℕ ℕ),
    (machine "cerberus_csrf").Run init l s → LoggedOut l → s.accessToken = none := by
  intro hall
  have hrun : (machine "cerberus_csrf").Run init logoutRun.1 logoutRun.2 :=
    Machine.run_runOf _ _ _ _
  have hout : LoggedOut logoutRun.1 := by
    refine ⟨logoutRun.1.take 1, logoutRun.1.get ⟨1, by decide⟩,
      [logoutRun.1.get ⟨2, by decide⟩], rfl, trivial, fun e' he' => ?_⟩
    obtain rfl := List.mem_singleton.mp he'
    rintro ⟨token, hcall⟩
    cases hcall
  have hnone := hall _ _ hrun hout
  have hsome : logoutRun.2.accessToken = some 7 := by decide
  rw [hsome] at hnone
  cases hnone

end JwtAdapter
