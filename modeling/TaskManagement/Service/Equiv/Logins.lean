import TaskManagement.RedisStore.Equiv.RefreshToken
import TaskManagement.RedisStore.Equiv.Session
import TaskManagement.Service.Logins

/-!
# Logins that fail after a credential was issued

`login_issuance_atomic`: when a login fails, nothing that it has issued is left alive, unless the
compensating call fails too; when it succeeds, its history row is committed.  This holds of `login`
whatever fails.  The logins through the provider read the id of the user before they compensate, and
the handler of the history row has expired the user by a rollback: for them it holds exactly unless
a credential was issued and the row fails with a `DBAPIError` (`not_atomic_commitFault`).

* `ends_recordLogin`: what the history row leaves;
* `Issues`: what a strategy does, instantiated by `issues_sessionAuthStrategy` and
  `issues_jwtAuthStrategy`;
* `ends_login`, `ends_oauthCallback`, `ends_oauthExchange`: what the flows leave.
-/

namespace Logins

open Requests Service
open UserDb (Uuid)

set_option linter.unusedSectionVars false

/-! ### The history row -/

section Flows

variable {S C R : Type} {env : LoginEnv S C R} {w : LoginWorld S C R}

theorem ends_recordLogin {row : Request (LoginWorld S C R) Exn LoginHistory} {r : LoginHistory}
    (hrow : exec row w = (.ok r, w)) (hp : w.db.pending = []) (hx : w.db.expired = false)
    (hw : .compensate ∉ w.failures) : Ends (recordLogin env row) w
      (fun _ w' => databaseFault env.fault .insertHistory .commit = none ∧
        w'.db.committed = w.db.committed ++ [r])
      (fun _ w' => ∃ x, databaseFault env.fault .insertHistory .commit = some x ∧
        w'.db.expired = x.isDBAPIError ∧ .compensate ∉ w'.failures ∧
        env.Passes w.redis w'.redis) := by
  refine Ends.tryCatch (fun x w' => databaseFault env.fault .insertHistory .commit = some x ∧
    w'.db.expired = false ∧ .compensate ∉ w'.failures ∧ env.Passes w.redis w'.redis) ?_ ?_
  · rw [Ends, exec_bind_of_ok _ hrow]
    refine (ends_callAndCommit env .insertHistory (fun rows => rows ++ [r]) w .commit).mono ?_ ?_
    · rintro - w₁ ⟨hf, hdb, -, -⟩
      refine ⟨hf, ?_⟩
      rw [hdb]
      simp [UnitOfWork.execute, UnitOfWork.commit, hp]
    · rintro x w₁ ⟨hf, -, hx₁, ⟨k, hk, hfail⟩, hr⟩
      refine ⟨hf, hx₁.trans hx, ?_, hr⟩
      rw [hfail]
      rcases hk with rfl | rfl <;> simpa using hw
  · rintro x w₁ ⟨hf, hx₁, hw₁, hr⟩
    split
    · rename_i hdbapi
      refine Ends.bind (fun _ w' => w'.db.expired = true ∧ .compensate ∉ w'.failures ∧
        env.Passes w.redis w'.redis) (Environment.ends_rollback (fun _ => ?_) fun y _ => ?_) ?_
      · exact ⟨rfl, hw₁, hr.trans (env.before_passes .rollback w₁)⟩
      · exact ⟨x, hf, hdbapi.symm, by simpa using hw₁,
          hr.trans (env.before_passes .rollback w₁)⟩
      · rintro - w₂ ⟨hx₂, hw₂, hr₂⟩
        exact Ends.throw ⟨x, hf, hx₂.trans hdbapi.symm, hw₂, hr₂⟩
    · rename_i hdbapi
      exact Ends.throw ⟨x, hf, hx₁.trans ((Bool.not_eq_true _).mp hdbapi).symm, hw₁, hr⟩

/-- The history row fails with a `DBAPIError`, whose handler rolls the session back. -/
def Expires (fault : LoginCall → Option Exn) : Prop :=
  ∃ x, databaseFault fault .insertHistory .commit = some x ∧ x.isDBAPIError = true

/-- The row is that of a successful login of the user. -/
def IsSuccess (user : LoadedUser) (row : LoginHistory) : Prop :=
  row.success = true ∧ row.userId = some user.id

variable {strategy : AuthStrategy (LoginWorld S C R)} {user : LoadedUser}
variable {res : LoadedUser → LoginResult} {ready : Journal S C R → Prop} {alive : S → Prop}

/-- The strategy issues one credential, with the result `res`, and can take it back. -/
structure Issues (env : LoginEnv S C R) (strategy : AuthStrategy (LoginWorld S C R))
    (user : LoadedUser) (res : LoginResult) (ready : Journal S C R → Prop) (alive : S → Prop) :
    Prop where
  not_alive : ∀ j, ready j → ¬alive j.state
  login : ∀ w, w.db.expired = false → ready w.redis → Ends (strategy.login user) w
    (fun result w' => result = res ∧ env.fault .issue = none ∧ alive w'.redis.state ∧
      w'.db = w.db ∧ w'.failures = w.failures)
    (fun _ w' => env.fault .issue ≠ none ∧ ¬alive w'.redis.state)
  rollback : ∀ w, Ends (strategy.rollbackLogin user res) w
    (fun _ w' => ¬alive w'.redis.state) (fun _ w' => .compensate ∈ w'.failures)

/-- What is asked of a login: after an error no credential is alive, unless the compensating call
has failed; after a success the history row is committed. -/
structure Atomic {α : Type} (alive : S → Prop) (checked : Except Exn LoadedUser)
    (rows : List LoginHistory) (r : Except Exn α × LoginWorld S C R) : Prop where
  error : ∀ x, r.1 = .error x → alive r.2.redis.state → .compensate ∈ r.2.failures
  ok : ∀ a, r.1 = .ok a → ∃ user row, checked = .ok user ∧ IsSuccess user row ∧
    r.2.db.committed = rows ++ [row]

/-- A request that ends as `Atomic` asks. -/
theorem atomic_of_ends {α : Type} {p : Request (LoginWorld S C R) Exn α}
    {checked : Except Exn LoadedUser} {rows : List LoginHistory}
    (h : Ends p w (fun _ w' => ∃ user row, checked = .ok user ∧ IsSuccess user row ∧
        w'.db.committed = rows ++ [row])
      fun _ w' => alive w'.redis.state → .compensate ∈ w'.failures) :
    Atomic alive checked rows (exec (Environment.withSession p) w) := by
  rw [Environment.exec_withSession]
  rcases h.cases with ⟨a, w', hr, hok⟩ | ⟨x, w', hr, herr⟩
  · rw [hr]
    exact ⟨fun x hx => (by cases hx), fun _ _ => hok⟩
  · rw [hr]
    exact ⟨fun _ _ => herr, fun a ha => (by cases ha)⟩

variable (user) in
theorem exec_readId (hx : w.db.expired = false) : exec (readId user) w = (.ok user.id, w) :=
  Environment.exec_readLoaded Exn.missingGreenlet user.id hx

variable (user) in
theorem exec_readId_of_expired (hx : w.db.expired = true) :
    exec (readId user) w = (.error .missingGreenlet, w) :=
  Environment.exec_readLoaded_of_expired Exn.missingGreenlet user.id hx

theorem ends_recordLoginAttempt {identifier loginMethod : String} {client : ClientInfo}
    (hp : w.db.pending = []) (hx : w.db.expired = false) (hw : .compensate ∉ w.failures) :
    Ends (recordLoginAttempt env user identifier loginMethod client true none) w
      (fun _ w' => ∃ row, IsSuccess user row ∧ w'.db.committed = w.db.committed ++ [row])
      (fun _ _ => True) := by
  refine (ends_recordLogin (r := ⟨some user.id, identifier, loginMethod, some client.clientIp,
    client.userAgent, true, none⟩) ?_ hp hx hw).mono ?_ ?_
  · rw [exec_bind_of_ok _ (exec_readId user hx)]
    rfl
  · rintro - w' ⟨-, hc⟩
    exact ⟨_, ⟨rfl, rfl⟩, hc⟩
  · exact fun _ _ _ => trivial

theorem ends_recordOauthLogin {client : ClientInfo}
    (hp : w.db.pending = []) (hx : w.db.expired = false) (hw : .compensate ∉ w.failures) :
    Ends (recordOauthLogin env user client) w
      (fun _ w' => ¬Expires env.fault ∧
        ∃ row, IsSuccess user row ∧ w'.db.committed = w.db.committed ++ [row])
      (fun _ w' => (Expires env.fault → w'.db.expired = true) ∧
        (¬Expires env.fault → w'.db.expired = false) ∧ .compensate ∉ w'.failures ∧
        env.Passes w.redis w'.redis) := by
  refine (ends_recordLogin (r := ⟨some user.id, user.email, "oauth_google", some client.clientIp,
    client.userAgent, true, none⟩) ?_ hp hx hw).mono ?_ ?_
  · rw [exec_bind_of_ok _ (exec_readId user hx),
      exec_bind_of_ok _ (Environment.exec_readLoaded Exn.missingGreenlet user.email hx)]
    rfl
  · rintro - w' ⟨hf, hc⟩
    refine ⟨?_, _, ⟨rfl, rfl⟩, hc⟩
    rintro ⟨y, hy, -⟩
    rw [hf] at hy
    cases hy
  · rintro - w' ⟨x, hf, hx', hw', hr⟩
    refine ⟨?_, fun hE => ?_, hw', hr⟩
    · rintro ⟨y, hy, hdbapi⟩
      obtain rfl := Option.some.inj (hf.symm.trans hy)
      rw [hx', hdbapi]
    · rw [hx']
      exact (Bool.not_eq_true _).mp fun h => hE ⟨x, hf, h⟩

/-! ### The flows -/

theorem ends_fromExcept {checked : Except Exn LoadedUser} : Ends (fromExcept checked) w
    (fun user w' => checked = .ok user ∧ w' = w)
    (fun x w' => checked = .error x ∧ w' = w) := by
  cases checked with
  | ok user => exact Ends.pure ⟨rfl, rfl⟩
  | error x => exact Ends.throw ⟨rfl, rfl⟩

/-- A rollback of the login whose failure is turned into `ServiceUnavailableError`. -/
theorem ends_rollback {p : Request (LoginWorld S C R) Exn Unit} {x : Exn}
    {err : LoginWorld S C R → Prop} (hp : Ends p w (fun _ w' => err w') fun _ w' => err w') :
    Ends (do
        try p catch _ => throw (.app .serviceUnavailable)
        throw x : Request (LoginWorld S C R) Exn Unit)
      w (fun _ _ => False) fun _ w' => err w' :=
  Ends.bind (fun _ w' => err w')
    (Ends.tryCatch (fun _ w' => err w') hp fun _ _ h => Ends.throw h) fun _ _ h => Ends.throw h

theorem ends_login {checked : Except Exn LoadedUser} {identifier : String} {client : ClientInfo}
    (hI : ∀ user, Issues env strategy user (res user) ready alive)
    (hr : ready w.redis) (hp : w.db.pending = []) (hx : w.db.expired = false)
    (hw : w.failures = []) : Ends (login env strategy checked identifier client) w
      (fun _ w' => ∃ user row, checked = .ok user ∧ IsSuccess user row ∧
        w'.db.committed = w.db.committed ++ [row])
      (fun _ w' => alive w'.redis.state → .compensate ∈ w'.failures) := by
  refine Ends.bind (fun user w' => checked = .ok user ∧ w' = w)
    (ends_fromExcept.mono (fun _ _ h => h) ?_) ?_
  · -- refused: nothing was issued
    rintro - w' ⟨-, rfl⟩ ha
    exact absurd ha ((hI ⟨0, ""⟩).not_alive _ hr)
  · rintro user w' ⟨hc, rfl⟩
    refine Ends.bind (fun result w₁ => result = res user ∧ w₁.db = w'.db ∧ w₁.failures = [])
      (Ends.tryCatch (fun _ w₁ => ¬alive w₁.redis.state)
        (((hI user).login w' hx hr).mono ?_ ?_) ?_) ?_
    · rintro result w₁ ⟨hres, -, -, hdb, hfail⟩
      exact ⟨hres, hdb, hfail.trans hw⟩
    · exact fun _ _ h => h.2
    · exact fun _ _ h => Ends.throw fun ha => absurd ha h
    · -- issued: the attempt is recorded
      rintro result w₁ ⟨rfl, hdb, hw₁⟩
      rw [Ends, exec_bind_of_ok _ (exec_readId user (by rw [hdb]; exact hx))]
      refine Ends.bind (fun _ w₂ => ∃ row, IsSuccess user row ∧
        w₂.db.committed = w'.db.committed ++ [row]) (Ends.tryCatch (fun _ _ => True) ?_ ?_) ?_
      · rw [← hdb]
        exact ends_recordLoginAttempt (by rw [hdb]; exact hp) (by rw [hdb]; exact hx)
          (by simp [hw₁])
      · -- recording raises: what was issued is taken back
        intro x w₂ _
        refine (ends_rollback (((hI user).rollback w₂).mono ?_ ?_)).mono
          (fun _ _ h => h.elim) fun _ _ h => h
        · exact fun _ _ h ha => absurd ha h
        · exact fun _ _ h _ => h
      · rintro - w₂ ⟨row, hrow, hcom⟩
        exact Ends.pure ⟨user, row, hc, hrow, hcom⟩

/-- What the end of a login through the provider leaves: after an error, the credential is taken
back if the session was not rolled back, and stays if it was. -/
theorem ends_completeOauthLogin {client : ClientInfo}
    (hI : Issues env strategy user (res user) ready alive) (hp : w.db.pending = [])
    (hx : w.db.expired = false) (hw : .compensate ∉ w.failures) :
    Ends (completeOauthLogin env strategy user (res user) client) w
      (fun _ w' => ¬Expires env.fault ∧
        ∃ row, IsSuccess user row ∧ w'.db.committed = w.db.committed ++ [row])
      (fun _ w' => (¬Expires env.fault → alive w'.redis.state → .compensate ∈ w'.failures) ∧
        (Expires env.fault → .compensate ∉ w'.failures ∧ env.Passes w.redis w'.redis)) := by
  rw [Ends, completeOauthLogin, exec_bind_of_ok _ (exec_readId user hx)]
  refine Ends.tryCatch _ (ends_recordOauthLogin hp hx hw) ?_
  rintro x w₁ ⟨hexp, hnot, hw₁, hr⟩
  refine (ends_rollback (?_ : Ends _ w₁ _ _)).mono (fun _ _ h => h.elim) fun _ _ h => h
  by_cases hE : Expires env.fault
  · -- the id of the expired user cannot be read, so that nothing is taken back
    rw [Ends, rollbackOauthLogin,
      exec_bind_of_error _ (exec_readId_of_expired user (hexp hE))]
    exact Ends.throw ⟨fun h => absurd hE h, fun _ => ⟨hw₁, hr⟩⟩
  · rw [Ends, rollbackOauthLogin, exec_bind_of_ok _ (exec_readId user (hnot hE))]
    refine (hI.rollback w₁).mono ?_ ?_
    · exact fun _ _ h => ⟨fun _ ha => absurd ha h, fun h' => absurd h' hE⟩
    · exact fun _ _ h => ⟨fun _ _ => h, fun h' => absurd h' hE⟩

/-- A credential is issued, and the handler of its history row expires the user. -/
def Leaks (fault : LoginCall → Option Exn) : Prop := fault .issue = none ∧ Expires fault

/-- What a login through the provider leaves when it raises; `valid` is what the result must be for
the history row to be written. -/
structure Failed (env : LoginEnv S C R) (alive : S → Prop) (valid : Prop)
    (w' : LoginWorld S C R) : Prop where
  undone : ¬Leaks env.fault → alive w'.redis.state → .compensate ∈ w'.failures
  leaked : valid → Leaks env.fault → .compensate ∉ w'.failures ∧
    ∃ j : Journal S C R, alive j.state ∧ env.Passes j w'.redis

section Provider

variable {resolved : Except Exn LoadedUser} {client : ClientInfo}
variable (hI : ∀ user, Issues env strategy user (res user) ready alive)

include hI

theorem ends_resolved (hr : ready w.redis) : Ends (fromExcept resolved) w
    (fun user w' => resolved = .ok user ∧ w' = w)
    (fun _ w' => Failed env alive (∃ user, resolved = .ok user) w') := by
  refine ends_fromExcept.mono (fun _ _ h => h) ?_
  rintro x w' ⟨hres, rfl⟩
  refine ⟨fun _ ha => absurd ha ((hI ⟨0, ""⟩).not_alive _ hr), ?_⟩
  rintro ⟨user, hok⟩
  rw [hok] at hres
  cases hres

theorem ends_issue {valid : Prop} (hr : ready w.redis) (hx : w.db.expired = false) :
    Ends (strategy.login user) w
      (fun result w' => result = res user ∧ env.fault .issue = none ∧ alive w'.redis.state ∧
        w'.db = w.db ∧ w'.failures = w.failures)
      (fun _ w' => Failed env alive valid w') :=
  ((hI user).login w hx hr).mono (fun _ _ h => h) fun _ _ h =>
    ⟨fun _ ha => absurd ha h.2, fun _ hL => absurd hL.1 h.1⟩

theorem ends_recorded {valid : Prop} (hissue : env.fault .issue = none)
    (ha : alive w.redis.state) (hp : w.db.pending = []) (hx : w.db.expired = false)
    (hw : w.failures = []) : Ends (completeOauthLogin env strategy user (res user) client) w
      (fun _ w' => ¬Leaks env.fault ∧
        ∃ row, IsSuccess user row ∧ w'.db.committed = w.db.committed ++ [row])
      (fun _ w' => Failed env alive valid w') := by
  refine (ends_completeOauthLogin (hI user) hp hx (by simp [hw])).mono ?_ ?_
  · rintro - w' ⟨hE, hrow⟩
    exact ⟨fun hL => hE hL.2, hrow⟩
  · rintro - w' ⟨hnot, hexp⟩
    refine ⟨fun hL => hnot fun hE => hL ⟨hissue, hE⟩, fun _ hL => ⟨(hexp hL.2).1, w.redis, ha, ?_⟩⟩
    exact (hexp hL.2).2

theorem ends_oauthCallback (hr : ready w.redis) (hp : w.db.pending = [])
    (hx : w.db.expired = false) (hw : w.failures = []) :
    Ends (oauthCallback env strategy resolved client) w
      (fun _ w' => (∃ user row, resolved = .ok user ∧ IsSuccess user row ∧
        w'.db.committed = w.db.committed ++ [row]) ∧
        ((∃ user, resolved = .ok user) → ¬Leaks env.fault))
      (fun _ w' => Failed env alive (∃ user, resolved = .ok user) w') := by
  refine Ends.bind _ (ends_resolved hI hr) ?_
  rintro user w' ⟨hres, rfl⟩
  refine Ends.bind _ (ends_issue hI hr hx) ?_
  rintro result w₁ ⟨rfl, hissue, ha, hdb, hfail⟩
  refine (ends_recorded hI hissue ha (hdb ▸ hp) (hdb ▸ hx) (hfail.trans hw)).mono ?_
    fun _ _ h => h
  rintro - w₂ ⟨hL, row, hrow, hcom⟩
  exact ⟨⟨user, row, hres, hrow, hdb ▸ hcom⟩, fun _ => hL⟩

theorem ends_oauthExchange (hr : ready w.redis) (hp : w.db.pending = [])
    (hx : w.db.expired = false) (hw : w.failures = []) :
    Ends (oauthExchange env strategy resolved client) w
      (fun _ w' => (∃ user row, resolved = .ok user ∧ IsSuccess user row ∧
        w'.db.committed = w.db.committed ++ [row]) ∧ ¬Leaks env.fault)
      (fun _ w' => Failed env alive
        (∃ user, resolved = .ok user ∧ isValidJwtLoginResult (res user) = true) w') := by
  refine Ends.bind (fun user w' => resolved = .ok user ∧ w' = w) ?_ ?_
  · refine (ends_resolved hI hr).mono (fun _ _ h => h) fun _ _ h => ⟨h.undone, ?_⟩
    rintro ⟨user, hok, -⟩
    exact h.leaked ⟨user, hok⟩
  rintro user w' ⟨hres, rfl⟩
  refine Ends.bind _ (ends_issue hI hr hx) ?_
  rintro result w₁ ⟨rfl, hissue, ha, hdb, hfail⟩
  by_cases hv : isValidJwtLoginResult (res user) = true
  · rw [if_neg (by simp [hv])]
    refine Ends.bind _ (ends_recorded hI hissue ha (hdb ▸ hp) (hdb ▸ hx) (hfail.trans hw)) ?_
    rintro - w₂ ⟨hL, row, hrow, hcom⟩
    exact Ends.pure ⟨⟨user, row, hres, hrow, hdb ▸ hcom⟩, hL⟩
  · -- an invalid result is taken back while the user can still be read
    rw [if_pos (by simp [hv])]
    have hundone : ∀ w₂ : LoginWorld S C R, (alive w₂.redis.state → .compensate ∈ w₂.failures) →
        Failed env alive (∃ user, resolved = .ok user ∧ isValidJwtLoginResult (res user) = true)
          w₂ := by
      refine fun w₂ h => ⟨fun _ => h, ?_⟩
      rintro ⟨user', hok, hv'⟩
      obtain rfl := Except.ok.inj (hres.symm.trans hok)
      exact absurd hv' hv
    refine Ends.bind (fun _ w₂ => alive w₂.redis.state → .compensate ∈ w₂.failures)
      (Ends.tryCatch (fun _ w₂ => alive w₂.redis.state → .compensate ∈ w₂.failures) ?_ ?_) ?_
    · rw [Ends, rollbackOauthLogin, exec_bind_of_ok _ (exec_readId user (hdb ▸ hx))]
      exact ((hI user).rollback w₁).mono (fun _ _ h h' => absurd h' h) fun _ _ h _ => h
    · exact fun _ _ h => Ends.throw (hundone _ h)
    · exact fun _ w₂ h => Ends.bind (fun _ _ => False) (Ends.throw (hundone w₂ h))
        fun _ _ h => h.elim

end Provider

section Outcome

variable {α : Type} {p : Request (LoginWorld S C R) Exn α} {resolved : Except Exn LoadedUser}
variable {valid : Prop}
variable (hends : Ends p w (fun _ w' => (∃ user row, resolved = .ok user ∧ IsSuccess user row ∧
  w'.db.committed = w.db.committed ++ [row]) ∧ (valid → ¬Leaks env.fault))
  fun _ w' => Failed env alive valid w')

include hends

theorem atomic_of_not_leaks (hL : ¬Leaks env.fault) :
    Atomic alive resolved w.db.committed (exec (Environment.withSession p) w) :=
  atomic_of_ends (hends.mono (fun _ _ h => h.1) fun _ _ h => h.undone hL)

theorem not_atomic_of_leaks (hL : Leaks env.fault) (hv : valid) (hq : ∀ k, env.others k = []) :
    ¬Atomic alive resolved w.db.committed (exec (Environment.withSession p) w) := by
  rw [Environment.exec_withSession]
  intro hat
  rcases hends.cases with ⟨a, w', hr, -, hok⟩ | ⟨x, w', hr, herr⟩
  · exact hok hv hL
  · obtain ⟨hw', j, ha, hp⟩ := herr.leaked hv hL
    rw [hr] at hat
    refine hw' (hat.error x rfl ?_)
    rwa [hp.eq_of_quiet hq]

end Outcome

end Flows

/-! ### The strategies -/

section Strategies

variable {T H F ι : Type} [Ring T] [LinearOrder T] [IsStrictOrderedRing T] [FloorRing T]
variable [DecidableEq H] [DecidableEq F] [DecidableEq ι]
variable {settings : Settings} {fault : LoginCall → Option Exn}

/-- The call creates the session `sid`. -/
def creates (sid : String) : Session.Call T Uuid String → Bool
  | .create sid' _ _ _ => decide (sid' = sid)
  | _ => false

/-- The session store around a login that generates the session id `sid`, which nobody else does. -/
def sessionEnv (settings : Settings) (sid : String)
    (others : LoginCall → List (Session.Call T Uuid String)) (fault : LoginCall → Option Exn) :
    SessionEnv T where
  machine := Session.machine ⟨settings.sessionTtlSeconds, settings.sessionAbsoluteTtlSeconds⟩
  mine := creates sid
  others := others
  fault := fault

/-- The session is alive. -/
def SessionAlive (sid : String) (s : Session.Keys T Uuid String) : Prop :=
  Session.session s sid ≠ none

theorem session_unused {settings : Session.Settings T} {sid : String}
    {j j' : Journal (Session.Keys T Uuid String) _ _}
    (h : Journal.Reaches (Session.machine settings) (creates sid) j j')
    (hj : ¬SessionAlive sid j.state) : ¬SessionAlive sid j'.state := by
  refine h.induction (fun j => ¬SessionAlive sid j.state) hj fun j c r s hn hc hs ha => hn ?_
  obtain ⟨e, he⟩ := Option.ne_none_iff_exists'.mp ha
  rcases Session.step_session hs he with ⟨e', he'⟩ | ⟨csrfToken, u, ip, rfl⟩
  · exact Option.ne_none_iff_exists'.mpr ⟨e', he'⟩
  · simp [creates] at hc

theorem issues_sessionAuthStrategy (hs : settings.Valid) (sid csrfToken : String)
    (ip : Option String) (others : LoginCall → List (Session.Call T Uuid String))
    (user : LoadedUser) :
    let env := sessionEnv settings sid others fault
    Issues env (sessionAuthStrategy env settings sid csrfToken ip) user
      ⟨.session, none, none, some csrfToken, some settings.sessionTtlSeconds, some sid,
        some user.id⟩
      (fun j => ¬SessionAlive sid j.state) (SessionAlive sid) := by
  -- the strategy creates the session, and the rollback deletes it
  refine ⟨fun _ h => h, fun w hx hr => ?_, fun w => ?_⟩
  · have hunused := session_unused
      ((sessionEnv settings sid others fault).before_reaches .issue w) hr
    have hstep : ∀ s : Session.Keys T Uuid String,
        (sessionEnv settings sid others fault).machine.step s (.create sid csrfToken user.id ip) =
          some (.done, Session.createSession (settings.sessionTtlSeconds : T) s sid csrfToken
            user.id ip) := fun s => if_pos (Int.cast_pos.mpr hs.session)
    change Ends (readId user >>= _) w _ _
    rw [Ends, exec_bind_of_ok _ (exec_readId user hx)]
    refine Ends.bind (fun reply w' => reply = some .done ∧ fault .issue = none ∧
      SessionAlive sid w'.redis.state ∧ w'.db = w.db ∧ w'.failures = w.failures)
      (Environment.ends_ask (fun hf => ?_) fun x hf => ?_) ?_
    · rw [Environment.after, Journal.make_of_some (hstep _)]
      refine ⟨rfl, hf, fun hnone => ?_, rfl, rfl⟩
      cases hnone.symm.trans
        (Session.createSession_session_self _ _ _ _ (Int.cast_pos.mpr hs.session).le)
    · exact ⟨by rw [hf]; exact Option.some_ne_none x, hunused⟩
    · rintro reply w' ⟨rfl, hw'⟩
      exact Ends.pure ⟨rfl, hw'⟩
  · refine Ends.bind (fun userId w' => userId = user.id ∧ w' = w) (Ends.pure ⟨rfl, rfl⟩) ?_
    rintro userId w' ⟨rfl, rfl⟩
    refine Ends.bind (fun _ w'' => ¬SessionAlive sid w''.redis.state)
      (Environment.ends_ask (fun hf => ?_) fun x hf => ?_) fun _ _ h => Ends.pure h
    · intro ha
      obtain ⟨e, he⟩ := Option.ne_none_iff_exists'.mp ha
      exact (Session.deleteSession_session he).1 rfl
    · exact List.mem_append_right _ (List.mem_singleton_self _)

/-- The call names the token `h` or the family `f`. -/
def names (h : H) (f : F) : RefreshToken.Call T H Uuid F ι → Bool
  | .store h' _ f' => decide (h' = h ∨ f' = f)
  | .rotate _ h' => decide (h' = h)
  | .familyRead _ _ f' _ => decide (f' = f)
  | _ => false

/-- The store of the refresh tokens around a login that generates the token of hash `h` and the
family `f`, which nobody else does. -/
def tokenEnv (settings : Settings) (h : H) (f : F)
    (others : LoginCall → List (RefreshToken.Call T H Uuid F ι))
    (fault : LoginCall → Option Exn) : TokenEnv T H F ι where
  machine := RefreshToken.machine settings.refreshTtlSeconds
  mine := names h f
  others := others
  fault := fault

/-- The refresh token is alive. -/
def TokenAlive (h : H) (s : RefreshToken.State T H Uuid F ι) : Prop :=
  RefreshToken.liveToken s.keys h ≠ none

/-- A journal in which the token and the family were not used. -/
structure Unused (ttl now : T) (h : H) (f : F)
    (j : Journal (RefreshToken.State T H Uuid F ι) (RefreshToken.Call T H Uuid F ι)
      (RefreshToken.Reply T Uuid F)) : Prop where
  run : (RefreshToken.machine ttl).Run (RefreshToken.init now) j.events j.state
  token : h ∉ j.state.issued
  family : f ∉ j.state.families

section Unused

variable {ttl now : T} {h : H} {f : F}
variable {j j' : Journal (RefreshToken.State T H Uuid F ι) (RefreshToken.Call T H Uuid F ι)
  (RefreshToken.Reply T Uuid F)}

theorem Unused.not_alive (hu : Unused ttl now h f j) : ¬TokenAlive h j.state := by
  intro ha
  obtain ⟨e, he⟩ := Option.ne_none_iff_exists'.mp ha
  exact hu.token ((RefreshToken.inv_of_run hu.run).live_issued h e he)

theorem Unused.reaches (hu : Unused ttl now h f j)
    (hr : Journal.Reaches (RefreshToken.machine ttl) (names h f) j j') :
    Unused ttl now h f j' := by
  refine hr.induction (Unused ttl now h f) hu fun j c r s hu hc hs => ?_
  refine ⟨.snoc hu.run hs, fun hk => ?_, fun hf => ?_⟩
  · rcases RefreshToken.step_issued hs hk with hk | ⟨u, f', rfl⟩ | ⟨old, rfl⟩
    · exact hu.token hk
    · simp [names] at hc
    · simp [names] at hc
  · rcases RefreshToken.step_families hs hf with hf | ⟨k, u, rfl⟩ | ⟨i, u, members, rfl⟩
    · exact hu.family hf
    · simp [names] at hc
    · simp [names] at hc

end Unused

theorem issues_jwtAuthStrategy (hs : settings.Valid) (tokenHash : String → H)
    (accessToken refreshToken csrfToken : String) (f : F) (now : T)
    (others : LoginCall → List (RefreshToken.Call T H Uuid F ι)) (user : LoadedUser) :
    let env := tokenEnv settings (tokenHash refreshToken) f others fault
    Issues env (jwtAuthStrategy env settings tokenHash accessToken refreshToken csrfToken f) user
      ⟨.jwt, some accessToken, some refreshToken, some csrfToken,
        some settings.accessTokenTtlSeconds, none, some user.id⟩
      (Unused settings.refreshTtlSeconds now (tokenHash refreshToken) f)
      (TokenAlive (tokenHash refreshToken)) := by
  generalize hh : tokenHash refreshToken = h
  have httl : (0 : T) < settings.refreshTtlSeconds := Int.cast_pos.mpr hs.refresh
  -- an unused token is not alive, the strategy stores it, and the rollback revokes it
  refine ⟨fun _ hu => hu.not_alive, fun w hx hr => ?_, fun w => ?_⟩
  · have hunused := hr.reaches ((tokenEnv settings h f others fault).before_reaches .issue w)
    have hstep : (tokenEnv settings h f others fault).machine.step
        ((tokenEnv settings h f others fault).before .issue w).redis.state
          (.store h user.id f) = some (.done, _) :=
      if_pos ⟨httl, hunused.token, hunused.family⟩
    change Ends (readId user >>= _) w _ _
    rw [Ends, exec_bind_of_ok _ (exec_readId user hx), hh]
    refine Ends.bind (fun reply w' => reply = some .done ∧ fault .issue = none ∧
      TokenAlive h w'.redis.state ∧ w'.db = w.db ∧ w'.failures = w.failures)
      (Environment.ends_ask (fun hf => ?_) fun x hf => ?_) ?_
    · rw [Environment.after, Journal.make_of_some hstep]
      refine ⟨rfl, hf, fun hnone => ?_, rfl, rfl⟩
      cases hnone.symm.trans (RefreshToken.storeRefreshToken_token _ _ _ _ httl.le)
    · exact ⟨by rw [hf]; exact Option.some_ne_none x, hunused.not_alive⟩
    · rintro reply w' ⟨rfl, hw'⟩
      exact Ends.pure ⟨rfl, hw'⟩
  · refine Ends.bind (fun userId w' => userId = user.id ∧ w' = w) (Ends.pure ⟨rfl, rfl⟩) ?_
    rintro userId w' ⟨rfl, rfl⟩
    rw [hh]
    refine Ends.bind (fun _ w'' => ¬TokenAlive h w''.redis.state)
      (Environment.ends_ask (fun hf ha => ?_) fun x hf => ?_) fun _ _ h => Ends.pure h
    · exact ha (RefreshToken.revokeRefreshToken_token _ h user.id)
    · exact List.mem_append_right _ (List.mem_singleton_self _)

variable (settings fault) in
/-- No request before the login has created its session. -/
theorem start_session_unused (now : T) (history : List (Session.Call T Uuid String))
    (others : LoginCall → List (Session.Call T Uuid String)) (sid : String)
    (rows : List LoginHistory) : ¬SessionAlive sid
      (World.start (sessionEnv settings sid others fault).machine
        (sessionEnv settings sid others fault).mine (.empty now) history rows :
        SessionWorld T).redis.state :=
  session_unused (Journal.reaches_others _ history) fun h => h rfl

variable (settings fault) in
/-- No request before the login has used its token or its family. -/
theorem start_unused (now : T) (history : List (RefreshToken.Call T H Uuid F ι))
    (others : LoginCall → List (RefreshToken.Call T H Uuid F ι)) (h : H) (f : F)
    (rows : List LoginHistory) : Unused (settings.refreshTtlSeconds : T) now h f
      (World.start (tokenEnv settings h f others fault).machine
        (tokenEnv settings h f others fault).mine (RefreshToken.init now) history rows :
        TokenWorld T H F ι).redis := by
  have hinit : Unused (settings.refreshTtlSeconds : T) now h f
      ⟨(RefreshToken.init now : RefreshToken.State T H Uuid F ι), []⟩ :=
    ⟨.nil, Finset.notMem_empty h, Finset.notMem_empty f⟩
  exact hinit.reaches (Journal.reaches_others _ history)

/-- The login is atomic with its history row; a login through the provider is so exactly when no
fault of the history row makes its handler expire the user. -/
theorem login_issuance_atomic [Inhabited F] (hs : settings.Valid) (tokenHash : String → H)
    (fault : LoginCall → Option Exn) :
    (∀ (now : T) (history : List (Session.Call T Uuid String))
      (others : LoginCall → List (Session.Call T Uuid String)) (sid csrfToken : String)
      (ip : Option String) (checked : Except Exn LoadedUser) (identifier : String)
      (client : ClientInfo) (rows : List LoginHistory),
      let env := sessionEnv settings sid others fault
      Atomic (SessionAlive sid) checked rows (exec (Environment.withSession
        (login env (sessionAuthStrategy env settings sid csrfToken ip) checked identifier client))
        (.start env.machine env.mine (.empty now) history rows))) ∧
    (∀ (now : T) (history : List (RefreshToken.Call T H Uuid F ι))
      (others : LoginCall → List (RefreshToken.Call T H Uuid F ι))
      (accessToken refreshToken csrfToken : String) (familyId : F)
      (checked : Except Exn LoadedUser) (identifier : String) (client : ClientInfo)
      (rows : List LoginHistory),
      let env := tokenEnv settings (tokenHash refreshToken) familyId others fault
      Atomic (TokenAlive (tokenHash refreshToken)) checked rows (exec (Environment.withSession
        (login env (jwtAuthStrategy env settings tokenHash accessToken refreshToken csrfToken
          familyId) checked identifier client))
        (.start env.machine env.mine (RefreshToken.init now) history rows))) ∧
    ((∀ (now : T) (history : List (Session.Call T Uuid String))
      (others : LoginCall → List (Session.Call T Uuid String)) (sid csrfToken : String)
      (ip : Option String) (resolved : Except Exn LoadedUser) (client : ClientInfo)
      (rows : List LoginHistory),
      let env := sessionEnv settings sid others fault
      Atomic (SessionAlive sid) resolved rows (exec (Environment.withSession
        (oauthCallback env (sessionAuthStrategy env settings sid csrfToken ip) resolved client))
        (.start env.machine env.mine (.empty now) history rows))) ↔ ¬Leaks fault) ∧
    ((∀ (now : T) (history : List (RefreshToken.Call T H Uuid F ι))
      (others : LoginCall → List (RefreshToken.Call T H Uuid F ι))
      (accessToken refreshToken csrfToken : String) (familyId : F)
      (resolved : Except Exn LoadedUser) (client : ClientInfo) (rows : List LoginHistory),
      let env := tokenEnv settings (tokenHash refreshToken) familyId others fault
      Atomic (TokenAlive (tokenHash refreshToken)) resolved rows (exec (Environment.withSession
        (oauthExchange env (jwtAuthStrategy env settings tokenHash accessToken refreshToken
          csrfToken familyId) resolved client))
        (.start env.machine env.mine (RefreshToken.init now) history rows))) ↔ ¬Leaks fault) := by
  refine ⟨?_, ?_, ⟨fun h hL => ?_, fun hL => ?_⟩, fun h hL => ?_, fun hL => ?_⟩
  · intro now history others sid csrfToken ip checked identifier client rows
    exact atomic_of_ends (ends_login
      (issues_sessionAuthStrategy hs sid csrfToken ip others)
      (start_session_unused settings fault now history others sid rows) rfl rfl rfl)
  · intro now history others accessToken refreshToken csrfToken familyId checked identifier client
      rows
    exact atomic_of_ends (ends_login
      (issues_jwtAuthStrategy hs tokenHash accessToken refreshToken csrfToken familyId now others)
      (start_unused settings fault now history others _ familyId rows) rfl rfl rfl)
  · refine not_atomic_of_leaks (ends_oauthCallback
      (issues_sessionAuthStrategy hs "sid" "csrf" none fun _ => [])
      (start_session_unused settings fault 0 [] (fun _ => []) "sid" []) rfl rfl rfl) hL
      ⟨⟨0, ""⟩, rfl⟩ (fun _ => rfl)
      (h 0 [] (fun _ => []) "sid" "csrf" none (.ok ⟨0, ""⟩) ⟨"", none⟩ [])
  · intro now history others sid csrfToken ip resolved client rows
    exact atomic_of_not_leaks (ends_oauthCallback
      (issues_sessionAuthStrategy hs sid csrfToken ip others)
      (start_session_unused settings fault now history others sid rows) rfl rfl rfl) hL
  · refine not_atomic_of_leaks ((ends_oauthExchange
      (issues_jwtAuthStrategy hs tokenHash "access" "refresh" "csrf" default 0 fun _ => [])
      (start_unused settings fault 0 [] (fun _ => []) _ default []) rfl rfl rfl).mono ?_
        fun _ _ h => h) hL ⟨⟨0, ""⟩, rfl, ?_⟩ (fun _ => rfl)
      (h 0 [] (fun _ => []) "access" "refresh" "csrf" default (.ok ⟨0, ""⟩) ⟨"", none⟩ [])
    · exact fun _ _ h => ⟨h.1, fun _ => h.2⟩
    · have hexpires : decide (1 ≤ settings.accessTokenTtlSeconds) = true :=
        decide_eq_true hs.accessToken
      simp [isValidJwtLoginResult, isNonEmpty, hexpires]
  · intro now history others accessToken refreshToken csrfToken familyId resolved client rows
    exact atomic_of_not_leaks ((ends_oauthExchange
      (issues_jwtAuthStrategy hs tokenHash accessToken refreshToken csrfToken familyId now others)
      (start_unused settings fault now history others _ familyId rows) rfl rfl rfl).mono
        (fun _ _ h => ⟨h.1, fun _ => h.2⟩) fun _ _ h => h) hL

end Strategies

/-! ### A run -/

/-- The defaults of the settings. -/
def defaults : Settings := ⟨1800, 28800, 900, 1209600⟩

/-- The connection breaks while the history row is written. -/
def connectionFault (k : LoginCall) : Option Exn :=
  if k = .insertHistory then some (.operational (some "08006")) else none

/-- The commit of the history row fails. -/
def commitFault (k : LoginCall) : Option Exn := if k = .commit then some .dbapi else none

theorem login_issuance_atomic_connectionFault :
    Atomic (SessionAlive (T := ℤ) "sid") (.ok ⟨0, "a@example.com"⟩) [] (exec
      (Environment.withSession (oauthCallback (sessionEnv defaults "sid" (fun _ => [])
        connectionFault) (sessionAuthStrategy (sessionEnv defaults "sid" (fun _ => [])
          connectionFault) defaults "sid" "csrf" none) (.ok ⟨0, "a@example.com"⟩) ⟨"127.0.0.1", none⟩))
      (.start (Session.machine ⟨1800, 28800⟩) (creates "sid") (.empty 0) [] [])) := by
  refine ((login_issuance_atomic (T := ℤ) (H := ℕ) (F := ℕ) (ι := ℕ)
    ⟨by decide, by decide, by decide, by decide⟩ String.length connectionFault).2.2.1.mpr ?_)
    0 [] (fun _ => []) "sid" "csrf" none (.ok ⟨0, "a@example.com"⟩) ⟨"127.0.0.1", none⟩ []
  -- the repository has turned the error into `ServiceUnavailableError`
  rintro ⟨-, x, hx, hdbapi⟩
  obtain rfl := Option.some.inj hx
  cases hdbapi

/-- The commit of the history row fails: the session stays alive, and the caller gets an error. -/
theorem not_atomic_commitFault :
    ¬Atomic (SessionAlive (T := ℤ) "sid") (.ok ⟨0, "a@example.com"⟩) [] (exec
      (Environment.withSession (oauthCallback (sessionEnv defaults "sid" (fun _ => []) commitFault)
        (sessionAuthStrategy (sessionEnv defaults "sid" (fun _ => []) commitFault) defaults "sid"
          "csrf" none) (.ok ⟨0, "a@example.com"⟩) ⟨"127.0.0.1", none⟩))
      (.start (Session.machine ⟨1800, 28800⟩) (creates "sid") (.empty 0) [] [])) :=
  not_atomic_of_leaks (ends_oauthCallback
    (issues_sessionAuthStrategy ⟨by decide, by decide, by decide, by decide⟩ "sid" "csrf" none
      fun _ => [])
    (start_session_unused defaults commitFault 0 [] (fun _ => []) "sid" []) rfl rfl rfl)
    ⟨rfl, .dbapi, rfl, rfl⟩ ⟨_, rfl⟩ fun _ => rfl

end Logins
