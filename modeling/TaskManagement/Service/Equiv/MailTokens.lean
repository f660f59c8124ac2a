import TaskManagement.RedisStore.Equiv.HeldTokens
import TaskManagement.Service.MailTokens

/-!
# Failures after a mail token was consumed

`mail_token_compensation`: exactly when `verify_email` and `reset_password` give back a token that
they have consumed.  The handlers catch `DBAPIError`, while the repository turns the connection
failures of the procedure call into `ServiceUnavailableError`: these, the errors of SQLAlchemy that
are no `DBAPIError` and a failing rollback leave the token consumed
(`not_compensated_connectionFault`).

* `ends_writeOrRestore`, `ends_revokeCredentials`: what the parts of the services leave;
* `verifyEmail_held`, `resetPassword_held`: the call holds the token whatever others do;
* `verifyEmail_compensated_iff`, `resetPassword_compensated_iff`: the condition for each service.
-/

namespace MailTokens

open Requests Service
open UserDb (Uuid User Timestamp)

set_option linter.unusedSectionVars false

/-! ### The handlers -/

section Handlers

variable {S C R D : Type} {env : Environment S C R MailCall Exn} {c : C} {procedure : D → D}
variable {w w' : World S C R D MailCall}

/-- The restore of the token was tried: it failed, or the store has taken the call. -/
def Tried (env : Environment S C R MailCall Exn) (c : C) (w w' : World S C R D MailCall) : Prop :=
  ∃ j, Journal.Reaches env.machine env.mine w.redis j ∧
    (env.fault .restore ≠ none ∧ .restore ∈ w'.failures ∨
      env.fault .restore = none ∧ .restore ∉ w'.failures ∧ w'.redis = (j.make env.machine c).2)

/-- The token was left as it is. -/
def Abandoned (env : Environment S C R MailCall Exn) (w w' : World S C R D MailCall) : Prop :=
  Journal.Reaches env.machine env.mine w.redis w'.redis ∧ .restore ∉ w'.failures

theorem ends_restoreToken (hw : .restore ∉ w.failures) : Ends (restoreToken env c) w
    (fun _ w' => w'.db = w.db ∧ w.failures ⊆ w'.failures ∧ Tried env c w w')
    fun _ _ => False := by
  refine Ends.tryCatch (fun _ w' => w'.db = w.db ∧ w.failures ⊆ w'.failures ∧ Tried env c w w')
    ?_ fun _ _ h => Ends.pure h
  refine Ends.bind (fun _ w' => w'.db = w.db ∧ w.failures ⊆ w'.failures ∧ Tried env c w w')
    ?_ fun _ _ h => Ends.pure h
  refine Environment.ends_call (fun hf => ⟨rfl, List.Subset.refl _, ?_⟩) fun x hf =>
    ⟨rfl, List.subset_append_left _ _, ?_⟩
  · exact ⟨_, env.before_reaches .restore w, Or.inr ⟨hf, hw, rfl⟩⟩
  · exact ⟨_, env.before_reaches .restore w, Or.inl ⟨by simp [hf], by simp⟩⟩

/-- What `writeOrRestore` leaves when it raises. -/
structure Raised (env : Environment S C R MailCall Exn) (c : C)
    (w w' : World S C R D MailCall) : Prop where
  committed : w'.db.committed = w.db.committed
  failures : w'.failures ≠ []
  undone : ∃ x, databaseFault env.fault .write .commit = some x ∧
    if x.isDBAPIError = true ∧ env.fault .rollback = none then Tried env c w w'
    else Abandoned env w w'

/-- What `writeOrRestore` leaves when it returns. -/
structure Written (env : Environment S C R MailCall Exn) (procedure : D → D)
    (w w' : World S C R D MailCall) : Prop where
  no_fault : databaseFault env.fault .write .commit = none
  committed : w'.db.committed = procedure w.db.committed
  pending : w'.db.pending = []
  failures : w'.failures = []
  reaches : Journal.Reaches env.machine env.mine w.redis w'.redis

variable (env c procedure) in
theorem ends_writeOrRestore (hp : w.db.pending = []) (hw : w.failures = []) :
    Ends (writeOrRestore env procedure c) w (fun _ w' => Written env procedure w w')
      fun _ w' => Raised env c w w' := by
  -- the handler, after the exception `x` has left the `try`
  refine Ends.tryCatch (fun x w' => databaseFault env.fault .write .commit = some x ∧
    w'.db.committed = w.db.committed ∧ w'.failures ≠ [] ∧ Abandoned env w w') ?_ ?_
  · refine (ends_callAndCommit env .write procedure w .commit).mono ?_ ?_
    · rintro - w₁ ⟨hf, hdb, hfail, hr⟩
      refine ⟨hf, ?_, by rw [hdb]; rfl, hfail.trans hw, hr.reaches⟩
      rw [hdb]
      simp [UnitOfWork.execute, UnitOfWork.commit, hp]
    · rintro x w₁ ⟨hf, hcom, -, ⟨k, hk, hfail⟩, hr⟩
      refine ⟨hf, hcom, by simp [hfail], hr.reaches, ?_⟩
      rw [hfail, hw]
      rcases hk with rfl | rfl <;> simp
  · rintro x w₁ ⟨hx, hcom, hfail, hr, hnot⟩
    split
    · rename_i hdbapi
      refine Ends.bind (fun _ w' => env.fault .rollback = none ∧ w'.failures = w₁.failures ∧
        w'.db.committed = w₁.db.committed ∧
        Journal.Reaches env.machine env.mine w₁.redis w'.redis)
        (Environment.ends_rollback (fun hf => ⟨hf, rfl, rfl, env.before_reaches _ w₁⟩)
          fun y hf => ?_) ?_
      · refine ⟨hcom, by simp, x, hx, ?_⟩
        rw [if_neg (by simp [hf])]
        exact ⟨hr.trans (env.before_reaches _ w₁), by simp [hnot]⟩
      · rintro - w₂ ⟨hf, hfail₂, hcom₂, hr₂⟩
        refine Ends.bind _ ((ends_restoreToken (hfail₂ ▸ hnot)).mono (fun _ _ h => h)
          fun _ _ h => h.elim) ?_
        rintro - w₃ ⟨hdb, hsub, j, hj, ht⟩
        refine Ends.throw ⟨by rw [hdb, hcom₂, hcom], ?_, x, hx, ?_⟩
        · rw [← hfail₂] at hfail
          exact fun h => hfail (List.subset_nil.mp (h ▸ hsub))
        · rw [if_pos ⟨hdbapi, hf⟩]
          exact ⟨j, (hr.trans hr₂).trans hj, ht⟩
    · rename_i hdbapi
      refine Ends.throw ⟨hcom, hfail, x, hx, ?_⟩
      rw [if_neg fun h => hdbapi h.1]
      exact ⟨hr, hnot⟩

/-- What the revocation of the credentials raises, if it fails. -/
def revocationFault (fault : MailCall → Option Exn) : Option Exn :=
  match fault .deleteAllSessions with
  | some x => some x
  | none => fault .revokeAllRefreshTokens

variable (env) in
theorem ends_revokeCredentials (hw : w.failures = []) : Ends (revokeCredentials env) w
    (fun _ w' => revocationFault env.fault = none ∧ w'.db = w.db ∧ w'.failures = [] ∧
      Journal.Reaches env.machine env.mine w.redis w'.redis)
    (fun _ w' => revocationFault env.fault ≠ none ∧ w'.db = w.db ∧ .restore ∉ w'.failures ∧
      Journal.Reaches env.machine env.mine w.redis w'.redis) := by
  refine Ends.bind (fun _ w' => env.fault .deleteAllSessions = none ∧ w'.db = w.db ∧
    w'.failures = [] ∧ Journal.Reaches env.machine env.mine w.redis w'.redis)
    (Environment.ends_call (fun hf => ⟨hf, rfl, hw, env.before_reaches _ w⟩)
      fun x hf => ?_) ?_
  · exact ⟨by simp [revocationFault, hf], rfl, by simp [hw], env.before_reaches _ w⟩
  · rintro - w₁ ⟨hf₁, hdb, hw₁, hr⟩
    refine Environment.ends_call (fun hf => ?_) fun x hf => ?_
    · exact ⟨by simp [revocationFault, hf₁, hf], hdb, hw₁,
        hr.trans (env.before_reaches _ w₁)⟩
    · exact ⟨by simp [revocationFault, hf₁, hf], hdb, by simp [hw₁],
        hr.trans (env.before_reaches _ w₁)⟩

end Handlers

/-! ### The property -/

section Property

variable {S C R D : Type}

/-- What is asked of a call that has consumed a token: if one of its calls fails, it ends in an
error; an error leaves the table as it was and the token consumable, unless the token was superseded
or its restore failed; a success has changed the table, and the token is never consumed again. -/
structure Compensated (env : Environment S C R MailCall Exn) (canConsume : S → Prop)
    (superseded : List (Machine.Event S C R) → Prop) (procedure : D → D) (users : D)
    (r : Except Exn Unit × World S C R D MailCall) : Prop where
  raises : r.2.failures ≠ [] → ∃ x, r.1 = .error x
  rolled_back : ∀ x, r.1 = .error x → r.2.db.committed = users ∧ r.2.db.pending = []
  restored : ∀ x, r.1 = .error x → canConsume r.2.redis.state ∨ superseded r.2.redis.events ∨
    .restore ∈ r.2.failures
  committed : ∀ a, r.1 = .ok a → r.2.db.committed = procedure users ∧ r.2.db.pending = []
  spent : ∀ a, r.1 = .ok a → ∀ j, Journal.Reaches env.machine env.mine r.2.redis j →
    ¬canConsume j.state

variable {env : Environment S C R MailCall Exn} {canConsume : S → Prop}
variable {superseded : List (Machine.Event S C R) → Prop} {procedure : D → D} {users : D}
variable {w : World S C R D MailCall}

theorem compensated_ok (hw : w.failures = []) (hc : w.db.committed = procedure users)
    (hs : ∀ j, Journal.Reaches env.machine env.mine w.redis j → ¬canConsume j.state) :
    Compensated env canConsume superseded procedure users
      (.ok (), { w with db := w.db.discard }) where
  raises h := absurd hw h
  rolled_back _ h := by cases h
  restored _ h := by cases h
  committed _ _ := ⟨hc, rfl⟩
  spent _ _ := hs

theorem compensated_error_iff {x : Exn} (hc : w.db.committed = users) :
    Compensated env canConsume superseded procedure users
        (.error x, { w with db := w.db.discard }) ↔
      canConsume w.redis.state ∨ superseded w.redis.events ∨ .restore ∈ w.failures := by
  constructor
  · intro h
    exact h.restored x rfl
  · intro h
    exact ⟨fun _ => ⟨x, rfl⟩, fun _ _ => ⟨hc, rfl⟩, fun _ _ => h, fun _ h => (by cases h),
      fun _ h => (by cases h)⟩

end Property

/-! ### The two services -/

/-- A failure of the procedure or of the commit reaches the handler, and the rollback succeeds. -/
def Handled (fault : MailCall → Option Exn) : Prop :=
  ∀ x, databaseFault fault .write .commit = some x → x.isDBAPIError = true ∧ fault .rollback = none

section Services

variable {T H ι : Type} [AddCommMonoid T] [LinearOrder T] [IsOrderedAddMonoid T]
variable [DecidableEq H] [DecidableEq ι]

/-- The circumstances of `verify_email` as the call `i` of the token store. -/
def verifyEnv (ttl : T) (i : ι) (others : MailCall → List (EmailVerify.Call T H Uuid ι))
    (fault : MailCall → Option Exn) : VerifyEnv T H ι where
  machine := EmailVerify.machine ttl
  mine := EmailVerify.Call.isOf i
  others := others
  fault := fault

/-- The circumstances of `reset_password` for the token `h`. -/
def resetEnv (ttl : T) (h : H) (others : MailCall → List (PasswordReset.Call T H Uuid ι))
    (fault : MailCall → Option Exn) : ResetEnv T H ι where
  machine := PasswordReset.machine ttl
  mine := PasswordReset.Call.restores h
  others := others
  fault := fault

section VerifyEmail

variable {ttl now : T} {others : MailCall → List (EmailVerify.Call T H Uuid ι)}
variable {fault : MailCall → Option Exn} {w w' : VerifyWorld T H ι} {i : ι} {h : H} {u : Uuid}

/-- After the consumption the call holds the token, whatever others do. -/
theorem verifyEmail_held
    (hrun : (EmailVerify.machine ttl).Run (EmailVerify.init now) w.redis.events w.redis.state)
    (hc : (verifyEnv ttl i others fault).Answers .consume (.consume i h) (.consumed (some u)) w)
    {j : Journal _ _ _} (hj : Journal.Reaches (EmailVerify.machine ttl) (EmailVerify.Call.isOf i)
      ((verifyEnv ttl i others fault).after .consume (.consume i h) w).redis j) :
    (EmailVerify.machine ttl).Run (EmailVerify.init now) j.events j.state ∧
      j.state.verifying i = some (h, u) := by
  obtain ⟨s, hs, hafter⟩ := hc.step
  have hbefore := ((verifyEnv ttl i others fault).before_reaches .consume w).run
    hrun
  rw [hafter] at hj
  refine ⟨hj.run (.snoc hbefore hs), ?_⟩
  rw [EmailVerify.reaches_verifying hj]
  exact EmailVerify.step_consume_verifying hs

theorem verifyEmail_compensated_iff (at' : Timestamp) (hw : w.failures = [])
    (hp : w.db.pending = [])
    (hrun : (EmailVerify.machine ttl).Run (EmailVerify.init now) w.redis.events w.redis.state)
    (hc : (verifyEnv ttl i others fault).Answers .consume (.consume i h) (.consumed (some u)) w) :
    let r := exec (Environment.withSession (verifyEmail (verifyEnv ttl i others fault) i h at')) w
    Compensated (verifyEnv ttl i others fault) (fun s => EmailVerify.CanConsume s h)
        (fun l => Ledger.latest EmailVerify.storedToken l u ≠ some h)
        (fun users => Accounts.spVerifyUserEmail at' users u) w.db.committed r ↔
      Handled fault ∨ Ledger.latest EmailVerify.storedToken r.2.redis.events u ≠ some h := by
  have hexec : exec (verifyEmail (verifyEnv ttl i others fault) i h at') w =
      exec (writeOrRestore (verifyEnv ttl i others fault)
        (fun users => Accounts.spVerifyUserEmail at' users u) (.restore i))
        ((verifyEnv ttl i others fault).after .consume (.consume i h) w) := by
    rw [verifyEmail, exec_bind_of_ok _ (Environment.exec_ask hc)]
  dsimp only
  rw [Environment.exec_withSession, hexec]
  rcases (ends_writeOrRestore (verifyEnv ttl i others fault) (.restore i)
    (fun users => Accounts.spVerifyUserEmail at' users u)
    (w := (verifyEnv ttl i others fault).after .consume (.consume i h) w) hp hw).cases with
    ⟨a, w', hr, hok⟩ | ⟨x, w', hr, herr⟩
  · rw [hr]
    -- it returns: nobody can consume the token that the call holds
    refine iff_of_true (compensated_ok hok.failures hok.committed fun j hj => ?_) (Or.inl ?_)
    · obtain ⟨hrun', hv⟩ := verifyEmail_held hrun hc (hok.reaches.trans hj)
      exact EmailVerify.not_canConsume hrun' hv
    · intro x hx
      rw [show databaseFault fault .write .commit = none from hok.no_fault] at hx
      cases hx
  · rw [hr]
    refine (compensated_error_iff (w := w') herr.committed).trans ?_
    -- it raises: the write was undone, by the handler or not at all
    obtain ⟨x', hx', hundone⟩ := herr.undone
    split at hundone
    · rename_i hhandled
      refine iff_of_true ?_ (Or.inl fun y hy => ?_)
      · obtain ⟨j, hj, ⟨-, hmem⟩ | ⟨-, -, hredis⟩⟩ := hundone
        · exact Or.inr (Or.inr hmem)
        · obtain ⟨hrun', hv⟩ := verifyEmail_held hrun hc hj
          rw [hredis]
          exact (EmailVerify.restore_canConsume hrun' hv).imp_right Or.inl
      · obtain rfl := Option.some.inj (hx'.symm.trans hy)
        exact hhandled
    · rename_i hnot
      obtain ⟨hrun', hv⟩ := verifyEmail_held hrun hc hundone.1
      constructor
      · -- without the handler the token stays with the call
        rintro (hcan | hsup | hmem)
        · exact absurd hcan (EmailVerify.not_canConsume hrun' hv)
        · exact Or.inr hsup
        · exact absurd hmem hundone.2
      · rintro (hH | hsup)
        · exact absurd (hH x' hx') hnot
        · exact Or.inr (Or.inl hsup)

end VerifyEmail

section ResetPassword

variable {ttl now : T} {others : MailCall → List (PasswordReset.Call T H Uuid ι)}
variable {fault : MailCall → Option Exn} {w w' : ResetWorld T H ι} {h : H} {u : Uuid}

/-- After the consumption the call holds the token, whatever others do. -/
theorem resetPassword_held
    (hrun : (PasswordReset.machine ttl).Run (PasswordReset.init now) w.redis.events w.redis.state)
    (hc : (resetEnv ttl h others fault).Answers .consume (.consume h) (.consumed (some u)) w)
    {j : Journal _ _ _} (hj : Journal.Reaches (PasswordReset.machine ttl)
      (PasswordReset.Call.restores h)
      ((resetEnv ttl h others fault).after .consume (.consume h) w).redis j) :
    0 < ttl ∧ PasswordReset.Held ttl now h u
      (((resetEnv ttl h others fault).before .consume w).redis.state.keys.now + ttl) j := by
  obtain ⟨s, hs, hafter⟩ := hc.step
  have hbefore := ((resetEnv ttl h others fault).before_reaches .consume w).run hrun
  rw [hafter] at hj
  exact ⟨(PasswordReset.step_consume hs rfl).1,
    (PasswordReset.held_of_consume hbefore hs).reaches hj⟩

/-- What the part of `reset_password` after the consumption leaves. -/
theorem ends_resetPassword (hashPassword : String → String) (newPassword : String)
    (hp : w.db.pending = []) (hw : w.failures = [])
    (hc : (resetEnv ttl h others fault).Answers .consume (.consume h) (.consumed (some u)) w) :
    Ends (resetPassword (resetEnv ttl h others fault) hashPassword h newPassword) w
      (fun _ w' => revocationFault fault = none ∧ Written (resetEnv ttl h others fault)
        (fun users => Accounts.spUpdateUserPassword users u (hashPassword newPassword))
        ((resetEnv ttl h others fault).after .consume (.consume h) w) w')
      (fun _ w' => w'.db.committed = w.db.committed ∧
        (revocationFault fault ≠ none ∧ Tried (resetEnv ttl h others fault) (.restore h u)
            ((resetEnv ttl h others fault).after .consume (.consume h) w) w' ∨
          revocationFault fault = none ∧ Raised (resetEnv ttl h others fault) (.restore h u)
            ((resetEnv ttl h others fault).after .consume (.consume h) w) w')) := by
  rw [Ends, resetPassword, exec_bind_of_ok _ (Environment.exec_ask hc)]
  refine Ends.bind (fun _ w' => revocationFault fault = none ∧ w'.db = w.db ∧
    w'.failures = [] ∧ Journal.Reaches (PasswordReset.machine ttl) (PasswordReset.Call.restores h)
      ((resetEnv ttl h others fault).after .consume (.consume h) w).redis w'.redis)
    (Ends.tryCatch _ ((ends_revokeCredentials (resetEnv ttl h others fault)
      (w := (resetEnv ttl h others fault).after .consume (.consume h) w) hw).mono
      (fun _ _ h => h) fun _ _ h => h) ?_) ?_
  · -- the revocation raises: the token is restored
    rintro x w₁ ⟨hf, hdb, hnot, hr⟩
    refine Ends.bind _ ((ends_restoreToken hnot).mono (fun _ _ h => h) fun _ _ h => h.elim) ?_
    rintro - w₂ ⟨hdb₂, -, j, hj, ht⟩
    exact Ends.throw ⟨by rw [hdb₂, hdb]; rfl, Or.inl ⟨hf, j, hr.trans hj, ht⟩⟩
  · -- the revocation succeeds: the password is written, or the token restored
    rintro - w₁ ⟨hf, hdb, hfail, hr⟩
    refine (ends_writeOrRestore (resetEnv ttl h others fault) (.restore h u) _
      (by rw [hdb]; exact hp) hfail).mono ?_ ?_
    · intro _ w₂ hok
      exact ⟨hf, hok.no_fault, by rw [hok.committed, hdb]; rfl, hok.pending, hok.failures,
        hr.trans hok.reaches⟩
    · intro x w₂ herr
      refine ⟨by rw [herr.committed, hdb], Or.inr ⟨hf, by rw [herr.committed, hdb]; rfl,
        herr.failures, ?_⟩⟩
      obtain ⟨y, hy, hundone⟩ := herr.undone
      refine ⟨y, hy, ?_⟩
      split at hundone
      · rename_i hhandled
        rw [if_pos hhandled]
        obtain ⟨j, hj, ht⟩ := hundone
        exact ⟨j, hr.trans hj, ht⟩
      · rename_i hnot
        rw [if_neg hnot]
        exact ⟨hr.trans hundone.1, hundone.2⟩

/-- A call of `reset_password` fails after the consumption. -/
def Fails (fault : MailCall → Option Exn) : Prop :=
  revocationFault fault ≠ none ∨ databaseFault fault .write .commit ≠ none

theorem resetPassword_compensated_iff (hashPassword : String → String) (newPassword : String)
    (hp : w.db.pending = []) (hw : w.failures = [])
    (hrun : (PasswordReset.machine ttl).Run (PasswordReset.init now) w.redis.events w.redis.state)
    (hc : (resetEnv ttl h others fault).Answers .consume (.consume h) (.consumed (some u)) w) :
    let r := exec (Environment.withSession
      (resetPassword (resetEnv ttl h others fault) hashPassword h newPassword)) w
    Compensated (resetEnv ttl h others fault) (fun s => PasswordReset.CanConsume ttl s h)
        (fun l => Ledger.latest PasswordReset.storedToken l u ≠ some h)
        (fun users => Accounts.spUpdateUserPassword users u (hashPassword newPassword))
        w.db.committed r ↔
      ((revocationFault fault = none → Handled fault) ∧
        (Fails fault → fault .restore = none → r.2.redis.state.keys.now ≤
          ((resetEnv ttl h others fault).before .consume w).redis.state.keys.now + ttl)) ∨
        Ledger.latest PasswordReset.storedToken r.2.redis.events u ≠ some h := by
  dsimp only
  rw [Environment.exec_withSession]
  -- a restore that was tried has the outcome that the time allows
  have htried : ∀ {x : Exn} {w' : ResetWorld T H ι}, w'.db.committed = w.db.committed →
      Tried (resetEnv ttl h others fault) (.restore h u)
        ((resetEnv ttl h others fault).after .consume (.consume h) w) w' →
      (Compensated (resetEnv ttl h others fault) (fun s => PasswordReset.CanConsume ttl s h)
          (fun l => Ledger.latest PasswordReset.storedToken l u ≠ some h)
          (fun users => Accounts.spUpdateUserPassword users u (hashPassword newPassword))
          w.db.committed (.error x, { w' with db := w'.db.discard }) ↔
        (fault .restore = none → w'.redis.state.keys.now ≤
          ((resetEnv ttl h others fault).before .consume w).redis.state.keys.now + ttl) ∨
          Ledger.latest PasswordReset.storedToken w'.redis.events u ≠ some h) := by
    intro x w' hcom ht
    refine (compensated_error_iff (w := w') hcom).trans ?_
    obtain ⟨j, hj, ⟨hf, hmem⟩ | ⟨hf, hnot, hredis⟩⟩ := ht
    · exact iff_of_true (Or.inr (Or.inr hmem)) (Or.inl fun hn => absurd hn hf)
    · obtain ⟨httl, hheld⟩ := resetPassword_held hrun hc hj
      obtain ⟨hnow, hin, hlate⟩ := hheld.restore httl
      rw [hredis, show (resetEnv ttl h others fault).machine = PasswordReset.machine ttl from rfl,
        hnow]
      constructor
      · rintro (hcan | hsup | hmem)
        · exact Or.inl fun _ => not_lt.mp fun hlt => hlate hlt hcan
        · exact Or.inr hsup
        · exact absurd hmem hnot
      · rintro (hle | hsup)
        · exact (hin (hle hf)).imp_right Or.inl
        · exact Or.inr (Or.inl hsup)
  rcases (ends_resetPassword hashPassword newPassword hp hw hc).cases with
    ⟨a, w', hr, hf, hok⟩ | ⟨x, w', hr, hcom, ⟨hf, ht⟩ | ⟨hf, herr⟩⟩
  · rw [hr]
    refine iff_of_true (compensated_ok hok.failures hok.committed fun j hj => ?_) (Or.inl ⟨?_, ?_⟩)
    · exact (resetPassword_held hrun hc (hok.reaches.trans hj)).2.not_canConsume
    · intro _ x hx
      rw [show databaseFault fault .write .commit = none from hok.no_fault] at hx
      cases hx
    · rintro (hrev | hdb)
      · exact absurd hf hrev
      · exact absurd hok.no_fault hdb
  · rw [hr, htried hcom ht]
    refine or_congr_left ⟨fun h => ⟨fun hn => absurd hn hf, fun _ => h⟩, fun h => h.2 (Or.inl hf)⟩
  · obtain ⟨y, hy, hundone⟩ := herr.undone
    have hfails : Fails fault := by
      right
      rw [show databaseFault fault .write .commit = some y from hy]
      simp
    rw [hr]
    split at hundone
    · rename_i hhandled
      rw [htried hcom hundone]
      have hH : Handled fault := by
        intro z hz
        obtain rfl := Option.some.inj (hy.symm.trans hz)
        exact hhandled
      exact or_congr_left ⟨fun h => ⟨fun _ => hH, fun _ => h⟩, fun h => h.2 hfails⟩
    · rename_i hnot
      have hheld := (resetPassword_held hrun hc hundone.1).2
      refine (compensated_error_iff (w := w') hcom).trans ⟨?_, ?_⟩
      · rintro (hcan | hsup | hmem)
        · exact absurd hcan hheld.not_canConsume
        · exact Or.inr hsup
        · exact absurd hmem hundone.2
      · rintro (⟨hH, -⟩ | hsup)
        · exact absurd (hH hf y hy) hnot
        · exact Or.inr (Or.inl hsup)

end ResetPassword

/-! ### The condition -/

/-- From any history of the token store, whatever others do in between and whatever fails:
`verify_email` undoes the consumption exactly if what the procedure or the commit raises is a
`DBAPIError` and the rollback succeeds, or the token was superseded; `reset_password` exactly if that
holds of what follows the revocation, and the restore comes before the record of the consumption
expires, or the token was superseded. -/
theorem mail_token_compensation (ttl now : T) (fault : MailCall → Option Exn) (users : List User) :
    (∀ (history : List (EmailVerify.Call T H Uuid ι))
      (others : MailCall → List (EmailVerify.Call T H Uuid ι)) (i : ι) (h : H) (u : Uuid)
      (at' : Timestamp),
      let w : VerifyWorld T H ι :=
        .start (EmailVerify.machine ttl) (fun _ => false) (EmailVerify.init now) history users
      let env := verifyEnv ttl i others fault
      let r := exec (Environment.withSession (verifyEmail env i h at')) w
      env.Answers .consume (.consume i h) (.consumed (some u)) w →
      (Compensated env (fun s => EmailVerify.CanConsume s h)
          (fun l => Ledger.latest EmailVerify.storedToken l u ≠ some h)
          (fun users => Accounts.spVerifyUserEmail at' users u) users r ↔
        Handled fault ∨ Ledger.latest EmailVerify.storedToken r.2.redis.events u ≠ some h)) ∧
    ∀ (history : List (PasswordReset.Call T H Uuid ι))
      (others : MailCall → List (PasswordReset.Call T H Uuid ι)) (hashPassword : String → String)
      (h : H) (newPassword : String) (u : Uuid),
      let w : ResetWorld T H ι :=
        .start (PasswordReset.machine ttl) (fun _ => false) (PasswordReset.init now) history users
      let env := resetEnv ttl h others fault
      let r := exec (Environment.withSession (resetPassword env hashPassword h newPassword)) w
      env.Answers .consume (.consume h) (.consumed (some u)) w →
      (Compensated env (fun s => PasswordReset.CanConsume ttl s h)
          (fun l => Ledger.latest PasswordReset.storedToken l u ≠ some h)
          (fun users => Accounts.spUpdateUserPassword users u (hashPassword newPassword)) users r ↔
        ((revocationFault fault = none → Handled fault) ∧
          (Fails fault → fault .restore = none → r.2.redis.state.keys.now ≤
            (env.before .consume w).redis.state.keys.now + ttl)) ∨
          Ledger.latest PasswordReset.storedToken r.2.redis.events u ≠ some h) := by
  constructor
  · intro history others i h u at' w env r hc
    exact verifyEmail_compensated_iff at' rfl rfl
      (Journal.start_run (EmailVerify.init now) history) hc
  · intro history others hashPassword h newPassword u w env r hc
    exact resetPassword_compensated_iff hashPassword newPassword rfl rfl
      (Journal.start_run (PasswordReset.init now) history) hc

end Services

/-! ### Failures that are undone, and one that is not -/

/-- The token 5 of the user 0 is issued. -/
def issueRun : List (EmailVerify.Call ℕ ℕ Uuid ℕ) := [.replaceRead 1 0 5, .replaceExec 1]

@[inherit_doc issueRun]
def saveRun : List (PasswordReset.Call ℕ ℕ Uuid ℕ) := [.saveRead 1 0 5, .saveExec 1]

def unverifiedUsers : List User := [⟨"alice", "alice@example.com", none, .member, true, none⟩]

/-- The call `k` fails with `x`. -/
def faultAt (k : MailCall) (x : Exn) (k' : MailCall) : Option Exn := if k' = k then some x else none

/-- The commit fails with an SQLSTATE that is none of a connection, or Redis fails at the
revocation. -/
theorem mail_token_compensation_undone :
    Compensated (verifyEnv 10 0 (fun _ => []) (faultAt .commit (.operational (some "40001"))))
      (fun s => EmailVerify.CanConsume s 5)
      (fun l => Ledger.latest EmailVerify.storedToken l 0 ≠ some 5)
      (fun users => Accounts.spVerifyUserEmail 7 users 0) unverifiedUsers
      (exec (Environment.withSession (verifyEmail
        (verifyEnv 10 0 (fun _ => []) (faultAt .commit (.operational (some "40001")))) 0 5 7))
        (.start (EmailVerify.machine 10) (fun _ => false) (EmailVerify.init 0) issueRun
          unverifiedUsers)) ∧
    Compensated (resetEnv 10 5 (fun _ => []) (faultAt .revokeAllRefreshTokens .redis))
      (fun s => PasswordReset.CanConsume 10 s 5)
      (fun l => Ledger.latest PasswordReset.storedToken l 0 ≠ some 5)
      (fun users => Accounts.spUpdateUserPassword users 0 (id "new")) unverifiedUsers
      (exec (Environment.withSession (resetPassword
        (resetEnv 10 5 (fun _ => []) (faultAt .revokeAllRefreshTokens .redis)) id 5 "new"))
        (.start (PasswordReset.machine 10) (fun _ => false) (PasswordReset.init 0) saveRun
          unverifiedUsers)) := by
  constructor
  · refine ((mail_token_compensation 10 0 (faultAt .commit (.operational (some "40001")))
      unverifiedUsers).1 issueRun (fun _ => []) 0 5 0 7 ⟨rfl, rfl⟩).mpr (Or.inl ?_)
    intro x hx
    obtain rfl := Option.some.inj
      ((by decide : databaseFault (faultAt .commit (.operational (some "40001")))
        .write .commit =
        some (.operational (some "40001"))).symm.trans hx)
    exact ⟨rfl, rfl⟩
  · refine ((mail_token_compensation 10 0 (faultAt .revokeAllRefreshTokens .redis)
      unverifiedUsers).2 saveRun (fun _ => []) id 5 "new" 0 ⟨rfl, rfl⟩).mpr (Or.inl ⟨?_, ?_⟩)
    · intro h
      exact absurd h (by decide)
    · intro _ _
      decide

/-- The database cannot be reached when the procedure is called: the token is lost. -/
theorem not_compensated_connectionFault :
    (verifyEnv 10 0 (fun _ => []) (faultAt .write (.operational (some "08006")))).Answers .consume
        (.consume 0 5) (.consumed (some 0))
        (.start (EmailVerify.machine 10) (fun _ => false) (EmailVerify.init 0) issueRun
          unverifiedUsers :
          VerifyWorld ℕ ℕ ℕ) ∧
      ¬Compensated (verifyEnv 10 0 (fun _ => []) (faultAt .write (.operational (some "08006"))))
        (fun s => EmailVerify.CanConsume s 5)
        (fun l => Ledger.latest EmailVerify.storedToken l 0 ≠ some 5)
        (fun users => Accounts.spVerifyUserEmail 7 users 0) unverifiedUsers
        (exec (Environment.withSession (verifyEmail
          (verifyEnv 10 0 (fun _ => []) (faultAt .write (.operational (some "08006")))) 0 5 7))
          (.start (EmailVerify.machine 10) (fun _ => false) (EmailVerify.init 0) issueRun
          unverifiedUsers)) := by
  refine ⟨⟨rfl, rfl⟩, fun h => ?_⟩
  have hres := h.restored (.app .serviceUnavailable) rfl
  unfold EmailVerify.CanConsume at hres
  revert hres
  decide

end MailTokens
