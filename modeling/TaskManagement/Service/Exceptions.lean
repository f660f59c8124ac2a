import TaskManagement.Requests

/-!
# Exceptions

The exceptions that the services raise and handle, and the functions of `core/exceptions.py` that
classify those of the database.
-/

namespace Service

open Requests

/-- The subclasses of `AppError` that the modelled services raise. -/
inductive AppError : Type where
  | invalidVerifyToken
  | invalidResetToken
  | invalidState
  | csrfInvalid
  | oauthFailed
  | userInactive
  | serviceUnavailable
deriving DecidableEq, Repr

inductive Exn : Type where
  | app (error : AppError)
  /-- `OperationalError` with the SQLSTATE of its cause, if it has one. -/
  | operational (sqlstate : Option String)
  /-- Any other `DBAPIError`: `InterfaceError`, `DataError`, `IntegrityError` and so on. -/
  | dbapi
  /-- An error of SQLAlchemy that is no `DBAPIError`: `TimeoutError`, `DisconnectionError`. -/
  | sqlalchemy
  /-- The attribute of an expired object is read outside of the engine. -/
  | missingGreenlet
  | redis
  | valueError
  | typeError
deriving DecidableEq, Repr

/-- `_POSTGRES_CONNECTION_SQLSTATE_PREFIX` -/
def connectionSqlstatePrefix : String := "08"

/-- `_POSTGRES_RETRYABLE_CONNECTION_STATES` -/
def retryableConnectionStates : List String := ["57P03"]

namespace Exn

/-- `isinstance(exc, OperationalError)` -/
def isOperationalError : Exn → Bool
  | .operational _ => true
  | _ => false

/-- `isinstance(exc, DBAPIError)` -/
def isDBAPIError : Exn → Bool
  | .operational _ | .dbapi => true
  | _ => false

/-- `_is_connection_operational_error` -/
def isConnectionOperationalError : Exn → Bool
  | .operational (some sqlstate) =>
    connectionSqlstatePrefix.toList.isPrefixOf sqlstate.toList ||
      retryableConnectionStates.contains sqlstate
  | _ => false

/-- What `raise_database_error` raises. -/
def databaseError (exc : Exn) : Exn :=
  if exc.isOperationalError && exc.isConnectionOperationalError then .app .serviceUnavailable
  else exc

end Exn

/-- `raise_database_error` -/
def raiseDatabaseError {W α : Type} (exc : Exn) : Request W Exn α := throw exc.databaseError

section

variable {S C R D K : Type} (env : Environment S C R K Exn)

/-- A function of a repository: a procedure is called, and an `OperationalError` is converted. -/
def callProcedure (k : K) (procedure : D → D) : Request (World S C R D K) Exn Unit := do
  try
    env.execute k procedure
  catch exc =>
    if exc.isOperationalError then raiseDatabaseError exc else throw exc

variable {env} {k : K} {procedure : D → D} {w : World S C R D K}
variable {ok : Unit → World S C R D K → Prop} {err : Exn → World S C R D K → Prop}

theorem Exn.databaseError_of_not_operational {exc : Exn} (h : ¬exc.isOperationalError) :
    exc.databaseError = exc := by
  rw [databaseError, if_neg (by simp [h])]

theorem ends_callProcedure
    (hok : env.fault k = none → ok () { env.before k w with db := w.db.execute procedure })
    (herr : ∀ x, env.fault k = some x →
      err x.databaseError { env.before k w with failures := w.failures ++ [k] }) :
    Ends (callProcedure env k procedure) w ok err := by
  refine Ends.tryCatch (fun x w' => err x.databaseError w')
    (Environment.ends_onSession hok herr) fun x w' hx => ?_
  split
  · exact Ends.throw hx
  · rename_i hop
    rw [Exn.databaseError_of_not_operational hop] at hx
    exact Ends.throw hx

/-- What a procedure call and the commit after it raise, if one of them fails. -/
def databaseFault (fault : K → Option Exn) (k k' : K) : Option Exn :=
  match fault k with
  | some x => some x.databaseError
  | none => fault k'

variable (env k procedure w) in
/-- A procedure call and the commit, in a `try`. -/
theorem ends_callAndCommit (k' : K) :
    Ends (do callProcedure env k procedure; env.commit k') w
      (fun _ w' => databaseFault env.fault k k' = none ∧ w'.db = (w.db.execute procedure).commit ∧
        w'.failures = w.failures ∧ env.Passes w.redis w'.redis)
      (fun x w' => databaseFault env.fault k k' = some x ∧ w'.db.committed = w.db.committed ∧
        w'.db.expired = w.db.expired ∧ (∃ f, (f = k ∨ f = k') ∧ w'.failures = w.failures ++ [f]) ∧
        env.Passes w.redis w'.redis) := by
  refine Ends.bind (fun _ w' => env.fault k = none ∧ w'.failures = w.failures ∧
    w'.db = w.db.execute procedure ∧ env.Passes w.redis w'.redis)
    (ends_callProcedure (fun hf => ⟨hf, rfl, rfl, env.before_passes k w⟩) fun x hf => ?_) ?_
  · exact ⟨by rw [databaseFault, hf], rfl, rfl, ⟨k, Or.inl rfl, rfl⟩, env.before_passes k w⟩
  · rintro - w₁ ⟨hfk, hfail, hdb, hp⟩
    refine Environment.ends_onSession (fun hf => ?_) fun x hf => ?_
    · exact ⟨by rw [databaseFault, hfk, hf], by rw [hdb], hfail,
        hp.trans (env.before_passes k' w₁)⟩
    · refine ⟨by rw [databaseFault, hfk, hf], ?_, ?_, ⟨k', Or.inr rfl, ?_⟩,
        hp.trans (env.before_passes k' w₁)⟩
      · rw [Environment.before_db, hdb]
        rfl
      · rw [Environment.before_db, hdb]
        rfl
      · rw [hfail]

end

end Service
