import TaskManagement.Keyspace
import TaskManagement.Machine
import Mathlib.Algebra.Order.Sub.Defs

/-!
# The lockout of the login

`ensure_login_not_rate_limited`, `record_login_failure` and `record_login_success` of
`auth_service.py` over `redis_store_security.py`, as `login` calls them.  The failures of a
normalised identifier and a client address are counted under the key `login_fail`.

`machine` interleaves the attempts: every Redis command, the read of the user and the verification
of the password are one step of their attempt.  The attempts are numbered in the order of their
first step.  The users change between the steps (`users`).  The normalisation of an identifier and
`verify_password` are parameters.
-/

namespace LoginFailure

/-- The settings `login_max_attempts` and `login_lock_window_seconds`. -/
structure Settings (T : Type) where
  loginMaxAttempts : ℕ
  loginLockWindowSeconds : T

section Commands

variable {T κ : Type} [Add T] [LE T] [DecidableLE T] [DecidableEq κ]

/-- The counters `login_fail`, by normalised identifier and client address. -/
abbrev Keys (T κ : Type) [LE T] [DecidableLE T] : Type :=
  Keyspace T (fun _ : κ => ℕ) Empty Empty

/-- `get_login_failure_count` -/
def getLoginFailureCount (s : Keys T κ) (k : κ) : ℕ := (s.get k).getD 0

/-- `get_login_failure_ttl`: `none` for a counter that is missing or has no expiry. -/
def getLoginFailureTtl [Sub T] (s : Keys T κ) (k : κ) : Option T :=
  (s.string k).bind fun e => e.expiry.map (· - s.now)

/-- `INCR`: the value is one more, and the expiry stays. -/
def incr (s : Keys T κ) (k : κ) : Keys T κ :=
  s.putString k (some ⟨getLoginFailureCount s k + 1, (s.string k).bind Entry.expiry⟩)

/-- `reset_login_failure` -/
def resetLoginFailure (s : Keys T κ) (k : κ) : Keys T κ := s.del k

end Commands

/-! ### Interleaved attempts -/

/-- How far an attempt is. -/
inductive Phase (Hash : Type) : Type where
  /-- The counter was below the maximum. -/
  | checked
  /-- The counter was not below the maximum: `get_login_failure_ttl` is next. -/
  | limited
  /-- The user is read; `none` when there is no user or no password. -/
  | read (passwordHash : Option Hash)
  /-- The password does not match: `INCR` is next. -/
  | failed
  /-- `INCR` has answered 1: `EXPIRE` is next. -/
  | counted
  /-- The password matches: `record_login_success` is next. -/
  | matched
  | tooManyAttempts
  | invalidCredentials
  /-- The counter is reset, and the login goes on. -/
  | succeeded

/-- A call of `login`. -/
structure Attempt (I A P Hash : Type) where
  identifier : I
  clientIp : A
  password : P
  phase : Phase Hash

/-- The counters, the stored password of each identifier and the attempts. -/
structure State (T N I A P Hash : Type) [LE T] [DecidableLE T] where
  keys : Keys T (N × A)
  passwordHash : I → Option Hash
  attempts : List (Attempt I A P Hash)

inductive Call (T I A P Hash : Type) : Type where
  /-- `get_login_failure_count` of a new attempt -/
  | check (identifier : I) (clientIp : A) (password : P)
  /-- `get_login_failure_ttl` -/
  | ttl (i : ℕ)
  /-- `get_by_login_identifier` -/
  | read (i : ℕ)
  /-- `verify_password` -/
  | verify (i : ℕ)
  /-- `record_login_failure`: `INCR` -/
  | incr (i : ℕ)
  /-- `record_login_failure`: `EXPIRE` -/
  | expire (i : ℕ)
  /-- `record_login_success` -/
  | reset (i : ℕ)
  /-- Another transaction changes the users. -/
  | users (passwordHash : I → Option Hash)
  /-- Time passes. -/
  | tick (d : T)

inductive Reply (T : Type) : Type where
  | done
  /-- Whether there is a stored password, and the password matches it. -/
  | verified (ok : Bool)
  | tooManyAttempts (retryAfter : T)

section Machine

variable {T N I A P Hash : Type} [AddCommMonoid T] [LinearOrder T] [Sub T]
variable [DecidableEq N] [DecidableEq A]

/-- No attempt was made yet. -/
def init (now : T) (passwordHash : I → Option Hash) : State T N I A P Hash where
  keys := .empty now
  passwordHash := passwordHash
  attempts := []

/-- The counter of an attempt. -/
def Attempt.key (normalize : I → N) (a : Attempt I A P Hash) : N × A :=
  (normalize a.identifier, a.clientIp)

def setPhase (s : State T N I A P Hash) (i : ℕ) (a : Attempt I A P Hash) (phase : Phase Hash) :
    State T N I A P Hash :=
  { s with attempts := s.attempts.set i { a with phase := phase } }

/-- The login attempts, interleaved.  `validate_ttl` raises `ValueError` before `INCR` unless the
window is positive. -/
def machine (settings : Settings T) (normalize : I → N) (verifyPassword : P → Hash → Bool)
    (dummyPasswordHash : Hash) :
    Machine (State T N I A P Hash) (Call T I A P Hash) (Reply T) where
  step s
    | .check identifier clientIp password =>
      let failureCount := getLoginFailureCount s.keys (normalize identifier, clientIp)
      let phase := if failureCount ≥ settings.loginMaxAttempts then .limited else .checked
      some (.done, { s with
        attempts := s.attempts ++ [⟨identifier, clientIp, password, phase⟩] })
    | .ttl i =>
      s.attempts[i]?.bind fun a =>
        match a.phase with
        | .limited =>
          let ttl := getLoginFailureTtl s.keys (a.key normalize)
          some (.tooManyAttempts ((ttl.filter (0 < ·)).getD settings.loginLockWindowSeconds),
            setPhase s i a .tooManyAttempts)
        | _ => none
    | .read i =>
      s.attempts[i]?.bind fun a =>
        match a.phase with
        | .checked => some (.done, setPhase s i a (.read (s.passwordHash a.identifier)))
        | _ => none
    | .verify i =>
      s.attempts[i]?.bind fun a =>
        match a.phase with
        | .read storedHash =>
          let passwordMatched := verifyPassword a.password (storedHash.getD dummyPasswordHash)
          let ok := storedHash.isSome && passwordMatched
          some (.verified ok, setPhase s i a (if ok then .matched else .failed))
        | _ => none
    | .incr i =>
      s.attempts[i]?.bind fun a =>
        match a.phase with
        | .failed =>
          if 0 < settings.loginLockWindowSeconds then
            let keys := incr s.keys (a.key normalize)
            let count := getLoginFailureCount keys (a.key normalize)
            some (.done, setPhase { s with keys := keys } i a
              (if count = 1 then .counted else .invalidCredentials))
          else none
        | _ => none
    | .expire i =>
      s.attempts[i]?.bind fun a =>
        match a.phase with
        | .counted =>
          if 0 < settings.loginLockWindowSeconds then
            let keys := s.keys.expire (a.key normalize) settings.loginLockWindowSeconds
            some (.done, setPhase { s with keys := keys } i a .invalidCredentials)
          else none
        | _ => none
    | .reset i =>
      s.attempts[i]?.bind fun a =>
        match a.phase with
        | .matched =>
          let keys := resetLoginFailure s.keys (a.key normalize)
          some (.done, setPhase { s with keys := keys } i a .succeeded)
        | _ => none
    | .users passwordHash => some (.done, { s with passwordHash := passwordHash })
    | .tick d => if 0 ≤ d then some (.done, { s with keys := s.keys.advance d }) else none

end Machine

end LoginFailure
