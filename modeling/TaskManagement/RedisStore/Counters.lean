import TaskManagement.RedisStore.LoginFailure

/-!
# The counters of failed logins and of requests

`incr_login_failure`, `reset_login_failure` and `check_rate_limit` of `redis_store_security.py`.
The first and the last are an `INCR` and, by the call that has counted 1, an `EXPIRE`.

`machine` interleaves the calls: each Redis command is a step.  Between its two commands a call may
crash, or see its `EXPIRE` fail.  The calls that have made their `INCR` are numbered in this order.
The normalisation of an identifier is a parameter.
-/

namespace Counters

open LoginFailure (Keys getLoginFailureCount incr)

/-- The keys `login_fail`, by normalised identifier and client address, and `rate_limit`. -/
inductive Key (N A S V : Type) : Type where
  | loginFail (identifier : N) (clientIp : A)
  | rateLimit (scope : S) (value : V)
deriving DecidableEq

/-- How far a call is that has made its `INCR`. -/
inductive Phase : Type where
  /-- `INCR` has answered 1: `EXPIRE` is next. -/
  | counted
  /-- The call has returned the count. -/
  | returned
  /-- The call has crashed, or `EXPIRE` has failed. -/
  | lost
deriving DecidableEq

structure Caller (K T : Type) where
  key : K
  window : T
  phase : Phase

structure State (T K : Type) [LE T] [DecidableLE T] where
  keys : Keys T K
  callers : List (Caller K T)

inductive Call (T I A S V : Type) : Type where
  /-- `incr_login_failure`, up to its `INCR` -/
  | incrLoginFailure (identifier : I) (clientIp : A) (window : T)
  /-- `check_rate_limit`, up to its `INCR` -/
  | checkRateLimit (scope : S) (value : V) (maxRequests : ℤ) (window : T)
  /-- `EXPIRE` -/
  | expire (i : ℕ)
  | expireFails (i : ℕ)
  | crash (i : ℕ)
  | resetLoginFailure (identifier : I) (clientIp : A)
  /-- Time passes. -/
  | tick (d : T)

inductive Reply : Type where
  | count (n : ℕ)
  /-- `ValueError` -/
  | valueError
  | done
deriving DecidableEq

section Machine

variable {T I N A S V : Type} [AddCommMonoid T] [LinearOrder T]
variable [DecidableEq N] [DecidableEq A] [DecidableEq S] [DecidableEq V]

def init (now : T) : State T (Key N A S V) where
  keys := .empty now
  callers := []

/-- `validate_ttl` and `INCR`. -/
def increment (s : State T (Key N A S V)) (k : Key N A S V) (window : T) :
    Reply × State T (Key N A S V) :=
  if 0 < window then
    let keys := incr s.keys k
    let count := getLoginFailureCount keys k
    (.count count,
      { keys := keys
        callers := s.callers ++ [⟨k, window, if count = 1 then .counted else .returned⟩] })
  else (.valueError, s)

/-- The caller `i` is between its two commands: it goes on with the keys `keys`. -/
def settle (s : State T (Key N A S V)) (i : ℕ)
    (keys : Caller (Key N A S V) T → Keys T (Key N A S V)) (phase : Phase) :
    Option (Reply × State T (Key N A S V)) :=
  s.callers[i]?.bind fun c =>
    if c.phase = .counted then
      some (.done, { keys := keys c, callers := s.callers.set i { c with phase := phase } })
    else none

/-- The calls, interleaved. -/
def machine (normalize : I → N) :
    Machine (State T (Key N A S V)) (Call T I A S V) Reply where
  step s
    | .incrLoginFailure identifier clientIp window =>
      some (increment s (.loginFail (normalize identifier) clientIp) window)
    | .checkRateLimit scope value maxRequests window =>
      some (if maxRequests ≤ 0 then (.valueError, s)
        else increment s (.rateLimit scope value) window)
    | .expire i => settle s i (fun c => s.keys.expire c.key c.window) .returned
    | .expireFails i => settle s i (fun _ => s.keys) .lost
    | .crash i => settle s i (fun _ => s.keys) .lost
    | .resetLoginFailure identifier clientIp =>
      some (.done, { s with keys := s.keys.del (.loginFail (normalize identifier) clientIp) })
    | .tick d => if 0 ≤ d then some (.done, { s with keys := s.keys.advance d }) else none

end Machine

end Counters
