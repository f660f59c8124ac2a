import TaskManagement.Keyspace
import TaskManagement.Machine
import Mathlib.Algebra.Order.Floor.Ring
import Mathlib.Algebra.Order.Ring.Int

/-!
# Sessions in Redis

`redis_store_session.py` and the part of `SessionAuthStrategy.authenticate` that uses it.

* `session:{sid}` holds the user, the creation time and the address of a session;
* `csrf:{sid}` holds its CSRF token;
* `user_sessions:{u}` is the set of the session ids of a user.

The functions are written over the commands that they send (`Commands`); `Keys` are the keys in a
`Keyspace`, and `SessionLifetime` has them for the exact instant at which a key expires.

`machine settings` executes the calls one after another; each is one step.  Times are elements of
an ordered ring with a ceiling, so that `math.ceil` of the remaining seconds has a meaning.
-/

namespace Session

/-- `SessionData`: the value of `session:{sid}`. -/
structure SessionData (T U : Type) where
  userId : U
  createdAt : T
  ip : Option String

/-- The commands that the functions below send for the keys of a session and of its user; `K` are the
states of Redis. -/
class Commands (K : Type) (T U S : outParam Type) where
  /-- the clock of Redis -/
  now : K → T
  /-- `GET session:{sid}` -/
  readSession : K → S → Option (SessionData T U)
  /-- `GET csrf:{sid}` -/
  readCsrf : K → S → Option String
  /-- `SETEX session:{sid}` -/
  setSession : K → S → SessionData T U → T → K
  /-- `SETEX csrf:{sid}` -/
  setCsrf : K → S → String → T → K
  /-- `EXPIRE session:{sid}` -/
  expireSession : K → S → T → K
  /-- `EXPIRE csrf:{sid}` -/
  expireCsrf : K → S → T → K
  /-- `DEL session:{sid}` -/
  delSession : K → S → K
  /-- `DEL csrf:{sid}` -/
  delCsrf : K → S → K
  /-- `SMEMBERS user_sessions:{u}` -/
  smembers : K → U → Finset S
  /-- `SADD user_sessions:{u}` -/
  sadd : K → U → S → K
  /-- `SREM user_sessions:{u}` -/
  srem : K → U → S → K
  /-- `EXPIRE user_sessions:{u}` -/
  expireSet : K → U → T → K
  /-- `DEL user_sessions:{u}` -/
  delSet : K → U → K
  /-- Time passes. -/
  advance : K → T → K

/-- `session_ttl_seconds` and `session_absolute_ttl_seconds` -/
structure Settings (T : Type) where
  sessionTtl : T
  sessionAbsoluteTtl : T

/-- The outcome of `authenticate`: `AuthContext` or `SessionExpiredError`. -/
inductive AuthResult (U S : Type) : Type where
  | context (userId : U) (sessionId : S)
  | sessionExpired

section Functions

open Commands

variable {K T U S : Type} [Commands K T U S]

/-- `get_session` -/
def getSession (s : K) (sid : S) : Option (SessionData T U) := readSession s sid

/-- `get_csrf_token` -/
def getCsrfToken (s : K) (sid : S) : Option String := readCsrf s sid

/-- `create_session` -/
def createSession (ttl : T) (s : K) (sid : S) (csrfToken : String) (u : U)
    (ip : Option String) : K :=
  let s := setSession s sid ⟨u, now s, ip⟩ ttl
  let s := setCsrf s sid csrfToken ttl
  let s := sadd s u sid
  expireSet s u ttl

/-- `delete_session` -/
def deleteSession (s : K) (sid : S) (u : U) : K :=
  let s := delSession s sid
  let s := delCsrf s sid
  srem s u sid

/-- `delete_all_sessions`, for the ids that `SMEMBERS` returned. -/
def deleteAllSessions (s : K) (u : U) (sessionIds : List S) : K :=
  delSet (sessionIds.foldl (fun s sid => delCsrf (delSession s sid) sid) s) u

variable [Ring T] [LinearOrder T] [FloorRing T]

/-- `touch_session`: `false` when the session is missing or past its absolute expiry. -/
def touchSession (ttl : T) (s : K) (sid : S) (u : U) (absoluteExpiresAt : T) : Bool × K :=
  match readSession s sid with
  | none => (false, s)
  | some _ =>
    let remaining := absoluteExpiresAt - now s
    if remaining ≤ 0 then (false, s)
    else
      let effectiveTtl := min ttl ⌈remaining⌉
      let s := expireSession s sid effectiveTtl
      let s := expireCsrf s sid effectiveTtl
      (true, expireSet s u effectiveTtl)

/-- `SessionAuthStrategy.authenticate` for the session id of the cookie. -/
def authenticate (settings : Settings T) (s : K) (sid : S) : AuthResult U S × K :=
  match getSession s sid with
  | none => (.sessionExpired, s)
  | some d =>
    let absoluteExpiresAt := d.createdAt + settings.sessionAbsoluteTtl
    let r := touchSession settings.sessionTtl s sid d.userId absoluteExpiresAt
    (if r.1 then .context d.userId sid else .sessionExpired, r.2)

end Functions

inductive Call (T U S : Type) : Type where
  | create (sid : S) (csrfToken : String) (u : U) (ip : Option String)
  | authenticate (sid : S)
  | delete (sid : S) (u : U)
  /-- `delete_all_sessions`, with the order in which the members are returned -/
  | deleteAll (u : U) (sessionIds : List S)
  /-- Time passes. -/
  | tick (d : T)

inductive Reply (U S : Type) : Type where
  | done
  | authenticated (r : AuthResult U S)
  | count (n : ℕ)

/-- The session store under calls executed one after another.  `validate_ttl` raises `ValueError`
unless `0 < ttl`. -/
def machine {K T U S : Type} [Commands K T U S] [Ring T] [LinearOrder T] [FloorRing T]
    [DecidableEq S] (settings : Settings T) : Machine K (Call T U S) (Reply U S) where
  step s
    | .create sid csrfToken u ip =>
      if 0 < settings.sessionTtl then
        some (.done, createSession settings.sessionTtl s sid csrfToken u ip)
      else none
    | .authenticate sid =>
      if 0 < settings.sessionTtl then
        some (.authenticated (authenticate settings s sid).1, (authenticate settings s sid).2)
      else none
    | .delete sid u => some (.done, deleteSession s sid u)
    | .deleteAll u sessionIds =>
      if sessionIds.Nodup ∧ sessionIds.toFinset = Commands.smembers s u then
        some (.count sessionIds.length, deleteAllSessions s u sessionIds)
      else none
    | .tick d => if 0 ≤ d then some (.done, Commands.advance s d) else none

/-! ### The keys -/

/-- The keys that hold a value. -/
inductive Key (S : Type) : Type where
  | session (sid : S)
  | csrf (sid : S)
deriving DecidableEq

/-- What each key holds. -/
abbrev Value (T U S : Type) : Key S → Type
  | .session _ => SessionData T U
  | .csrf _ => String

/-- The keys of the sessions; `user_sessions:{u}` is the set under `u`. -/
abbrev Keys (T U S : Type) [LE T] [DecidableLE T] : Type := Keyspace T (Value T U S) U S

instance {T U S : Type} [LE T] [DecidableLE T] [Add T] [DecidableEq U] [DecidableEq S] :
    Commands (Keys T U S) T U S where
  now s := s.now
  readSession s sid := s.get (.session sid)
  readCsrf s sid := s.get (.csrf sid)
  setSession s sid d ttl := s.setEx (.session sid) d ttl
  setCsrf s sid csrfToken ttl := s.setEx (.csrf sid) csrfToken ttl
  expireSession s sid ttl := s.expire (.session sid) ttl
  expireCsrf s sid ttl := s.expire (.csrf sid) ttl
  delSession s sid := s.del (.session sid)
  delCsrf s sid := s.del (.csrf sid)
  smembers s u := s.smembers u
  sadd s u sid := s.sadd u sid
  srem s u sid := s.srem u sid
  expireSet s u ttl := s.expireSet u ttl
  delSet s u := s.delSet u
  advance s d := s.advance d

end Session
