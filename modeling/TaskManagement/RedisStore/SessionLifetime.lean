import TaskManagement.RedisStore.Session
import TaskManagement.TimedKeys

/-!
# The lifetime of a session

The keys of `Session` as keys that live for exactly their time to live: `EXPIRE` with `n` seconds
keeps a key alive up to and without the instant `n` seconds later.  The API and Redis share the
clock.  The functions and the machine are those of `Session`, over these keys.
-/

namespace SessionLifetime

open Session (SessionData)

/-- The keys, with the set `user_sessions:{u}`. -/
inductive Key (U S : Type) : Type where
  | session (sid : S)
  | csrf (sid : S)
  | userSessions (u : U)
deriving DecidableEq

/-- What each key holds. -/
abbrev Value (T U S : Type) : Key U S → Type
  | .session _ => SessionData T U
  | .csrf _ => String
  | .userSessions _ => Finset S

abbrev Keys (T U S : Type) : Type := TimedKeys T (Value T U S)

instance {T U S : Type} [LT T] [DecidableLT T] [Add T] [DecidableEq U] [DecidableEq S] :
    Session.Commands (Keys T U S) T U S where
  now s := s.now
  readSession s sid := s.get (.session sid)
  readCsrf s sid := s.get (.csrf sid)
  setSession s sid d ttl := s.setEx (.session sid) d ttl
  setCsrf s sid csrfToken ttl := s.setEx (.csrf sid) csrfToken ttl
  expireSession s sid ttl := s.expire (.session sid) ttl
  expireCsrf s sid ttl := s.expire (.csrf sid) ttl
  delSession s sid := s.del (.session sid)
  delCsrf s sid := s.del (.csrf sid)
  smembers s u := (s.get (.userSessions u)).getD ∅
  sadd s u sid :=
    s.modify (.userSessions u) fun members => some (insert sid (members.getD ∅))
  srem s u sid :=
    s.modify (.userSessions u) fun members =>
      (members.map fun m => m.erase sid).filter fun m => decide (m ≠ ∅)
  expireSet s u ttl := s.expire (.userSessions u) ttl
  delSet s u := s.del (.userSessions u)
  advance s d := s.advance d

end SessionLifetime
