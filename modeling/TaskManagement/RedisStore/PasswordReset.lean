import TaskManagement.Keyspace
import TaskManagement.Machine
import Mathlib.Algebra.Order.Group.Nat

/-!
# Password-reset tokens in Redis

`save_password_reset_token`, `consume_password_reset_token` and `restore_password_reset_token` of
`redis_store_auth.py` with their three Lua scripts.  A token is known to the store by its hash
`h : H`.

* `pwreset:{h}` holds the user of a live token;
* `pwreset_current:{u}` is the hash of the live token of the user;
* `pwreset_consumed:{u}` remembers for `ttl` the hash that was consumed last.

`machine ttl` interleaves the calls: a script is one step, and saving a token is two steps, the
`GET` of the current hash and the script that compares and swaps it.  `ttl` is the setting
`password_reset_ttl_seconds`.
-/

namespace PasswordReset

/-- The value of `pwreset:{h}`. -/
structure ResetData (T U : Type) where
  userId : U
  requestedAt : T

inductive Key (H U : Type) : Type where
  | pwreset (h : H)
  | pwresetCurrent (u : U)
  | pwresetConsumed (u : U)
deriving DecidableEq

/-- What each key holds. -/
abbrev Value (T H U : Type) : Key H U → Type
  | .pwreset _ => ResetData T U
  | .pwresetCurrent _ => H
  | .pwresetConsumed _ => H

section Scripts

variable {T H U : Type} [Add T] [LE T] [DecidableLE T] [DecidableEq H] [DecidableEq U]

/-- The keys of the password-reset tokens; none of them is a set. -/
abbrev Keys (T H U : Type) [LE T] [DecidableLE T] : Type := Keyspace T (Value T H U) Empty Empty

/-- `_SAVE_PASSWORD_RESET_SCRIPT`, for the hash that was read before (`none` is the empty string
`ARGV[1]`). -/
def savePasswordReset (ttl : T) (s : Keys T H U) (u : U) (oldHash : Option H) (h : H) :
    Bool × Keys T H U :=
  let currentHash := s.get (.pwresetCurrent u)
  if currentHash ≠ oldHash then (false, s)
  else
    let s := match currentHash with
      | some c => s.del (.pwreset c)
      | none => s
    let s := s.setEx (.pwreset h) ⟨u, s.now⟩ ttl
    (true, s.setEx (.pwresetCurrent u) h ttl)

/-- `_CONSUME_PASSWORD_RESET_SCRIPT`: the user of the token. -/
def consumePasswordReset (ttl : T) (s : Keys T H U) (h : H) : Option U × Keys T H U :=
  match s.get (.pwreset h) with
  | none => (none, s)
  | some d =>
    if s.get (.pwresetCurrent d.userId) ≠ some h then (none, s)
    else
      let s := s.del (.pwreset h)
      let s := s.del (.pwresetCurrent d.userId)
      (some d.userId, s.setEx (.pwresetConsumed d.userId) h ttl)

/-- `_RESTORE_PASSWORD_RESET_SCRIPT` -/
def restorePasswordReset (ttl : T) (s : Keys T H U) (h : H) (u : U) : Bool × Keys T H U :=
  if s.get (.pwresetConsumed u) ≠ some h then (false, s)
  else if s.existsKey (.pwresetCurrent u) then (false, s)
  else if s.existsKey (.pwreset h) then (false, s)
  else
    let s := s.setEx (.pwreset h) ⟨u, s.now⟩ ttl
    (true, s.setEx (.pwresetCurrent u) h ttl)

end Scripts

/-! ### Interleaved calls -/

/-- `save_password_reset_token` after its `GET`. -/
structure Pending (H U : Type) where
  userId : U
  tokenHash : H
  oldHash : Option H

/-- The keys, the hashes in use and the saves under way. -/
structure State (T H U ι : Type) [LE T] [DecidableLE T] where
  keys : Keys T H U
  issued : Finset H
  pending : ι → Option (Pending H U)

/-- The calls, one for each atomic step; `i` identifies a save under way. -/
inductive Call (T H U ι : Type) : Type where
  /-- `save_password_reset_token`: `GET` of the current hash -/
  | saveRead (i : ι) (u : U) (h : H)
  /-- `save_password_reset_token`: the script -/
  | saveExec (i : ι)
  | consume (h : H)
  | restore (h : H) (u : U)
  /-- Time passes. -/
  | tick (d : T)

inductive Reply (U : Type) : Type where
  | done
  | saved (ok : Bool)
  | consumed (userId : Option U)
  | restored (ok : Bool)

section Machine

variable {T H U ι : Type} [AddCommMonoid T] [LinearOrder T]
variable [DecidableEq H] [DecidableEq U] [DecidableEq ι]

/-- No token was ever saved. -/
def init (now : T) : State T H U ι where
  keys := .empty now
  issued := ∅
  pending _ := none

/-- The password-reset store under interleaved calls.  `validate_ttl` raises `ValueError` unless
`0 < ttl`; a token to save has a hash that was never used. -/
def machine (ttl : T) : Machine (State T H U ι) (Call T H U ι) (Reply U) where
  step s
    | .saveRead i u h =>
      if 0 < ttl ∧ (s.pending i).isNone ∧ h ∉ s.issued then
        some (.done, { s with
          issued := insert h s.issued
          pending := Function.update s.pending i
            (some ⟨u, h, s.keys.get (.pwresetCurrent u)⟩) })
      else none
    | .saveExec i =>
      match s.pending i with
      | some p =>
        some (.saved (savePasswordReset ttl s.keys p.userId p.oldHash p.tokenHash).1, { s with
          keys := (savePasswordReset ttl s.keys p.userId p.oldHash p.tokenHash).2
          pending := Function.update s.pending i none })
      | none => none
    | .consume h =>
      if 0 < ttl then
        some (.consumed (consumePasswordReset ttl s.keys h).1, { s with
          keys := (consumePasswordReset ttl s.keys h).2 })
      else none
    | .restore h u =>
      if 0 < ttl then
        some (.restored (restorePasswordReset ttl s.keys h u).1, { s with
          keys := (restorePasswordReset ttl s.keys h u).2 })
      else none
    | .tick d => if 0 ≤ d then some (.done, { s with keys := s.keys.advance d }) else none

end Machine

end PasswordReset
