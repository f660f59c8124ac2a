import TaskManagement.Keyspace
import TaskManagement.Machine
import Mathlib.Algebra.Order.Group.Nat

/-!
# E-mail verification tokens in Redis

`replace_email_verify_token`, `consume_email_verify_token` and `restore_email_verify_token` of
`redis_store_auth.py`, as `verify_email` and `issue_email_verify_token` call them.  A token is known
to the store by its hash `h : H`.

* `emailverify:{h}` holds the user of a live token;
* `emailverify_current:{u}` is the hash of the token that was stored last for the user.

`machine ttl` interleaves the calls: replacing a token is two steps, the `GET` of the current hash
and the `MULTI`/`EXEC` that deletes the token read and stores the new one; `verify_email` is the
consumption and then either a commit or, when the database fails, the restore of the same token.
`ttl` is the setting `email_verify_ttl_seconds`.
-/

namespace EmailVerify

/-- The value of `emailverify:{h}`. -/
structure VerifyData (T U : Type) where
  userId : U
  requestedAt : T

inductive Key (H U : Type) : Type where
  | emailverify (h : H)
  | emailverifyCurrent (u : U)
deriving DecidableEq

/-- What each key holds. -/
abbrev Value (T H U : Type) : Key H U → Type
  | .emailverify _ => VerifyData T U
  | .emailverifyCurrent _ => H

section Commands

variable {T H U : Type} [Add T] [LE T] [DecidableLE T] [DecidableEq H] [DecidableEq U]

/-- The keys of the verification tokens; none of them is a set. -/
abbrev Keys (T H U : Type) [LE T] [DecidableLE T] : Type := Keyspace T (Value T H U) Empty Empty

/-- The `MULTI`/`EXEC` block of `replace_email_verify_token`, for the hash that was read before. -/
def replaceEmailVerify (ttl : T) (s : Keys T H U) (u : U) (oldHash : Option H) (h : H) :
    Keys T H U :=
  let s := match oldHash with
    | some o => s.del (.emailverify o)
    | none => s
  let s := s.setEx (.emailverify h) ⟨u, s.now⟩ ttl
  s.setEx (.emailverifyCurrent u) h ttl

/-- `consume_email_verify_token`: a `GETDEL`, answered with the user of the token. -/
def consumeEmailVerify (s : Keys T H U) (h : H) : Option U × Keys T H U :=
  ((s.get (.emailverify h)).map VerifyData.userId, s.del (.emailverify h))

/-- `_RESTORE_EMAIL_VERIFY_SCRIPT` -/
def restoreEmailVerify (ttl : T) (s : Keys T H U) (h : H) (u : U) : Bool × Keys T H U :=
  match s.get (.emailverifyCurrent u) with
  | some c =>
    if c ≠ h then (false, s)
    else
      let s := s.setEx (.emailverify h) ⟨u, s.now⟩ ttl
      (true, s.setEx (.emailverifyCurrent u) h ttl)
  | none =>
    let s := s.setEx (.emailverify h) ⟨u, s.now⟩ ttl
    (true, s.setEx (.emailverifyCurrent u) h ttl)

end Commands

/-! ### Interleaved calls -/

/-- `replace_email_verify_token` after its `GET`. -/
structure Replacing (H U : Type) where
  userId : U
  tokenHash : H
  oldHash : Option H

/-- The keys, the hashes in use, the replacements under way and the calls of `verify_email` that
have consumed a token. -/
structure State (T H U ι : Type) [LE T] [DecidableLE T] where
  keys : Keys T H U
  issued : Finset H
  replacing : ι → Option (Replacing H U)
  verifying : ι → Option (H × U)

/-- The calls, one for each atomic step; `i` identifies a call under way. -/
inductive Call (T H U ι : Type) : Type where
  /-- `replace_email_verify_token`: `GET` of the current hash -/
  | replaceRead (i : ι) (u : U) (h : H)
  /-- `replace_email_verify_token`: `MULTI`/`EXEC` -/
  | replaceExec (i : ι)
  /-- `verify_email`: `consume_email_verify_token` -/
  | consume (i : ι) (h : H)
  /-- `verify_email`: the database has committed -/
  | verified (i : ι)
  /-- `verify_email`: the database has failed, `restore_email_verify_token` -/
  | restore (i : ι)
  /-- Time passes. -/
  | tick (d : T)

inductive Reply (U : Type) : Type where
  | done
  | consumed (userId : Option U)
  | restored (ok : Bool)

section Machine

variable {T H U ι : Type} [AddCommMonoid T] [LinearOrder T]
variable [DecidableEq H] [DecidableEq U] [DecidableEq ι]

/-- No token was ever stored. -/
def init (now : T) : State T H U ι where
  keys := .empty now
  issued := ∅
  replacing _ := none
  verifying _ := none

/-- The verification-token store under interleaved calls.  `validate_ttl` raises `ValueError` unless
`0 < ttl`; a token to store has a hash that was never used. -/
def machine (ttl : T) : Machine (State T H U ι) (Call T H U ι) (Reply U) where
  step s
    | .replaceRead i u h =>
      if 0 < ttl ∧ (s.replacing i).isNone ∧ h ∉ s.issued then
        some (.done, { s with
          issued := insert h s.issued
          replacing := Function.update s.replacing i
            (some ⟨u, h, s.keys.get (.emailverifyCurrent u)⟩) })
      else none
    | .replaceExec i =>
      match s.replacing i with
      | some p =>
        some (.done, { s with
          keys := replaceEmailVerify ttl s.keys p.userId p.oldHash p.tokenHash
          replacing := Function.update s.replacing i none })
      | none => none
    | .consume i h =>
      if (s.verifying i).isNone then
        some (.consumed (consumeEmailVerify s.keys h).1, { s with
          keys := (consumeEmailVerify s.keys h).2
          verifying := Function.update s.verifying i
            ((consumeEmailVerify s.keys h).1.map fun u => (h, u)) })
      else none
    | .verified i =>
      if (s.verifying i).isSome then
        some (.done, { s with verifying := Function.update s.verifying i none })
      else none
    | .restore i =>
      match s.verifying i with
      | some (h, u) =>
        if 0 < ttl then
          some (.restored (restoreEmailVerify ttl s.keys h u).1, { s with
            keys := (restoreEmailVerify ttl s.keys h u).2
            verifying := Function.update s.verifying i none })
        else none
      | none => none
    | .tick d => if 0 ≤ d then some (.done, { s with keys := s.keys.advance d }) else none

end Machine

end EmailVerify
