import TaskManagement.Keyspace
import TaskManagement.Machine

/-!
# Refresh tokens in Redis

The refresh-token half of `redis_store_auth.py` with the script `rotate_refresh_token.lua`.  A token
is known to the store by its hash `h : H`; a login opens a family of tokens, and each rotation
replaces the family's token by a new one.

* `refresh:{h}` holds the user, the family and the issue time of a live token;
* `refresh_used:{h}` remembers for `ttl` that `h` was rotated;
* `refresh_family_revoked:{u}:{f}` marks a revoked family;
* `user_refresh:{u}` is the set of the token hashes of a user.

`machine ttl` interleaves the calls: the script and every `MULTI`/`EXEC` block are one step, and
`revoke_token_family` and `revoke_all_refresh_tokens` are one step for each round trip, so that any
number of them may be under way.  The order in which the members of a set are returned is part of
the call.  `ttl` is the setting `refresh_ttl_seconds`.
-/

namespace RefreshToken

/-- `RefreshData`: the value of `refresh:{h}`. -/
structure RefreshData (T U F : Type) where
  userId : U
  issuedAt : T
  familyId : F

/-- The value of `refresh_used:{h}`. -/
structure UsedData (T U F : Type) where
  userId : U
  familyId : F
  usedAt : T

/-- The keys that hold a value. -/
inductive Key (H U F : Type) : Type where
  | refresh (h : H)
  | refreshUsed (h : H)
  | refreshFamilyRevoked (u : U) (f : F)
deriving DecidableEq

/-- What each key holds; the marker of a revoked family is the constant `'1'`. -/
abbrev Value (T H U F : Type) : Key H U F → Type
  | .refresh _ => RefreshData T U F
  | .refreshUsed _ => UsedData T U F
  | .refreshFamilyRevoked _ _ => Unit

/-- The answer of `rotate_refresh_token`: `None`, `TokenReused` or the data of the new token. -/
inductive RotateResult (T U F : Type) : Type where
  | none
  | tokenReused (userId : U) (familyId : F)
  | refreshData (d : RefreshData T U F)

section Commands

variable {T H U F : Type} [Add T] [LE T] [DecidableLE T]
variable [DecidableEq H] [DecidableEq U] [DecidableEq F]

/-- The keys of the refresh tokens; `user_refresh:{u}` is the set under `u`. -/
abbrev Keys (T H U F : Type) [LE T] [DecidableLE T] : Type := Keyspace T (Value T H U F) U H

/-- `store_refresh_token` -/
def storeRefreshToken (ttl : T) (s : Keys T H U F) (h : H) (u : U) (f : F) : Keys T H U F :=
  let s := s.setEx (.refresh h) ⟨u, s.now, f⟩ ttl
  let s := s.sadd u h
  s.expireSet u ttl

/-- The branch of the script that replaces the token `old` by `new`. -/
def replaceToken (ttl : T) (s : Keys T H U F) (old new : H) (d : RefreshData T U F) :
    Keys T H U F :=
  let s := s.del (.refresh old)
  let s := s.setEx (.refreshUsed old) ⟨d.userId, d.familyId, s.now⟩ ttl
  let s := s.setEx (.refresh new) ⟨d.userId, s.now, d.familyId⟩ ttl
  let s := s.srem d.userId old
  let s := s.sadd d.userId new
  s.expireSet d.userId ttl

/-- `rotate_refresh_token` -/
def rotateRefreshToken (ttl : T) (s : Keys T H U F) (old new : H) :
    RotateResult T U F × Keys T H U F :=
  match s.get (.refresh old) with
  | some d =>
    if s.existsKey (.refreshFamilyRevoked d.userId d.familyId) then
      (.tokenReused d.userId d.familyId, s)
    else
      (.refreshData ⟨d.userId, s.now, d.familyId⟩, replaceToken ttl s old new d)
  | none =>
    match s.get (.refreshUsed old) with
    | some d =>
      (.tokenReused d.userId d.familyId, s.setEx (.refreshFamilyRevoked d.userId d.familyId) () ttl)
    | none => (.none, s)

/-- `revoke_refresh_token` -/
def revokeRefreshToken (s : Keys T H U F) (h : H) (u : U) : Keys T H U F :=
  (s.del (.refresh h)).srem u h

/-- The `MULTI`/`EXEC` block of `revoke_token_family`: the marker is set and the tokens found are
deleted. -/
def execTokenFamily (ttl : T) (s : Keys T H U F) (u : U) (f : F) (toDelete : List H) :
    Keys T H U F :=
  toDelete.foldl (fun s h => revokeRefreshToken s h u) (s.setEx (.refreshFamilyRevoked u f) () ttl)

/-- The `MULTI`/`EXEC` block of `revoke_all_refresh_tokens`. -/
def execAllRefreshTokens (s : Keys T H U F) (u : U) (tokenHashes : List H) : Keys T H U F :=
  (tokenHashes.foldl (fun s h => s.del (.refresh h)) s).delSet u

end Commands

/-! ### Interleaved calls -/

/-- A revocation under way. -/
inductive Pending (H U F : Type) : Type where
  /-- `revoke_token_family` after `SMEMBERS`: the hashes still to look up, and those found. -/
  | family (u : U) (f : F) (todo toDelete : List H)
  /-- `revoke_all_refresh_tokens` after `SMEMBERS`. -/
  | all (u : U) (tokenHashes : List H)

/-- The keys, the hashes and the family ids in use, and the revocations under way. -/
structure State (T H U F ι : Type) [LE T] [DecidableLE T] where
  keys : Keys T H U F
  issued : Finset H
  families : Finset F
  pending : ι → Option (Pending H U F)

/-- The calls, one for each atomic step; `c` identifies a revocation under way. -/
inductive Call (T H U F ι : Type) : Type where
  | store (h : H) (u : U) (f : F)
  | rotate (old new : H)
  | revoke (h : H) (u : U)
  /-- `revoke_token_family`: `SMEMBERS`, answered in the order `members` -/
  | familyRead (c : ι) (u : U) (f : F) (members : List H)
  /-- `revoke_token_family`: `GET` of the next member -/
  | familyGet (c : ι)
  /-- `revoke_token_family`: `MULTI`/`EXEC` -/
  | familyExec (c : ι)
  /-- `revoke_all_refresh_tokens`: `SMEMBERS`, answered in the order `members` -/
  | allRead (c : ι) (u : U) (members : List H)
  /-- `revoke_all_refresh_tokens`: `MULTI`/`EXEC` -/
  | allExec (c : ι)
  /-- Time passes. -/
  | tick (d : T)

/-- The answers: the result of a rotation, the number of deleted tokens of a revocation. -/
inductive Reply (T U F : Type) : Type where
  | done
  | rotated (r : RotateResult T U F)
  | count (n : ℕ)

section Machine

variable {T H U F ι : Type} [AddCommMonoid T] [LinearOrder T]
variable [DecidableEq H] [DecidableEq U] [DecidableEq F] [DecidableEq ι]

/-- No token was ever stored. -/
def init (now : T) : State T H U F ι where
  keys := .empty now
  issued := ∅
  families := ∅
  pending _ := none

/-- `validate_ttl`: a `ttl` that is not positive raises `ValueError`. -/
def validateTtl (ttl : T) : Prop := 0 < ttl

instance (ttl : T) : Decidable (validateTtl ttl) := inferInstanceAs (Decidable (_ < _))

/-- The refresh-token store under interleaved calls.  New tokens have hashes that were never used,
and a login opens a family whose id no call has named before. -/
def machine (ttl : T) : Machine (State T H U F ι) (Call T H U F ι) (Reply T U F) where
  step s
    | .store h u f =>
      if validateTtl ttl ∧ h ∉ s.issued ∧ f ∉ s.families then
        some (.done, { s with
          keys := storeRefreshToken ttl s.keys h u f
          issued := insert h s.issued
          families := insert f s.families })
      else none
    | .rotate old new =>
      if validateTtl ttl ∧ new ∉ s.issued then
        some (.rotated (rotateRefreshToken ttl s.keys old new).1, { s with
          keys := (rotateRefreshToken ttl s.keys old new).2
          issued := insert new s.issued })
      else none
    | .revoke h u => some (.done, { s with keys := revokeRefreshToken s.keys h u })
    | .familyRead c u f members =>
      if validateTtl ttl ∧ (s.pending c).isNone ∧ s.keys.ListsMembers u members then
        some (.done, { s with
          families := insert f s.families
          pending := Function.update s.pending c (some (.family u f members [])) })
      else none
    | .familyGet c =>
      match s.pending c with
      | some (.family u f (h :: todo) toDelete) =>
        let found := (s.keys.get (.refresh h)).any fun d => decide (d.familyId = f)
        some (.done, { s with
          pending := Function.update s.pending c
            (some (.family u f todo (if found then toDelete ++ [h] else toDelete))) })
      | _ => none
    | .familyExec c =>
      match s.pending c with
      | some (.family u f [] toDelete) =>
        some (.count toDelete.length, { s with
          keys := execTokenFamily ttl s.keys u f toDelete
          pending := Function.update s.pending c none })
      | _ => none
    | .allRead c u members =>
      if (s.pending c).isNone ∧ s.keys.ListsMembers u members then
        some (.done, { s with pending := Function.update s.pending c (some (.all u members)) })
      else none
    | .allExec c =>
      match s.pending c with
      | some (.all u tokenHashes) =>
        some (.count tokenHashes.length, { s with
          keys := execAllRefreshTokens s.keys u tokenHashes
          pending := Function.update s.pending c none })
      | _ => none
    | .tick d => if 0 ≤ d then some (.done, { s with keys := s.keys.advance d }) else none

end Machine

end RefreshToken
