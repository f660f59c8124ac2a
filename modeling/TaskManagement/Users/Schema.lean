import TaskManagement.ReadCommitted.System

/-!
# The schema of the user database

The tables `users` and `oauth_accounts`, with the columns that the modelled procedures and services
read or write, as typed rows of a `ReadCommitted.Store`.  An OAuth account is stored under the key
`(provider, provider_user_id)`, the one that `ON CONFLICT` of `sp_upsert_oauth_account` refers to.
-/

namespace UserDb

open ReadCommitted

abbrev Uuid : Type := ℕ

/-- A `TIMESTAMPTZ`, in microseconds. -/
abbrev Timestamp : Type := ℤ

/-- `ck_users_role`. -/
inductive Role : Type where
  | member
  | admin
deriving DecidableEq, Repr

/-- The role that a text names; any other text violates `ck_users_role`. -/
def Role.ofText : String → Option Role
  | "member" => some .member
  | "admin" => some .admin
  | _ => none

structure User where
  username : String
  email : String
  /-- `NULL` for a user who has only ever logged in through a provider. -/
  passwordHash : Option String
  role : Role
  isActive : Bool
  /-- `NULL` for an address that has not been verified. -/
  emailVerifiedAt : Option Timestamp
deriving DecidableEq, Repr

structure OAuthAccount where
  userId : Uuid
deriving DecidableEq, Repr

/-- The table of a row and its key. -/
inductive RowId : Type where
  | user (id : Uuid)
  | oauthAccount (provider providerUserId : String)
deriving DecidableEq, Repr

/-- The rows of each table. -/
@[reducible] def Row : RowId → Type
  | .user _ => User
  | .oauthAccount _ _ => OAuthAccount

/-- The committed rows of the database. -/
abbrev Db : Type := Store Row

/-- The key of `pg_advisory_xact_lock(hashtext('admin_protection'))`. -/
inductive LockKey : Type where
  | adminProtection
deriving DecidableEq, Repr

/-- The errors that end a transaction. -/
inductive Error : Type where
  /-- `P0007`: self modification is not allowed. -/
  | selfModification
  /-- `P0008`: last active admin cannot be demoted or deactivated. -/
  | lastActiveAdmin
  /-- `P0010`: target user not found. -/
  | targetNotFound
  /-- `23514`, of `ck_users_role`. -/
  | invalidRole
deriving DecidableEq, Repr

/-- The values of the columns are typed, so that no row violates a constraint. -/
def schema : Constraints Row Error where
  check _ _ := none
  deferred _ := none

end UserDb
