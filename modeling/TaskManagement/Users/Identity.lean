import TaskManagement.ReadCommitted.System

/-!
# Registration and login through Google

The tables `users` and `oauth_accounts` with their unique indexes, and the two services that create
users: `register` and `_resolve_or_create_user`, each as the program of its database transaction.

A unique index is a table of its own here, with one row for each entry: `uq_users_username` maps
`lower(username)` to the user, `uq_users_email` maps `lower(email)`.  An `INSERT INTO users` inserts
the row and then its entries; an entry that another transaction has inserted and not yet committed
has to be waited for, and one that is committed raises `23505`.

`lower` is the function of the database, `googleUsername` the name that is made of the hash of a
`sub`.
-/

namespace IdentityDb

open ReadCommitted

/-! ### Tables -/

abbrev Uuid : Type := ℕ

/-- A `TIMESTAMPTZ`, in microseconds. -/
abbrev Timestamp : Type := ℤ

/-- A `DATE`, in days. -/
abbrev Date : Type := ℤ

/-- `ck_users_username_format` admits no `@`. -/
abbrev Username : Type := {s : String // '@' ∉ s.toList}

/-- `ck_users_email_format` asks for an `@`. -/
abbrev Email : Type := {s : String // '@' ∈ s.toList}

structure Profile where
  lastName : Option String := none
  firstName : Option String := none
  lastNameKana : Option String := none
  firstNameKana : Option String := none
  birthDate : Option Date := none
deriving DecidableEq, Repr

structure User where
  username : Username
  email : Email
  /-- `NULL` for a user who has only ever logged in through a provider. -/
  passwordHash : Option String
  profile : Profile := {}
  isActive : Bool := true
  /-- `NULL` for an address that has not been verified. -/
  emailVerifiedAt : Option Timestamp := none
deriving DecidableEq, Repr

/-- The rows and the entries of the unique indexes; of `oauth_accounts`, whose only provider is
`google`, the unique index `(provider, provider_user_id)` is the key. -/
inductive RowId : Type where
  | user (id : Uuid)
  | usernameKey (key : String)
  | emailKey (key : String)
  | oauthAccount (providerUserId : String)
deriving DecidableEq, Repr

/-- A user, or the identifier of the user that an entry or an account belongs to. -/
@[reducible] def Row : RowId → Type
  | .user _ => User
  | .usernameKey _ => Uuid
  | .emailKey _ => Uuid
  | .oauthAccount _ => Uuid

/-- The committed rows of the database. -/
abbrev Db : Type := Store Row

/-- The errors that end a transaction. -/
inductive Error : Type where
  /-- `P0001`: username already exists. -/
  | usernameExists (username : Username)
  /-- `P0002`: email already exists. -/
  | emailExists (email : Email)
  /-- `23505`, with the key that its detail names. -/
  | uniqueViolation (key : RowId)
  /-- `MultipleResultsFound`, raised by `one_or_none`. -/
  | multipleResults
  /-- `DuplicateUsernameError`, raised by the API. -/
  | duplicateUsername (username : Username)
  /-- `DuplicateEmailError`, raised by the API. -/
  | duplicateEmail (email : Email)
  /-- `UserInactiveError`, raised by the API. -/
  | userInactive
  /-- `OAuthEmailUnverifiedError`, raised by the API. -/
  | oauthEmailUnverified
  /-- `OAuthFailedError`, raised by the API. -/
  | oauthFailed
  /-- `MissingGreenlet`: a relationship is read that no statement has loaded. -/
  | missingGreenlet
deriving DecidableEq, Repr

/-- The unique indexes are tables, and the values of the columns are typed. -/
def schema : Constraints Row Error where
  check _ _ := none
  deferred _ := none

/-- The program of a transaction; there are no advisory locks. -/
abbrev IdentityProc (α : Type) : Type := Proc Row Empty Uuid Error α

/-- The session of a transaction. -/
abbrev IdentitySession : Type := Session Row Empty

/-- The rows of `users`, with their identifiers. -/
def users (db : Db) : List (Uuid × User) :=
  db.ids.filterMap fun
    | .user id => (db.row (.user id)).map (id, ·)
    | _ => none

variable (lower : String → String)

/-! ### Functions -/

/-- `fn_find_user_by_identifier`. -/
def findUserByIdentifier (pIdentifier : String) (db : Db) : List (Uuid × User) :=
  (users db).filter fun x =>
    lower x.2.username = lower pIdentifier ∨ lower x.2.email = lower pIdentifier

/-- `fn_find_user_by_email`. -/
def findUserByEmail (pEmail : Email) (db : Db) : List (Uuid × User) :=
  (users db).filter fun x => lower x.2.email = lower pEmail

/-- `result.scalars().one_or_none()`. -/
def oneOrNone (rows : List (Uuid × User)) : IdentityProc (Option (Uuid × User)) :=
  match rows with
  | [] => return none
  | [x] => return some x
  | _ => .throw .multipleResults

def getByLoginIdentifier (identifier : String) : IdentityProc (Option (Uuid × User)) := do
  oneOrNone (← Proc.select (findUserByIdentifier lower identifier))

def getByEmail (email : Email) : IdentityProc (Option (Uuid × User)) := do
  oneOrNone (← Proc.select (findUserByEmail lower email))

def getById (id : Uuid) : IdentityProc (Option User) := Proc.select fun db => db.row (.user id)

/-- The `user_id` of the account that `fn_find_oauth_account` returns.  The statement has no loader,
so the relationship `user` of the account is not loaded. -/
def getByProviderIdentity (sub : String) : IdentityProc (Option Uuid) :=
  Proc.select fun db => db.row (.oauthAccount sub)

/-! ### Procedures -/

/-- `EXISTS (SELECT 1 FROM users WHERE lower(username) = lower(p_username))`. -/
def existsUsername (pUsername : Username) (db : Db) : Bool :=
  (users db).any fun x => decide (lower x.2.username = lower pUsername)

/-- `EXISTS (SELECT 1 FROM users WHERE lower(email) = lower(p_email))`. -/
def existsEmail (pEmail : Email) (db : Db) : Bool :=
  (users db).any fun x => decide (lower x.2.email = lower pEmail)

/-- An `INSERT` of a row or of an entry of a unique index. -/
def insertRow (i : RowId) (r : Row i) : IdentityProc Unit :=
  Proc.insertOrRaise i r (.uniqueViolation i)

/-- `INSERT INTO users`, with the entries of `uq_users_username` and `uq_users_email`. -/
def insertUser (id : Uuid) (r : User) : IdentityProc Unit := do
  insertRow (.user id) r
  insertRow (.usernameKey (lower r.username)) id
  insertRow (.emailKey (lower r.email)) id

/-- The result is `p_user_id`. -/
def spRegisterUser (pUsername : Username) (pEmail : Email) (pPasswordHash : Option String) :
    IdentityProc Uuid := do
  let usernameTaken ← Proc.select (existsUsername lower pUsername)
  Proc.raiseIf (usernameTaken = true) (.usernameExists pUsername)
  let emailTaken ← Proc.select (existsEmail lower pEmail)
  Proc.raiseIf (emailTaken = true) (.emailExists pEmail)
  let pUserId ← Proc.generate .user
  insertUser lower pUserId
    { username := pUsername, email := pEmail, passwordHash := pPasswordHash }
  return pUserId

/-- `UPDATE users SET ... WHERE id = u`. -/
def setUser (u : Uuid) (set : User → User) : RowUpdate Row
  | .user u', r => if u' = u then some (some (set r)) else none
  | _, _ => none

def spUpdateUserProfile (pUserId : Uuid) (profile : Profile) : IdentityProc Unit := do
  let _ ← Proc.update (setUser pUserId fun r => { r with profile := profile })
  return ()

/-- `now` is the time at which the transaction began. -/
def spVerifyUserEmail (pUserId : Uuid) (now : Timestamp) : IdentityProc Unit := do
  let _ ← Proc.update (setUser pUserId fun r => { r with emailVerifiedAt := some now })
  return ()

/-- `INSERT ... ON CONFLICT (provider, provider_user_id) DO NOTHING`, then
`SET email_verified_at = COALESCE(email_verified_at, now())`. -/
def spUpsertOAuthAccount (pUserId : Uuid) (pProviderUserId : String) (now : Timestamp) :
    IdentityProc Unit := do
  Proc.insertOrIgnore (.oauthAccount pProviderUserId) pUserId
  let _ ← Proc.update (setUser pUserId fun r =>
    { r with emailVerifiedAt := some (r.emailVerifiedAt.getD now) })
  return ()

/-! ### `register` -/

/-- `RegisterRequest`, with the hash of its password. -/
structure RegisterRequest where
  username : Username
  email : Email
  passwordHash : String
  lastName : String
  firstName : String
  lastNameKana : String
  firstNameKana : String
  birthDate : Date
deriving DecidableEq, Repr

/-- The profile that a request sets. -/
def RegisterRequest.profile (payload : RegisterRequest) : Profile where
  lastName := some payload.lastName
  firstName := some payload.firstName
  lastNameKana := some payload.lastNameKana
  firstNameKana := some payload.firstNameKana
  birthDate := some payload.birthDate

/-- The transaction of `register`; the result is the identifier of the new user. -/
def register (payload : RegisterRequest) : IdentityProc Uuid := do
  let sameName ← getByLoginIdentifier lower payload.username
  Proc.raiseIf (sameName.isSome = true) (.duplicateUsername payload.username)
  let sameEmail ← getByEmail lower payload.email
  Proc.raiseIf (sameEmail.isSome = true) (.duplicateEmail payload.email)
  let userId ← spRegisterUser lower payload.username payload.email (some payload.passwordHash)
  spUpdateUserProfile userId payload.profile
  return userId

/-- `_duplicate_error_for`, by the SQLSTATE of the error. -/
def duplicateErrorFor : Error → Option Error
  | .usernameExists username => some (.duplicateUsername username)
  | .emailExists email => some (.duplicateEmail email)
  | _ => none

/-- The error that `register` raises when its transaction ends with an error: what
`_duplicate_error_for` does not know is raised as it is. -/
def registerError (e : Error) : Error := (duplicateErrorFor e).getD e

/-! ### `_resolve_or_create_user` -/

/-- `GoogleUserInfo`. -/
structure GoogleUserInfo where
  sub : String
  email : Email
  emailVerified : Bool
  givenName : Option String := none
  familyName : Option String := none
deriving DecidableEq, Repr

variable (googleUsername : String → Username)

/-- The branch of a user who is found by the e-mail. -/
def linkExisting (info : GoogleUserInfo) (now : Timestamp) (id : Uuid) (existing : User) :
    IdentityProc Uuid := do
  Proc.raiseIf (info.emailVerified = false) .oauthEmailUnverified
  Proc.raiseIf (existing.isActive = false) .userInactive
  spUpsertOAuthAccount id info.sub now
  (if existing.emailVerifiedAt = none then spVerifyUserEmail id now else pure ())
  return id

/-- The branch of a new user; the user that is read back after the commit is the one that was
created. -/
def createLinked (info : GoogleUserInfo) (now : Timestamp) : IdentityProc Uuid := do
  Proc.raiseIf (info.emailVerified = false) .oauthEmailUnverified
  let userId ← spRegisterUser lower (googleUsername info.sub) info.email none
  spUpsertOAuthAccount userId info.sub now
  spVerifyUserEmail userId now
  (if info.givenName ≠ none ∨ info.familyName ≠ none then
    spUpdateUserProfile userId { lastName := info.familyName, firstName := info.givenName }
  else pure ())
  return userId

/-- `account.user`: the lazy load of a relationship, which an `AsyncSession` refuses.  Only a user
whom the session has loaded before could be read, and the callback has loaded none. -/
def accountUser : IdentityProc (Option User) := .throw .missingGreenlet

/-- `account.user or await get_by_id(db, account.user_id)` -/
def userOfAccount (userId : Uuid) : IdentityProc (Option User) := do
  match ← accountUser with
  | some user => return some user
  | none => getById userId

/-- The transaction of `_resolve_or_create_user`; the result is the identifier of the user that is
returned. -/
def resolveOrCreateUser (info : GoogleUserInfo) (now : Timestamp) : IdentityProc Uuid := do
  match ← getByProviderIdentity info.sub with
  | some userId => do
    match ← userOfAccount userId with
    | none => .throw .oauthFailed
    | some user => do
      Proc.raiseIf (user.isActive = false) .userInactive
      return userId
  | none => do
    match ← getByEmail lower info.email with
    | some (id, existing) => linkExisting info now id existing
    | none => createLinked lower googleUsername info now

end IdentityDb
