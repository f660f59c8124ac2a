import TaskManagement.FormUrlencoded
import TaskManagement.Pattern
import TaskManagement.Service.Patches
import TaskManagement.Users.Identity
import TaskManagement.Users.Schema

/-!
# The directory of users

Every transaction that writes the table `users`, and those that look a user up: `register`,
`_resolve_or_create_user`, `update_profile`, `change_password`, `reset_password`, `verify_email`,
`change_role`, `change_status`, `login`, `resend_verification` and `request_password_reset`, each as
the program of its database transaction.

Names and e-mails are texts here.  What separates them is what the source checks: the patterns of
`RegisterRequest` (`RegisterRequest.Valid`), the name that is made for a Google account
(`googleUsername`), and the `CHECK` constraints of the table (`schema`).  The unique indexes are
tables of entries, as in `IdentityDb`.
-/

namespace UserDirectory

open ReadCommitted
open IdentityDb (Uuid Timestamp Date Profile RowId)
open TaskDb (UserProfileUpdateRequest varchar)
open UserDb (Role LockKey)

/-! ### Formats -/

/-- `^[A-Za-z0-9_-]+$` -/
def usernamePattern : List (Pattern.Part Char) :=
  [.atLeast 1 fun c => c.isAlphanum || c == '_' || c == '-']

/-- `^[A-Za-z0-9_.+-]+@[A-Za-z0-9.-]+\.[A-Za-z]{2,}$` -/
def emailPattern : List (Pattern.Part Char) :=
  [.atLeast 1 fun c => c.isAlphanum || c == '_' || c == '.' || c == '+' || c == '-',
    .one fun c => c == '@',
    .atLeast 1 fun c => c.isAlphanum || c == '.' || c == '-',
    .one fun c => c == '.',
    .atLeast 2 Char.isAlpha]

/-- `^[ぁ-んァ-ヶー0-9]+$` -/
def kanaPattern : List (Pattern.Part Char) :=
  [.atLeast 1 fun c => ('ぁ' ≤ c && c ≤ 'ん') || ('ァ' ≤ c && c ≤ 'ヶ') || c == 'ー' || c.isDigit]

/-- The text matches the pattern. -/
def Matches (pattern : List (Pattern.Part Char)) (value : String) : Prop :=
  Pattern.fullmatch pattern value.toList = true

instance (pattern : List (Pattern.Part Char)) (value : String) :
    Decidable (Matches pattern value) :=
  inferInstanceAs (Decidable (_ = _))

/-! ### Tables -/

structure User where
  username : String
  email : String
  passwordHash : Option String
  profile : Profile := {}
  role : Role := .member
  isActive : Bool := true
  emailVerifiedAt : Option Timestamp := none
deriving DecidableEq, Repr

@[reducible] def Row : RowId → Type
  | .user _ => User
  | .usernameKey _ => Uuid
  | .emailKey _ => Uuid
  | .oauthAccount _ => Uuid

/-- The committed rows of the database. -/
abbrev Db : Type := Store Row

/-- The errors that end a transaction. -/
inductive Error : Type where
  /-- `P0001`: username already exists. -/
  | usernameExists
  /-- `P0002`: email already exists. -/
  | emailExists
  /-- `P0007`: self modification is not allowed. -/
  | selfModification
  /-- `P0008`: last active admin cannot be demoted or deactivated. -/
  | lastActiveAdmin
  /-- `P0010`: target user not found. -/
  | targetNotFound
  /-- `22001`: value too long for type character varying. -/
  | valueTooLong
  /-- `23505`, with the key that its detail names. -/
  | uniqueViolation (key : RowId)
  /-- `23514`, with the name of the constraint. -/
  | checkViolation (constraint : String)
  /-- `MultipleResultsFound`, raised by `one_or_none`. -/
  | multipleResults
  | unauthenticated
  | forbidden
  | notFound
  | validation (field message : String)
  | duplicateUsername
  | duplicateEmail
  | invalidCredentials
  | userInactive
  | oauthEmailUnverified
  | oauthFailed
  /-- `MissingGreenlet`: a relationship is read that no statement has loaded. -/
  | missingGreenlet
deriving DecidableEq, Repr

/-- `ck_users_kana_format` -/
def kanaFormat (profile : Profile) : Prop :=
  (∀ value ∈ profile.lastNameKana, Matches kanaPattern value) ∧
    ∀ value ∈ profile.firstNameKana, Matches kanaPattern value

instance (profile : Profile) : Decidable (kanaFormat profile) :=
  inferInstanceAs (Decidable (_ ∧ _))

/-- The values fit the lengths of their columns. -/
def User.Fits (r : User) : Prop :=
  r.username.length ≤ 50 ∧ r.email.length ≤ 254 ∧
    ∀ value ∈ [r.profile.lastName, r.profile.firstName, r.profile.lastNameKana,
      r.profile.firstNameKana].reduceOption, value.length ≤ 30

instance (r : User) : Decidable r.Fits := inferInstanceAs (Decidable (_ ∧ _ ∧ _))

/-- The lengths and the `CHECK` constraints of `users`; the constraints are tested in the order of
their names. -/
def checkUser (r : User) : Option Error :=
  if ¬r.Fits then some .valueTooLong
  else if ¬Matches emailPattern r.email then some (.checkViolation "ck_users_email_format")
  else if ¬kanaFormat r.profile then some (.checkViolation "ck_users_kana_format")
  else if ¬Matches usernamePattern r.username then
    some (.checkViolation "ck_users_username_format")
  else none

def schema : Constraints Row Error where
  check
    | .user _, r => checkUser r
    | _, _ => none
  deferred _ := none

/-- The program of a transaction. -/
abbrev DirectoryProc (α : Type) : Type := Proc Row LockKey Uuid Error α

/-- The rows of `users`, with their identifiers. -/
def users (db : Db) : List (Uuid × User) :=
  db.ids.filterMap fun
    | .user id => (db.row (.user id)).map (id, ·)
    | _ => none

/-- `lower` of the database, the hash of `hashlib.sha256`, the hashing of passwords with its salt,
and the setting `password_max_length`. -/
structure Env where
  lower : String → String
  sha256 : List UInt8 → List UInt8
  hashPassword : String → ℕ → String
  verifyPassword : String → String → Bool
  passwordMaxLength : ℕ

/-! ### Functions -/

/-- `fn_find_user_by_identifier` -/
def findUserByIdentifier (env : Env) (pIdentifier : String) (db : Db) : List (Uuid × User) :=
  (users db).filter fun x =>
    env.lower x.2.username = env.lower pIdentifier ∨ env.lower x.2.email = env.lower pIdentifier

/-- `fn_find_user_by_email` -/
def findUserByEmail (env : Env) (pEmail : String) (db : Db) : List (Uuid × User) :=
  (users db).filter fun x => env.lower x.2.email = env.lower pEmail

/-- `result.scalars().one_or_none()` -/
def oneOrNone (rows : List (Uuid × User)) : DirectoryProc (Option (Uuid × User)) :=
  match rows with
  | [] => return none
  | [x] => return some x
  | _ => .throw .multipleResults

def getByLoginIdentifier (env : Env) (identifier : String) :
    DirectoryProc (Option (Uuid × User)) := do
  oneOrNone (← Proc.select (findUserByIdentifier env identifier))

def getByEmail (env : Env) (email : String) : DirectoryProc (Option (Uuid × User)) := do
  oneOrNone (← Proc.select (findUserByEmail env email))

def getById (userId : Uuid) : DirectoryProc (Option User) :=
  Proc.select fun db => db.row (.user userId)

/-- The user of the account that `fn_find_oauth_account` returns. -/
def getByProviderIdentity (sub : String) : DirectoryProc (Option Uuid) :=
  Proc.select fun db => db.row (.oauthAccount sub)

/-! ### Procedures -/

/-- `EXISTS (SELECT 1 FROM users WHERE lower(username) = lower(p_username))` -/
def existsUsername (env : Env) (pUsername : String) (db : Db) : Bool :=
  (users db).any fun x => decide (env.lower x.2.username = env.lower pUsername)

/-- `EXISTS (SELECT 1 FROM users WHERE lower(email) = lower(p_email))` -/
def existsEmail (env : Env) (pEmail : String) (db : Db) : Bool :=
  (users db).any fun x => decide (env.lower x.2.email = env.lower pEmail)

/-- An `INSERT` of a row or of an entry of a unique index. -/
def insertRow (i : RowId) (r : Row i) : DirectoryProc Unit :=
  Proc.insertOrRaise i r (.uniqueViolation i)

/-- `INSERT INTO users`, with the entries of `uq_users_username` and `uq_users_email`. -/
def insertUser (env : Env) (id : Uuid) (r : User) : DirectoryProc Unit := do
  insertRow (.user id) r
  insertRow (.usernameKey (env.lower r.username)) id
  insertRow (.emailKey (env.lower r.email)) id

/-- The row that `sp_register_user` inserts. -/
def newUser (pUsername pEmail : String) (pPasswordHash : Option String) : User where
  username := varchar 50 pUsername
  email := varchar 254 pEmail
  passwordHash := pPasswordHash

/-- The result is `p_user_id`. -/
def spRegisterUser (env : Env) (pUsername pEmail : String) (pPasswordHash : Option String) :
    DirectoryProc Uuid := do
  let usernameTaken ← Proc.select (existsUsername env pUsername)
  Proc.raiseIf (usernameTaken = true) .usernameExists
  let emailTaken ← Proc.select (existsEmail env pEmail)
  Proc.raiseIf (emailTaken = true) .emailExists
  let pUserId ← Proc.generate .user
  insertUser env pUserId (newUser pUsername pEmail pPasswordHash)
  return pUserId

/-- `UPDATE users SET ... WHERE id = u` -/
def setUser (u : Uuid) (set : User → User) : RowUpdate Row
  | .user u', r => if u' = u then some (some (set r)) else none
  | _, _ => none

def updateUser (u : Uuid) (set : User → User) : DirectoryProc Unit := do
  let _ ← Proc.update (setUser u set)
  return ()

/-- What the columns of a profile store. -/
def storedProfile (profile : Profile) : Profile where
  lastName := profile.lastName.map (varchar 30)
  firstName := profile.firstName.map (varchar 30)
  lastNameKana := profile.lastNameKana.map (varchar 30)
  firstNameKana := profile.firstNameKana.map (varchar 30)
  birthDate := profile.birthDate

def spUpdateUserProfile (pUserId : Uuid) (profile : Profile) : DirectoryProc Unit :=
  updateUser pUserId fun r => { r with profile := storedProfile profile }

def spUpdateUserPassword (pUserId : Uuid) (pPasswordHash : String) : DirectoryProc Unit :=
  updateUser pUserId fun r => { r with passwordHash := some pPasswordHash }

/-- `now` is the time at which the transaction began. -/
def spVerifyUserEmail (pUserId : Uuid) (now : Timestamp) : DirectoryProc Unit :=
  updateUser pUserId fun r => { r with emailVerifiedAt := some now }

/-- `INSERT ... ON CONFLICT (provider, provider_user_id) DO NOTHING`, then
`SET email_verified_at = COALESCE(email_verified_at, now())` -/
def spUpsertOAuthAccount (pUserId : Uuid) (pProviderUserId : String) (now : Timestamp) :
    DirectoryProc Unit := do
  Proc.insertOrIgnore (.oauthAccount pProviderUserId) pUserId
  updateUser pUserId fun r => { r with emailVerifiedAt := some (r.emailVerifiedAt.getD now) }

/-- What `sp_admin_update_user_role` and `sp_admin_update_user_status` do first: no self
modification, the advisory lock, the row lock. -/
def lockTarget (pActorId pTargetId : Uuid) : DirectoryProc User := do
  Proc.raiseIf (pActorId = pTargetId) .selfModification
  Proc.advisoryLock .adminProtection
  let row : Option User ← Proc.selectForUpdate (RowId.user pTargetId)
  match row with
  | none => .throw .targetNotFound
  | some old => return old

/-- The count of the other active admins when the target, an active admin, does not stay one. -/
def requireOtherActiveAdmin (pTargetId : Uuid) (old : User) (stays : Prop) [Decidable stays] :
    DirectoryProc Unit :=
  if old.role = .admin ∧ old.isActive = true ∧ ¬stays then do
    let vOtherActiveAdmins ← Proc.select fun db => (users db).countP fun x =>
      decide (x.2.role = .admin ∧ x.2.isActive = true ∧ x.1 ≠ pTargetId)
    Proc.raiseIf (vOtherActiveAdmins = 0) .lastActiveAdmin
  else return ()

def spAdminUpdateUserRole (pActorId pTargetId : Uuid) (pNewRole : Role) : DirectoryProc Unit := do
  let old ← lockTarget pActorId pTargetId
  requireOtherActiveAdmin pTargetId old (pNewRole = .admin)
  updateUser pTargetId fun r => { r with role := pNewRole }

def spAdminUpdateUserStatus (pActorId pTargetId : Uuid) (pIsActive : Bool) :
    DirectoryProc Unit := do
  let old ← lockTarget pActorId pTargetId
  requireOtherActiveAdmin pTargetId old (pIsActive = true)
  updateUser pTargetId fun r => { r with isActive := pIsActive }

/-! ### `register` -/

structure RegisterRequest where
  username : String
  email : String
  password : String
  passwordConfirm : String
  lastName : String
  firstName : String
  lastNameKana : String
  firstNameKana : String
  birthDate : Date
deriving DecidableEq, Repr

/-- The number of the categories of `_validate_password_categories` that have a character in the
text. -/
def passwordCategories (value : String) : ℕ :=
  [Char.isUpper, Char.isLower, Char.isDigit, fun c => !c.isAlphanum].countP value.toList.any

/-- What a `RegisterRequest` has to satisfy. -/
def RegisterRequest.Valid (env : Env) (today : Date) (r : RegisterRequest) : Prop :=
  (3 ≤ r.username.length ∧ r.username.length ≤ 50 ∧ Matches usernamePattern r.username) ∧
  (r.email.length ≤ 254 ∧ Matches emailPattern r.email) ∧
  (8 ≤ r.password.length ∧ 2 ≤ passwordCategories r.password ∧
    r.password.length ≤ env.passwordMaxLength) ∧
  r.passwordConfirm.length ≤ env.passwordMaxLength ∧
  (1 ≤ r.lastName.length ∧ r.lastName.length ≤ 30) ∧
  (1 ≤ r.firstName.length ∧ r.firstName.length ≤ 30) ∧
  (1 ≤ r.lastNameKana.length ∧ r.lastNameKana.length ≤ 30 ∧ Matches kanaPattern r.lastNameKana) ∧
  (1 ≤ r.firstNameKana.length ∧ r.firstNameKana.length ≤ 30 ∧
    Matches kanaPattern r.firstNameKana) ∧
  r.password = r.passwordConfirm ∧ r.birthDate ≤ today

instance (env : Env) (today : Date) (r : RegisterRequest) : Decidable (r.Valid env today) := by
  unfold RegisterRequest.Valid
  infer_instance

/-- The profile that a request sets. -/
def RegisterRequest.profile (payload : RegisterRequest) : Profile where
  lastName := some payload.lastName
  firstName := some payload.firstName
  lastNameKana := some payload.lastNameKana
  firstNameKana := some payload.firstNameKana
  birthDate := some payload.birthDate

/-- The transaction of `register`; the result is the identifier of the new user. -/
def register (env : Env) (payload : RegisterRequest) (salt : ℕ) : DirectoryProc Uuid := do
  let sameName ← getByLoginIdentifier env payload.username
  Proc.raiseIf (sameName.isSome = true) .duplicateUsername
  let sameEmail ← getByEmail env payload.email
  Proc.raiseIf (sameEmail.isSome = true) .duplicateEmail
  let passwordHash := env.hashPassword payload.password salt
  let userId ← spRegisterUser env payload.username payload.email (some passwordHash)
  spUpdateUserProfile userId payload.profile
  return userId

/-! ### `_resolve_or_create_user` -/

/-- What Google says of a user; its e-mail is any text. -/
structure GoogleUserInfo where
  sub : String
  email : String
  emailVerified : Bool
  givenName : Option String := none
  familyName : Option String := none
deriving DecidableEq, Repr

/-- A digit of `hexdigest`. -/
def hexDigit (n : ℕ) : Char := if n < 10 then Char.ofNat (48 + n) else Char.ofNat (87 + n)

/-- `hexdigest()` of a hash. -/
def hexdigest (digest : List UInt8) : List Char :=
  digest.flatMap fun b => [hexDigit (b.toNat / 16), hexDigit (b.toNat % 16)]

/-- The name of a user who is created for a Google account. -/
def googleUsername (env : Env) (sub : String) : String :=
  "google_" ++ String.ofList
    ((hexdigest (env.sha256 (FormUrlencoded.utf8Encode sub.toList))).take 16)

/-- The branch of a user who is found by the e-mail. -/
def linkExisting (info : GoogleUserInfo) (now : Timestamp) (id : Uuid) (existing : User) :
    DirectoryProc Uuid := do
  Proc.raiseIf (info.emailVerified = false) .oauthEmailUnverified
  Proc.raiseIf (existing.isActive = false) .userInactive
  spUpsertOAuthAccount id info.sub now
  (if existing.emailVerifiedAt = none then spVerifyUserEmail id now else pure ())
  return id

/-- The branch of a new user. -/
def createLinked (env : Env) (info : GoogleUserInfo) (now : Timestamp) : DirectoryProc Uuid := do
  Proc.raiseIf (info.emailVerified = false) .oauthEmailUnverified
  let userId ← spRegisterUser env (googleUsername env info.sub) info.email none
  spUpsertOAuthAccount userId info.sub now
  spVerifyUserEmail userId now
  (if info.givenName ≠ none ∨ info.familyName ≠ none then
    spUpdateUserProfile userId { lastName := info.familyName, firstName := info.givenName }
  else pure ())
  return userId

/-- `account.user`, as in `IdentityDb.accountUser`. -/
def accountUser : DirectoryProc (Option User) := .throw .missingGreenlet

/-- `account.user or await get_by_id(db, account.user_id)` -/
def userOfAccount (userId : Uuid) : DirectoryProc (Option User) := do
  match ← accountUser with
  | some user => return some user
  | none => getById userId

/-- The transaction of `_resolve_or_create_user`; the result is the identifier of the user that is
returned. -/
def resolveOrCreateUser (env : Env) (info : GoogleUserInfo) (now : Timestamp) :
    DirectoryProc Uuid := do
  match ← getByProviderIdentity info.sub with
  | some userId => do
    match ← userOfAccount userId with
    | none => .throw .oauthFailed
    | some user => do
      Proc.raiseIf (user.isActive = false) .userInactive
      return userId
  | none => do
    match ← getByEmail env info.email with
    | some (id, existing) => linkExisting info now id existing
    | none => createLinked env info now

/-! ### Changes of a user -/

/-- `get_current_user`, for an authenticated user id. -/
def getCurrentUser (userId : Uuid) : DirectoryProc User := do
  match ← getById userId with
  | none => .throw .unauthenticated
  | some user => do
    Proc.raiseIf (user.isActive = false) .userInactive
    return user

/-- `require_admin` -/
def requireAdmin (userId : Uuid) : DirectoryProc Unit := do
  let user ← getCurrentUser userId
  Proc.raiseIf (user.role ≠ .admin) .forbidden

/-- A field that is set may not be set to `null`. -/
def requireNotNull {α : Type} (field : String) (value : Option (Option α)) : DirectoryProc Unit :=
  Proc.raiseIf (value.any Option.isNone = true) (.validation field "null is not allowed")

/-- An omitted field is filled with the value that was read. -/
def merged (payload : UserProfileUpdateRequest) (profile : Profile) : Profile where
  lastName := payload.lastName.getD profile.lastName
  firstName := payload.firstName.getD profile.firstName
  lastNameKana := payload.lastNameKana.getD profile.lastNameKana
  firstNameKana := payload.firstNameKana.getD profile.firstNameKana
  birthDate := payload.birthDate.getD profile.birthDate

def updateProfile (userId : Uuid) (payload : UserProfileUpdateRequest) : DirectoryProc Unit := do
  match ← getById userId with
  | none => .throw .notFound
  | some user => do
    requireNotNull "last_name" payload.lastName
    requireNotNull "first_name" payload.firstName
    requireNotNull "last_name_kana" payload.lastNameKana
    requireNotNull "first_name_kana" payload.firstNameKana
    requireNotNull "birth_date" payload.birthDate
    spUpdateUserProfile userId (merged payload user.profile)

/-- The checks of `change_password`. -/
def requireCurrentPassword (env : Env) (user : User) (currentPassword : Option String) :
    DirectoryProc Unit :=
  match user.passwordHash, currentPassword with
  | some _, none => .throw (.validation "current_password" "current_password is required")
  | some passwordHash, some current =>
    Proc.raiseIf (env.verifyPassword current passwordHash = false) .invalidCredentials
  | none, some _ => .throw (.validation "current_password" "current_password is not allowed")
  | none, none => return ()

def changePassword (env : Env) (userId : Uuid) (currentPassword : Option String)
    (newPassword : String) (salt : ℕ) : DirectoryProc Unit := do
  match ← getById userId with
  | none => .throw .notFound
  | some user => do
    requireCurrentPassword env user currentPassword
    spUpdateUserPassword userId (env.hashPassword newPassword salt)

/-! ### Calls -/

/-- The requests.  `register` has passed the checks of `RegisterRequest`; the payloads of the other
calls are arbitrary. -/
inductive Call (env : Env) : Type where
  | register (payload : RegisterRequest) (today : Date) (valid : payload.Valid env today) (salt : ℕ)
  /-- `_resolve_or_create_user`, in a transaction that began at `now` -/
  | resolveOrCreateUser (info : GoogleUserInfo) (now : Timestamp)
  | updateProfile (userId : Uuid) (payload : UserProfileUpdateRequest)
  | changePassword (userId : Uuid) (currentPassword : Option String) (newPassword : String)
    (salt : ℕ)
  /-- `reset_password`, for the user of the token -/
  | resetPassword (userId : Uuid) (newPassword : String) (salt : ℕ)
  /-- `verify_email`, for the user of the token -/
  | verifyEmail (userId : Uuid) (now : Timestamp)
  | changeRole (userId targetId : Uuid) (newRole : Role)
  | changeStatus (userId targetId : Uuid) (newIsActive : Bool)
  /-- `login`: the lookup -/
  | login (identifier : String)
  /-- `resend_verification` and `request_password_reset`: the lookup -/
  | findByEmail (email : String)

/-- The transaction of a call; the result is the user that is found or created. -/
def Call.proc {env : Env} : Call env → DirectoryProc (Option Uuid)
  | .register payload _ _ salt => do
    let userId ← UserDirectory.register env payload salt
    return some userId
  | .resolveOrCreateUser info now => do
    let userId ← UserDirectory.resolveOrCreateUser env info now
    return some userId
  | .updateProfile userId payload => do
    let _ ← getCurrentUser userId
    UserDirectory.updateProfile userId payload
    return none
  | .changePassword userId currentPassword newPassword salt => do
    let _ ← getCurrentUser userId
    UserDirectory.changePassword env userId currentPassword newPassword salt
    return none
  | .resetPassword userId newPassword salt => do
    spUpdateUserPassword userId (env.hashPassword newPassword salt)
    return none
  | .verifyEmail userId now => do
    spVerifyUserEmail userId now
    return none
  | .changeRole userId targetId newRole => do
    requireAdmin userId
    spAdminUpdateUserRole userId targetId newRole
    return none
  | .changeStatus userId targetId newIsActive => do
    requireAdmin userId
    spAdminUpdateUserStatus userId targetId newIsActive
    return none
  | .login identifier => do
    let user ← getByLoginIdentifier env identifier
    return user.map Prod.fst
  | .findByEmail email => do
    let user ← getByEmail env email
    return user.map Prod.fst

/-- Any number of calls, on a database without users. -/
def directory {τ : Type} {env : Env} (call : τ → Call env) :
    Config τ Row LockKey Uuid Error (Option Uuid) :=
  .init .empty fun t => (call t).proc

end UserDirectory
