import TaskManagement.RedisStore.EmailVerify
import TaskManagement.RedisStore.PasswordReset
import TaskManagement.Users.Schema
import Mathlib.Algebra.Order.Group.Int

/-!
# Accounts: registration, mail tokens, Google accounts and password logins

`register`, `resend_verification`, `verify_email`, `request_password_reset`, `reset_password`,
`change_password`, `_resolve_or_create_user` and `login` of the services, as parties of type `ι`
call them, in any order and interleaved at every read and every commit.

* A mail token is presented by the owner of the mailbox to which it was sent; a Google account is
  used by its owner, and Google vouches for an address (`emailVerified`) to its owner only
  (`World`).  A party may try any password.
* A party is logged in with an account after a login and until `signOut`: the expiry, the logout and
  every revocation of its sessions and tokens.
* `validate_ttl` raises before a script unless the time to live is positive.
* The user of a linked Google account is logged in.  In the source the read of `account.user` raises
  before that (`IdentityDb.accountUser`), so here are more logins than there.
* The steps that only refuse are left out: rate limits, resend intervals, the check of `is_active`
  in `get_current_user`, and the checks of the format of names.

A user is identified by the number of its row; no row of `users` is deleted, and no procedure
changes `email`.
-/

namespace Accounts

open UserDb (Uuid Timestamp User)

/-- `GoogleUserInfo`, without the names. -/
structure GoogleUserInfo where
  sub : String
  email : String
  emailVerified : Bool

/-- A row of `oauth_accounts` with `provider = 'google'`. -/
structure OAuthAccount where
  userId : Uuid
  sub : String

/-- What the services rely on: `lower` of the database, the password hashing with its salt, the name
of a user created for a Google account, and who owns what.  Addresses that differ in case are one
mailbox. -/
structure World (ι : Type) where
  lower : String → String
  hashPassword : String → ℕ → String
  verifyPassword : String → String → Bool
  googleUsername : String → String
  mailboxOwner : String → ι
  googleOwner : String → ι

variable {ι H : Type}

/-- The mailbox of an address belongs to its owner, whatever the case of its letters. -/
def World.owner (w : World ι) (email : String) : ι := w.mailboxOwner (w.lower email)

/-- How far a call is. -/
inductive Phase (H : Type) : Type where
  /-- `issue_email_verify_token` is next, for a user that `register` has created or that
  `resend_verification` has read. -/
  | issueVerify (userId : Uuid) (email : String)
  /-- `verify_email` has consumed the token. -/
  | verifying (h : H) (userId : Uuid)
  /-- `request_password_reset` has read the user. -/
  | issueReset (userId : Uuid) (email : String)
  /-- `reset_password` has consumed the token. -/
  | resetting (h : H) (userId : Uuid) (newPassword : String)
  /-- `change_password` has passed its checks, with the current password if there was one. -/
  | changing (userId : Uuid) (presented : Bool) (newPassword : String)
  /-- There is no row for the Google account. -/
  | unlinked (info : GoogleUserInfo)
  /-- There is a user with the address. -/
  | linking (userId : Uuid) (info : GoogleUserInfo)
  /-- There is no user with the address. -/
  | creating (info : GoogleUserInfo)
  | ended

/-- A call under way and the party that makes it. -/
structure Flow (ι H : Type) where
  party : ι
  phase : Phase H

/-- The tokens in Redis, the tables, who is logged in with which account, the address to which each
token was sent, and the calls. -/
structure State (ι H : Type) where
  verifyTokens : EmailVerify.Keys Timestamp H Uuid
  resetTokens : PasswordReset.Keys Timestamp H Uuid
  users : List User
  oauthAccounts : List OAuthAccount
  logins : List (ι × Uuid)
  mailed : H → Option String
  flows : List (Flow ι H)

/-- The settings `email_verify_ttl_seconds` and `password_reset_ttl_seconds`. -/
structure Settings where
  emailVerifyTtlSeconds : Timestamp
  passwordResetTtlSeconds : Timestamp

/-- The steps of the calls; `i` is a call under way. -/
inductive Call (ι H : Type) : Type where
  /-- `register`: `sp_register_user` and its commit -/
  | register (p : ι) (username email password : String) (salt : ℕ)
  /-- `resend_verification`: the read of the user -/
  | resendVerification (p : ι) (email : String)
  /-- `issue_email_verify_token`, whose `GET` has read `oldHash` -/
  | issueVerify (i : ℕ) (oldHash : Option H) (h : H)
  /-- `verify_email`: the consumption of the token -/
  | verifyEmail (p : ι) (h : H)
  /-- `verify_email`: the commit -/
  | verifyCommit (i : ℕ)
  /-- `verify_email`: the database has failed. -/
  | verifyRestore (i : ℕ)
  /-- `request_password_reset`: the read of the user -/
  | requestReset (p : ι) (email : String)
  /-- `save_password_reset_token`, whose `GET` has read `oldHash` -/
  | issueReset (i : ℕ) (oldHash : Option H) (h : H)
  /-- `reset_password`: the consumption of the token -/
  | resetPassword (p : ι) (h : H) (newPassword : String)
  /-- `reset_password`: the commit -/
  | resetCommit (i : ℕ) (salt : ℕ)
  /-- `reset_password`: Redis or the database has failed. -/
  | resetRestore (i : ℕ)
  /-- `change_password`: the read of the user and the checks -/
  | changePassword (p : ι) (userId : Uuid) (currentPassword : Option String) (newPassword : String)
  /-- `change_password`: the commit -/
  | changeCommit (i : ℕ) (salt : ℕ)
  /-- `_resolve_or_create_user`: `get_by_provider_identity` -/
  | oauthCallback (p : ι) (info : GoogleUserInfo)
  /-- `_resolve_or_create_user`: `get_by_email` -/
  | oauthEmail (i : ℕ)
  /-- `_resolve_or_create_user`: the commit -/
  | oauthCommit (i : ℕ)
  /-- `login`: the read of the user, which decides it -/
  | login (p : ι) (identifier password : String)
  | signOut (p : ι) (userId : Uuid)
  /-- An administrator activates or deactivates a user. -/
  | setActive (userId : Uuid) (isActive : Bool)
  /-- A call ends with an exception. -/
  | fail (i : ℕ)
  /-- Time passes. -/
  | tick (d : Timestamp)

inductive Reply : Type where
  | done
  | refused
  /-- A user was created. -/
  | created (userId : Uuid)
  /-- The token was live. -/
  | accepted
  /-- The party is logged in with the account. -/
  | loggedIn (userId : Uuid)

/-! ### Reads and writes of the tables -/

/-- The rows with a property, and their numbers. -/
def findUsers (users : List User) (pred : User → Bool) : List (Uuid × User) :=
  (users.zipIdx.map fun x => (x.2, x.1)).filter fun x => pred x.2

/-- `one_or_none()`: two rows raise. -/
def oneOrNone {α : Type} : List α → Except Unit (Option α)
  | [] => .ok none
  | [a] => .ok (some a)
  | _ => .error ()

/-- `fn_find_user_by_email` -/
def getByEmail (w : World ι) (users : List User) (email : String) :
    Except Unit (Option (Uuid × User)) :=
  oneOrNone (findUsers users fun u => w.lower u.email = w.lower email)

/-- `fn_find_user_by_identifier` -/
def getByLoginIdentifier (w : World ι) (users : List User) (identifier : String) :
    Except Unit (Option (Uuid × User)) :=
  oneOrNone (findUsers users fun u =>
    w.lower u.username = w.lower identifier ∨ w.lower u.email = w.lower identifier)

/-- `sp_register_user` -/
def spRegisterUser (w : World ι) (users : List User) (username email : String)
    (passwordHash : Option String) : Option (List User) :=
  if users.any fun u => w.lower u.username = w.lower username then none
  else if users.any fun u => w.lower u.email = w.lower email then none
  else some (users ++ [⟨username, email, passwordHash, .member, true, none⟩])

/-- `sp_verify_user_email` -/
def spVerifyUserEmail (now : Timestamp) (users : List User) (userId : Uuid) : List User :=
  users.modify userId fun u => { u with emailVerifiedAt := some now }

/-- `sp_update_user_password` -/
def spUpdateUserPassword (users : List User) (userId : Uuid) (passwordHash : String) : List User :=
  users.modify userId fun u => { u with passwordHash := some passwordHash }

/-- `sp_upsert_oauth_account` with its `COALESCE` of `email_verified_at`: the tables `oauth_accounts`
and `users`. -/
def spUpsertOauthAccount (now : Timestamp) (accounts : List OAuthAccount) (users : List User)
    (userId : Uuid) (sub : String) : List OAuthAccount × List User :=
  (if accounts.any fun a => a.sub = sub then accounts else accounts ++ [⟨userId, sub⟩],
    users.modify userId fun u =>
      { u with emailVerifiedAt := u.emailVerifiedAt.orElse fun _ => some now })

/-- `login` succeeds on the row. -/
def accepts (w : World ι) (password : String) (u : User) : Bool :=
  u.passwordHash.any (w.verifyPassword password) && u.isActive && u.emailVerifiedAt.isSome

/-! ### The machine -/

variable [DecidableEq ι] [DecidableEq H]

/-- The time `now()`. -/
def State.now (s : State ι H) : Timestamp := s.verifyTokens.now

/-- The party may present the token: nobody else can read the mail. -/
def MayPresent (w : World ι) (s : State ι H) (p : ι) (h : H) : Prop :=
  ∀ email ∈ s.mailed h, w.owner email = p

instance (w : World ι) (s : State ι H) (p : ι) (h : H) : Decidable (MayPresent w s p h) :=
  inferInstanceAs (Decidable (∀ email ∈ s.mailed h, _))

/-- The party may present the Google identity. -/
def MayVouch (w : World ι) (p : ι) (info : GoogleUserInfo) : Prop :=
  w.googleOwner info.sub = p ∧ (info.emailVerified → w.owner info.email = p)

instance (w : World ι) (p : ι) (info : GoogleUserInfo) : Decidable (MayVouch w p info) :=
  inferInstanceAs (Decidable (_ ∧ (_ → _)))

/-- A new call is under way. -/
def State.begin (s : State ι H) (p : ι) (phase : Phase H) : State ι H :=
  { s with flows := s.flows ++ [⟨p, phase⟩] }

/-- The call `i` goes on to a phase. -/
def State.goto (s : State ι H) (i : ℕ) (f : Flow ι H) (phase : Phase H) : State ι H :=
  { s with flows := s.flows.set i { f with phase := phase } }

/-- The token was sent to the address. -/
def State.mail (s : State ι H) (h : H) (email : String) : State ι H :=
  { s with mailed := Function.update s.mailed h (some email) }

/-- The party is logged in with the account. -/
def State.logIn (s : State ι H) (p : ι) (userId : Uuid) : State ι H :=
  { s with logins := (p, userId) :: s.logins }

def init (now : Timestamp) : State ι H where
  verifyTokens := .empty now
  resetTokens := .empty now
  users := []
  oauthAccounts := []
  logins := []
  mailed _ := none
  flows := []

/-- A step of the call `i`, which is in the phase `f.phase`. -/
def stepFlow (w : World ι) (settings : Settings) (s : State ι H) (i : ℕ) (f : Flow ι H) :
    Call ι H → Option (Reply × State ι H)
  | .issueVerify _ oldHash h =>
    match f.phase with
    | .issueVerify userId email =>
      if 0 < settings.emailVerifyTtlSeconds ∧ s.mailed h = none then
        let verifyTokens := EmailVerify.replaceEmailVerify settings.emailVerifyTtlSeconds
          s.verifyTokens userId oldHash h
        some (.done, { s.mail h email with verifyTokens := verifyTokens }.goto i f .ended)
      else none
    | _ => none
  | .verifyCommit _ =>
    match f.phase with
    | .verifying _ userId =>
      some (.done, { s with users := spVerifyUserEmail s.now s.users userId }.goto i f .ended)
    | _ => none
  | .verifyRestore _ =>
    match f.phase with
    | .verifying h userId =>
      if 0 < settings.emailVerifyTtlSeconds then
        let x := EmailVerify.restoreEmailVerify settings.emailVerifyTtlSeconds s.verifyTokens h
          userId
        some (.refused, { s with verifyTokens := x.2 }.goto i f .ended)
      else none
    | _ => none
  | .issueReset _ oldHash h =>
    match f.phase with
    | .issueReset userId email =>
      if 0 < settings.passwordResetTtlSeconds ∧ s.mailed h = none then
        let x := PasswordReset.savePasswordReset settings.passwordResetTtlSeconds s.resetTokens
          userId oldHash h
        -- there is no mail unless the token is saved
        if x.1 then some (.done, { s.mail h email with resetTokens := x.2 }.goto i f .ended)
        else some (.refused, s.goto i f .ended)
      else none
    | _ => none
  | .resetCommit _ salt =>
    match f.phase with
    | .resetting _ userId newPassword =>
      let passwordHash := w.hashPassword newPassword salt
      some (.done,
        { s with users := spUpdateUserPassword s.users userId passwordHash }.goto i f .ended)
    | _ => none
  | .resetRestore _ =>
    match f.phase with
    | .resetting h userId _ =>
      if 0 < settings.passwordResetTtlSeconds then
        let x := PasswordReset.restorePasswordReset settings.passwordResetTtlSeconds s.resetTokens h
          userId
        some (.refused, { s with resetTokens := x.2 }.goto i f .ended)
      else none
    | _ => none
  | .changeCommit _ salt =>
    match f.phase with
    | .changing userId _ newPassword =>
      let passwordHash := w.hashPassword newPassword salt
      some (.done,
        { s with users := spUpdateUserPassword s.users userId passwordHash }.goto i f .ended)
    | _ => none
  | .oauthEmail _ =>
    match f.phase with
    | .unlinked info =>
      match getByEmail w s.users info.email with
      | .ok (some (userId, existing)) =>
        if info.emailVerified ∧ existing.isActive then
          some (.done, s.goto i f (.linking userId info))
        else some (.refused, s.goto i f .ended)
      | .ok none =>
        if info.emailVerified then some (.done, s.goto i f (.creating info))
        else some (.refused, s.goto i f .ended)
      | .error _ => some (.refused, s.goto i f .ended)
    | _ => none
  | .oauthCommit _ =>
    match f.phase with
    | .linking userId info =>
      -- `mark_email_verified` adds nothing for a row whose `email_verified_at` is set
      let x := spUpsertOauthAccount s.now s.oauthAccounts s.users userId info.sub
      some (.loggedIn userId,
        ({ s with oauthAccounts := x.1, users := x.2 }.logIn f.party userId).goto i f .ended)
    | .creating info =>
      match spRegisterUser w s.users (w.googleUsername info.sub) info.email none with
      | none => some (.refused, s.goto i f .ended)
      | some users =>
        let userId := s.users.length
        let x := spUpsertOauthAccount s.now s.oauthAccounts users userId info.sub
        some (.loggedIn userId,
          ({ s with oauthAccounts := x.1, users := x.2 }.logIn f.party userId).goto i f .ended)
    | _ => none
  | .fail _ => some (.refused, s.goto i f .ended)
  | _ => none

/-- The call that a step belongs to. -/
def Call.flow : Call ι H → Option ℕ
  | .issueVerify i _ _ | .verifyCommit i | .verifyRestore i | .issueReset i _ _ | .resetCommit i _
  | .resetRestore i | .changeCommit i _ | .oauthEmail i | .oauthCommit i | .fail i => some i
  | _ => none

/-- The first step of a call, and what happens around the calls. -/
def stepFirst (w : World ι) (settings : Settings) (s : State ι H) :
    Call ι H → Option (Reply × State ι H)
  | .register p username email password salt =>
    match spRegisterUser w s.users username email (some (w.hashPassword password salt)) with
    | none => some (.refused, s)
    | some users =>
      let userId := s.users.length
      some (.created userId, { s with users := users }.begin p (.issueVerify userId email))
  | .resendVerification p email =>
    match getByEmail w s.users email with
    | .ok (some (userId, user)) =>
      if user.emailVerifiedAt.isNone then some (.done, s.begin p (.issueVerify userId user.email))
      else some (.done, s)
    | .ok none => some (.done, s)
    | .error _ => some (.refused, s)
  | .verifyEmail p h =>
    if MayPresent w s p h then
      let x := EmailVerify.consumeEmailVerify s.verifyTokens h
      match x.1 with
      | some userId =>
        some (.accepted, { s with verifyTokens := x.2 }.begin p (.verifying h userId))
      | none => some (.refused, { s with verifyTokens := x.2 })
    else none
  | .requestReset p email =>
    match getByEmail w s.users email with
    | .ok (some (userId, user)) => some (.done, s.begin p (.issueReset userId user.email))
    | .ok none => some (.done, s)
    | .error _ => some (.refused, s)
  | .resetPassword p h newPassword =>
    if MayPresent w s p h ∧ 0 < settings.passwordResetTtlSeconds then
      let x := PasswordReset.consumePasswordReset settings.passwordResetTtlSeconds s.resetTokens h
      match x.1 with
      | some userId =>
        some (.accepted,
          { s with resetTokens := x.2 }.begin p (.resetting h userId newPassword))
      | none => some (.refused, { s with resetTokens := x.2 })
    else none
  | .changePassword p userId currentPassword newPassword =>
    if (p, userId) ∈ s.logins then
      match s.users[userId]? with
      | none => some (.refused, s)
      | some user =>
        match user.passwordHash, currentPassword with
        | some passwordHash, some current =>
          if w.verifyPassword current passwordHash then
            some (.done, s.begin p (.changing userId true newPassword))
          else some (.refused, s)
        | some _, none => some (.refused, s)
        | none, some _ => some (.refused, s)
        | none, none => some (.done, s.begin p (.changing userId false newPassword))
    else none
  | .oauthCallback p info =>
    if MayVouch w p info then
      match s.oauthAccounts.find? fun a => a.sub = info.sub with
      | some account =>
        match s.users[account.userId]? with
        | some user =>
          if user.isActive then some (.loggedIn account.userId, s.logIn p account.userId)
          else some (.refused, s)
        | none => some (.refused, s)
      | none => some (.done, s.begin p (.unlinked info))
    else none
  | .login p identifier password =>
    match getByLoginIdentifier w s.users identifier with
    | .ok (some (userId, user)) =>
      if accepts w password user then some (.loggedIn userId, s.logIn p userId)
      else some (.refused, s)
    | .ok none => some (.refused, s)
    | .error _ => some (.refused, s)
  | .signOut p userId => some (.done, { s with logins := s.logins.erase (p, userId) })
  | .setActive userId isActive =>
    some (.done, { s with users := s.users.modify userId fun u => { u with isActive := isActive } })
  | .tick d =>
    if 0 ≤ d then
      some (.done, { s with
        verifyTokens := s.verifyTokens.advance d
        resetTokens := s.resetTokens.advance d })
    else none
  | _ => none

/-- The parties and the services. -/
def machine (w : World ι) (settings : Settings) : Machine (State ι H) (Call ι H) Reply where
  step s c :=
    match c.flow with
    | some i => s.flows[i]?.bind fun f => stepFlow w settings s i f c
    | none => stepFirst w settings s c

end Accounts
