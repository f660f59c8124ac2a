import TaskManagement.RedisStore.Session
import TaskManagement.RedisStore.RefreshToken
import TaskManagement.Users.Accounts

/-!
# Logins during a change of the password

`login` checks a password against the row that it has read and then issues a session or a refresh
token; `change_password` and `reset_password` revoke the sessions and the refresh tokens of the user
in Redis and then commit the new hash.  `machine w settings` interleaves any number of these calls,
for any users, at every access to the database or to Redis:

* `login`: the read of the row with its checks; `create_session` or `store_refresh_token`;
  `rollback_login`, which a failed commit of the login history brings about (a logout does the same
  to the keys);
* `change_password` and `reset_password`: the checks; `SMEMBERS` and `MULTI`/`EXEC` of
  `delete_all_sessions`; the same of `revoke_all_refresh_tokens`; the commit;
* `authenticate` and `rotate_refresh_token`, which accept what a login has issued;
* other transactions, which write anything but a password.

The checks of `login` are on one row, so they are one step with the read.  A new session id, token
hash or family id was never used before (`secrets.token_urlsafe`, `uuid4`).
-/

namespace CredentialChange

open UserDb (Uuid User)
open Accounts (World)

/-- `LoginResult.session_id`, or the hash of `LoginResult.refresh_token` with its family. -/
inductive Credential (S H F : Type) : Type where
  | session (sid : S)
  | refreshToken (h : H) (f : F)
deriving DecidableEq

/-- A call of `login` whose checks have passed.  `passwordVersion` counts the changes of the password
that were committed when the row was read. -/
structure Login (S H F : Type) where
  userId : Uuid
  passwordVersion : ℕ
  credential : Option (Credential S H F)

/-- How far a call of `change_password` or `reset_password` is. -/
inductive Phase (S H : Type) : Type where
  | checked
  /-- `delete_all_sessions` has read the index. -/
  | sessionsRead (sessionIds : List S)
  | sessionsDeleted
  /-- `revoke_all_refresh_tokens` has read the index. -/
  | tokensRead (tokenHashes : List H)
  | tokensDeleted
  /-- Success was returned; the commit made the password the given version. -/
  | succeeded (passwordVersion : ℕ)
  | failed

/-- A call of `change_password` or `reset_password`. -/
structure Change (S H : Type) where
  userId : Uuid
  newPasswordHash : String
  phase : Phase S H

/-- The rows of `users` with the number of committed changes of each password, the keys in Redis, the
ids in use, and the calls. -/
structure State (T S H F : Type) [LE T] [DecidableLE T] where
  users : List User
  passwordVersion : Uuid → ℕ
  sessions : Session.Keys T Uuid S
  tokens : RefreshToken.Keys T H Uuid F
  sessionIds : Finset S
  tokenHashes : Finset H
  families : Finset F
  logins : List (Login S H F)
  changes : List (Change S H)

structure Settings (T : Type) where
  session : Session.Settings T
  refreshTtl : T

/-- The steps; `i` is the number of a login or of a change. -/
inductive Call (T S H F : Type) : Type where
  /-- `login`: `get_by_login_identifier`, which decides it -/
  | login (identifier password : String)
  /-- `SessionAuthStrategy.login` -/
  | issueSession (i : ℕ) (sid : S) (csrfToken : String) (ip : Option String)
  /-- `JwtAuthStrategy.login` -/
  | issueTokens (i : ℕ) (h : H) (f : F)
  | rollbackLogin (i : ℕ)
  | authenticate (sid : S)
  | refresh (old new : H)
  /-- `change_password`: `get_by_id` and the checks -/
  | changePassword (userId : Uuid) (currentPassword : Option String) (newPassword : String)
    (salt : ℕ)
  /-- `reset_password`, for a token of the user that was consumed -/
  | resetPassword (userId : Uuid) (newPassword : String) (salt : ℕ)
  /-- `delete_all_sessions`: `SMEMBERS`, answered in the order `sessionIds` -/
  | sessionsRead (i : ℕ) (sessionIds : List S)
  /-- `delete_all_sessions`: `MULTI`/`EXEC` -/
  | sessionsExec (i : ℕ)
  /-- `revoke_all_refresh_tokens`: `SMEMBERS`, answered in the order `tokenHashes` -/
  | tokensRead (i : ℕ) (tokenHashes : List H)
  /-- `revoke_all_refresh_tokens`: `MULTI`/`EXEC` -/
  | tokensExec (i : ℕ)
  /-- `update_password` and the commit -/
  | commit (i : ℕ)
  /-- Redis or the database has failed. -/
  | fail (i : ℕ)
  /-- Another transaction is committed. -/
  | otherWrite (users : List User)
  /-- Time passes. -/
  | tick (d : T)

inductive Reply (T S F : Type) : Type where
  | done
  | refused
  | authenticated (r : Session.AuthResult Uuid S)
  | rotated (r : RefreshToken.RotateResult T Uuid F)

variable {T S H F ι : Type} [Ring T] [LinearOrder T] [FloorRing T]
variable [DecidableEq S] [DecidableEq H] [DecidableEq F]

/-- The checks of `change_password`. -/
def mayChangePassword (w : World ι) (user : User) (currentPassword : Option String) : Bool :=
  match user.passwordHash, currentPassword with
  | some passwordHash, some current => w.verifyPassword current passwordHash
  | some _, none => false
  | none, some _ => false
  | none, none => true

/-- No login was made. -/
def init (now : T) (users : List User) : State T S H F where
  users := users
  passwordVersion _ := 0
  sessions := .empty now
  tokens := .empty now
  sessionIds := ∅
  tokenHashes := ∅
  families := ∅
  logins := []
  changes := []

/-- The login `i` has issued a credential. -/
def State.issue (s : State T S H F) (i : ℕ) (login : Login S H F) (c : Credential S H F) :
    State T S H F :=
  { s with logins := s.logins.set i { login with credential := some c } }

/-- A new call of `change_password` or `reset_password`. -/
def State.begin (s : State T S H F) (userId : Uuid) (newPasswordHash : String) : State T S H F :=
  { s with changes := s.changes ++ [⟨userId, newPasswordHash, .checked⟩] }

/-- The change `i` goes on to a phase. -/
def State.goto (s : State T S H F) (i : ℕ) (change : Change S H) (phase : Phase S H) :
    State T S H F :=
  { s with changes := s.changes.set i { change with phase := phase } }

/-- `rollback_login` -/
def State.rollback (s : State T S H F) (login : Login S H F) : State T S H F :=
  match login.credential with
  | some (.session sid) =>
    { s with sessions := Session.deleteSession s.sessions sid login.userId }
  | some (.refreshToken h _) =>
    { s with tokens := RefreshToken.revokeRefreshToken s.tokens h login.userId }
  | none => s

/-- A step of the login `i`. -/
def stepLogin (settings : Settings T) (s : State T S H F) (i : ℕ) (login : Login S H F) :
    Call T S H F → Option (Reply T S F × State T S H F)
  | .issueSession _ sid csrfToken ip =>
    if 0 < settings.session.sessionTtl ∧ login.credential = none ∧ sid ∉ s.sessionIds then
      some (.done, { s with
        sessions := Session.createSession settings.session.sessionTtl s.sessions sid csrfToken
          login.userId ip
        sessionIds := insert sid s.sessionIds }.issue i login (.session sid))
    else none
  | .issueTokens _ h f =>
    if RefreshToken.validateTtl settings.refreshTtl ∧ login.credential = none ∧
        h ∉ s.tokenHashes ∧ f ∉ s.families then
      some (.done, { s with
        tokens := RefreshToken.storeRefreshToken settings.refreshTtl s.tokens h login.userId f
        tokenHashes := insert h s.tokenHashes
        families := insert f s.families }.issue i login (.refreshToken h f))
    else none
  | .rollbackLogin _ => some (.refused, s.rollback login)
  | _ => none

/-- A step of the change `i`. -/
def stepChange (s : State T S H F) (i : ℕ) (change : Change S H) :
    Call T S H F → Option (Reply T S F × State T S H F)
  | .sessionsRead _ sessionIds =>
    match change.phase with
    | .checked =>
      if s.sessions.ListsMembers change.userId sessionIds then
        some (.done, s.goto i change (.sessionsRead sessionIds))
      else none
    | _ => none
  | .sessionsExec _ =>
    match change.phase with
    | .sessionsRead sessionIds =>
      some (.done, { s with
        sessions := Session.deleteAllSessions s.sessions change.userId sessionIds }.goto i change
          .sessionsDeleted)
    | _ => none
  | .tokensRead _ tokenHashes =>
    match change.phase with
    | .sessionsDeleted =>
      if s.tokens.ListsMembers change.userId tokenHashes then
        some (.done, s.goto i change (.tokensRead tokenHashes))
      else none
    | _ => none
  | .tokensExec _ =>
    match change.phase with
    | .tokensRead tokenHashes =>
      some (.done, { s with
        tokens := RefreshToken.execAllRefreshTokens s.tokens change.userId tokenHashes }.goto i
          change .tokensDeleted)
    | _ => none
  | .commit _ =>
    match change.phase with
    | .tokensDeleted =>
      let passwordVersion := s.passwordVersion change.userId + 1
      some (.done, { s with
        users := Accounts.spUpdateUserPassword s.users change.userId change.newPasswordHash
        passwordVersion := Function.update s.passwordVersion change.userId passwordVersion }.goto i
          change (.succeeded passwordVersion))
    | _ => none
  | .fail _ =>
    match change.phase with
    | .succeeded _ => none
    | _ => some (.refused, s.goto i change .failed)
  | _ => none

/-- The first step of a call, and what happens around the calls. -/
def stepFirst (w : World ι) (settings : Settings T) (s : State T S H F) :
    Call T S H F → Option (Reply T S F × State T S H F)
  | .login identifier password =>
    match Accounts.getByLoginIdentifier w s.users identifier with
    | .ok (some (userId, user)) =>
      if Accounts.accepts w password user then
        some (.done, { s with logins := s.logins ++ [⟨userId, s.passwordVersion userId, none⟩] })
      else some (.refused, s)
    | .ok none => some (.refused, s)
    | .error _ => some (.refused, s)
  | .authenticate sid =>
    if 0 < settings.session.sessionTtl then
      let x := Session.authenticate settings.session s.sessions sid
      some (.authenticated x.1, { s with sessions := x.2 })
    else none
  | .refresh old new =>
    if RefreshToken.validateTtl settings.refreshTtl ∧ new ∉ s.tokenHashes then
      let x := RefreshToken.rotateRefreshToken settings.refreshTtl s.tokens old new
      some (.rotated x.1, { s with tokens := x.2, tokenHashes := insert new s.tokenHashes })
    else none
  | .changePassword userId currentPassword newPassword salt =>
    match s.users[userId]? with
    | none => some (.refused, s)
    | some user =>
      if mayChangePassword w user currentPassword then
        some (.done, s.begin userId (w.hashPassword newPassword salt))
      else some (.refused, s)
  | .resetPassword userId newPassword salt =>
    some (.done, s.begin userId (w.hashPassword newPassword salt))
  | .otherWrite users =>
    if s.users.map User.passwordHash <+: users.map User.passwordHash then
      some (.done, { s with users := users })
    else none
  | .tick d =>
    if 0 ≤ d then
      some (.done, { s with sessions := s.sessions.advance d, tokens := s.tokens.advance d })
    else none
  | _ => none

/-- The login that a step belongs to. -/
def Call.login? : Call T S H F → Option ℕ
  | .issueSession i _ _ _ | .issueTokens i _ _ | .rollbackLogin i => some i
  | _ => none

/-- The change that a step belongs to. -/
def Call.change? : Call T S H F → Option ℕ
  | .sessionsRead i _ | .sessionsExec i | .tokensRead i _ | .tokensExec i | .commit i
  | .fail i => some i
  | _ => none

/-- The logins and the changes of passwords. -/
def machine (w : World ι) (settings : Settings T) :
    Machine (State T S H F) (Call T S H F) (Reply T S F) where
  step s c :=
    match c.login?, c.change? with
    | some i, _ => s.logins[i]?.bind fun login => stepLogin settings s i login c
    | none, some i => s.changes[i]?.bind fun change => stepChange s i change c
    | none, none => stepFirst w settings s c

end CredentialChange
