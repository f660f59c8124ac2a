import TaskManagement.RedisStore.Session
import TaskManagement.RedisStore.RefreshToken
import TaskManagement.Service.Exceptions
import TaskManagement.Users.Schema

/-!
# Issuing a login

`login`, the callback of OAuth in session mode and `oauth_exchange`, from `strategy.login` on: a
session or a refresh token is issued in Redis, a row of `login_history` is committed, and when that
fails `rollback_login` deletes what was issued.  What precedes `strategy.login` either raises or
yields the user; it issues nothing.

Response cookies and log records are left out: nothing here reads them.
-/

namespace Logins

open Requests Service
open UserDb (Uuid)

/-- The calls of a login. -/
inductive LoginCall : Type where
  /-- `create_session` or `store_refresh_token` -/
  | issue
  | insertHistory
  | commit
  | rollback
  /-- `delete_session` or `revoke_refresh_token` -/
  | compensate
deriving DecidableEq, Repr

/-- The loaded `User`; its attributes are read through the session of the database. -/
structure LoadedUser where
  id : Uuid
  email : String
deriving DecidableEq, Repr

/-- A row of `login_history`. -/
structure LoginHistory where
  userId : Option Uuid
  loginIdentifier : String
  loginMethod : String
  ipAddress : Option String
  userAgent : Option String
  success : Bool
  failureReason : Option String
deriving DecidableEq, Repr

/-- The address and the user agent of the request. -/
structure ClientInfo where
  clientIp : String
  userAgent : Option String
deriving DecidableEq, Repr

inductive AuthMode : Type where
  | session
  | jwt
deriving DecidableEq, Repr

/-- The text of `AuthStrategy.mode`. -/
def AuthMode.text : AuthMode → String
  | .session => "session"
  | .jwt => "jwt"

structure LoginResult where
  authMode : AuthMode
  accessToken : Option String
  refreshToken : Option String
  csrfToken : Option String
  expiresIn : Option ℤ
  sessionId : Option String
  userId : Option Uuid
deriving DecidableEq, Repr

/-- `AuthStrategy`, as far as a login uses it. -/
structure AuthStrategy (W : Type) where
  mode : AuthMode
  login : LoadedUser → Request W Exn LoginResult
  rollbackLogin : LoadedUser → LoginResult → Request W Exn Unit

section Flows

variable {S C R : Type}

/-- The stores of a login. -/
abbrev LoginWorld (S C R : Type) : Type := World S C R (List LoginHistory) LoginCall

/-- What happens around the calls of a login. -/
abbrev LoginEnv (S C R : Type) : Type := Environment S C R LoginCall Exn

/-- `user.id`, which raises when the user is expired. -/
def readId (user : LoadedUser) : Request (LoginWorld S C R) Exn Uuid :=
  Environment.readLoaded .missingGreenlet user.id

variable (env : LoginEnv S C R)

/-- `sp_record_login_history` for the row and the commit, as `_record_login_attempt` and
`record_oauth_login` have them. -/
def recordLogin (row : Request (LoginWorld S C R) Exn LoginHistory) :
    Request (LoginWorld S C R) Exn Unit := do
  try
    let r ← row
    callProcedure env .insertHistory fun rows => rows ++ [r]
    env.commit .commit
  catch exc =>
    if exc.isDBAPIError then
      env.rollback .rollback
      raiseDatabaseError exc
    else throw exc

/-- `_record_login_attempt` -/
def recordLoginAttempt (user : LoadedUser) (identifier loginMethod : String) (client : ClientInfo)
    (success : Bool) (failureReason : Option String) : Request (LoginWorld S C R) Exn Unit :=
  recordLogin env do
    let userId ← readId user
    return ⟨some userId, identifier, loginMethod, some client.clientIp, client.userAgent, success,
      failureReason⟩

/-- `record_oauth_login` -/
def recordOauthLogin (user : LoadedUser) (client : ClientInfo) :
    Request (LoginWorld S C R) Exn Unit :=
  recordLogin env do
    let userId ← readId user
    let email ← Environment.readLoaded .missingGreenlet user.email
    return ⟨some userId, email, "oauth_google", some client.clientIp, client.userAgent, true, none⟩

variable (strategy : AuthStrategy (LoginWorld S C R))

/-- `login` of `auth_service.py`; `checked` is how its checks end. -/
def login (checked : Except Exn LoadedUser) (identifier : String) (client : ClientInfo) :
    Request (LoginWorld S C R) Exn LoginResult := do
  let user ← fromExcept checked
  let loginResult ← try strategy.login user catch _ => throw (.app .serviceUnavailable)
  let _ ← readId user
  try
    recordLoginAttempt env user identifier strategy.mode.text client true none
  catch _ =>
    try
      strategy.rollbackLogin user loginResult
    catch _ => throw (.app .serviceUnavailable)
    throw (.app .serviceUnavailable)
  return loginResult

/-- `rollback_oauth_login`, which reads the id of the user for its log record first. -/
def rollbackOauthLogin (user : LoadedUser) (loginResult : LoginResult) :
    Request (LoginWorld S C R) Exn Unit := do
  let _ ← readId user
  strategy.rollbackLogin user loginResult

/-- `complete_oauth_session_login`; `oauth_exchange` has the same statements. -/
def completeOauthLogin (user : LoadedUser) (loginResult : LoginResult) (client : ClientInfo) :
    Request (LoginWorld S C R) Exn Unit := do
  let _ ← readId user
  try
    recordOauthLogin env user client
  catch _ =>
    try
      rollbackOauthLogin strategy user loginResult
    catch _ => throw (.app .serviceUnavailable)
    throw (.app .serviceUnavailable)

/-- The end of `oauth_callback` in session mode; `resolved` is how the exchange with the provider and
`_resolve_or_create_user` end. -/
def oauthCallback (resolved : Except Exn LoadedUser) (client : ClientInfo) :
    Request (LoginWorld S C R) Exn Unit := do
  let user ← fromExcept resolved
  let loginResult ← strategy.login user
  completeOauthLogin env strategy user loginResult client

/-- A text that is present and not empty. -/
def isNonEmpty (value : Option String) : Bool := value.any fun s => decide (s ≠ "")

/-- `is_valid_jwt_login_result` -/
def isValidJwtLoginResult (loginResult : LoginResult) : Bool :=
  decide (loginResult.authMode = .jwt) && isNonEmpty loginResult.accessToken &&
    isNonEmpty loginResult.refreshToken && isNonEmpty loginResult.csrfToken &&
    loginResult.expiresIn.any fun n => decide (1 ≤ n)

/-- `oauth_exchange`; `resolved` is how the consumption of the handoff code and `get_by_id` end. -/
def oauthExchange (resolved : Except Exn LoadedUser) (client : ClientInfo) :
    Request (LoginWorld S C R) Exn LoginResult := do
  let user ← fromExcept resolved
  let loginResult ← strategy.login user
  if !isValidJwtLoginResult loginResult then
    try
      rollbackOauthLogin strategy user loginResult
    catch _ => throw (.app .serviceUnavailable)
    throw (.app .oauthFailed)
  completeOauthLogin env strategy user loginResult client
  return loginResult

end Flows

/-! ### The strategies -/

/-- The settings of the lifetimes. -/
structure Settings where
  sessionTtlSeconds : ℤ
  sessionAbsoluteTtlSeconds : ℤ
  accessTokenTtlSeconds : ℤ
  refreshTtlSeconds : ℤ
deriving DecidableEq, Repr

/-- `_validate_positive_ttl` -/
structure Settings.Valid (settings : Settings) : Prop where
  session : 0 < settings.sessionTtlSeconds
  sessionAbsolute : 0 < settings.sessionAbsoluteTtlSeconds
  accessToken : 0 < settings.accessTokenTtlSeconds
  refresh : 0 < settings.refreshTtlSeconds

section Strategies

variable {T H F ι : Type} [Ring T] [LinearOrder T]

abbrev SessionEnv (T : Type) [Ring T] [LinearOrder T] : Type :=
  LoginEnv (Session.Keys T Uuid String) (Session.Call T Uuid String) (Session.Reply Uuid String)

abbrev SessionWorld (T : Type) [Ring T] [LinearOrder T] : Type :=
  LoginWorld (Session.Keys T Uuid String) (Session.Call T Uuid String) (Session.Reply Uuid String)

abbrev TokenEnv (T H F ι : Type) [Ring T] [LinearOrder T] : Type :=
  LoginEnv (RefreshToken.State T H Uuid F ι) (RefreshToken.Call T H Uuid F ι)
    (RefreshToken.Reply T Uuid F)

abbrev TokenWorld (T H F ι : Type) [Ring T] [LinearOrder T] : Type :=
  LoginWorld (RefreshToken.State T H Uuid F ι) (RefreshToken.Call T H Uuid F ι)
    (RefreshToken.Reply T Uuid F)

/-- `result.user_id or user.id` -/
def resultUserId {S C R : Type} (user : LoadedUser) (loginResult : LoginResult) :
    Request (LoginWorld S C R) Exn Uuid :=
  match loginResult.userId with
  | some userId => pure userId
  | none => readId user

/-- `SessionAuthStrategy`; the session id and the CSRF token are those that `create_session`
generates. -/
def sessionAuthStrategy (env : SessionEnv T) (settings : Settings) (sessionId csrfToken : String)
    (ip : Option String) : AuthStrategy (SessionWorld T) where
  mode := .session
  login user := do
    let userId ← readId user
    match ← env.ask .issue (.create sessionId csrfToken userId ip) with
    | some _ => return ⟨.session, none, none, some csrfToken, some settings.sessionTtlSeconds,
        some sessionId, some userId⟩
    | none => throw .valueError
  rollbackLogin user loginResult :=
    match loginResult.sessionId with
    | some sid => do
      let userId ← resultUserId user loginResult
      let _ ← env.ask .compensate (.delete sid userId)
    | none => pure ()

/-- `JwtAuthStrategy`; the tokens and the family id are those that `login` generates. -/
def jwtAuthStrategy (env : TokenEnv T H F ι) (settings : Settings) (tokenHash : String → H)
    (accessToken refreshToken csrfToken : String) (familyId : F) :
    AuthStrategy (TokenWorld T H F ι) where
  mode := .jwt
  login user := do
    let userId ← readId user
    match ← env.ask .issue (.store (tokenHash refreshToken) userId familyId) with
    | some _ => return ⟨.jwt, some accessToken, some refreshToken, some csrfToken,
        some settings.accessTokenTtlSeconds, none, some userId⟩
    | none => throw .valueError
  rollbackLogin user loginResult :=
    match loginResult.refreshToken with
    | some token => do
      let userId ← resultUserId user loginResult
      let _ ← env.ask .compensate (.revoke (tokenHash token) userId)
    | none => pure ()

end Strategies

end Logins
