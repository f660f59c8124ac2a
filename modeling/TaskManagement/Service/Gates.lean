import TaskManagement.RedisStore.SessionLifetime
import TaskManagement.Service.Logins

/-!
# The double-submit gates

`verify_csrf` of `core/deps.py` and the check of the `state` in the callback of OAuth: a request is
let through when a value that it presents equals one that is bound to it.
-/

namespace Gates

open Requests Service
open Logins (AuthMode)
open UserDb (Uuid)

/-- The headers and the cookies of a request, by name. -/
structure HttpRequest where
  headers : String → Option String
  cookies : String → Option String

/-- The settings that name the cookies. -/
structure Settings where
  cookieNameSession : String
  cookieNameCsrf : String

/-- A value that is not falsy: present, and not the empty string. -/
def present (value : Option String) : Option String := value.filter fun s => decide (s ≠ "")

/-- `str.isascii` -/
def isAscii (s : String) : Bool := s.toList.all fun c => decide (c.toNat < 128)

/-- `secrets.compare_digest` on two `str` -/
def compareDigest (a b : String) : Except Exn Bool :=
  if isAscii a && isAscii b then .ok (decide (a = b)) else .error .typeError

/-- `csrf_tokens_match` -/
def csrfTokensMatch (cookieToken headerToken : String) : Except Exn Bool :=
  compareDigest cookieToken headerToken

section Csrf

variable {T : Type} [Ring T] [LinearOrder T]

/-- `verify_csrf` -/
def verifyCsrf (mode : AuthMode) (settings : Settings) (redis : SessionLifetime.Keys T Uuid String)
    (request : HttpRequest) : Except Exn Unit := do
  match present (request.headers "x-csrf-token") with
  | none => throw (.app .csrfInvalid)
  | some header =>
    let cookieToken ← match mode with
      | .session =>
        match present (request.cookies settings.cookieNameSession) with
        | none => throw (.app .csrfInvalid)
        | some sessionId => pure (Session.getCsrfToken redis sessionId)
      | .jwt => pure (request.cookies settings.cookieNameCsrf)
    match cookieToken with
    | none => throw (.app .csrfInvalid)
    | some token => if !(← csrfTokensMatch token header) then throw (.app .csrfInvalid)

end Csrf

/-! ### The state of OAuth -/

/-- `OAuthStateData` -/
structure OAuthStateData where
  redirectTo : String
  codeVerifier : String
  nonce : String
deriving DecidableEq, Repr

/-- The states in Redis, those that `consume_oauth_state` was called with, and whether the response
deletes the cookie of the state. -/
structure OAuthWorld where
  states : String → Option OAuthStateData
  consumed : List String
  cookieDeleted : Bool

namespace OAuthWorld

/-- `GETDEL` of the state. -/
def consume (w : OAuthWorld) (state : String) : OAuthWorld :=
  { w with consumed := w.consumed ++ [state], states := Function.update w.states state none }

/-- `delete_oauth_state_cookie` -/
def deleteOauthStateCookie (w : OAuthWorld) : OAuthWorld := { w with cookieDeleted := true }

end OAuthWorld

/-- `consume_oauth_state`, which raises `fault` if it is given. -/
def consumeOauthState (fault : Option Exn) (state : String) :
    Request OAuthWorld Exn (Option OAuthStateData) :=
  ExceptT.mk fun w =>
    match fault with
    | some x => (.error x, { w with consumed := w.consumed ++ [state] })
    | none => (.ok (w.states state), w.consume state)

/-- The check of the state, which both functions below make: the state, if it is that of the
cookie. -/
def checkState (state stateCookie : Option String) : Except Exn String :=
  match present state, present stateCookie with
  | some state, some stateCookie => do
    if !(← compareDigest state stateCookie) then throw (.app .invalidState)
    return state
  | _, _ => throw (.app .invalidState)

/-- The state is consumed; it must have been stored. -/
def consumeStored (fault : Option Exn) (state : String) :
    Request OAuthWorld Exn OAuthStateData := do
  let stateData ← try consumeOauthState fault state catch _ => throw (.app .serviceUnavailable)
  match stateData with
  | some data => return data
  | none => throw (.app .invalidState)

/-- `oauth_callback_denied`; `limited` is how the rate limit ends. -/
def oauthCallbackDenied (limited : Except Exn Unit) (fault : Option Exn)
    (state stateCookie : Option String) : Request OAuthWorld Exn Unit :=
  ensuring (do
    fromExcept limited
    let state ← fromExcept (checkState state stateCookie)
    let _ ← consumeStored fault state
    return ()) OAuthWorld.deleteOauthStateCookie

/-- `_oauth_callback_impl`; `next` is how what follows the state ends. -/
def oauthCallbackImpl {α : Type} (limited : Except Exn Unit) (fault : Option Exn)
    (state stateCookie : Option String) (next : OAuthStateData → Except Exn α) :
    Request OAuthWorld Exn α := do
  fromExcept limited
  let state ← fromExcept (checkState state stateCookie)
  let stateData ← consumeStored fault state
  fromExcept (next stateData)

/-- `oauth_callback` -/
def oauthCallback {α : Type} (limited : Except Exn Unit) (fault : Option Exn)
    (state stateCookie : Option String) (next : OAuthStateData → Except Exn α) :
    Request OAuthWorld Exn α :=
  ensuring (oauthCallbackImpl limited fault state stateCookie next)
    OAuthWorld.deleteOauthStateCookie

end Gates
