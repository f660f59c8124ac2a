import TaskManagement.Service.Gates
import TaskManagement.Service.RedirectTo
import TaskManagement.TimedKeys

/-!
# The flow of OAuth

`oauth_start`, `oauth_callback`, `oauth_callback_denied` and `oauth_exchange`, and the browsers and
other clients that call them, as one machine.  What is not atomic in the program is not a single
call here: a request of the callback is under way between `send` and `callback`, what the callback
does after the state has been consumed is the later call `complete`, and a `Set-Cookie` header is
under way until `setCookie`.  Requests and headers arrive in any order, or never.

The exchanges with Google, the accounts and the issuing of a login are how they end.
-/

namespace OAuthFlow

open Gates (OAuthStateData checkState compareDigest)
open Logins (AuthMode)
open Service (Exn)
open UserDb (Uuid)

/-- The settings that are read; `_validate_positive_ttl` checks the times to live. -/
structure Settings where
  authMode : AuthMode
  oauthStateTtlSeconds : ℤ
  oauthHandoffTtlSeconds : ℤ
  redirect : RedirectTo.BackendSettings
  oauthStateTtlSeconds_pos : 0 < oauthStateTtlSeconds
  oauthHandoffTtlSeconds_pos : 0 < oauthHandoffTtlSeconds

/-- The exceptions of the flow: those of the services that it calls, and its own. -/
inductive Error : Type where
  | exn (x : Exn)
  | validation
  | tooManyAttempts
  | notSupportedInMode
  | emailUnverified
  | handoffInvalid
deriving DecidableEq, Repr

/-- How a command of Redis ends: executed, executed with its answer lost, or not executed. -/
inductive Outcome : Type where
  | answered
  | lost
  | failed
deriving DecidableEq, Repr

/-- The command took effect. -/
def Outcome.executed : Outcome → Bool
  | .answered | .lost => true
  | .failed => false

/-- `OAuthHandoffData` -/
structure OAuthHandoffData where
  userId : Uuid
  redirectTo : String
deriving DecidableEq, Repr

inductive Key : Type where
  | state (state : String)
  | handoff (code : String)
deriving DecidableEq

/-- What each key holds. -/
abbrev Value : Key → Type
  | .state _ => OAuthStateData
  | .handoff _ => OAuthHandoffData

/-- A browser, which keeps the cookie of the state, or a client that sends any cookie it likes. -/
inductive Client (B : Type) : Type where
  | browser (b : B)
  | other
deriving DecidableEq

/-- A request of the callback; `error` tells that Google denied the login. -/
structure CallbackRequest (B : Type) where
  client : Client B
  state : Option String
  stateCookie : Option String
  error : Bool
deriving DecidableEq

/-- A callback whose state has been consumed, and which has not ended. -/
structure Accepted (B : Type) where
  client : Client B
  state : String
  stateData : OAuthStateData
deriving DecidableEq

structure World (T B : Type) where
  redis : TimedKeys T Value
  /-- The cookie of the state in each browser. -/
  cookies : B → Option String
  /-- The `Set-Cookie` headers under way; `none` deletes the cookie. -/
  setCookies : List (B × Option String)
  requests : List (CallbackRequest B)
  accepted : List (Accepted B)

inductive Call (T B : Type) : Type where
  /-- `oauth_start`; `admitted` is how the checks before it end. -/
  | start (client : Client B) (redirectTo : Option String) (state codeVerifier nonce : String)
    (admitted : Except Error Unit) (outcome : Outcome)
  /-- A `Set-Cookie` header arrives. -/
  | setCookie (header : B × Option String)
  /-- A browser drops the cookie, for its age or for its user. -/
  | dropCookie (b : B)
  | send (request : CallbackRequest B)
  /-- `oauth_callback` or `oauth_callback_denied`, until the state has been consumed. -/
  | callback (request : CallbackRequest B) (admitted : Except Error Unit) (outcome : Outcome)
  /-- The rest of `oauth_callback`: `idTokenNonce` is the nonce of the verified ID token, `user` the
  account, `code` the new handoff code and `login` how the login of the session mode ends. -/
  | complete (accepted : Accepted B) (idTokenNonce : Except Error String)
    (user : Except Error Uuid) (code : String) (outcome : Outcome) (login : Except Error Unit)
  /-- `oauth_exchange`; `login` is how it goes on when the handoff was found. -/
  | exchange (code : String) (admitted : Except Error Unit) (outcome : Outcome)
    (login : Except Error Unit)
  | tick (d : T)

inductive Reply : Type where
  | done
  | raised (error : Error)
  /-- The state was found. -/
  | consumed (stateData : OAuthStateData)
  /-- The login of the session mode. -/
  | loggedIn (userId : Uuid) (redirectTo : String)
  | handoff (code redirectTo : String)
  /-- The login of the JWT mode. -/
  | exchanged (userId : Uuid) (redirectTo : String)

/-- The response of the callback carries the `Set-Cookie` header, unless the router lets the
exception pass to the handler, which answers with a response of its own. -/
def Reply.deletesCookie : Reply → Bool
  | .raised (.exn (.app .serviceUnavailable)) | .raised .tooManyAttempts
  | .raised .validation => false
  | _ => true

def serviceUnavailable : Reply := .raised (.exn (.app .serviceUnavailable))

/-- The nonce of the ID token is compared, then the account is resolved; an exception of
`verify_id_token` is `OAuthFailedError`. -/
def identify (stateData : OAuthStateData) (idTokenNonce : Except Error String)
    (user : Except Error Uuid) : Except Error Uuid :=
  match idTokenNonce with
  | .error x => .error x
  | .ok nonce =>
    match compareDigest nonce stateData.nonce with
    | .ok true => user
    | _ => .error (.exn (.app .oauthFailed))

namespace World

variable {T B : Type} [DecidableEq B]

/-- Nothing is stored or under way. -/
def init (now : T) : World T B := ⟨.empty now, fun _ => none, [], [], []⟩

/-- A `Set-Cookie` header is under way to the client. -/
def respond (w : World T B) (client : Client B) (cookie : Option String) : World T B :=
  match client with
  | .browser b => { w with setCookies := (b, cookie) :: w.setCookies }
  | .other => w

/-- A browser sends the cookie that it has, if it sends one. -/
def CanSend (w : World T B) (request : CallbackRequest B) : Prop :=
  ∀ b, request.client = .browser b →
    request.stateCookie = none ∨ request.stateCookie = w.cookies b

/-- The cookie, unless the response of `oauth_callback` is not used. -/
def endCallback (w : World T B) (client : Client B) (reply : Reply) : Reply × World T B :=
  (reply, if reply.deletesCookie then w.respond client none else w)

instance (w : World T B) (request : CallbackRequest B) : Decidable (w.CanSend request) :=
  match h : request.client with
  | .browser b =>
    decidable_of_iff (request.stateCookie = none ∨ request.stateCookie = w.cookies b) <| by
      rw [CanSend, h]
      exact ⟨fun hc b' hb => Client.browser.inj hb ▸ hc, fun hc => hc b rfl⟩
  | .other => .isTrue fun b hb => by rw [h] at hb; cases hb

end World

section Calls

variable {T B : Type} [Ring T] [LinearOrder T] [DecidableEq B]
  (nfkc : List Char → List Char) (settings : Settings)

/-- `save_oauth_state` -/
def saveOauthState (s : TimedKeys T Value) (state : String) (stateData : OAuthStateData) :
    TimedKeys T Value :=
  s.setEx (.state state) stateData (settings.oauthStateTtlSeconds : T)

/-- `save_oauth_handoff` -/
def saveOauthHandoff (s : TimedKeys T Value) (code : String) (handoff : OAuthHandoffData) :
    TimedKeys T Value :=
  s.setEx (.handoff code) handoff (settings.oauthHandoffTtlSeconds : T)

/-- The keyspace after a command, if it takes effect. -/
def Outcome.run (outcome : Outcome) (s s' : TimedKeys T Value) : TimedKeys T Value :=
  if outcome.executed then s' else s

/-- `oauth_start` -/
def oauthStart (w : World T B) (client : Client B) (redirectTo : Option String)
    (state codeVerifier nonce : String) (admitted : Except Error Unit) (outcome : Outcome) :
    Reply × World T B :=
  match admitted, RedirectTo.normalizeRedirectTo nfkc settings.redirect redirectTo with
  | .error x, _ => (.raised x, w)
  | .ok (), .error _ => (.raised (.exn .valueError), w)
  | .ok (), .ok redirect =>
    let redis := outcome.run w.redis
      (saveOauthState settings w.redis state ⟨redirect, codeVerifier, nonce⟩)
    if outcome = .answered then (.done, { w with redis }.respond client (some state))
    else (serviceUnavailable, { w with redis })

/-- The head of `_oauth_callback_impl`, which `oauth_callback_denied` shares. -/
def oauthCallback (w : World T B) (request : CallbackRequest B) (admitted : Except Error Unit)
    (outcome : Outcome) : Reply × World T B :=
  match admitted, checkState request.state request.stateCookie with
  | .error x, _ => w.endCallback request.client (.raised x)
  | .ok (), .error x => w.endCallback request.client (.raised (.exn x))
  | .ok (), .ok state =>
    let redis := outcome.run w.redis (w.redis.del (.state state))
    if outcome ≠ .answered then { w with redis }.endCallback request.client serviceUnavailable
    else
      match w.redis.get (.state state) with
      | none =>
        { w with redis }.endCallback request.client (.raised (.exn (.app .invalidState)))
      | some stateData =>
        if request.error then { w with redis }.endCallback request.client (.consumed stateData)
        else
          (.consumed stateData,
            { w with redis, accepted := ⟨request.client, state, stateData⟩ :: w.accepted })

/-- The rest of `_oauth_callback_impl`. -/
def completeCallback (w : World T B) (accepted : Accepted B) (idTokenNonce : Except Error String)
    (user : Except Error Uuid) (code : String) (outcome : Outcome) (login : Except Error Unit) :
    Reply × World T B :=
  match identify accepted.stateData idTokenNonce user with
  | .error x => w.endCallback accepted.client (.raised x)
  | .ok userId =>
    match settings.authMode with
    | .session =>
      match login with
      | .error x => w.endCallback accepted.client (.raised x)
      | .ok () => w.endCallback accepted.client (.loggedIn userId accepted.stateData.redirectTo)
    | .jwt =>
      let redis := outcome.run w.redis
        (saveOauthHandoff settings w.redis code ⟨userId, accepted.stateData.redirectTo⟩)
      if outcome = Outcome.answered then
        { w with redis }.endCallback accepted.client
          (.handoff code accepted.stateData.redirectTo)
      else { w with redis }.endCallback accepted.client serviceUnavailable

/-- `oauth_exchange` -/
def oauthExchange (w : World T B) (code : String) (admitted : Except Error Unit)
    (outcome : Outcome) (login : Except Error Unit) : Reply × World T B :=
  match admitted, settings.authMode with
  | .error x, _ => (.raised x, w)
  | .ok (), .session => (.raised .notSupportedInMode, w)
  | .ok (), .jwt =>
    let w' := { w with redis := outcome.run w.redis (w.redis.del (.handoff code)) }
    if outcome ≠ .answered then (serviceUnavailable, w')
    else
      match w.redis.get (.handoff code), login with
      | none, _ => (.raised .handoffInvalid, w')
      | some _, .error x => (.raised x, w')
      | some handoff, .ok () => (.exchanged handoff.userId handoff.redirectTo, w')

/-- The flow of all clients, one call after another. -/
def machine : Machine (World T B) (Call T B) Reply where
  step w
    | .start client redirectTo state codeVerifier nonce admitted outcome =>
      some (oauthStart nfkc settings w client redirectTo state codeVerifier nonce admitted outcome)
    | .setCookie header =>
      if header ∈ w.setCookies then
        some (.done, { w with
          setCookies := w.setCookies.erase header
          cookies := Function.update w.cookies header.1 header.2 })
      else none
    | .dropCookie b => some (.done, { w with cookies := Function.update w.cookies b none })
    | .send request =>
      if w.CanSend request then some (.done, { w with requests := request :: w.requests }) else none
    | .callback request admitted outcome =>
      if request ∈ w.requests then
        some (oauthCallback { w with requests := w.requests.erase request } request admitted
          outcome)
      else none
    | .complete accepted idTokenNonce user code outcome login =>
      if accepted ∈ w.accepted then
        some (completeCallback settings { w with accepted := w.accepted.erase accepted } accepted
          idTokenNonce user code outcome login)
      else none
    | .exchange code admitted outcome login =>
      some (oauthExchange settings w code admitted outcome login)
    | .tick d =>
      if 0 ≤ d then some (.done, { w with redis := w.redis.advance d }) else none

end Calls

end OAuthFlow
