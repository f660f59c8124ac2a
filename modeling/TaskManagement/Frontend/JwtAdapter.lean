import TaskManagement.Machine
import Mathlib.Data.List.Basic
import Mathlib.Logic.Function.Basic

/-!
# The JWT adapter of the frontend

`JwtAdapter` of `jwtAdapter.ts` with its token store, and the retry of a request answered 401 in
`client.ts` and `authAdapter/client.ts`.

The promises that `refresh()` has returned are numbered in the order of the calls; a `pending` one
is a refresh request in flight.  `refreshPromise` is the field of the adapter.  `machine` executes
the synchronous pieces of the program one after another, in any order the event loop may choose: a
call of the adapter runs to its first `await`, and what follows an `await` is a step of its own.
What the program reads from its environment in such a piece (the cookies, whether `httpClient.post`
throws, the answer of the server) is part of the call.
-/

namespace JwtAdapter

/-! ### `cookieUtils.ts` -/

/-- The value of a hexadecimal digit. -/
def hexDigit (c : Char) : Option ℕ :=
  if c.isDigit then some (c.toNat - '0'.toNat)
  else if 'a' ≤ c ∧ c ≤ 'f' then some (c.toNat - 'a'.toNat + 10)
  else if 'A' ≤ c ∧ c ≤ 'F' then some (c.toNat - 'A'.toNat + 10)
  else none

/-- The octets of a text with its percent-encoded octets decoded. -/
def percentDecode : List Char → Option (List UInt8)
  | [] => some []
  | '%' :: a :: b :: cs => do
    let x ← hexDigit a
    let y ← hexDigit b
    return UInt8.ofNat (16 * x + y) :: (← percentDecode cs)
  | '%' :: _ => none
  | c :: cs => (percentDecode cs).map (String.utf8EncodeChar c ++ ·)

/-- `decodeURIComponent`: `none` is a `URIError`. -/
def decodeURIComponent (s : String) : Option String :=
  (percentDecode s.toList).bind fun l => String.fromUTF8? ⟨l.toArray⟩

/-- The cookies of `document.cookie`, names and raw values, in their order. -/
abbrev Cookies : Type := List (String × String)

/-- `readCookie`: `none` when it throws, `some none` when there is no such cookie. -/
def readCookie (cookies : Cookies) (name : String) : Option (Option String) :=
  match cookies.find? fun c => c.1 = name with
  | none => some none
  | some c => (decodeURIComponent c.2).map some

/-! ### The state -/

/-- A promise that `refresh()` has returned. -/
inductive RefreshResult : Type where
  /-- The request is in flight. -/
  | pending
  | settled (ok : Bool)
deriving DecidableEq, Repr

/-- Where a request is. -/
inductive Phase : Type where
  | inFlight
  /-- Answered 401, `onUnauthorized` has returned `false`. -/
  | refused
  /-- Answered 401, waiting for the promise `p` that `onUnauthorized` has returned. -/
  | waiting (p : ℕ)
  | done
deriving DecidableEq, Repr

/-- An API request. -/
structure Request where
  /-- How often it was sent. -/
  sent : ℕ
  /-- `config._retried`, for `fetchWithAuth` the parameter `retried`. -/
  retried : Bool
  /-- The path is exempt from a refresh. -/
  refreshExempt : Bool
  /-- The path is exempt from the logout after a 401. -/
  logoutExempt : Bool
  phase : Phase
deriving DecidableEq, Repr

/-- The token store, the field `refreshPromise`, the promises by number, and the requests. -/
structure State (Tok ι : Type) where
  accessToken : Option Tok
  refreshPromise : Option ℕ
  promises : List RefreshResult
  requests : ι → Option Request

/-- What `refresh()` finds before its first `await`. -/
structure Env where
  cookies : Cookies
  /-- `httpClient.post` throws before it returns a promise. -/
  postThrows : Bool := false

/-- The outcome of a refresh request. -/
inductive Answer (Tok : Type) : Type where
  /-- A success, with `access_token` if the response has it. -/
  | success (accessToken : Option Tok)
  | failure

inductive Call (Tok ι : Type) : Type where
  /-- A new request through the API client or `fetchWithAuth`. -/
  | request (i : ι) (refreshExempt logoutExempt : Bool)
  /-- The request is answered, not with 401. -/
  | answered (i : ι)
  /-- The request is answered 401: `onUnauthorized`. -/
  | unauthorized (i : ι) (env : Env)
  /-- The interceptor goes on after `await onUnauthorized`. -/
  | resume (i : ι)
  | restoreSession (env : Env)
  /-- The refresh request of the promise `p` is answered. -/
  | refreshAnswered (p : ℕ) (answer : Answer Tok)
  /-- `onLoginSuccess`, or `setAuthAccessToken` of a handoff -/
  | loginSuccess (accessToken : Option Tok)
  /-- `onLogout`, `setAuthAccessToken(null)` or `clearAuthAdapter` -/
  | logout

/-! ### The adapter -/

section Adapter

variable {Tok ι : Type}

def setAccessToken (s : State Tok ι) (token : Option Tok) : State Tok ι :=
  { s with accessToken := token }

/-- `if (response.access_token) setAccessToken(response.access_token)` -/
def onLoginSuccess (s : State Tok ι) (accessToken : Option Tok) : State Tok ι :=
  match accessToken with
  | some t => setAccessToken s (some t)
  | none => s

def onLogout (s : State Tok ι) : State Tok ι := setAccessToken s none

/-- `refresh()` throws before its first `await`: the CSRF cookie is malformed, or `post` throws. -/
def Env.throws (csrfCookieName : String) (env : Env) : Bool :=
  (readCookie env.cookies csrfCookieName).isNone || env.postThrows

/-- `this.refreshPromise = this.refresh()`.  When `refresh()` throws before its first `await`, its
`catch` and its `finally` run before the assignment. -/
def refresh (csrfCookieName : String) (s : State Tok ι) (env : Env) : State Tok ι :=
  if env.throws csrfCookieName then
    let s := setAccessToken s none
    { s with
      promises := s.promises ++ [.settled false]
      refreshPromise := some s.promises.length }
  else
    { s with
      promises := s.promises ++ [.pending]
      refreshPromise := some s.promises.length }

/-- `if (!this.refreshPromise) this.refreshPromise = this.refresh(); return this.refreshPromise` -/
def sharedRefresh (csrfCookieName : String) (s : State Tok ι) (env : Env) : ℕ × State Tok ι :=
  match s.refreshPromise with
  | some p => (p, s)
  | none => (s.promises.length, refresh csrfCookieName s env)

/-- `refresh()` after its `await`, for the promise `p`. -/
def finishRefresh (s : State Tok ι) (p : ℕ) (answer : Answer Tok) : State Tok ι :=
  match answer with
  | .success accessToken =>
    let s := onLoginSuccess s accessToken
    { s with promises := s.promises.set p (.settled true), refreshPromise := none }
  | .failure =>
    let s := setAccessToken s none
    { s with promises := s.promises.set p (.settled false), refreshPromise := none }

variable [DecidableEq ι]

def setRequest (s : State Tok ι) (i : ι) (r : Request) : State Tok ι :=
  { s with requests := Function.update s.requests i (some r) }

/-- The response interceptor up to `await onUnauthorized`. -/
def onUnauthorized (csrfCookieName : String) (s : State Tok ι) (i : ι) (r : Request) (env : Env) :
    State Tok ι :=
  if r.retried ∨ r.refreshExempt then setRequest s i { r with phase := .refused }
  else
    let (p, s) := sharedRefresh csrfCookieName s env
    setRequest s i { r with retried := true, phase := .waiting p }

/-- The response interceptor after `await onUnauthorized`: `client.request(error.config)`, or a
logout. -/
def afterUnauthorized (s : State Tok ι) (i : ι) (r : Request) (shouldRetry : Bool) : State Tok ι :=
  if shouldRetry then setRequest s i { r with sent := r.sent + 1, phase := .inFlight }
  else
    let s := if r.logoutExempt then s else onLogout s
    setRequest s i { r with phase := .done }

/-- Nothing has happened yet. -/
def init : State Tok ι where
  accessToken := none
  refreshPromise := none
  promises := []
  requests _ := none

/-- The adapter and the requests of its clients. -/
def machine (csrfCookieName : String) : Machine (State Tok ι) (Call Tok ι) Unit where
  step s
    | .request i refreshExempt logoutExempt =>
      match s.requests i with
      | none => some ((), setRequest s i ⟨1, false, refreshExempt, logoutExempt, .inFlight⟩)
      | some _ => none
    | .answered i =>
      match s.requests i with
      | some r =>
        if r.phase = .inFlight then some ((), setRequest s i { r with phase := .done }) else none
      | none => none
    | .unauthorized i env =>
      match s.requests i with
      | some r =>
        if r.phase = .inFlight then some ((), onUnauthorized csrfCookieName s i r env) else none
      | none => none
    | .resume i =>
      match s.requests i with
      | some r =>
        match r.phase with
        | .refused => some ((), afterUnauthorized s i r false)
        | .waiting p =>
          match s.promises[p]? with
          | some (.settled ok) => some ((), afterUnauthorized s i r ok)
          | _ => none
        | _ => none
      | none => none
    | .restoreSession env => some ((), (sharedRefresh csrfCookieName s env).2)
    | .refreshAnswered p answer =>
      if s.promises[p]? = some .pending then some ((), finishRefresh s p answer) else none
    | .loginSuccess accessToken => some ((), onLoginSuccess s accessToken)
    | .logout => some ((), onLogout s)

end Adapter

end JwtAdapter
