import TaskManagement.Frontend.JwtAdapter
import TaskManagement.RedisStore.RefreshToken

/-!
# The tabs of a browser and the refresh endpoint

Every tab has a `JwtAdapter` of its own; the refresh cookie of the browser and the refresh-token
store of the server are shared.  A refresh request carries the cookie that the browser has when the
request is sent, the server handles it as `JwtAuthStrategy.refresh` does, and a successful response
overwrites the cookie when it arrives.  `machine` executes the steps of the tabs, of the server and
of the network in any order; a request is identified by its tab and the number of its promise.
No response is lost, and nobody else uses the tokens.
-/

namespace Tabs

/-- How far a refresh request is. -/
inductive Phase (H U F : Type) : Type where
  /-- On its way to the server. -/
  | sent
  /-- `rotate_refresh_token` has returned `TokenReused`. -/
  | reused (u : U) (f : F)
  /-- `revoke_token_family` is under way. -/
  | revoking
  /-- The response is on its way, with the new token of the refresh cookie if it is a success. -/
  | answered (newToken : Option H)

/-- A refresh request in flight and the refresh cookie that it carries. -/
structure Flight (H U F : Type) where
  cookie : Option H
  phase : Phase H U F

/-- The tabs, the refresh cookie, the server, the refresh requests in flight, and the tokens of the
login responses in flight. -/
structure State (T H U F Tok τ ι : Type) [LE T] [DecidableLE T] where
  tabs : τ → JwtAdapter.State Tok ι
  cookie : Option H
  server : RefreshToken.State T H U F (τ × ℕ)
  flights : τ × ℕ → Option (Flight H U F)
  logins : Finset H

inductive Call (T H U F Tok τ ι : Type) : Type where
  /-- A step of a tab other than the arrival of a refresh response. -/
  | tab (t : τ) (c : JwtAdapter.Call Tok ι)
  /-- The server handles a refresh request: `rotate_refresh_token`. -/
  | rotate (k : τ × ℕ) (new : H)
  /-- The server refuses a refresh request before that: no cookie, CSRF, origin, Redis. -/
  | refuse (k : τ × ℕ)
  /-- `revoke_token_family` after `TokenReused`. -/
  | familyRead (k : τ × ℕ) (members : List H)
  | familyGet (k : τ × ℕ)
  | familyExec (k : τ × ℕ)
  /-- The response of a refresh request arrives, with `accessToken` if it is a success. -/
  | refreshArrives (k : τ × ℕ) (accessToken : Tok)
  /-- The server issues the first token of a family to a login of the browser. -/
  | login (h : H) (u : U) (f : F)
  /-- The login response arrives at a tab. -/
  | loginArrives (t : τ) (h : H) (accessToken : Tok)
  /-- The cookie passes its `max_age`. -/
  | cookieExpires
  /-- Time passes. -/
  | tick (d : T)

section Machine

variable {T H U F Tok τ ι : Type} [AddCommMonoid T] [LinearOrder T]
variable [DecidableEq H] [DecidableEq U] [DecidableEq F] [DecidableEq τ] [DecidableEq ι]

/-- The browser has no cookie, and the server has no token. -/
def init (now : T) : State T H U F Tok τ ι where
  tabs _ := JwtAdapter.init
  cookie := none
  server := RefreshToken.init now
  flights _ := none
  logins := ∅

/-- A request that `refresh()` of the tab `t` has sent, if its last piece of work sent one. -/
def sendRefresh (s : State T H U F Tok τ ι) (t : τ) (adapter : JwtAdapter.State Tok ι) :
    State T H U F Tok τ ι :=
  let p := (s.tabs t).promises.length
  { s with
    tabs := Function.update s.tabs t adapter
    flights :=
      if adapter.promises = (s.tabs t).promises ++ [.pending] then
        Function.update s.flights (t, p) (some ⟨s.cookie, .sent⟩)
      else s.flights }

/-- What `JwtAuthStrategy.refresh` does next. -/
def afterRotation (new : H) : RefreshToken.RotateResult T U F → Phase H U F
  | .refreshData _ => .answered (some new)
  | .tokenReused u f => .reused u f
  | .none => .answered none

/-- The answer that the tab sees. -/
def answerOf (newToken : Option H) (accessToken : Tok) : JwtAdapter.Answer Tok :=
  match newToken with
  | some _ => .success (some accessToken)
  | none => .failure

def setFlight (s : State T H U F Tok τ ι) (k : τ × ℕ) (x : Option (Flight H U F)) :
    State T H U F Tok τ ι :=
  { s with flights := Function.update s.flights k x }

/-- The tabs, the browser and the server; the replies are those of the token store. -/
def machine (ttl : T) (csrfCookieName : String) :
    Machine (State T H U F Tok τ ι) (Call T H U F Tok τ ι) (RefreshToken.Reply T U F) where
  step s
    | .tab t c =>
      match c with
      | .refreshAnswered _ _ => none
      | _ =>
        ((JwtAdapter.machine csrfCookieName).step (s.tabs t) c).map fun x =>
          (.done, sendRefresh s t x.2)
    | .rotate k new =>
      match s.flights k with
      | some ⟨some old, .sent⟩ =>
        match (RefreshToken.machine ttl).step s.server (.rotate old new) with
        | some (.rotated r, server) =>
          some (.rotated r,
            setFlight { s with server := server } k (some ⟨some old, afterRotation new r⟩))
        | _ => none
      | _ => none
    | .refuse k =>
      match s.flights k with
      | some ⟨cookie, .sent⟩ => some (.done, setFlight s k (some ⟨cookie, .answered none⟩))
      | _ => none
    | .familyRead k members =>
      match s.flights k with
      | some ⟨cookie, .reused u f⟩ =>
        ((RefreshToken.machine ttl).step s.server (.familyRead k u f members)).map fun x =>
          (x.1, setFlight { s with server := x.2 } k (some ⟨cookie, .revoking⟩))
      | _ => none
    | .familyGet k =>
      match s.flights k with
      | some ⟨_, .revoking⟩ =>
        ((RefreshToken.machine ttl).step s.server (.familyGet k)).map fun x =>
          (x.1, { s with server := x.2 })
      | _ => none
    | .familyExec k =>
      match s.flights k with
      | some ⟨cookie, .revoking⟩ =>
        ((RefreshToken.machine ttl).step s.server (.familyExec k)).map fun x =>
          (x.1, setFlight { s with server := x.2 } k (some ⟨cookie, .answered none⟩))
      | _ => none
    | .refreshArrives k accessToken =>
      match s.flights k with
      | some ⟨_, .answered newToken⟩ =>
        let c := .refreshAnswered k.2 (answerOf newToken accessToken)
        ((JwtAdapter.machine csrfCookieName).step (s.tabs k.1) c).map fun x =>
          (.done, setFlight
            { s with
              tabs := Function.update s.tabs k.1 x.2
              cookie := newToken <|> s.cookie } k none)
      | _ => none
    | .login h u f =>
      ((RefreshToken.machine ttl).step s.server (.store h u f)).map fun x =>
        (x.1, { s with server := x.2, logins := insert h s.logins })
    | .loginArrives t h accessToken =>
      if h ∈ s.logins then
        ((JwtAdapter.machine csrfCookieName).step (s.tabs t) (.loginSuccess (some accessToken))).map
          fun x => (.done, { s with
            tabs := Function.update s.tabs t x.2
            cookie := some h
            logins := s.logins.erase h })
      else none
    | .cookieExpires => some (.done, { s with cookie := none })
    | .tick d =>
      ((RefreshToken.machine ttl).step s.server (.tick d)).map fun x =>
        (x.1, { s with server := x.2 })

end Machine

end Tabs
