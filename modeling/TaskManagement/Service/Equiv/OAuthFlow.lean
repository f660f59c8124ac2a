import TaskManagement.OneTime
import TaskManagement.Service.Equiv.Gates
import TaskManagement.Service.OAuthFlow

/-!
# What the flow of OAuth guarantees

In every run of the clients and the API, with requests and headers that arrive late or never:

* `callback_consumed_iff`: a callback consumes a state exactly when the state is also the value of
  the cookie and was issued less than its time to live ago, and no callback has presented it since;
* `login_flow`: every login is the end of a flow, from the start that issued its state on, and the
  browser of the callback is the one that started the flow;
* `login_once`: a start leads to at most one login.

`RedisStep` and `FlowStep` say what a call changes, and `Sound` is what holds after a run.
-/

namespace OAuthFlow

open Gates (OAuthStateData checkState compareDigest isAscii)
open Ledger (tally)
open OneTime (Once Tickets Tracks)
open Service (Exn)
open UserDb (Uuid)

set_option linter.unusedSectionVars false

variable {T B : Type} [Ring T] [LinearOrder T] [DecidableEq B]
  {nfkc : List Char → List Char} {settings : Settings}

abbrev Event (T B : Type) : Type := Machine.Event (World T B) (Call T B) Reply

/-! ### The states and the handoff codes as tickets -/

variable (nfkc settings) in
/-- The state that a start stores, with its data. -/
def issued : Call T B → Option (String × OAuthStateData)
  | .start _ redirectTo state codeVerifier nonce (.ok ()) outcome =>
    match RedirectTo.normalizeRedirectTo nfkc settings.redirect redirectTo with
    | .ok redirect =>
      if outcome.executed then some (state, ⟨redirect, codeVerifier, nonce⟩) else none
    | .error _ => none
  | _ => none

/-- The state that a callback deletes. -/
def consumes : Call T B → Option String
  | .callback request (.ok ()) outcome =>
    match checkState request.state request.stateCookie with
    | .ok state => if outcome.executed then some state else none
    | .error _ => none
  | _ => none

/-- The state that a callback finds, with its data. -/
def foundState (e : Event T B) : Option (String × OAuthStateData) :=
  match e.reply with
  | .consumed stateData => (consumes e.call).map fun state => (state, stateData)
  | _ => none

variable (settings) in
/-- The handoff that a callback stores. -/
def saved : Call T B → Option (String × OAuthHandoffData)
  | .complete accepted idTokenNonce user code outcome _ =>
    match settings.authMode, identify accepted.stateData idTokenNonce user with
    | .jwt, .ok userId =>
      if outcome.executed then some (code, ⟨userId, accepted.stateData.redirectTo⟩) else none
    | _, _ => none
  | _ => none

variable (settings) in
/-- The handoff that an exchange deletes. -/
def redeems : Call T B → Option String
  | .exchange code (.ok ()) outcome _ =>
    if settings.authMode = .jwt ∧ outcome.executed then some code else none
  | _ => none

/-- The handoff that an exchange logs in with. -/
def foundHandoff (e : Event T B) : Option (String × OAuthHandoffData) :=
  match e.call, e.reply with
  | .exchange code _ _ _, .exchanged userId redirectTo => some (code, ⟨userId, redirectTo⟩)
  | _, _ => none

variable (nfkc settings) in
def stateTickets : Tickets (Event T B) String OAuthStateData T where
  mint e := issued nfkc settings e.call
  take e := consumes e.call
  found := foundState
  time e := e.pre.redis.now
  ttl := settings.oauthStateTtlSeconds

variable (settings) in
def handoffTickets : Tickets (Event T B) String OAuthHandoffData T where
  mint e := saved settings e.call
  take e := redeems settings e.call
  found := foundHandoff
  time e := e.pre.redis.now
  ttl := settings.oauthHandoffTtlSeconds

/-! ### What one call does -/

section Frame

variable {w : World T B} {client : Client B} {cookie : Option String} {reply : Reply}

/-- The browsers, the requests and the headers that set a cookie are as before; a header that
deletes one may be under way. -/
structure Frame (w w' : World T B) : Prop where
  cookies : w'.cookies = w.cookies
  requests : w'.requests = w.requests
  setCookies : ∀ b s, (b, some s) ∈ w'.setCookies → (b, some s) ∈ w.setCookies

theorem Frame.redis (w : World T B) (redis : TimedKeys T Value) (accepted : List (Accepted B)) :
    Frame w { w with redis, accepted } := ⟨rfl, rfl, fun _ _ h => h⟩

@[simp] theorem respond_redis : (w.respond client cookie).redis = w.redis := by
  cases client <;> rfl

@[simp] theorem respond_cookies : (w.respond client cookie).cookies = w.cookies := by
  cases client <;> rfl

@[simp] theorem respond_requests : (w.respond client cookie).requests = w.requests := by
  cases client <;> rfl

@[simp] theorem respond_accepted : (w.respond client cookie).accepted = w.accepted := by
  cases client <;> rfl

theorem mem_respond {b : B} {s : String} :
    (b, some s) ∈ (w.respond client cookie).setCookies ↔
      (client = .browser b ∧ cookie = some s) ∨ (b, some s) ∈ w.setCookies := by
  cases client with
  | browser b' =>
    rw [World.respond, List.mem_cons, Prod.mk.injEq, Client.browser.injEq]
    constructor
    · rintro (⟨hb, hs⟩ | h)
      · exact Or.inl ⟨hb.symm, hs.symm⟩
      · exact Or.inr h
    · rintro (⟨hb, hs⟩ | h)
      · exact Or.inl ⟨hb.symm, hs.symm⟩
      · exact Or.inr h
  | other => simp [World.respond]

@[simp] theorem endCallback_fst : (w.endCallback client reply).1 = reply := rfl

@[simp] theorem endCallback_redis : (w.endCallback client reply).2.redis = w.redis := by
  rw [World.endCallback]
  split <;> simp

@[simp] theorem endCallback_accepted : (w.endCallback client reply).2.accepted = w.accepted := by
  rw [World.endCallback]
  split <;> simp

theorem frame_endCallback {w₀ : World T B} (h : Frame w₀ w) :
    Frame w₀ (w.endCallback client reply).2 := by
  rw [World.endCallback]
  split
  · refine ⟨?_, ?_, fun b s hs => h.setCookies b s ?_⟩
    · rw [respond_cookies, h.cookies]
    · rw [respond_requests, h.requests]
    · rcases mem_respond.mp hs with ⟨-, hn⟩ | hs
      · cases hn
      · exact hs
  · exact h

end Frame

/-- The check of the state passes for the value of the cookie only. -/
theorem checkState_eq_ok {state stateCookie : Option String} {s : String} :
    checkState state stateCookie = .ok s ↔
      state = some s ∧ stateCookie = some s ∧ s ≠ "" ∧ isAscii s = true := by
  rw [Gates.checkState_eq]
  rcases Gates.gate_cases .invalidState state (Gates.present stateCookie) with
    ⟨t, hc, hm, hs, hr⟩ | ⟨-, hm, hr⟩ | ⟨hc, hr⟩
  · obtain ⟨t', ht', hs', hp⟩ := hm
    obtain rfl : t' = t := Option.some.inj (hs'.symm.trans hs)
    have hascii := (hc t' t' (Gates.present_eq_some.mpr ⟨hs, ht'⟩) hp).1
    rw [hr]
    constructor
    · intro h
      obtain rfl : t' = s := Except.ok.inj h
      exact ⟨hs, (Gates.present_eq_some.mp hp).1, ht', hascii⟩
    · rintro ⟨hs'', -⟩
      rw [Option.some.inj (hs.symm.trans hs'')]
  · rw [hr]
    constructor
    · intro h
      cases h
    · rintro ⟨hs, hcookie, hne, -⟩
      exact absurd ⟨s, hne, hs, Gates.present_eq_some.mpr ⟨hcookie, hne⟩⟩ hm
  · rw [hr]
    constructor
    · intro h
      cases h
    · rintro ⟨hs, hcookie, hne, hascii⟩
      refine absurd (fun a b ha hb => ?_) hc
      obtain rfl : s = a := Option.some.inj (hs.symm.trans (Gates.present_eq_some.mp ha).1)
      obtain rfl : s = b := Option.some.inj (hcookie.symm.trans (Gates.present_eq_some.mp hb).1)
      exact ⟨hascii, hascii⟩

section Steps

/-- `oauth_start` stores the state, and sets the cookie when that is known to have succeeded. -/
theorem oauthStart_cases (w : World T B) (client : Client B) (redirectTo : Option String)
    (state codeVerifier nonce : String) (admitted : Except Error Unit) (outcome : Outcome)
    {w' : World T B} (hw' : (oauthStart nfkc settings w client redirectTo state codeVerifier nonce
      admitted outcome).2 = w') :
    (issued nfkc settings (Call.start (T := T) client redirectTo state codeVerifier nonce admitted
        outcome) = none ∧ w' = w) ∨
    ∃ data, issued nfkc settings (Call.start (T := T) client redirectTo state codeVerifier nonce
        admitted outcome) = some (state, data) ∧
      ∃ w₁, w₁ = { w with redis := saveOauthState settings w.redis state data } ∧
        (w' = w₁ ∨ w' = w₁.respond client (some state)) := by
  subst hw'
  rcases admitted with x | ⟨⟩
  · exact Or.inl ⟨rfl, rfl⟩
  simp only [issued, oauthStart]
  cases hn : RedirectTo.normalizeRedirectTo nfkc settings.redirect redirectTo with
  | error x => exact Or.inl ⟨rfl, rfl⟩
  | ok redirect =>
    cases outcome with
    | answered => exact Or.inr ⟨_, rfl, _, rfl, Or.inr rfl⟩
    | lost => exact Or.inr ⟨_, rfl, _, rfl, Or.inl rfl⟩
    | failed => exact Or.inl ⟨rfl, rfl⟩

/-- How the callback leaves the states and the accepted callbacks. -/
inductive CallbackStep (w w' : World T B) (request : CallbackRequest B) (c : Call T B)
    (reply : Reply) : Prop where
  | refused (hc : consumes c = none) (hredis : w'.redis = w.redis)
    (haccepted : w'.accepted = w.accepted) (hreply : ∀ data, reply ≠ .consumed data)
  | ended {state : String} (hstate : checkState request.state request.stateCookie = .ok state)
    (hc : consumes c = some state) (hredis : w'.redis = w.redis.del (.state state))
    (haccepted : w'.accepted = w.accepted)
    (hreply : ∀ data, reply = .consumed data →
      w.redis.get (.state state) = some data ∧ request.error = true)
  | accepted {state : String} {data : OAuthStateData}
    (hstate : checkState request.state request.stateCookie = .ok state)
    (hc : consumes c = some state) (hredis : w'.redis = w.redis.del (.state state))
    (haccepted : w'.accepted = ⟨request.client, state, data⟩ :: w.accepted)
    (hreply : reply = .consumed data) (hget : w.redis.get (.state state) = some data)
    (herror : request.error = false)

theorem oauthCallback_cases (w : World T B) (request : CallbackRequest B)
    (admitted : Except Error Unit) (outcome : Outcome) {w' : World T B} {reply : Reply}
    (hw' : oauthCallback w request admitted outcome = (reply, w')) :
    Frame w w' ∧ CallbackStep w w' request (.callback request admitted outcome) reply := by
  obtain rfl : (oauthCallback w request admitted outcome).1 = reply := congrArg Prod.fst hw'
  obtain rfl : (oauthCallback w request admitted outcome).2 = w' := congrArg Prod.snd hw'
  clear hw'
  have hw (redis : TimedKeys T Value) : Frame w { w with redis } := Frame.redis w redis w.accepted
  rcases admitted with x | ⟨⟩
  · refine ⟨frame_endCallback (hw w.redis), .refused rfl ?_ ?_ fun _ h => ?_⟩
    · exact endCallback_redis
    · exact endCallback_accepted
    · cases h
  simp only [oauthCallback]
  cases hstate : checkState request.state request.stateCookie with
  | error x =>
    have hc : consumes (T := T) (.callback request (.ok ()) outcome) = none := by
      simp only [consumes, hstate]
    refine ⟨frame_endCallback (hw w.redis), .refused hc ?_ ?_ fun _ h => ?_⟩
    · exact endCallback_redis
    · exact endCallback_accepted
    · cases h
  | ok state =>
    have hc : consumes (T := T) (.callback request (.ok ()) outcome) =
        if outcome.executed then some state else none := by
      simp only [consumes, hstate]
    cases outcome with
    | failed =>
      refine ⟨frame_endCallback (hw _), .refused hc ?_ ?_ fun _ h => ?_⟩
      · exact endCallback_redis
      · exact endCallback_accepted
      · cases h
    | lost =>
      refine ⟨frame_endCallback (hw _), .ended hstate hc ?_ ?_ fun _ h => ?_⟩
      · exact endCallback_redis
      · exact endCallback_accepted
      · cases h
    | answered =>
      simp only [ne_eq, not_true_eq_false, if_false]
      cases hget : w.redis.get (.state state) with
      | none =>
        refine ⟨frame_endCallback (hw _), .ended hstate hc ?_ ?_ fun _ h => ?_⟩
        · exact endCallback_redis
        · exact endCallback_accepted
        · cases h
      | some data =>
        cases herror : request.error with
        | true =>
          refine ⟨frame_endCallback (hw _), .ended hstate hc ?_ ?_ fun data' h => ?_⟩
          · exact endCallback_redis
          · exact endCallback_accepted
          · rw [hget, Reply.consumed.inj h]
            exact ⟨rfl, herror⟩
        | false =>
          refine ⟨Frame.redis w _ _, .accepted hstate hc rfl rfl rfl hget herror⟩

/-- The rest of the callback stores at most a handoff. -/
theorem completeCallback_cases (w : World T B) (accepted : Accepted B)
    (idTokenNonce : Except Error String) (user : Except Error Uuid) (code : String)
    (outcome : Outcome) (login : Except Error Unit) {w' : World T B}
    (hw' : (completeCallback settings w accepted idTokenNonce user code outcome login).2 = w') :
    Frame w w' ∧ w'.accepted = w.accepted ∧
      ((saved settings (Call.complete (T := T) accepted idTokenNonce user code outcome login) =
          none ∧ w'.redis = w.redis) ∨
        ∃ data, saved settings (Call.complete (T := T) accepted idTokenNonce user code outcome
            login) = some (code, data) ∧
          w'.redis = saveOauthHandoff settings w.redis code data) := by
  subst hw'
  have hw (redis : TimedKeys T Value) : Frame w { w with redis } := Frame.redis w redis w.accepted
  simp only [completeCallback, saved]
  cases identify accepted.stateData idTokenNonce user with
  | error x =>
    refine ⟨frame_endCallback (hw w.redis), endCallback_accepted, Or.inl ⟨?_, endCallback_redis⟩⟩
    split <;> simp_all
  | ok userId =>
    cases settings.authMode with
    | session =>
      rcases login with x | ⟨⟩
      · exact ⟨frame_endCallback (hw w.redis), endCallback_accepted,
          Or.inl ⟨rfl, endCallback_redis⟩⟩
      · exact ⟨frame_endCallback (hw w.redis), endCallback_accepted,
          Or.inl ⟨rfl, endCallback_redis⟩⟩
    | jwt =>
      cases outcome with
      | answered =>
        exact ⟨frame_endCallback (hw _), endCallback_accepted,
          Or.inr ⟨_, rfl, endCallback_redis⟩⟩
      | lost =>
        exact ⟨frame_endCallback (hw _), endCallback_accepted,
          Or.inr ⟨_, rfl, endCallback_redis⟩⟩
      | failed =>
        exact ⟨frame_endCallback (hw _), endCallback_accepted,
          Or.inl ⟨rfl, endCallback_redis⟩⟩

/-- The exchange deletes at most the handoff, and logs in with what it found. -/
theorem oauthExchange_cases (w : World T B) (code : String) (admitted : Except Error Unit)
    (outcome : Outcome) (login : Except Error Unit) {w' : World T B} {reply : Reply}
    (hw' : oauthExchange settings w code admitted outcome login = (reply, w')) :
    Frame w w' ∧ w'.accepted = w.accepted ∧
      ((redeems settings (Call.exchange (T := T) (B := B) code admitted outcome login) = none ∧
          w'.redis = w.redis ∧ ∀ u r, reply ≠ .exchanged u r) ∨
        (redeems settings (Call.exchange (T := T) (B := B) code admitted outcome login) =
            some code ∧ w'.redis = w.redis.del (.handoff code) ∧
          ∀ u r, reply = .exchanged u r → w.redis.get (.handoff code) = some ⟨u, r⟩)) := by
  have hw (redis : TimedKeys T Value) : Frame w { w with redis } := Frame.redis w redis w.accepted
  rcases admitted with x | ⟨⟩
  · obtain ⟨rfl, rfl⟩ := Prod.mk.inj hw'
    exact ⟨hw _, rfl, Or.inl ⟨rfl, rfl, fun _ _ h => by cases h⟩⟩
  simp only [oauthExchange] at hw'
  simp only [redeems]
  cases hmode : settings.authMode with
  | session =>
    rw [hmode] at hw'
    obtain ⟨rfl, rfl⟩ := Prod.mk.inj hw'
    exact ⟨hw _, rfl, Or.inl ⟨rfl, rfl, fun _ _ h => by cases h⟩⟩
  | jwt =>
    rw [hmode] at hw'
    cases outcome with
    | failed =>
      obtain ⟨rfl, rfl⟩ := Prod.mk.inj hw'
      exact ⟨hw _, rfl, Or.inl ⟨rfl, rfl, fun _ _ h => by cases h⟩⟩
    | lost =>
      obtain ⟨rfl, rfl⟩ := Prod.mk.inj hw'
      exact ⟨hw _, rfl, Or.inr ⟨rfl, rfl, fun _ _ h => by cases h⟩⟩
    | answered =>
      simp only [ne_eq, not_true_eq_false, if_false] at hw'
      cases hget : w.redis.get (.handoff code) with
      | none =>
        rw [hget] at hw'
        obtain ⟨rfl, rfl⟩ := Prod.mk.inj hw'
        exact ⟨hw _, rfl, Or.inr ⟨rfl, rfl, fun _ _ h => by cases h⟩⟩
      | some handoff =>
        rw [hget] at hw'
        rcases login with x | ⟨⟩
        · obtain ⟨rfl, rfl⟩ := Prod.mk.inj hw'
          exact ⟨hw _, rfl, Or.inr ⟨rfl, rfl, fun _ _ h => by cases h⟩⟩
        · obtain ⟨rfl, rfl⟩ := Prod.mk.inj hw'
          refine ⟨hw _, rfl, Or.inr ⟨rfl, rfl, fun u r h => ?_⟩⟩
          obtain ⟨hu, hr⟩ := Reply.exchanged.inj h
          rw [← hu, ← hr]

end Steps

/-! ### The tickets along a run -/

section Tickets

variable {l : List (Event T B)} {w w' : World T B} {c : Call T B} {reply : Reply}

variable (nfkc settings) in
/-- How a call leaves the keyspace, by the ticket that it concerns. -/
inductive RedisStep (w : World T B) (c : Call T B) (reply : Reply) (w' : World T B) : Prop where
  | other (hi : issued nfkc settings c = none) (hc : consumes c = none)
    (hsave : saved settings c = none) (hredeem : redeems settings c = none)
    (hfound : foundHandoff ⟨w, c, reply⟩ = none)
    (hentry : ∀ k, w'.redis.entry k = w.redis.entry k)
  | issue {state : String} {data : OAuthStateData}
    (hi : issued nfkc settings c = some (state, data)) (hc : consumes c = none)
    (hsave : saved settings c = none) (hredeem : redeems settings c = none)
    (hfound : foundHandoff ⟨w, c, reply⟩ = none)
    (hredis : w'.redis = saveOauthState settings w.redis state data)
  | consume {state : String} (hi : issued nfkc settings c = none) (hc : consumes c = some state)
    (hsave : saved settings c = none) (hredeem : redeems settings c = none)
    (hfound : foundHandoff ⟨w, c, reply⟩ = none)
    (hredis : w'.redis = w.redis.del (.state state))
    (hget : ∀ data, reply = .consumed data → w.redis.get (.state state) = some data)
  | save {code : String} {data : OAuthHandoffData} (hi : issued nfkc settings c = none)
    (hc : consumes c = none) (hsave : saved settings c = some (code, data))
    (hredeem : redeems settings c = none) (hfound : foundHandoff ⟨w, c, reply⟩ = none)
    (hredis : w'.redis = saveOauthHandoff settings w.redis code data)
  | redeem {code : String} (hi : issued nfkc settings c = none) (hc : consumes c = none)
    (hsave : saved settings c = none) (hredeem : redeems settings c = some code)
    (hredis : w'.redis = w.redis.del (.handoff code))
    (hget : ∀ x, foundHandoff ⟨w, c, reply⟩ = some x →
      x.1 = code ∧ w.redis.get (.handoff code) = some x.2)

/-- Every call leaves the keyspace in one of the five ways. -/
theorem redisStep_of_step (hs : (machine nfkc settings).step w c = some (reply, w')) :
    RedisStep nfkc settings w c reply w' := by
  cases c with
  | start client redirectTo state codeVerifier nonce admitted outcome =>
    rcases oauthStart_cases w client redirectTo state codeVerifier nonce admitted outcome
      (congrArg Prod.snd (Option.some.inj hs)) with ⟨hi, rfl⟩ | ⟨data, hi, w₁, rfl, hr⟩
    · exact .other hi rfl rfl rfl rfl fun _ => rfl
    · refine .issue hi rfl rfl rfl rfl ?_
      rcases hr with rfl | rfl
      · rfl
      · rw [respond_redis]
  | setCookie header =>
    obtain ⟨-, hs⟩ := Option.ite_none_right_eq_some.mp hs
    obtain ⟨rfl, rfl⟩ := Prod.mk.inj (Option.some.inj hs)
    exact .other rfl rfl rfl rfl rfl fun _ => rfl
  | dropCookie b =>
    obtain ⟨rfl, rfl⟩ := Prod.mk.inj (Option.some.inj hs)
    exact .other rfl rfl rfl rfl rfl fun _ => rfl
  | send request =>
    obtain ⟨-, hs⟩ := Option.ite_none_right_eq_some.mp hs
    obtain ⟨rfl, rfl⟩ := Prod.mk.inj (Option.some.inj hs)
    exact .other rfl rfl rfl rfl rfl fun _ => rfl
  | callback request admitted outcome =>
    obtain ⟨-, hs⟩ := Option.ite_none_right_eq_some.mp hs
    obtain ⟨-, hstep⟩ := oauthCallback_cases _ _ _ _ (Option.some.inj hs)
    cases hstep with
    | refused hc hredis =>
      refine .other rfl hc rfl rfl rfl fun k => ?_
      rw [hredis]
    | ended hstate hc hredis haccepted hreply =>
      exact .consume rfl hc rfl rfl rfl hredis fun data hd => (hreply data hd).1
    | accepted hstate hc hredis haccepted hreply hget herror =>
      refine .consume rfl hc rfl rfl rfl hredis fun data hd => ?_
      rw [hreply] at hd
      rw [← Reply.consumed.inj hd]
      exact hget
  | complete accepted idTokenNonce user code outcome login =>
    obtain ⟨-, hs⟩ := Option.ite_none_right_eq_some.mp hs
    obtain ⟨-, -, ⟨hsave, hredis⟩ | ⟨data, hsave, hredis⟩⟩ :=
      completeCallback_cases _ _ _ _ _ _ _ (congrArg Prod.snd (Option.some.inj hs))
    · refine .other rfl rfl hsave rfl rfl fun k => ?_
      rw [hredis]
    · exact .save rfl rfl hsave rfl rfl hredis
  | exchange code admitted outcome login =>
    obtain ⟨-, -, ⟨hredeem, hredis, hreply⟩ | ⟨hredeem, hredis, hreply⟩⟩ :=
      oauthExchange_cases _ _ _ _ _ (Option.some.inj hs)
    · refine .other rfl rfl rfl hredeem ?_ fun k => ?_
      · cases reply with
        | exchanged u r => exact absurd rfl (hreply u r)
        | _ => rfl
      · rw [hredis]
    · refine .redeem rfl rfl rfl hredeem hredis fun x hx => ?_
      cases reply with
      | exchanged u r =>
        obtain rfl := Option.some.inj hx
        exact ⟨rfl, hreply u r rfl⟩
      | _ => cases hx
  | tick d =>
    obtain ⟨-, hs⟩ := Option.ite_none_right_eq_some.mp hs
    obtain ⟨rfl, rfl⟩ := Prod.mk.inj (Option.some.inj hs)
    exact .other rfl rfl rfl rfl rfl fun _ => rfl

/-- What a key holds is what a redemption finds. -/
theorem isSome_of_get {k : Key} {v : Value k} (h : w.redis.get k = some v) :
    (w.redis.entry k).isSome := by
  rw [TimedKeys.get, TimedKeys.live, Option.map_eq_some_iff] at h
  obtain ⟨a, ha, -⟩ := h
  rw [(Option.filter_eq_some_iff.mp ha).1]
  rfl

theorem foundState_eq_none (h : consumes c = none) : foundState ⟨w, c, reply⟩ = none := by
  rw [foundState]
  split
  · rw [h]
    rfl
  · rfl

theorem states_step
    (h : Tracks (stateTickets nfkc settings) (fun s => w.redis.entry (.state s)) l)
    (hs : RedisStep nfkc settings w c reply w') :
    Tracks (stateTickets nfkc settings) (fun s => w'.redis.entry (.state s))
      (l ++ [⟨w, c, reply⟩]) := by
  cases hs with
  | other hi hc hsave hredeem hfound hentry =>
    exact h.other hi hc (foundState_eq_none hc) fun s => hentry _
  | issue hi hc hsave hredeem hfound hredis =>
    refine h.minted hi hc (foundState_eq_none hc) ?_ fun s hne => ?_
    · rw [hredis]
      exact TimedKeys.setEx_entry_self _ _
    · rw [hredis]
      exact TimedKeys.setEx_entry_of_ne _ _ fun hk => hne (Key.state.inj hk)
  | consume hi hc hsave hredeem hfound hredis hget =>
    refine h.taken hi hc (fun s data hf => ?_) ?_ fun s hne => ?_
    · cases reply with
      | consumed data' =>
        simp only [stateTickets, foundState, hc, Option.map_some] at hf
        exact ⟨(Prod.mk.inj (Option.some.inj hf)).1.symm, isSome_of_get (hget data' rfl)⟩
      | _ => cases hf
    · rw [hredis]
      exact TimedKeys.put_entry_self _ _
    · rw [hredis]
      exact TimedKeys.del_entry_of_ne fun hk => hne (Key.state.inj hk)
  | save hi hc hsave hredeem hfound hredis =>
    refine h.other hi hc (foundState_eq_none hc) fun s => ?_
    rw [hredis]
    exact TimedKeys.setEx_entry_of_ne _ _ fun hk => by cases hk
  | redeem hi hc hsave hredeem hredis hget =>
    refine h.other hi hc (foundState_eq_none hc) fun s => ?_
    rw [hredis]
    exact TimedKeys.del_entry_of_ne fun hk => by cases hk

theorem handoffs_step
    (h : Tracks (handoffTickets settings) (fun s => w.redis.entry (.handoff s)) l)
    (hs : RedisStep nfkc settings w c reply w') :
    Tracks (handoffTickets settings) (fun s => w'.redis.entry (.handoff s))
      (l ++ [⟨w, c, reply⟩]) := by
  cases hs with
  | other hi hc hsave hredeem hfound hentry =>
    exact h.other hsave hredeem hfound fun s => hentry _
  | issue hi hc hsave hredeem hfound hredis =>
    refine h.other hsave hredeem hfound fun s => ?_
    rw [hredis]
    exact TimedKeys.setEx_entry_of_ne _ _ fun hk => by cases hk
  | consume hi hc hsave hredeem hfound hredis hget =>
    refine h.other hsave hredeem hfound fun s => ?_
    rw [hredis]
    exact TimedKeys.del_entry_of_ne fun hk => by cases hk
  | save hi hc hsave hredeem hfound hredis =>
    refine h.minted hsave hredeem hfound ?_ fun s hne => ?_
    · rw [hredis]
      exact TimedKeys.setEx_entry_self _ _
    · rw [hredis]
      exact TimedKeys.setEx_entry_of_ne _ _ fun hk => hne (Key.handoff.inj hk)
  | redeem hi hc hsave hredeem hredis hget =>
    refine h.taken hsave hredeem (fun code data hf => ?_) ?_ fun s hne => ?_
    · obtain ⟨hcode, hdata⟩ := hget (code, data) hf
      exact ⟨hcode, isSome_of_get hdata⟩
    · rw [hredis]
      exact TimedKeys.put_entry_self _ _
    · rw [hredis]
      exact TimedKeys.del_entry_of_ne fun hk => hne (Key.handoff.inj hk)

end Tickets

/-! ### The browsers and the accepted callbacks along a run -/

section Flow

variable {l : List (Event T B)} {w w₀ w' : World T B} {c : Call T B} {reply : Reply} {b : B}
  {s : String} {a : Accepted B}

/-- The callback that an event accepts. -/
def acceptedBy (e : Event T B) : Option (String × Accepted B) :=
  match e.call, e.reply with
  | .callback request admitted outcome, .consumed stateData =>
    if request.error then none
    else (consumes (T := T) (.callback request admitted outcome)).map fun state =>
      (state, ⟨request.client, state, stateData⟩)
  | _, _ => none

/-- The callback that an event ends. -/
def completed (e : Event T B) : Option (String × Accepted B) :=
  match e.call with
  | .complete accepted _ _ _ _ _ => some (accepted.state, accepted)
  | _ => none

variable (nfkc settings) in
/-- The client starts a flow with the state. -/
def Starts (c : Call T B) (client : Client B) (state : String) : Prop :=
  ∃ redirectTo codeVerifier nonce admitted outcome data,
    c = .start client redirectTo state codeVerifier nonce admitted outcome ∧
      issued nfkc settings c = some (state, data)

variable (nfkc settings) in
/-- Where the cookies and the requests of a state after a call come from. -/
structure FlowStep (w : World T B) (c : Call T B) (w' : World T B) : Prop where
  cookies : ∀ b s, w'.cookies b = some s → w.cookies b = some s ∨ (b, some s) ∈ w.setCookies
  setCookies : ∀ b s, (b, some s) ∈ w'.setCookies →
    (b, some s) ∈ w.setCookies ∨ Starts nfkc settings c (.browser b) s
  requests : ∀ q ∈ w'.requests, q ∈ w.requests ∨ w.CanSend q

theorem Frame.flowStep (h : Frame w₀ w') (hcookies : w₀.cookies = w.cookies)
    (hset : w₀.setCookies = w.setCookies) (hrequests : ∀ q ∈ w₀.requests, q ∈ w.requests) :
    FlowStep nfkc settings w c w' where
  cookies b s hb := by
    rw [h.cookies, hcookies] at hb
    exact Or.inl hb
  setCookies b s hb := Or.inl (hset ▸ h.setCookies b s hb)
  requests q hq := by
    rw [h.requests] at hq
    exact Or.inl (hrequests q hq)

theorem flowStep_of_step (hs : (machine nfkc settings).step w c = some (reply, w')) :
    FlowStep nfkc settings w c w' := by
  cases c with
  | start client redirectTo state codeVerifier nonce admitted outcome =>
    rcases oauthStart_cases w client redirectTo state codeVerifier nonce admitted outcome
      (congrArg Prod.snd (Option.some.inj hs)) with ⟨hi, rfl⟩ | ⟨data, hi, w₁, rfl, hr⟩
    · exact (Frame.redis w' _ _).flowStep rfl rfl fun _ hq => hq
    · rcases hr with rfl | rfl
      · exact (Frame.redis w _ _).flowStep rfl rfl fun _ hq => hq
      · refine ⟨fun b s hb => ?_, fun b s hb => ?_, fun q hq => ?_⟩
        · rw [respond_cookies] at hb
          exact Or.inl hb
        · rcases mem_respond.mp hb with ⟨rfl, hstate⟩ | hb
          · obtain rfl := Option.some.inj hstate
            exact Or.inr ⟨_, _, _, _, _, _, rfl, hi⟩
          · exact Or.inl hb
        · rw [respond_requests] at hq
          exact Or.inl hq
  | setCookie header =>
    obtain ⟨hmem, hs⟩ := Option.ite_none_right_eq_some.mp hs
    obtain ⟨rfl, rfl⟩ := Prod.mk.inj (Option.some.inj hs)
    refine ⟨fun b s hb => ?_, fun b s hb => Or.inl (List.mem_of_mem_erase hb), fun q hq =>
      Or.inl hq⟩
    by_cases hheader : b = header.1
    · subst hheader
      have hs : header.2 = some s := by simpa using hb
      refine Or.inr ?_
      rwa [← hs]
    · have hs : w.cookies b = some s := by simpa [hheader] using hb
      exact Or.inl hs
  | dropCookie b' =>
    obtain ⟨rfl, rfl⟩ := Prod.mk.inj (Option.some.inj hs)
    refine ⟨fun b s hb => ?_, fun b s hb => Or.inl hb, fun q hq => Or.inl hq⟩
    by_cases hb' : b = b'
    · subst hb'
      simp at hb
    · have hs : w.cookies b = some s := by simpa [hb'] using hb
      exact Or.inl hs
  | send request =>
    obtain ⟨hsend, hs⟩ := Option.ite_none_right_eq_some.mp hs
    obtain ⟨rfl, rfl⟩ := Prod.mk.inj (Option.some.inj hs)
    refine ⟨fun b s hb => Or.inl hb, fun b s hb => Or.inl hb, fun q hq => ?_⟩
    rcases List.mem_cons.mp hq with rfl | hq
    · exact Or.inr hsend
    · exact Or.inl hq
  | callback request admitted outcome =>
    obtain ⟨-, hs⟩ := Option.ite_none_right_eq_some.mp hs
    obtain ⟨hframe, -⟩ := oauthCallback_cases _ _ _ _ (Option.some.inj hs)
    exact hframe.flowStep rfl rfl fun q hq => List.mem_of_mem_erase hq
  | complete accepted idTokenNonce user code outcome login =>
    obtain ⟨-, hs⟩ := Option.ite_none_right_eq_some.mp hs
    obtain ⟨hframe, -⟩ :=
      completeCallback_cases _ _ _ _ _ _ _ (congrArg Prod.snd (Option.some.inj hs))
    exact hframe.flowStep rfl rfl fun q hq => hq
  | exchange code admitted outcome login =>
    obtain ⟨hframe, -⟩ := oauthExchange_cases _ _ _ _ _ (Option.some.inj hs)
    exact hframe.flowStep rfl rfl fun q hq => hq
  | tick d =>
    obtain ⟨-, hs⟩ := Option.ite_none_right_eq_some.mp hs
    obtain ⟨rfl, rfl⟩ := Prod.mk.inj (Option.some.inj hs)
    exact (Frame.redis w _ _).flowStep rfl rfl fun _ hq => hq

/-- The accepted callbacks change where one is accepted and where one ends. -/
theorem accepted_of_step (hs : (machine nfkc settings).step w c = some (reply, w')) :
    (acceptedBy ⟨w, c, reply⟩ = none ∧ completed ⟨w, c, reply⟩ = none ∧
      w'.accepted = w.accepted) ∨
    (∃ a, acceptedBy ⟨w, c, reply⟩ = some (a.state, a) ∧ completed ⟨w, c, reply⟩ = none ∧
      w'.accepted = a :: w.accepted) ∨
    ∃ a, acceptedBy ⟨w, c, reply⟩ = none ∧ completed ⟨w, c, reply⟩ = some (a.state, a) ∧
      a ∈ w.accepted ∧ w'.accepted = w.accepted.erase a := by
  cases c with
  | start client redirectTo state codeVerifier nonce admitted outcome =>
    refine Or.inl ⟨rfl, rfl, ?_⟩
    rcases oauthStart_cases w client redirectTo state codeVerifier nonce admitted outcome
      (congrArg Prod.snd (Option.some.inj hs)) with ⟨hi, rfl⟩ | ⟨data, hi, w₁, rfl, rfl | rfl⟩
    · rfl
    · rfl
    · exact respond_accepted
  | setCookie header =>
    obtain ⟨-, hs⟩ := Option.ite_none_right_eq_some.mp hs
    obtain ⟨rfl, rfl⟩ := Prod.mk.inj (Option.some.inj hs)
    exact Or.inl ⟨rfl, rfl, rfl⟩
  | dropCookie b =>
    obtain ⟨rfl, rfl⟩ := Prod.mk.inj (Option.some.inj hs)
    exact Or.inl ⟨rfl, rfl, rfl⟩
  | send request =>
    obtain ⟨-, hs⟩ := Option.ite_none_right_eq_some.mp hs
    obtain ⟨rfl, rfl⟩ := Prod.mk.inj (Option.some.inj hs)
    exact Or.inl ⟨rfl, rfl, rfl⟩
  | callback request admitted outcome =>
    obtain ⟨-, hs⟩ := Option.ite_none_right_eq_some.mp hs
    obtain ⟨-, hstep⟩ := oauthCallback_cases _ _ _ _ (Option.some.inj hs)
    have hnone (h : ∀ data, reply ≠ .consumed data) :
        acceptedBy ⟨w, .callback request admitted outcome, reply⟩ = none := by
      cases reply with
      | consumed data => exact absurd rfl (h data)
      | _ => rfl
    cases hstep with
    | refused hc hredis haccepted hreply => exact Or.inl ⟨hnone hreply, rfl, haccepted⟩
    | ended hstate hc hredis haccepted hreply =>
      refine Or.inl ⟨?_, rfl, haccepted⟩
      cases reply with
      | consumed data => exact if_pos (hreply data rfl).2
      | _ => rfl
    | accepted hstate hc hredis haccepted hreply hget herror =>
      subst hreply
      refine Or.inr (Or.inl ⟨_, ?_, rfl, haccepted⟩)
      simp only [acceptedBy, herror, Bool.false_eq_true, if_false, hc, Option.map_some]
  | complete accepted idTokenNonce user code outcome login =>
    obtain ⟨hmem, hs⟩ := Option.ite_none_right_eq_some.mp hs
    obtain ⟨-, haccepted, -⟩ :=
      completeCallback_cases _ _ _ _ _ _ _ (congrArg Prod.snd (Option.some.inj hs))
    exact Or.inr (Or.inr ⟨accepted, rfl, rfl, hmem, haccepted⟩)
  | exchange code admitted outcome login =>
    obtain ⟨-, haccepted, -⟩ := oauthExchange_cases _ _ _ _ _ (Option.some.inj hs)
    exact Or.inl ⟨rfl, rfl, haccepted⟩
  | tick d =>
    obtain ⟨-, hs⟩ := Option.ite_none_right_eq_some.mp hs
    obtain ⟨rfl, rfl⟩ := Prod.mk.inj (Option.some.inj hs)
    exact Or.inl ⟨rfl, rfl, rfl⟩

end Flow

/-! ### Runs -/

section Runs

variable {l l₁ l₂ l₃ : List (Event T B)} {w w' : World T B} {c : Call T B} {reply : Reply}
  {now : T} {e e' : Event T B} {a a' : Accepted B}

variable (nfkc settings) in
/-- The browser has started a flow with the state. -/
def StartedBy (l : List (Event T B)) (b : B) (state : String) : Prop :=
  ∃ e ∈ l, Starts nfkc settings e.call (.browser b) state

theorem StartedBy.append {b : B} {state : String} (h : StartedBy nfkc settings l b state)
    (l' : List (Event T B)) : StartedBy nfkc settings (l ++ l') b state := by
  obtain ⟨e, he, hs⟩ := h
  exact ⟨e, List.mem_append_left _ he, hs⟩

variable (nfkc settings) in
/-- What holds after the events of a run. -/
structure Sound (l : List (Event T B)) (w : World T B) : Prop where
  states : Tracks (stateTickets nfkc settings) (fun s => w.redis.entry (.state s)) l
  handoffs : Tracks (handoffTickets settings) (fun s => w.redis.entry (.handoff s)) l
  cookies : ∀ b s, w.cookies b = some s → StartedBy nfkc settings l b s
  setCookies : ∀ b s, (b, some s) ∈ w.setCookies → StartedBy nfkc settings l b s
  requests : ∀ q ∈ w.requests, ∀ b s, q.client = .browser b → q.stateCookie = some s →
    StartedBy nfkc settings l b s
  accepted : ∀ a ∈ w.accepted, ∃ e ∈ l, acceptedBy e = some (a.state, a)
  count : ∀ s, w.accepted.countP (fun a => a.state = s) + tally completed l s =
    tally acceptedBy l s

theorem sound_init : Sound nfkc settings [] (World.init (B := B) now) where
  states := OneTime.tracks_nil
  handoffs := OneTime.tracks_nil
  cookies b s h := by cases h
  setCookies b s h := by cases h
  requests q h := by cases h
  accepted a h := by cases h
  count s := rfl

/-- The number of the accepted callbacks of a state that have not ended. -/
theorem Sound.count_step (h : Sound nfkc settings l w)
    (hs : (machine nfkc settings).step w c = some (reply, w')) (s : String) :
    w'.accepted.countP (fun a => a.state = s) + tally completed (l ++ [⟨w, c, reply⟩]) s =
      tally acceptedBy (l ++ [⟨w, c, reply⟩]) s := by
  have hcount := h.count s
  rcases accepted_of_step hs with ⟨ha, hc, hw⟩ | ⟨a, ha, hc, hw⟩ | ⟨a, ha, hc, hmem, hw⟩
  · rw [hw, Ledger.tally_snoc_none ha, Ledger.tally_snoc_none hc]
    exact hcount
  · rw [hw, Ledger.tally_snoc_some ha, Ledger.tally_snoc_none hc, List.countP_cons]
    simp only [decide_eq_true_eq]
    omega
  · rw [hw, Ledger.tally_snoc_none ha, Ledger.tally_snoc_some hc, List.countP_erase]
    have hpos : a.state = s → 0 < w.accepted.countP (fun a => a.state = s) := fun hs =>
      List.countP_pos_iff.mpr ⟨a, hmem, decide_eq_true hs⟩
    simp only [hmem, true_and, decide_eq_true_eq]
    by_cases hs : a.state = s
    · have hone := hpos hs
      rw [if_pos hs]
      omega
    · rw [if_neg hs]
      exact hcount

theorem Sound.step (h : Sound nfkc settings l w)
    (hs : (machine nfkc settings).step w c = some (reply, w')) :
    Sound nfkc settings (l ++ [⟨w, c, reply⟩]) w' := by
  have hflow := flowStep_of_step hs
  refine ⟨states_step h.states (redisStep_of_step hs), handoffs_step h.handoffs
    (redisStep_of_step hs), fun b s hb => ?_, fun b s hb => ?_, fun q hq b s hclient hcookie => ?_,
    fun a ha => ?_, h.count_step hs⟩
  · rcases hflow.cookies b s hb with hb | hb
    · exact (h.cookies b s hb).append _
    · exact (h.setCookies b s hb).append _
  · rcases hflow.setCookies b s hb with hb | hb
    · exact (h.setCookies b s hb).append _
    · exact ⟨_, List.mem_append_right _ List.mem_cons_self, hb⟩
  · rcases hflow.requests q hq with hq | hsend
    · exact (h.requests q hq b s hclient hcookie).append _
    · rcases hsend b hclient with hnone | hb
      · rw [hnone] at hcookie
        cases hcookie
      · rw [hcookie] at hb
        exact (h.cookies b s hb.symm).append _
  · have hold (ha : a ∈ w.accepted) : ∃ e ∈ l ++ [⟨w, c, reply⟩],
        acceptedBy e = some (a.state, a) := by
      obtain ⟨e, he, hacc⟩ := h.accepted a ha
      exact ⟨e, List.mem_append_left _ he, hacc⟩
    rcases accepted_of_step hs with ⟨-, -, hw⟩ | ⟨a', hacc, -, hw⟩ | ⟨a', -, -, -, hw⟩
    · rw [hw] at ha
      exact hold ha
    · rw [hw] at ha
      rcases List.mem_cons.mp ha with rfl | ha
      · exact ⟨_, List.mem_append_right _ List.mem_cons_self, hacc⟩
      · exact hold ha
    · rw [hw] at ha
      exact hold (List.mem_of_mem_erase ha)

theorem sound_of_run (h : (machine nfkc settings).Run (World.init now) l w) :
    Sound nfkc settings l w :=
  h.induction _ sound_init fun _ _ _ _ _ _ hI hs => hI.step hs

/-- The state before an event of a run. -/
theorem Sound.before (h : (machine nfkc settings).Run (World.init now) l w)
    (hl : l = l₁ ++ e :: l₂) : Sound nfkc settings l₁ e.pre ∧
      ∃ w', (machine nfkc settings).step e.pre e.call = some (e.reply, w') := by
  rw [hl] at h
  obtain ⟨hrun, w', hs, -⟩ := h.split
  exact ⟨sound_of_run hrun, w', hs⟩

/-! ### The callback -/

/-- The state is found where it is stored and has not expired. -/
theorem oauthCallback_eq_consumed (w : World T B) (request : CallbackRequest B)
    (admitted : Except Error Unit) (outcome : Outcome) (data : OAuthStateData) :
    (oauthCallback w request admitted outcome).1 = .consumed data ↔
      admitted = .ok () ∧ outcome = .answered ∧
        ∃ s, checkState request.state request.stateCookie = .ok s ∧
          w.redis.get (.state s) = some data := by
  rcases admitted with x | ⟨⟩
  · simp [oauthCallback]
  simp only [oauthCallback]
  cases hstate : checkState request.state request.stateCookie with
  | error x => simp
  | ok s =>
    by_cases hanswered : outcome = .answered
    · subst hanswered
      simp only [ne_eq, not_true_eq_false, if_false, true_and, Except.ok.injEq,
        exists_eq_left']
      cases hget : w.redis.get (.state s) with
      | none => simp
      | some data' =>
        cases request.error <;> simp
    · simp [hanswered, serviceUnavailable]

/-- A callback consumes a state with its data exactly when it presents the state and the same value
in the cookie, and the last start that issued the state did so with this data, less than
`oauth_state_ttl_seconds` ago, and no callback has presented it since. -/
theorem callback_consumed_iff (h : (machine nfkc settings).Run (World.init now) l w)
    (hl : l = l₁ ++ e :: l₂) {request : CallbackRequest B} {admitted : Except Error Unit}
    {outcome : Outcome} (hcall : e.call = .callback request admitted outcome)
    (data : OAuthStateData) : e.reply = .consumed data ↔
      admitted = .ok () ∧ outcome = .answered ∧ ∃ s, (request.state = some s ∧
        request.stateCookie = some s ∧ s ≠ "" ∧ isAscii s = true) ∧
        ∃ l₃ e' l₄, l₁ = l₃ ++ e' :: l₄ ∧ issued nfkc settings e'.call = some (s, data) ∧
          e.pre.redis.now < e'.pre.redis.now + settings.oauthStateTtlSeconds ∧
          ∀ e'' ∈ l₄, consumes e''.call ≠ some s ∧
            ∀ data', issued nfkc settings e''.call ≠ some (s, data') := by
  obtain ⟨hsound, w', hs⟩ := Sound.before h hl
  rw [hcall] at hs
  obtain ⟨-, hs⟩ := Option.ite_none_right_eq_some.mp hs
  have hreply : (oauthCallback { e.pre with requests := e.pre.requests.erase request } request
      admitted outcome).1 = e.reply := congrArg Prod.fst (Option.some.inj hs)
  have hget (s : String) : e.pre.redis.get (.state s) = some data ↔
      ∃ l₃ e' l₄, l₁ = l₃ ++ e' :: l₄ ∧ issued nfkc settings e'.call = some (s, data) ∧
        e.pre.redis.now < e'.pre.redis.now + settings.oauthStateTtlSeconds ∧
        ∀ e'' ∈ l₄, ¬(stateTickets nfkc settings).Touches e'' s := hsound.states.found_iff
  rw [← hreply, oauthCallback_eq_consumed]
  simp only [checkState_eq_ok, hget]
  simp only [Tickets.Touches, not_or, not_exists]
  rfl

theorem checkState_of_consumes {request : CallbackRequest B} {admitted : Except Error Unit}
    {outcome : Outcome} {s : String}
    (h : consumes (T := T) (.callback request admitted outcome) = some s) :
    checkState request.state request.stateCookie = .ok s := by
  rcases admitted with x | ⟨⟩
  · cases h
  simp only [consumes] at h
  cases hstate : checkState request.state request.stateCookie with
  | error x =>
    rw [hstate] at h
    cases h
  | ok s' =>
    rw [hstate] at h
    rw [Option.some.inj (Option.ite_none_right_eq_some.mp h).2]

theorem acceptedBy_eq_some {s : String} (h : acceptedBy e = some (s, a)) :
    ∃ request admitted outcome data, e.call = .callback request admitted outcome ∧
      e.reply = .consumed data ∧ consumes e.call = some s ∧ a = ⟨request.client, s, data⟩ := by
  obtain ⟨pre, c, reply⟩ := e
  cases c with
  | callback request admitted outcome =>
    cases reply with
    | consumed data =>
      obtain ⟨-, h⟩ := Option.ite_none_left_eq_some.mp h
      obtain ⟨s', hc, h⟩ := Option.map_eq_some_iff.mp h
      obtain ⟨rfl, rfl⟩ := Prod.mk.inj h
      exact ⟨request, admitted, outcome, data, rfl, rfl, hc, rfl⟩
    | _ => cases h
  | _ => cases h

/-- An accepted callback presents a state that was issued less than its time to live ago; where no
state is issued twice, the browser that presents it has started the flow. -/
theorem start_of_accepted (h : (machine nfkc settings).Run (World.init now) l w)
    (hl : l = l₁ ++ e :: l₂) (ha : acceptedBy e = some (a.state, a)) :
    ∃ start ∈ l₁, issued nfkc settings start.call = some (a.state, a.stateData) ∧
      e.pre.redis.now < start.pre.redis.now + settings.oauthStateTtlSeconds ∧
      (Once (fun e => issued nfkc settings e.call) l → ∀ b, a.client = .browser b →
        Starts nfkc settings start.call (.browser b) a.state) := by
  obtain ⟨request, admitted, outcome, data, hcall, hreply, hc, ha'⟩ := acceptedBy_eq_some ha
  obtain ⟨-, -, s, ⟨hstate, hcookie, -⟩, l₃, start, l₄, rfl, hi, htime, -⟩ :=
    (callback_consumed_iff h hl hcall data).mp hreply
  have hs : s = a.state := by
    rw [hcall] at hc
    have hcheck := (checkState_eq_ok.mp (checkState_of_consumes hc)).1
    exact Option.some.inj (hstate.symm.trans hcheck)
  have hdata : a.stateData = data := congrArg Accepted.stateData ha'
  rw [hs] at hi hcookie
  refine ⟨start, by simp, hdata ▸ hi, htime, fun hfresh b hb => ?_⟩
  -- the cookie that the browser sent comes from a start of its own
  obtain ⟨hsound, w', hstep⟩ := Sound.before h hl
  rw [hcall] at hstep
  obtain ⟨hmem, -⟩ := Option.ite_none_right_eq_some.mp hstep
  have hclient : request.client = .browser b := by
    rw [← hb, ha']
  obtain ⟨start', hstart', hstarts⟩ := hsound.requests request hmem b a.state hclient hcookie
  obtain ⟨_, _, _, _, _, data', -, hi'⟩ := id hstarts
  have heq : start = start' := OneTime.eq_of_tally_le_one (hfresh.tally_le _)
    (by rw [hl]; simp) (by rw [hl]; exact List.mem_append_left _ hstart') hi hi'
  rw [heq]
  exact hstarts

/-! ### The login -/

theorem identify_eq_ok {data : OAuthStateData} {idTokenNonce : Except Error String}
    {user : Except Error Uuid} {userId : Uuid} (h : identify data idTokenNonce user = .ok userId) :
    idTokenNonce = .ok data.nonce ∧ user = .ok userId := by
  cases idTokenNonce with
  | error x => cases h
  | ok nonce =>
    simp only [identify, compareDigest] at h
    by_cases hascii : (isAscii nonce && isAscii data.nonce) = true
    · rw [if_pos hascii] at h
      by_cases hnonce : nonce = data.nonce
      · simp only [hnonce, decide_true] at h
        exact ⟨by rw [hnonce], h⟩
      · simp only [hnonce, decide_false] at h
        cases h
    · rw [if_neg hascii] at h
      cases h

/-- A handoff is stored by a callback of the JWT mode that has verified the nonce. -/
theorem saved_eq_some {code : String} {data : OAuthHandoffData}
    (h : saved settings c = some (code, data)) : settings.authMode = .jwt ∧
      ∃ a outcome login, c = .complete a (.ok a.stateData.nonce) (.ok data.userId) code outcome
        login ∧ data.redirectTo = a.stateData.redirectTo := by
  cases c with
  | complete a idTokenNonce user code' outcome login =>
    simp only [saved] at h
    cases hmode : settings.authMode with
    | session =>
      rw [hmode] at h
      cases h
    | jwt =>
      cases hid : identify a.stateData idTokenNonce user with
      | error x =>
        rw [hmode, hid] at h
        cases h
      | ok userId =>
        rw [hmode, hid] at h
        obtain ⟨-, h⟩ := Option.ite_none_right_eq_some.mp h
        obtain ⟨rfl, rfl⟩ := Prod.mk.inj (Option.some.inj h)
        obtain ⟨rfl, rfl⟩ := identify_eq_ok hid
        exact ⟨rfl, a, outcome, login, rfl, rfl⟩
  | _ => cases h

/-- A login of the session mode has verified the nonce. -/
theorem completeCallback_eq_loggedIn {w : World T B} {idTokenNonce : Except Error String}
    {user : Except Error Uuid} {code : String} {outcome : Outcome} {login : Except Error Unit}
    {userId : Uuid} {redirectTo : String}
    (h : (completeCallback settings w a idTokenNonce user code outcome login).1 =
      .loggedIn userId redirectTo) :
    settings.authMode = .session ∧ idTokenNonce = .ok a.stateData.nonce ∧ user = .ok userId ∧
      redirectTo = a.stateData.redirectTo := by
  simp only [completeCallback] at h
  cases hid : identify a.stateData idTokenNonce user with
  | error x =>
    rw [hid] at h
    cases h
  | ok userId' =>
    cases hmode : settings.authMode with
    | session =>
      rw [hid, hmode] at h
      rcases login with x | ⟨⟩
      · cases h
      · obtain ⟨rfl, rfl⟩ := Reply.loggedIn.inj h
        obtain ⟨hnonce, huser⟩ := identify_eq_ok hid
        exact ⟨rfl, hnonce, huser, rfl⟩
    | jwt =>
      rw [hid, hmode] at h
      dsimp only at h
      split at h <;> cases h

/-- The login that an event issues: the account and the target. -/
def issuedLogin (e : Event T B) : Option (Uuid × String) :=
  match e.call, e.reply with
  | .complete _ _ _ _ _ _, .loggedIn userId redirectTo => some (userId, redirectTo)
  | .exchange _ _ _ _, .exchanged userId redirectTo => some (userId, redirectTo)
  | _, _ => none

variable (nfkc settings) in
/-- The login of the event `e`, after the events `l`, is the end of a flow: a start issued the
state, a callback presented it in time, the rest of that callback verified the nonce, and in the JWT
mode the exchange redeemed the handoff in time. -/
structure LoginOf (l : List (Event T B)) (e start callback complete : Event T B) (a : Accepted B)
    (userId : Uuid) (redirectTo : String) : Prop where
  order : [start, callback, complete].Sublist (l ++ [e])
  issued : issued nfkc settings start.call = some (a.state, a.stateData)
  accepted : acceptedBy callback = some (a.state, a)
  inTime : callback.pre.redis.now < start.pre.redis.now + settings.oauthStateTtlSeconds
  verified : ∃ code outcome login, complete.call =
    .complete a (.ok a.stateData.nonce) (.ok userId) code outcome login
  redirect : redirectTo = a.stateData.redirectTo
  ends : (complete = e ∧ settings.authMode = .session) ∨
    (complete ∈ l ∧ settings.authMode = .jwt ∧ ∃ code,
      foundHandoff e = some (code, ⟨userId, redirectTo⟩) ∧
      saved settings complete.call = some (code, ⟨userId, redirectTo⟩) ∧
      e.pre.redis.now < complete.pre.redis.now + settings.oauthHandoffTtlSeconds)

/-- A callback that ends has been accepted, and its state issued. -/
theorem flow_of_completed (h : (machine nfkc settings).Run (World.init now) l w)
    (hl : l = l₁ ++ e :: l₂) {s : String} (hc : completed e = some (s, a)) :
    ∃ start callback, [start, callback].Sublist l₁ ∧
      issued nfkc settings start.call = some (a.state, a.stateData) ∧
      acceptedBy callback = some (a.state, a) ∧
      callback.pre.redis.now < start.pre.redis.now + settings.oauthStateTtlSeconds ∧
      (Once (fun e => issued nfkc settings e.call) l → ∀ b, a.client = .browser b →
        Starts nfkc settings start.call (.browser b) a.state) := by
  obtain ⟨hsound, w', hstep⟩ := Sound.before h hl
  have hmem : a ∈ e.pre.accepted := by
    obtain ⟨pre, c, reply⟩ := e
    rcases accepted_of_step hstep with ⟨-, hnone, -⟩ | ⟨-, -, hnone, -⟩ | ⟨a', -, hc', hmem, -⟩
    · rw [hnone] at hc
      cases hc
    · rw [hnone] at hc
      cases hc
    · rw [hc] at hc'
      rw [(Prod.mk.inj (Option.some.inj hc')).2]
      exact hmem
  obtain ⟨callback, hcallback, haccepted⟩ := hsound.accepted a hmem
  obtain ⟨l₃, l₄, rfl⟩ := List.append_of_mem hcallback
  have hl' : l = l₃ ++ callback :: (l₄ ++ e :: l₂) := by
    rw [hl]
    simp
  obtain ⟨start, hstart, hi, htime, hown⟩ := start_of_accepted h hl' haccepted
  refine ⟨start, callback, ?_, hi, haccepted, htime, hown⟩
  have hone : [start].Sublist l₃ := List.singleton_sublist.mpr hstart
  exact hone.append (List.singleton_sublist.mpr List.mem_cons_self)

/-- Every login is the end of a flow, and where no state is issued twice and the callback came from
a browser, that browser has started the flow. -/
theorem login_flow (h : (machine nfkc settings).Run (World.init now) l w)
    (hl : l = l₁ ++ e :: l₂) {userId : Uuid} {redirectTo : String}
    (hlogin : issuedLogin e = some (userId, redirectTo)) :
    ∃ start callback complete a,
      LoginOf nfkc settings l₁ e start callback complete a userId redirectTo ∧
        (Once (fun e => issued nfkc settings e.call) l → ∀ b,
          a.client = .browser b → Starts nfkc settings start.call (.browser b) a.state) := by
  obtain ⟨hsound, w', hstep⟩ := Sound.before h hl
  obtain ⟨pre, c, reply⟩ := e
  cases c with
  | complete a idTokenNonce user code outcome login =>
    cases reply with
    | loggedIn userId' redirectTo' =>
      obtain ⟨rfl, rfl⟩ := Prod.mk.inj (Option.some.inj hlogin)
      obtain ⟨-, hstep⟩ := Option.ite_none_right_eq_some.mp hstep
      obtain ⟨hmode, rfl, rfl, hredirect⟩ :=
        completeCallback_eq_loggedIn (congrArg Prod.fst (Option.some.inj hstep))
      obtain ⟨start, callback, horder, hi, haccepted, htime, hown⟩ := flow_of_completed h hl rfl
      exact ⟨start, callback, _, a, ⟨horder.append (List.Sublist.refl _), hi, haccepted, htime,
        ⟨code, outcome, login, rfl⟩, hredirect, Or.inl ⟨rfl, hmode⟩⟩, hown⟩
    | _ => cases hlogin
  | exchange code admitted outcome login =>
    cases reply with
    | exchanged userId' redirectTo' =>
      obtain ⟨rfl, rfl⟩ := Prod.mk.inj (Option.some.inj hlogin)
      obtain ⟨-, -, ⟨-, -, hreply⟩ | ⟨-, -, hreply⟩⟩ :=
        oauthExchange_cases _ _ _ _ _ (Option.some.inj hstep)
      · exact absurd rfl (hreply userId' redirectTo')
      have hget := hreply userId' redirectTo' rfl
      obtain ⟨l₃, complete, l₄, rfl, hsaved, halive, -⟩ := hsound.handoffs.found_iff.mp hget
      obtain ⟨hmode, a, outcome', login', hcall, hredirect⟩ := saved_eq_some hsaved
      have hl' : l = l₃ ++ complete :: (l₄ ++
          ⟨pre, .exchange code admitted outcome login, .exchanged userId' redirectTo'⟩ :: l₂) := by
        rw [hl]
        simp
      have hcompleted : completed complete = some (a.state, a) := by
        rw [completed, hcall]
      obtain ⟨start, callback, horder, hi, haccepted, htime, hown⟩ :=
        flow_of_completed h hl' hcompleted
      refine ⟨start, callback, complete, a, ⟨?_, hi, haccepted, htime,
        ⟨code, outcome', login', hcall⟩, hredirect, Or.inr ⟨by simp, hmode, code, rfl, hsaved,
          halive⟩⟩, hown⟩
      have hone : [complete].Sublist (complete :: l₄) :=
        List.singleton_sublist.mpr List.mem_cons_self
      exact (horder.append hone).trans (List.sublist_append_left _ _)
    | _ => cases hlogin
  | _ => cases hlogin

theorem foundState_of_acceptedBy {s : String} (h : acceptedBy e = some (s, a)) :
    foundState e = some (s, a.stateData) := by
  obtain ⟨request, admitted, outcome, data, -, hreply, hc, rfl⟩ := acceptedBy_eq_some h
  rw [foundState, hreply, hc]
  rfl

/-- A state is completed no more often than it was issued. -/
theorem tally_completed_le (h : (machine nfkc settings).Run (World.init now) l w) (s : String) :
    tally completed l s ≤ tally (fun e => issued nfkc settings e.call) l s := by
  have hsound := sound_of_run h
  calc tally completed l s
      ≤ tally acceptedBy l s := by
        rw [← hsound.count s]
        exact Nat.le_add_left _ _
    _ ≤ tally foundState l s := OneTime.tally_le_tally fun e he a ha =>
        ⟨_, foundState_of_acceptedBy ha⟩
    _ ≤ tally (fun e => issued nfkc settings e.call) l s := hsound.states.tally_le s

theorem LoginOf.completed {start callback complete : Event T B} {userId : Uuid}
    {redirectTo : String}
    (h : LoginOf nfkc settings l e start callback complete a userId redirectTo) :
    completed complete = some (a.state, a) := by
  obtain ⟨code, outcome, login, hcall⟩ := h.verified
  rw [OAuthFlow.completed, hcall]

/-- Where no state is issued twice and no handoff code stored twice, two logins of a run are the
ends of flows with different states: a start leads to at most one login. -/
theorem login_once (h : (machine nfkc settings).Run (World.init now) l w)
    (hstates : Once (fun e => issued nfkc settings e.call) l)
    (hcodes : Once (fun e => saved settings e.call) l)
    (hl : l = l₁ ++ e :: l₂ ++ e' :: l₃) {start callback complete start' callback' complete' :
      Event T B} {userId userId' : Uuid} {redirectTo redirectTo' : String}
    (hlogin : LoginOf nfkc settings l₁ e start callback complete a userId redirectTo)
    (hlogin' : LoginOf nfkc settings (l₁ ++ e :: l₂) e' start' callback' complete' a' userId'
      redirectTo') : a.state ≠ a'.state := by
  intro hs
  have hone : tally completed l a.state ≤ 1 :=
    (tally_completed_le h a.state).trans (hstates.tally_le _)
  have hc := hlogin.completed
  have hc' := hlogin'.completed
  rw [← hs] at hc'
  rcases hlogin.ends with ⟨rfl, hmode⟩ | ⟨hmem, hmode, code, hfound, hsaved, -⟩
  · rcases hlogin'.ends with ⟨rfl, -⟩ | ⟨-, hmode', -⟩
    · have htwo := OneTime.two_le_tally hl hc hc'
      omega
    · rw [hmode] at hmode'
      cases hmode'
  · rcases hlogin'.ends with ⟨rfl, hmode'⟩ | ⟨hmem', -, code', hfound', hsaved', -⟩
    · rw [hmode] at hmode'
      cases hmode'
    · -- both exchanges redeem the handoff of the one callback that completed the state
      have heq : complete = complete' := OneTime.eq_of_tally_le_one hone
        (by rw [hl]; simp [hmem]) (by rw [hl]; exact List.mem_append_left _ hmem') hc hc'
      subst heq
      rw [hsaved] at hsaved'
      have hcode : code = code' := (Prod.mk.inj (Option.some.inj hsaved')).1
      subst hcode
      have htwo := OneTime.two_le_tally hl hfound hfound'
      have hle : tally foundHandoff l code ≤ tally (fun e => saved settings e.call) l code :=
        (sound_of_run h).handoffs.tally_le code
      have hcode := hcodes.tally_le code
      omega

end Runs

/-! ### Two flows of one browser -/

def flowSettings : Settings where
  authMode := .jwt
  oauthStateTtlSeconds := 600
  oauthHandoffTtlSeconds := 60
  redirect := ⟨"/dashboard", 2048⟩
  oauthStateTtlSeconds_pos := by decide
  oauthHandoffTtlSeconds_pos := by decide

/-- The calls of a login that takes as long as it may. -/
def flowCalls (state nonce code : String) : List (Call ℤ Unit) :=
  [.start (.browser ()) none state "verifier" nonce (.ok ()) .answered,
    .setCookie ((), some state), .send ⟨.browser (), some state, some state, false⟩, .tick 599,
    .callback ⟨.browser (), some state, some state, false⟩ (.ok ()) .answered,
    .complete ⟨.browser (), state, ⟨"/dashboard", "verifier", nonce⟩⟩ (.ok nonce) (.ok 1) code
      .answered (.ok ()), .tick 59, .exchange code (.ok ()) .answered (.ok ())]

/-- The browser logs in twice. -/
def flowRun : List (Event ℤ Unit) × World ℤ Unit :=
  (machine id flowSettings).runOf (World.init 0)
    (flowCalls "state" "nonce" "code" ++ flowCalls "state'" "nonce'" "code'") (by decide +kernel)

theorem flowRun_run : (machine id flowSettings).Run (World.init 0) flowRun.1 flowRun.2 :=
  Machine.run_runOf _ _ _ _

theorem flowRun_length : flowRun.1.length = 16 := by decide +kernel

/-- The event of the run with the number `i`. -/
def flowEvent (i : Fin 16) : Event ℤ Unit := flowRun.1.get (i.cast flowRun_length.symm)

/-- The events before and after one of the run. -/
theorem flowRun_split (i : Fin 16) :
    flowRun.1 = flowRun.1.take i ++ flowEvent i :: flowRun.1.drop (i + 1) := by
  simp [flowEvent]

theorem once_flowRun : Once (fun e => issued id flowSettings e.call) flowRun.1 ∧
    Once (fun e => saved flowSettings e.call) flowRun.1 := by
  constructor <;> decide +kernel

theorem issuedLogin_flowEvent : issuedLogin (flowEvent 7) = some (1, "/dashboard") ∧
    issuedLogin (flowEvent 15) = some (1, "/dashboard") := by
  constructor <;> decide +kernel

theorem callback_consumed_iff_flowRun : ∃ l₃ e' l₄, flowRun.1.take 4 = l₃ ++ e' :: l₄ ∧
    issued id flowSettings e'.call = some ("state", ⟨"/dashboard", "verifier", "nonce"⟩) := by
  obtain ⟨-, -, s, ⟨hs, -⟩, l₃, e', l₄, hl, hi, -⟩ :=
    (callback_consumed_iff flowRun_run (flowRun_split 4) rfl
      ⟨"/dashboard", "verifier", "nonce"⟩).mp rfl
  obtain rfl : "state" = s := Option.some.inj hs
  exact ⟨l₃, e', l₄, hl, hi⟩

theorem login_flow_flowRun : ∃ start callback complete a,
    LoginOf id flowSettings (flowRun.1.take 7) (flowEvent 7) start callback complete a 1
      "/dashboard" ∧
      ∀ b, a.client = .browser b → Starts id flowSettings start.call (.browser b) a.state := by
  obtain ⟨start, callback, complete, a, hlogin, hown⟩ :=
    login_flow flowRun_run (flowRun_split 7) issuedLogin_flowEvent.1
  exact ⟨start, callback, complete, a, hlogin, hown once_flowRun.1⟩

theorem login_once_flowRun : ∃ start callback complete start' callback' complete' a a',
    LoginOf id flowSettings (flowRun.1.take 7) (flowEvent 7) start callback complete a 1
      "/dashboard" ∧
      LoginOf id flowSettings (flowRun.1.take 15) (flowEvent 15) start' callback' complete' a' 1
        "/dashboard" ∧ a.state ≠ a'.state := by
  have hsplit : flowRun.1.take 15 =
      flowRun.1.take 7 ++ flowEvent 7 :: (flowRun.1.drop 8).take 7 := by
    have hlength : (flowRun.1.take 7).length = 7 := by simp [flowRun_length]
    have h := congrArg (List.take 15) (flowRun_split 7)
    rw [List.take_append, show ((7 : Fin 16) : ℕ) = 7 from rfl, hlength, List.take_take] at h
    exact h
  obtain ⟨start, callback, complete, a, hlogin, -⟩ :=
    login_flow flowRun_run (flowRun_split 7) issuedLogin_flowEvent.1
  obtain ⟨start', callback', complete', a', hlogin', -⟩ :=
    login_flow flowRun_run (flowRun_split 15) issuedLogin_flowEvent.2
  refine ⟨start, callback, complete, start', callback', complete', a, a', hlogin, hlogin', ?_⟩
  have hl : flowRun.1 = flowRun.1.take 15 ++ flowEvent 15 :: flowRun.1.drop 16 := flowRun_split 15
  have hlate : LoginOf id flowSettings (flowRun.1.take 15) (flowEvent 15) start' callback'
      complete' a' 1 "/dashboard" := hlogin'
  rw [hsplit] at hlate hl
  exact login_once flowRun_run once_flowRun.1 once_flowRun.2 hl hlogin hlate

end OAuthFlow
