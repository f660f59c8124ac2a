import TaskManagement.Service.Gates

/-!
# What the double-submit gates let through

`double_submit_gates`: exactly when no text with a character outside of ASCII is compared, a gate
lets a request through if and only if the presented value is not empty and equals the one bound to
the request, and raises its own error otherwise.  `compare_digest` raises `TypeError` on such a
text, and neither gate handles it (`not_exact_latin1Header`).

* `gate`: what both gates do with the presented and the bound value;
* `gate_cases`: its three outcomes.
-/

namespace Gates

open Requests Service
open Logins (AuthMode)
open UserDb (Uuid)

set_option linter.unusedSectionVars false

/-! ### The gate -/

/-- The presented value is not empty, and it is the bound one. -/
def Matches (presented bound : Option String) : Prop :=
  ∃ t, t ≠ "" ∧ presented = some t ∧ bound = some t

/-- If the presented value, which is not empty, is compared to the bound one, both are ASCII. -/
def Comparable (presented bound : Option String) : Prop :=
  ∀ a b, present presented = some a → bound = some b → isAscii a = true ∧ isAscii b = true

/-- The gate for a presented and a bound value, with its error. -/
def gate (x : AppError) (presented bound : Option String) : Except Exn String :=
  match present presented, bound with
  | some a, some b => do
    if !(← compareDigest a b) then throw (.app x)
    return a
  | _, _ => throw (.app x)

variable {x : AppError} {presented bound : Option String}

theorem compareDigest_comm (a b : String) : compareDigest a b = compareDigest b a := by
  rw [compareDigest, compareDigest, Bool.and_comm]
  simp only [eq_comm]

theorem present_eq_some {t : String} :
    present presented = some t ↔ presented = some t ∧ t ≠ "" := by
  rw [present, Option.filter_eq_some_iff, decide_eq_true_iff]

theorem matches_present : Matches presented (present bound) ↔ Matches presented bound := by
  constructor
  · rintro ⟨t, ht, hp, hb⟩
    exact ⟨t, ht, hp, (present_eq_some.mp hb).1⟩
  · rintro ⟨t, ht, hp, hb⟩
    exact ⟨t, ht, hp, present_eq_some.mpr ⟨hb, ht⟩⟩

/-- The gate passes, raises its error, or raises the `TypeError` of the comparison. -/
theorem gate_cases (x : AppError) (presented bound : Option String) :
    (∃ t, Comparable presented bound ∧ Matches presented bound ∧ presented = some t ∧
        gate x presented bound = .ok t) ∨
      (Comparable presented bound ∧ ¬Matches presented bound ∧
        gate x presented bound = .error (.app x)) ∨
      ¬Comparable presented bound ∧ gate x presented bound = .error .typeError := by
  cases hp : present presented with
  | none =>
    refine Or.inr (Or.inl ⟨fun a b ha => ?_, ?_, ?_⟩)
    · rw [hp] at ha
      cases ha
    · rintro ⟨t, ht, hpt, -⟩
      rw [present_eq_some.mpr ⟨hpt, ht⟩] at hp
      cases hp
    · simp only [gate, hp]
      rfl
  | some a =>
    obtain ⟨rfl, ha⟩ := present_eq_some.mp hp
    cases bound with
    | none =>
      refine Or.inr (Or.inl ⟨fun _ _ _ h => (by cases h), ?_, ?_⟩)
      · rintro ⟨t, -, -, ht⟩
        cases ht
      · simp only [gate, hp]
        rfl
    | some b =>
      -- only the presented value and a bound one are compared
      have hiff : Comparable (some a) (some b) ↔ isAscii a = true ∧ isAscii b = true := by
        refine ⟨fun h => h a b hp rfl, fun h a' b' ha' hb' => ?_⟩
        obtain rfl := Option.some.inj (hp.symm.trans ha')
        obtain rfl := Option.some.inj hb'
        exact h
      simp only [hiff, gate, hp]
      by_cases hascii : isAscii a = true ∧ isAscii b = true
      · have hcmp : compareDigest a b = .ok (decide (a = b)) := by
          rw [compareDigest, hascii.1, hascii.2]
          rfl
        simp only [hcmp]
        by_cases hab : a = b
        · subst hab
          refine Or.inl ⟨a, hascii, ⟨a, ha, rfl, rfl⟩, rfl, ?_⟩
          rw [decide_eq_true rfl]
          rfl
        · refine Or.inr (Or.inl ⟨hascii, ?_, ?_⟩)
          · rintro ⟨t, -, hat, hbt⟩
            exact hab (Option.some.inj (hat.trans hbt.symm))
          · rw [decide_eq_false hab]
            rfl
      · have hcmp : compareDigest a b = .error .typeError := by
          rw [compareDigest, if_neg (by simpa using hascii)]
        simp only [hcmp]
        exact Or.inr (Or.inr ⟨hascii, rfl⟩)

/-! ### The CSRF token -/

section Csrf

variable {T : Type} [Ring T] [LinearOrder T]

/-- The token bound to a request: the one that is stored for its session, or its cookie. -/
def boundToken (mode : AuthMode) (settings : Settings)
    (redis : SessionLifetime.Keys T Uuid String) (request : HttpRequest) : Option String :=
  match mode with
  | .session => (present (request.cookies settings.cookieNameSession)).bind
      (Session.getCsrfToken redis)
  | .jwt => request.cookies settings.cookieNameCsrf

theorem verifyCsrf_eq (mode : AuthMode) (settings : Settings)
    (redis : SessionLifetime.Keys T Uuid String) (request : HttpRequest) :
    verifyCsrf mode settings redis request = (gate .csrfInvalid (request.headers "x-csrf-token")
      (boundToken mode settings redis request)).map fun _ => () := by
  cases hh : present (request.headers "x-csrf-token") with
  | none =>
    simp only [verifyCsrf, gate, hh]
    rfl
  | some header =>
    cases mode with
    | jwt =>
      cases hc : request.cookies settings.cookieNameCsrf with
      | none =>
        simp only [verifyCsrf, gate, boundToken, hh, hc]
        rfl
      | some token =>
        simp only [verifyCsrf, gate, boundToken, hh, hc, csrfTokensMatch, pure_bind,
          compareDigest_comm token header]
        cases compareDigest header token with
        | error e => rfl
        | ok b => cases b <;> rfl
    | session =>
      cases hs : present (request.cookies settings.cookieNameSession) with
      | none =>
        simp only [verifyCsrf, gate, boundToken, hh, hs]
        rfl
      | some sid =>
        cases hc : Session.getCsrfToken redis sid with
        | none =>
          simp only [verifyCsrf, gate, boundToken, hh, hs, hc, pure_bind, Option.bind_some]
          rfl
        | some token =>
          simp only [verifyCsrf, gate, boundToken, hh, hs, hc, csrfTokensMatch, pure_bind,
            Option.bind_some, compareDigest_comm token header]
          cases compareDigest header token with
          | error e => rfl
          | ok b => cases b <;> rfl

/-- A gate with the error `x` lets through what matches, and nothing else. -/
structure Exact (x : AppError) (presented bound : Option String) (r : Except Exn Unit) : Prop where
  passes : r = .ok () ↔ Matches presented bound
  rejects : ¬Matches presented bound → r = .error (.app x)

theorem verifyCsrf_exact_iff (mode : AuthMode) (settings : Settings)
    (redis : SessionLifetime.Keys T Uuid String) (request : HttpRequest) :
    Exact .csrfInvalid (request.headers "x-csrf-token") (boundToken mode settings redis request)
        (verifyCsrf mode settings redis request) ↔
      Comparable (request.headers "x-csrf-token") (boundToken mode settings redis request) := by
  rw [verifyCsrf_eq]
  rcases gate_cases .csrfInvalid (request.headers "x-csrf-token")
    (boundToken mode settings redis request) with ⟨t, hc, hm, -, hr⟩ | ⟨hc, hm, hr⟩ | ⟨hc, hr⟩
  · rw [hr]
    exact ⟨fun _ => hc, fun _ => ⟨⟨fun _ => hm, fun _ => rfl⟩, fun h => absurd hm h⟩⟩
  · rw [hr]
    exact ⟨fun _ => hc, fun _ => ⟨⟨fun h => (by cases h), fun h => absurd h hm⟩, fun _ => rfl⟩⟩
  · rw [hr]
    refine ⟨fun h => ?_, fun h => absurd h hc⟩
    -- the `TypeError` is neither the way through nor the error of the gate
    have hm : ¬Matches _ _ := fun hm => by cases h.passes.mpr hm
    cases h.rejects hm

end Csrf

/-! ### The state of OAuth -/

section State

variable {α : Type} {fault : Option Exn} {state stateCookie : Option String} {w : OAuthWorld}

theorem checkState_eq (state stateCookie : Option String) :
    checkState state stateCookie = gate .invalidState state (present stateCookie) := by
  cases hs : present state with
  | none => simp only [checkState, gate, hs]
  | some a =>
    cases hc : present stateCookie with
    | none => simp only [checkState, gate, hs, hc]
    | some b => simp only [checkState, gate, hs, hc]

/-- The callback consumes the state that matches the cookie, and raises `InvalidStateError` without
consuming anything otherwise. -/
structure ConsumesExactly (state stateCookie : Option String) (w : OAuthWorld)
    (r : Except Exn α × OAuthWorld) : Prop where
  consumes : Matches state stateCookie →
    ∃ t, state = some t ∧ r.2.consumed = w.consumed ++ [t]
  rejects : ¬Matches state stateCookie →
    r.1 = .error (.app .invalidState) ∧ r.2.consumed = w.consumed

/-- Whether or not the state was stored, it was consumed. -/
theorem ends_consumeStored (fault : Option Exn) (t : String) (w : OAuthWorld) :
    Ends (consumeStored fault t) w (fun _ w' => w'.consumed = w.consumed ++ [t])
      fun _ w' => w'.consumed = w.consumed ++ [t] := by
  refine Ends.bind (fun _ w' => w'.consumed = w.consumed ++ [t])
    (Ends.tryCatch (fun _ w' => w'.consumed = w.consumed ++ [t]) ?_ fun _ _ h => Ends.throw h) ?_
  · cases fault with
    | none =>
      refine ⟨fun a w' h => ?_, fun x w' h => ?_⟩ <;> cases h
      rfl
    | some x =>
      refine ⟨fun a w' h => ?_, fun x w' h => ?_⟩ <;> cases h
      rfl
  · intro data w' hw'
    cases data with
    | none => exact Ends.throw hw'
    | some d => exact Ends.pure hw'

/-- The check of the state, followed by a part that consumes it. -/
theorem consumesExactly_iff {k : String → Request OAuthWorld Exn α}
    (hk : ∀ t, Ends (k t) w (fun _ w' => w'.consumed = w.consumed ++ [t])
      fun _ w' => w'.consumed = w.consumed ++ [t]) :
    ConsumesExactly state stateCookie w (exec (ensuring (do
        fromExcept (.ok ())
        let t ← fromExcept (checkState state stateCookie)
        k t) OAuthWorld.deleteOauthStateCookie) w) ↔
      Comparable state (present stateCookie) := by
  rw [exec_ensuring, exec_fromExcept_ok, checkState_eq]
  rcases gate_cases .invalidState state (present stateCookie) with
    ⟨t, hc, hm, rfl, hr⟩ | ⟨hc, hm, hr⟩ | ⟨hc, hr⟩
  · rw [hr, exec_fromExcept_ok]
    have hcon : (exec (k t) w).2.consumed = w.consumed ++ [t] := by
      rcases (hk t).cases with ⟨a, w', he, h⟩ | ⟨e, w', he, h⟩ <;> rw [he] <;> exact h
    exact ⟨fun _ => hc, fun _ => ⟨fun _ => ⟨t, rfl, hcon⟩,
      fun h => absurd (matches_present.mp hm) h⟩⟩
  · rw [hr, exec_fromExcept_error]
    exact ⟨fun _ => hc, fun _ => ⟨fun h => absurd (matches_present.mpr h) hm, fun _ => ⟨rfl, rfl⟩⟩⟩
  · rw [hr, exec_fromExcept_error]
    refine ⟨fun h => ?_, fun h => absurd h hc⟩
    by_cases hm : Matches state stateCookie
    · obtain ⟨t, -, ht⟩ := h.consumes hm
      exact absurd ht (by simp [OAuthWorld.deleteOauthStateCookie])
    · cases (h.rejects hm).1

theorem oauthCallbackDenied_iff : ConsumesExactly state stateCookie w
      (exec (oauthCallbackDenied (.ok ()) fault state stateCookie) w) ↔
    Comparable state (present stateCookie) := by
  refine consumesExactly_iff fun t => ?_
  exact Ends.bind _ (ends_consumeStored fault t w) fun _ _ h => Ends.pure h

theorem oauthCallback_iff {next : OAuthStateData → Except Exn α} :
    ConsumesExactly state stateCookie w
      (exec (oauthCallback (.ok ()) fault state stateCookie next) w) ↔
    Comparable state (present stateCookie) := by
  refine consumesExactly_iff fun t => ?_
  refine Ends.bind _ (ends_consumeStored fault t w) fun d _ h => ?_
  cases next d with
  | ok a => exact Ends.pure h
  | error e => exact Ends.throw h

end State

/-- Each gate is exact for precisely the requests in which it compares ASCII texts only. -/
theorem double_submit_gates {T α : Type} [Ring T] [LinearOrder T] (mode : AuthMode)
    (settings : Settings) (redis : SessionLifetime.Keys T Uuid String) (request : HttpRequest)
    (fault : Option Exn) (state stateCookie : Option String)
    (next : OAuthStateData → Except Exn α) (w : OAuthWorld) :
    (Exact .csrfInvalid (request.headers "x-csrf-token") (boundToken mode settings redis request)
        (verifyCsrf mode settings redis request) ↔
      Comparable (request.headers "x-csrf-token") (boundToken mode settings redis request)) ∧
    (ConsumesExactly state stateCookie w
        (exec (oauthCallback (.ok ()) fault state stateCookie next) w) ↔
      Comparable state (present stateCookie)) ∧
    (ConsumesExactly state stateCookie w
        (exec (oauthCallbackDenied (.ok ()) fault state stateCookie) w) ↔
      Comparable state (present stateCookie)) :=
  ⟨verifyCsrf_exact_iff mode settings redis request, oauthCallback_iff, oauthCallbackDenied_iff⟩

/-- A header that holds one byte outside of ASCII, against a stored token: `TypeError`. -/
theorem not_exact_latin1Header :
    let redis : SessionLifetime.Keys ℤ Uuid String :=
      Session.createSession 1800 (.empty 0) "sid" "token" 7 none
    let request : HttpRequest :=
      ⟨fun name => if name = "x-csrf-token" then some "é" else none,
        fun name => if name = "session" then some "sid" else none⟩
    isAscii "token" = true ∧
      ¬Exact .csrfInvalid (request.headers "x-csrf-token")
        (boundToken .session ⟨"session", "csrf"⟩ redis request)
        (verifyCsrf .session ⟨"session", "csrf"⟩ redis request) := by
  refine ⟨by decide, fun h => ?_⟩
  have hascii := (verifyCsrf_exact_iff _ _ _ _).mp h "é" "token" rfl rfl
  exact absurd hascii.1 (by decide)

end Gates
