import TaskManagement.Frontend.Tabs
import TaskManagement.Frontend.Equiv.JwtAdapter
import TaskManagement.RedisStore.Equiv.RefreshToken

/-!
# Honest tabs and the reuse detection

`honest_tabs_never_reused`: in a run in which no refresh request is sent while another one with the
same cookie is in flight, `rotate_refresh_token` never answers `TokenReused` and no family is ever
revoked.  Two tabs that send the cookie they share at the same time trip the reuse detection
(`tabs_reused`).

* `Move` lists what a step of the browser and the server can do to the tokens;
* `Inv` says where a token is: a token that a response carries has not been sent yet, two requests
  in flight carry different cookies, and a rotated token is the cookie only while the request that
  rotated it is in flight.
-/

namespace Tabs

open JwtAdapter (startedRefresh PromiseStep promiseStep_of_step)
open RefreshToken (Reply RotateResult usedToken marker)

set_option linter.unusedSectionVars false

variable {T H U F Tok τ ι : Type} [AddCommMonoid T] [LinearOrder T] [IsOrderedAddMonoid T]
variable [DecidableEq H] [DecidableEq U] [DecidableEq F]

/-! ### The server -/

section Server

variable {ttl : T} {σ σ' : RefreshToken.State T H U F (τ × ℕ)} {r : Reply T U F} [DecidableEq τ]

/-- No token is rotated and no family is revoked on the way. -/
structure Keeps (σ σ' : RefreshToken.State T H U F (τ × ℕ)) : Prop where
  issued : σ.issued ⊆ σ'.issued
  used : ∀ h, usedToken σ.keys h = none → usedToken σ'.keys h = none
  marker : ∀ u f, marker σ.keys u f = none → marker σ'.keys u f = none

theorem Keeps.refl (σ : RefreshToken.State T H U F (τ × ℕ)) : Keeps σ σ :=
  ⟨subset_rfl, fun _ h => h, fun _ _ h => h⟩

theorem keeps_store {h : H} {u : U} {f : F}
    (hs : (RefreshToken.machine ttl).step σ (.store h u f) = some (r, σ')) :
    Keeps σ σ' ∧ h ∉ σ.issued ∧ h ∈ σ'.issued ∧ r = .done := by
  simp only [RefreshToken.machine] at hs
  split_ifs at hs with hg
  obtain ⟨rfl, rfl⟩ := Prod.mk.inj (Option.some.inj hs)
  refine ⟨⟨Finset.subset_insert _ _, fun h' hu => ?_, fun u' f' hm => ?_⟩, hg.2.1,
    Finset.mem_insert_self _ _, rfl⟩
  · rw [usedToken, RefreshToken.storeRefreshToken_string_of_ne _ (by simp)]
    exact hu
  · rw [marker, RefreshToken.storeRefreshToken_string_of_ne _ (by simp)]
    exact hm

theorem keeps_tick {d : T} (hs : (RefreshToken.machine ttl).step σ (.tick d) = some (r, σ')) :
    Keeps σ σ' ∧ r = .done := by
  simp only [RefreshToken.machine] at hs
  split_ifs at hs
  obtain ⟨rfl, rfl⟩ := Prod.mk.inj (Option.some.inj hs)
  exact ⟨⟨subset_rfl, fun _ hu => Keyspace.advance_string_eq_none _ _ hu,
    fun _ _ hm => Keyspace.advance_string_eq_none _ _ hm⟩, rfl⟩

/-- The rotation of a token that was not rotated before, while no family is revoked. -/
theorem rotate_unused {old new : H} {d : RotateResult T U F} (hu : usedToken σ.keys old = none)
    (hm : ∀ u f, marker σ.keys u f = none)
    (hs : (RefreshToken.machine ttl).step σ (.rotate old new) = some (.rotated d, σ')) :
    new ∉ σ.issued ∧ σ'.issued = insert new σ.issued ∧ (∀ u f, marker σ'.keys u f = none) ∧
      (∀ h, h ≠ old → usedToken σ'.keys h = usedToken σ.keys h) ∧
      ((∃ x, d = .refreshData x) ∨ d = .none ∧ usedToken σ'.keys old = none) := by
  simp only [RefreshToken.machine] at hs
  split_ifs at hs with hg
  obtain ⟨hr, rfl⟩ := Prod.mk.inj (Option.some.inj hs)
  obtain rfl := Reply.rotated.inj hr
  refine ⟨hg.2, rfl, ?_⟩
  have hc := RefreshToken.rotateRefreshToken_cases σ.keys ttl old new
  generalize RefreshToken.rotateRefreshToken ttl σ.keys old new = x at hc ⊢
  cases hc with
  | rotated e ht _ =>
    refine ⟨fun u f => ?_, fun h hh => ?_, Or.inl ⟨_, rfl⟩⟩
    · exact (RefreshToken.replaceToken_revoked _ old new e.value u f).trans (hm u f)
    · exact RefreshToken.replaceToken_used_of_ne _ e.value hh
  | familyRevoked e ht hne => exact absurd (hm _ _) hne
  | reused e ht hu' =>
    rw [hu] at hu'
    cases hu'
  | unknown ht _ => exact ⟨hm, fun _ _ => rfl, Or.inr ⟨rfl, hu⟩⟩

end Server

/-! ### What a step can do -/

variable [DecidableEq τ] [DecidableEq ι] {ttl : T} {csrf : String}

/-- The events of a run of `machine`. -/
abbrev Event (T H U F Tok τ ι : Type) [LE T] [DecidableLE T] : Type :=
  Machine.Event (State T H U F Tok τ ι) (Call T H U F Tok τ ι) (Reply T U F)

/-- The refresh request that the event sends, if it sends one, carries the cookie of no refresh
request in flight. -/
def CookieFree (csrf : String) (e : Event T H U F Tok τ ι) : Prop :=
  ∀ t c env, e.call = .tab t c → startedRefresh ⟨e.pre.tabs t, c, ()⟩ = some env →
    env.throws csrf = false → ∀ h, e.pre.cookie = some h →
    ∀ k x, e.pre.flights k = some x → x.cookie ≠ some h

/-- The number of the refreshes of each tab only grows. -/
def Grows (s s' : State T H U F Tok τ ι) : Prop :=
  ∀ t, (s.tabs t).promises.length ≤ (s'.tabs t).promises.length

/-- What a step that answers no `TokenReused` does to the tokens. -/
inductive Move (csrf : String) (e : Event T H U F Tok τ ι) (s' : State T H U F Tok τ ι) : Prop where
  | quiet : (s'.cookie = e.pre.cookie ∨ s'.cookie = none) → s'.flights = e.pre.flights →
      s'.logins = e.pre.logins → Keeps e.pre.server s'.server → Move csrf e s'
  | send (t : τ) : s'.cookie = e.pre.cookie → s'.logins = e.pre.logins →
      s'.server = e.pre.server →
      s'.flights = Function.update e.pre.flights (t, (e.pre.tabs t).promises.length)
        (some ⟨e.pre.cookie, .sent⟩) →
      (e.pre.tabs t).promises.length < (s'.tabs t).promises.length →
      (CookieFree csrf e → ∀ h, e.pre.cookie = some h →
        ∀ k x, e.pre.flights k = some x → x.cookie ≠ some h) → Move csrf e s'
  | rotated (k : τ × ℕ) (old new : H) : s'.cookie = e.pre.cookie → s'.logins = e.pre.logins →
      e.pre.flights k = some ⟨some old, .sent⟩ →
      s'.flights = Function.update e.pre.flights k (some ⟨some old, .answered (some new)⟩) →
      new ∉ e.pre.server.issued → s'.server.issued = insert new e.pre.server.issued →
      (∀ u f, marker s'.server.keys u f = none) →
      (∀ h, h ≠ old → usedToken s'.server.keys h = usedToken e.pre.server.keys h) → Move csrf e s'
  | failed (k : τ × ℕ) (cookie : Option H) : s'.cookie = e.pre.cookie →
      s'.logins = e.pre.logins → e.pre.flights k = some ⟨cookie, .sent⟩ →
      s'.flights = Function.update e.pre.flights k (some ⟨cookie, .answered none⟩) →
      Keeps e.pre.server s'.server → Move csrf e s'
  | arrived (k : τ × ℕ) (cookie newToken : Option H) : s'.logins = e.pre.logins →
      s'.server = e.pre.server → e.pre.flights k = some ⟨cookie, .answered newToken⟩ →
      s'.flights = Function.update e.pre.flights k none →
      s'.cookie = (newToken <|> e.pre.cookie) → Move csrf e s'
  | login (h : H) : s'.cookie = e.pre.cookie → s'.flights = e.pre.flights →
      s'.logins = insert h e.pre.logins → Keeps e.pre.server s'.server →
      h ∉ e.pre.server.issued → h ∈ s'.server.issued → Move csrf e s'
  | loggedIn (h : H) : h ∈ e.pre.logins → s'.cookie = some h → s'.flights = e.pre.flights →
      s'.logins = e.pre.logins.erase h → s'.server = e.pre.server → Move csrf e s'

/-! ### Where the tokens are -/

/-- The browser holds the token `h`: it is the cookie, or a request in flight carries it. -/
def Held (s : State T H U F Tok τ ι) (h : H) : Prop :=
  s.cookie = some h ∨ ∃ k x, s.flights k = some x ∧ x.cookie = some h

/-- The request `k` in flight has rotated the token `h`. -/
def Rotating (s : State T H U F Tok τ ι) (h : H) : Prop :=
  ∃ k new, s.flights k = some ⟨some h, .answered (some new)⟩

/-- The request `k` in flight is answered with the new token `h`. -/
def Answers (s : State T H U F Tok τ ι) (k : τ × ℕ) (h : H) : Prop :=
  ∃ cookie, s.flights k = some ⟨cookie, .answered (some h)⟩

/-- The token `h` is on its way to the browser. -/
def OnWay (s : State T H U F Tok τ ι) (h : H) : Prop := h ∈ s.logins ∨ ∃ k, Answers s k h

/-- What holds of the tokens in every run that meets the condition. -/
structure Inv (s : State T H U F Tok τ ι) : Prop where
  flight_lt : ∀ t p x, s.flights (t, p) = some x → p < (s.tabs t).promises.length
  unmarked : ∀ u f, marker s.server.keys u f = none
  phase : ∀ k x, s.flights k = some x → x.phase = .sent ∨ ∃ new, x.phase = .answered new
  /-- Two requests in flight carry different cookies. -/
  carried_inj : ∀ k k' x x' h, s.flights k = some x → s.flights k' = some x' →
    x.cookie = some h → x'.cookie = some h → k = k'
  /-- A token that the browser holds is unused, or the request that used it is in flight. -/
  held_unused : ∀ h, Held s h → usedToken s.server.keys h = none ∨ Rotating s h
  way_unused : ∀ h, OnWay s h → usedToken s.server.keys h = none
  way_not_held : ∀ h, OnWay s h → ¬Held s h
  /-- A token is on its way once. -/
  answers_inj : ∀ k k' h, Answers s k h → Answers s k' h → k = k'
  answers_login : ∀ k h, Answers s k h → h ∉ s.logins
  issued : ∀ h, Held s h ∨ OnWay s h ∨ usedToken s.server.keys h ≠ none → h ∈ s.server.issued

theorem inv_init (now : T) : Inv (init now : State T H U F Tok τ ι) where
  flight_lt := nofun
  unmarked _ _ := rfl
  phase := nofun
  carried_inj := nofun
  held_unused _ _ := Or.inl rfl
  way_unused _ _ := rfl
  way_not_held h hw := by
    rcases hw with hw | ⟨k, cookie, hk⟩
    · exact absurd hw (Finset.notMem_empty h)
    · cases hk
  answers_inj k k' h hk := by
    obtain ⟨cookie, hk⟩ := hk
    cases hk
  answers_login k h hk := by
    obtain ⟨cookie, hk⟩ := hk
    cases hk
  issued h := by
    rintro ((hc | ⟨k, x, hk, -⟩) | (hw | ⟨k, cookie, hk⟩) | hu)
    · cases hc
    · cases hk
    · exact absurd hw (Finset.notMem_empty h)
    · cases hk
    · exact absurd rfl hu

/-- Where the tokens go in a step. -/
structure Flow (s s' : State T H U F Tok τ ι) : Prop where
  held : ∀ h, Held s' h → Held s h ∨ OnWay s h ∧ ¬OnWay s' h
  way : ∀ h, OnWay s' h → OnWay s h ∨ h ∉ s.server.issued ∧ h ∈ s'.server.issued
  used : ∀ h, usedToken s.server.keys h = none →
    usedToken s'.server.keys h = none ∨ Held s h ∧ Rotating s' h
  rotating : ∀ h, Rotating s h → Held s' h → Rotating s' h
  issued : s.server.issued ⊆ s'.server.issued

variable {s s' : State T H U F Tok τ ι} {c : Call T H U F Tok τ ι} {r : Reply T U F}

theorem flight_of_update {k j : τ × ℕ} {x : Option (Flight H U F)} {y : Flight H U F}
    (hf : s'.flights = Function.update s.flights k x) (hj : s'.flights j = some y) :
    (j = k ∧ x = some y) ∨ (j ≠ k ∧ s.flights j = some y) := by
  rw [hf] at hj
  by_cases hjk : j = k
  · subst hjk
    rw [Function.update_self] at hj
    exact Or.inl ⟨rfl, hj⟩
  · rw [Function.update_of_ne hjk] at hj
    exact Or.inr ⟨hjk, hj⟩

theorem Rotating.held {h : H} (hr : Rotating s h) : Held s h := by
  obtain ⟨k, new, hk⟩ := hr
  exact Or.inr ⟨k, _, hk, rfl⟩

/-- Setting one flight to a request whose cookie the browser holds brings no token. -/
theorem held_of_update {k : τ × ℕ} {x : Option (Flight H U F)} {h : H}
    (hf : s'.flights = Function.update s.flights k x) (hc : s'.cookie = s.cookie)
    (hx : ∀ y, x = some y → y.cookie = some h → Held s h) (hh : Held s' h) : Held s h := by
  rcases hh with hh | ⟨j, y, hj, hy⟩
  · exact Or.inl (hc ▸ hh)
  · rcases flight_of_update hf hj with ⟨-, hxy⟩ | ⟨-, hj⟩
    · exact hx y hxy hy
    · exact Or.inr ⟨j, y, hj, hy⟩

theorem answers_of_update {k j : τ × ℕ} {x : Option (Flight H U F)} {h : H}
    (hf : s'.flights = Function.update s.flights k x) (ha : Answers s' j h) :
    (j = k ∧ ∃ cookie, x = some ⟨cookie, .answered (some h)⟩) ∨ j ≠ k ∧ Answers s j h := by
  obtain ⟨cookie, hj⟩ := ha
  rcases flight_of_update hf hj with ⟨hjk, hxy⟩ | ⟨hjk, hj⟩
  · exact Or.inl ⟨hjk, cookie, hxy⟩
  · exact Or.inr ⟨hjk, cookie, hj⟩

/-- Setting a flight that is no successful answer brings no token on its way. -/
theorem onWay_of_update {k : τ × ℕ} {x : Option (Flight H U F)} {h : H}
    (hf : s'.flights = Function.update s.flights k x) (hl : s'.logins = s.logins)
    (hx : ∀ cookie, x ≠ some ⟨cookie, .answered (some h)⟩) (hw : OnWay s' h) : OnWay s h := by
  rcases hw with hw | ⟨j, ha⟩
  · exact Or.inl (hl ▸ hw)
  · rcases answers_of_update hf ha with ⟨-, cookie, hxy⟩ | ⟨-, ha⟩
    · exact absurd hxy (hx cookie)
    · exact Or.inr ⟨j, ha⟩

/-- Setting a flight that has not rotated `h` leaves the one that has. -/
theorem rotating_of_update {k : τ × ℕ} {x : Option (Flight H U F)} {h : H}
    (hf : s'.flights = Function.update s.flights k x)
    (hk : ∀ new, s.flights k ≠ some ⟨some h, .answered (some new)⟩) (hr : Rotating s h) :
    Rotating s' h := by
  obtain ⟨j, new, hj⟩ := hr
  have hjk : j ≠ k := by
    rintro rfl
    exact hk new hj
  refine ⟨j, new, ?_⟩
  rw [hf, Function.update_of_ne hjk]
  exact hj

/-- A rotation brings the new token on its way, and the token used is held. -/
theorem flow_rotated {k : τ × ℕ} {old new : H} (hc : s'.cookie = s.cookie)
    (hl : s'.logins = s.logins) (hk : s.flights k = some ⟨some old, .sent⟩)
    (hf : s'.flights = Function.update s.flights k (some ⟨some old, .answered (some new)⟩))
    (hn : new ∉ s.server.issued) (hi : s'.server.issued = insert new s.server.issued)
    (hu : ∀ h, h ≠ old → usedToken s'.server.keys h = usedToken s.server.keys h) :
    Flow s s' := by
  refine ⟨fun h hh => Or.inl ?_, fun h hw => ?_, fun h hu' => ?_, fun h hr _ => ?_, ?_⟩
  · refine held_of_update hf hc (fun y hy hyc => ?_) hh
    obtain rfl := Option.some.inj hy
    exact Or.inr ⟨k, _, hk, hyc⟩
  · by_cases hnew : h = new
    · subst hnew
      exact Or.inr ⟨hn, hi ▸ Finset.mem_insert_self h _⟩
    · refine Or.inl (onWay_of_update hf hl (fun cookie hx => hnew ?_) hw)
      cases hx
      rfl
  · by_cases hold : h = old
    · subst hold
      exact Or.inr ⟨Or.inr ⟨k, _, hk, rfl⟩, k, new, by rw [hf, Function.update_self]⟩
    · exact Or.inl ((hu h hold).trans hu')
  · refine rotating_of_update hf (fun new hk' => ?_) hr
    cases hk.symm.trans hk'
  · rw [hi]
    exact Finset.subset_insert _ _

/-- An answer that arrives hands its token over to the browser. -/
theorem flow_arrived (hI : Inv s) {k : τ × ℕ} {cookie newToken : Option H}
    (hl : s'.logins = s.logins) (hs : s'.server = s.server)
    (hk : s.flights k = some ⟨cookie, .answered newToken⟩)
    (hf : s'.flights = Function.update s.flights k none)
    (hc : s'.cookie = (newToken <|> s.cookie)) : Flow s s' := by
  have hway (h : H) (hw : OnWay s' h) : OnWay s h := onWay_of_update hf hl (by simp) hw
  have hold (h : H) (hh : ∃ j x, s'.flights j = some x ∧ x.cookie = some h) : ∃ j x, j ≠ k ∧
      s.flights j = some x ∧ x.cookie = some h := by
    obtain ⟨j, x, hj, hx⟩ := hh
    rcases flight_of_update hf hj with ⟨-, hxy⟩ | ⟨hjk, hj⟩
    · cases hxy
    · exact ⟨j, x, hjk, hj, hx⟩
  cases newToken with
  | none =>
    refine ⟨fun h hh => Or.inl ?_, fun h hw => Or.inl (hway h hw), fun h hu => Or.inl ?_,
      fun h hr _ => ?_, by rw [hs]⟩
    · rcases hh with hh | hh
      · exact Or.inl (hc.symm.trans hh)
      · obtain ⟨j, x, -, hj, hx⟩ := hold h hh
        exact Or.inr ⟨j, x, hj, hx⟩
    · rw [hs]
      exact hu
    · refine rotating_of_update hf (fun new hk' => ?_) hr
      cases hk.symm.trans hk'
  | some new =>
    have hans : Answers s k new := ⟨cookie, hk⟩
    refine ⟨fun h hh => ?_, fun h hw => Or.inl (hway h hw), fun h hu => Or.inl ?_,
      fun h hr hh => ?_, by rw [hs]⟩
    · rcases hh with hh | hh
      · -- the token of the answer becomes the cookie, and is on its way no more
        obtain rfl : new = h := Option.some.inj (hc.symm.trans hh)
        refine Or.inr ⟨Or.inr ⟨k, hans⟩, ?_⟩
        rintro (hw | ⟨j, ha⟩)
        · exact hI.answers_login k new hans (hl ▸ hw)
        · rcases answers_of_update hf ha with ⟨-, cookie', hx⟩ | ⟨hjk, ha⟩
          · cases hx
          · exact hjk (hI.answers_inj j k new ha hans)
      · obtain ⟨j, x, -, hj, hx⟩ := hold h hh
        exact Or.inl (Or.inr ⟨j, x, hj, hx⟩)
    · rw [hs]
      exact hu
    · refine rotating_of_update hf (fun new' hk' => ?_) hr
      -- the request of the answer carried `h`: the browser holds `h` no more
      rcases hh with hh | hh
      · obtain rfl : new = h := Option.some.inj (hc.symm.trans hh)
        exact hI.way_not_held new (Or.inr ⟨k, hans⟩) hr.held
      · obtain ⟨j, x, hjk, hj, hx⟩ := hold h hh
        exact hjk (hI.carried_inj j k x _ h hj hk' hx rfl)

/-- The answer to a login hands its token over to the browser. -/
theorem flow_loggedIn (hI : Inv s) {h : H} (hh : h ∈ s.logins) (hc : s'.cookie = some h)
    (hf : s'.flights = s.flights) (hl : s'.logins = s.logins.erase h)
    (hs : s'.server = s.server) : Flow s s' := by
  have hans (k h) : Answers s' k h ↔ Answers s k h := by simp only [Answers, hf]
  refine ⟨fun h' hh' => ?_, fun h' hw => Or.inl ?_, fun h' hu => Or.inl ?_, fun h' hr _ => ?_,
    by rw [hs]⟩
  · rcases hh' with hh' | hh'
    · obtain rfl : h = h' := Option.some.inj (hc.symm.trans hh')
      refine Or.inr ⟨Or.inl hh, ?_⟩
      rintro (hw | ⟨k, ha⟩)
      · rw [hl] at hw
        exact Finset.notMem_erase h _ hw
      · exact hI.answers_login k h ((hans k h).mp ha) hh
    · exact Or.inl (Or.inr (hf ▸ hh'))
  · simp only [OnWay, hl, hans] at hw
    exact hw.imp_left Finset.mem_of_mem_erase
  · rw [hs]
    exact hu
  · simpa only [Rotating, hf] using hr

section Step

variable {e : Event T H U F Tok τ ι}

theorem Move.flow (hI : Inv e.pre) (hm : Move csrf e s') : Flow e.pre s' := by
  cases hm with
  | quiet hc hf hl hk =>
    have hans (k h) : Answers s' k h ↔ Answers e.pre k h := by simp only [Answers, hf]
    refine ⟨fun h hh => Or.inl ?_, fun h hw => Or.inl ?_, fun h hu => Or.inl (hk.used h hu),
      fun h hr _ => ?_, hk.issued⟩
    · rcases hh with hh | hh
      · rcases hc with hc | hc
        · exact Or.inl (hc ▸ hh)
        · rw [hc] at hh
          cases hh
      · exact Or.inr (hf ▸ hh)
    · rw [OnWay, hl] at hw
      simpa only [OnWay, hans] using hw
    · simpa only [Rotating, hf] using hr
  | send t hc hl hs hf hlt _ =>
    -- the request that is sent has not been in flight before
    have hnone : e.pre.flights (t, (e.pre.tabs t).promises.length) = none :=
      Option.eq_none_iff_forall_ne_some.mpr fun x hx => absurd (hI.flight_lt t _ x hx) (lt_irrefl _)
    refine ⟨fun h hh => Or.inl ?_, fun h hw => Or.inl ?_, fun h hu => Or.inl ?_,
      fun h hr _ => ?_, ?_⟩
    · refine held_of_update hf hc (fun y hy hyc => Or.inl ?_) hh
      obtain rfl := Option.some.inj hy
      exact hyc
    · exact onWay_of_update hf hl (by simp) hw
    · rw [hs]
      exact hu
    · refine rotating_of_update hf (fun new hk => ?_) hr
      rw [hnone] at hk
      cases hk
    · rw [hs]
  | rotated k old new hc hl hk hf hn hi hmk hu =>
    exact flow_rotated hc hl hk hf hn hi hu
  | failed k cookie hc hl hk hf hkeep =>
    refine ⟨fun h hh => Or.inl ?_, fun h hw => Or.inl ?_, fun h hu => Or.inl (hkeep.used h hu),
      fun h hr _ => ?_, hkeep.issued⟩
    · refine held_of_update hf hc (fun y hy hyc => ?_) hh
      obtain rfl := Option.some.inj hy
      exact Or.inr ⟨k, _, hk, hyc⟩
    · exact onWay_of_update hf hl (by simp) hw
    · refine rotating_of_update hf (fun new hk' => ?_) hr
      cases hk.symm.trans hk'
  | arrived k cookie newToken hl hs hk hf hc =>
    exact flow_arrived hI hl hs hk hf hc
  | login h hc hf hl hkeep hn hi =>
    have hans (k h) : Answers s' k h ↔ Answers e.pre k h := by simp only [Answers, hf]
    refine ⟨fun h' hh => Or.inl ?_, fun h' hw => ?_, fun h' hu => Or.inl (hkeep.used h' hu),
      fun h' hr _ => ?_, hkeep.issued⟩
    · simpa only [Held, hc, hf] using hh
    · simp only [OnWay, hl, hans, Finset.mem_insert] at hw
      rcases hw with (rfl | hw) | hw
      · exact Or.inr ⟨hn, hi⟩
      · exact Or.inl (Or.inl hw)
      · exact Or.inl (Or.inr hw)
    · simpa only [Rotating, hf] using hr
  | loggedIn h hh hc hf hl hs =>
    exact flow_loggedIn hI hh hc hf hl hs

/-- A request in flight after a step was in flight before it with the same cookie, or the step has
sent it. -/
theorem Move.flight (hm : Move csrf e s') (hfree : CookieFree csrf e) {k : τ × ℕ}
    {x : Flight H U F} (hk : s'.flights k = some x) :
    (∃ x₀, e.pre.flights k = some x₀ ∧ x.cookie = x₀.cookie ∧
      (x.phase = x₀.phase ∨ ∃ new, x.phase = .answered new)) ∨
    (x.phase = .sent ∧ k.2 < (s'.tabs k.1).promises.length ∧
      ∀ h, x.cookie = some h → ∀ j y, s'.flights j = some y → y.cookie = some h → j = k) := by
  cases hm with
  | quiet _ hf => exact Or.inl ⟨x, hf ▸ hk, rfl, Or.inl rfl⟩
  | send t hc hl hs hf hlt hno =>
    rcases flight_of_update hf hk with ⟨rfl, hx⟩ | ⟨-, hk⟩
    · obtain rfl := Option.some.inj hx
      refine Or.inr ⟨rfl, hlt, fun h hh j y hj hy => ?_⟩
      rcases flight_of_update hf hj with ⟨rfl, -⟩ | ⟨-, hj⟩
      · rfl
      · exact absurd hy (hno hfree h hh j y hj)
    · exact Or.inl ⟨x, hk, rfl, Or.inl rfl⟩
  | rotated j old new _ _ hj hf =>
    rcases flight_of_update hf hk with ⟨rfl, hx⟩ | ⟨-, hk⟩
    · obtain rfl := Option.some.inj hx
      exact Or.inl ⟨_, hj, rfl, Or.inr ⟨_, rfl⟩⟩
    · exact Or.inl ⟨x, hk, rfl, Or.inl rfl⟩
  | failed j cookie _ _ hj hf =>
    rcases flight_of_update hf hk with ⟨rfl, hx⟩ | ⟨-, hk⟩
    · obtain rfl := Option.some.inj hx
      exact Or.inl ⟨_, hj, rfl, Or.inr ⟨_, rfl⟩⟩
    · exact Or.inl ⟨x, hk, rfl, Or.inl rfl⟩
  | arrived j cookie newToken _ _ hj hf =>
    rcases flight_of_update hf hk with ⟨-, hx⟩ | ⟨-, hk⟩
    · cases hx
    · exact Or.inl ⟨x, hk, rfl, Or.inl rfl⟩
  | login h _ hf => exact Or.inl ⟨x, hf ▸ hk, rfl, Or.inl rfl⟩
  | loggedIn h _ _ hf => exact Or.inl ⟨x, hf ▸ hk, rfl, Or.inl rfl⟩

/-- The token of an answer was on its way before the step, or is new and of one answer. -/
theorem Move.answers (hm : Move csrf e s') {k : τ × ℕ} {h : H} (ha : Answers s' k h) :
    Answers e.pre k h ∨ h ∉ e.pre.server.issued ∧ s'.logins = e.pre.logins ∧
      ∀ j, Answers s' j h → j = k ∨ Answers e.pre j h := by
  cases hm with
  | quiet _ hf => exact Or.inl (by simpa only [Answers, hf] using ha)
  | send t _ _ _ hf =>
    rcases answers_of_update hf ha with ⟨-, cookie, hx⟩ | ⟨-, ha⟩
    · cases hx
    · exact Or.inl ha
  | rotated k' old new _ hl _ hf hn =>
    rcases answers_of_update hf ha with ⟨rfl, cookie, hx⟩ | ⟨-, ha⟩
    · cases hx
      refine Or.inr ⟨hn, hl, fun j hj => ?_⟩
      rcases answers_of_update hf hj with ⟨rfl, -⟩ | ⟨-, hj⟩
      · exact Or.inl rfl
      · exact Or.inr hj
    · exact Or.inl ha
  | failed k' cookie _ _ _ hf =>
    rcases answers_of_update hf ha with ⟨-, cookie, hx⟩ | ⟨-, ha⟩
    · cases hx
    · exact Or.inl ha
  | arrived k' cookie newToken _ _ _ hf =>
    rcases answers_of_update hf ha with ⟨-, cookie, hx⟩ | ⟨-, ha⟩
    · cases hx
    · exact Or.inl ha
  | login h _ hf => exact Or.inl (by simpa only [Answers, hf] using ha)
  | loggedIn h _ _ hf => exact Or.inl (by simpa only [Answers, hf] using ha)

theorem Move.logins (hm : Move csrf e s') {h : H} (hh : h ∈ s'.logins) :
    h ∈ e.pre.logins ∨ h ∉ e.pre.server.issued := by
  cases hm with
  | quiet _ _ hl => exact Or.inl (hl ▸ hh)
  | send t _ hl => exact Or.inl (hl ▸ hh)
  | rotated k old new _ hl => exact Or.inl (hl ▸ hh)
  | failed k cookie _ hl => exact Or.inl (hl ▸ hh)
  | arrived k cookie newToken hl => exact Or.inl (hl ▸ hh)
  | login h' _ _ hl _ hn =>
    rw [hl] at hh
    rcases Finset.mem_insert.mp hh with rfl | hh
    · exact Or.inr hn
    · exact Or.inl hh
  | loggedIn h' _ _ _ hl =>
    rw [hl] at hh
    exact Or.inl (Finset.mem_of_mem_erase hh)

theorem Move.unmarked (hm : Move csrf e s') (h : ∀ u f, marker e.pre.server.keys u f = none)
    (u : U) (f : F) : marker s'.server.keys u f = none := by
  cases hm with
  | quiet _ _ _ hk => exact hk.marker u f (h u f)
  | send t _ _ hs => exact hs ▸ h u f
  | rotated k old new _ _ _ _ _ _ hm => exact hm u f
  | failed k cookie _ _ _ _ hk => exact hk.marker u f (h u f)
  | arrived k cookie newToken _ hs => exact hs ▸ h u f
  | login h' _ _ _ hk => exact hk.marker u f (h u f)
  | loggedIn h' _ _ _ _ hs => exact hs ▸ h u f

/-- A step that meets the condition keeps the invariant. -/
theorem Inv.step (hI : Inv e.pre) (hm : Move csrf e s') (hg : Grows e.pre s')
    (hfree : CookieFree csrf e) : Inv s' := by
  have hflow := hm.flow hI
  have hheld (h : H) (hh : Held s' h) : h ∈ e.pre.server.issued := by
    rcases hflow.held h hh with hh | ⟨hw, -⟩
    · exact hI.issued h (Or.inl hh)
    · exact hI.issued h (Or.inr (Or.inl hw))
  have hans (k : τ × ℕ) (h : H) (ha : Answers e.pre k h) : h ∈ e.pre.server.issued :=
    hI.issued h (Or.inr (Or.inl (Or.inr ⟨k, ha⟩)))
  -- the fields of the invariant in their order, each from what the step has put in flight or on the
  -- way
  refine ⟨fun t p x hx => ?_, hm.unmarked hI.unmarked, fun k x hx => ?_,
    fun k k' x x' h hx hx' hc hc' => ?_, fun h hh => ?_, fun h hw => ?_, fun h hw hh => ?_,
    fun k k' h ha ha' => ?_, fun k h ha hl => ?_, fun h hh => ?_⟩
  · rcases hm.flight hfree hx with ⟨x₀, hx₀, -⟩ | ⟨-, hlt, -⟩
    · exact (hI.flight_lt t p x₀ hx₀).trans_le (hg t)
    · exact hlt
  · rcases hm.flight hfree hx with ⟨x₀, hx₀, -, hp | hp⟩ | ⟨hp, -⟩
    · rw [hp]
      exact hI.phase k x₀ hx₀
    · exact Or.inr hp
    · exact Or.inl hp
  · rcases hm.flight hfree hx with ⟨x₀, hx₀, hcx, -⟩ | ⟨-, -, hone⟩
    · rcases hm.flight hfree hx' with ⟨y₀, hy₀, hcy, -⟩ | ⟨-, -, hone⟩
      · exact hI.carried_inj k k' x₀ y₀ h hx₀ hy₀ (hcx ▸ hc) (hcy ▸ hc')
      · exact hone h hc' k x hx hc
    · exact (hone h hc k' x' hx' hc').symm
  · -- a token that is held is unused, or the request that has used it is in flight
    have hbefore : usedToken e.pre.server.keys h = none ∨ Rotating e.pre h := by
      rcases hflow.held h hh with hh | ⟨hw, -⟩
      · exact hI.held_unused h hh
      · exact Or.inl (hI.way_unused h hw)
    rcases hbefore with hu | hr
    · exact (hflow.used h hu).imp_right And.right
    · exact Or.inr (hflow.rotating h hr hh)
  · have hu : usedToken e.pre.server.keys h = none ∧ ¬Held e.pre h := by
      rcases hflow.way h hw with hw | ⟨hn, -⟩
      · exact ⟨hI.way_unused h hw, hI.way_not_held h hw⟩
      · refine ⟨by_contra fun hu => hn (hI.issued h (Or.inr (Or.inr hu))), fun hh => ?_⟩
        exact hn (hI.issued h (Or.inl hh))
    rcases hflow.used h hu.1 with hu' | ⟨hh, -⟩
    · exact hu'
    · exact absurd hh hu.2
  · rcases hflow.way h hw with hw' | ⟨hn, -⟩
    · rcases hflow.held h hh with hh | ⟨-, hno⟩
      · exact hI.way_not_held h hw' hh
      · exact hno hw
    · exact hn (hheld h hh)
  · rcases hm.answers ha with ho | ⟨hn, -, hone⟩
    · rcases hm.answers ha' with ho' | ⟨hn, -, -⟩
      · exact hI.answers_inj k k' h ho ho'
      · exact absurd (hans k h ho) hn
    · rcases hone k' ha' with hk | ho
      · exact hk.symm
      · exact absurd (hans k' h ho) hn
  · rcases hm.answers ha with ho | ⟨hn, hlog, -⟩
    · rcases hm.logins hl with hl | hn
      · exact hI.answers_login k h ho hl
      · exact hn (hans k h ho)
    · exact hn (hI.issued h (Or.inr (Or.inl (Or.inl (hlog ▸ hl)))))
  · rcases hh with hh | hw | hu
    · exact hflow.issued (hheld h hh)
    · rcases hflow.way h hw with hw | ⟨-, hi⟩
      · exact hflow.issued (hI.issued h (Or.inr (Or.inl hw)))
      · exact hi
    · by_cases hu' : usedToken e.pre.server.keys h = none
      · rcases hflow.used h hu' with hu'' | ⟨hh, -⟩
        · exact absurd hu'' hu
        · exact hflow.issued (hI.issued h (Or.inl hh))
      · exact hflow.issued (hI.issued h (Or.inr (Or.inr hu')))

end Step

/-! ### Every step is a move -/

/-- `rotate_refresh_token` has not answered `TokenReused`. -/
def NotReused (r : Reply T U F) : Prop := ∀ u f, r ≠ .rotated (.tokenReused u f)

theorem length_le_of_step {a a' : JwtAdapter.State Tok ι} {c : JwtAdapter.Call Tok ι} {x : Unit}
    (h : (JwtAdapter.machine csrf).step a c = some (x, a')) :
    a.promises.length ≤ a'.promises.length := by
  cases promiseStep_of_step h with
  | quiet _ _ hl => rw [hl]
  | start env _ _ _ hl =>
    rw [hl, List.length_append]
    exact Nat.le_add_right _ _
  | finish p ok _ _ _ hl => rw [hl, List.length_set]

theorem grows_update {t : τ} {a : JwtAdapter.State Tok ι}
    (hs : s'.tabs = Function.update s.tabs t a)
    (ha : (s.tabs t).promises.length ≤ a.promises.length) : Grows s s' := by
  intro t'
  rw [hs]
  by_cases ht : t' = t
  · subst ht
    rw [Function.update_self]
    exact ha
  · rw [Function.update_of_ne ht]

theorem grows_of_eq (hs : s'.tabs = s.tabs) : Grows s s' := fun _ => by rw [hs]

/-- A call of a tab sends the cookie, or leaves the tokens alone. -/
theorem move_of_tab {t : τ} {c : JwtAdapter.Call Tok ι} {a : JwtAdapter.State Tok ι} {x : Unit}
    (h : (JwtAdapter.machine csrf).step (s.tabs t) c = some (x, a)) :
    Move csrf ⟨s, .tab t c, .done⟩ (sendRefresh s t a) := by
  by_cases hsend : a.promises = (s.tabs t).promises ++ [.pending]
  · refine .send t rfl rfl rfl (if_pos hsend) ?_ fun hfree h' hh => ?_
    · have htab : (sendRefresh s t a).tabs t = a := by
        simp only [sendRefresh, Function.update_self]
      rw [htab, hsend, List.length_append]
      exact Nat.lt_succ_self _
    · -- the promise that was added belongs to a refresh that has sent its request
      cases promiseStep_of_step h with
      | quiet _ _ hl =>
        rw [hl] at hsend
        simpa using congrArg List.length hsend
      | finish p ok _ _ _ hl =>
        rw [hl] at hsend
        simpa using congrArg List.length hsend
      | start env hstart _ _ hl =>
        refine hfree t c env rfl hstart ?_ h' hh
        have hlast := List.append_cancel_left (hl.symm.trans hsend)
        by_contra hthrows
        rw [Bool.not_eq_false] at hthrows
        rw [if_pos hthrows] at hlast
        cases hlast
  · exact .quiet (Or.inl rfl) (if_neg hsend) rfl (.refl _)

theorem move_of_step (hI : Inv s) (h : (machine ttl csrf).step s c = some (r, s')) :
    Move csrf ⟨s, c, r⟩ s' ∧ Grows s s' ∧ NotReused r := by
  have hnot (k : τ × ℕ) (cookie : Option H) : ∀ x, s.flights k = some ⟨cookie, x⟩ →
      x = .sent ∨ ∃ new, x = .answered new := fun x hk => hI.phase k _ hk
  cases c with
  | tab t c =>
    have hstep : ∃ x a, (JwtAdapter.machine csrf).step (s.tabs t) c = some (x, a) ∧
        r = .done ∧ s' = sendRefresh s t a := by
      simp only [machine] at h
      split at h
      · cases h
      · obtain ⟨⟨x, a⟩, hx, hr⟩ := Option.map_eq_some_iff.mp h
        obtain ⟨rfl, rfl⟩ := Prod.mk.inj hr
        exact ⟨x, a, hx, rfl, rfl⟩
    obtain ⟨x, a, hx, rfl, rfl⟩ := hstep
    exact ⟨move_of_tab hx, grows_update rfl (length_le_of_step hx), nofun⟩
  | rotate k new =>
    simp only [machine] at h
    split at h
    · rename_i old hk
      split at h
      · rename_i d σ hs
        obtain ⟨rfl, rfl⟩ := Prod.mk.inj (Option.some.inj h)
        -- a token that is held is unused, unless this request has already rotated it
        have hu : usedToken s.server.keys old = none := by
          rcases hI.held_unused old (Or.inr ⟨k, _, hk, rfl⟩) with hu | ⟨j, new', hj⟩
          · exact hu
          · obtain rfl := hI.carried_inj j k _ _ old hj hk rfl rfl
            cases hj.symm.trans hk
        obtain ⟨hn, hi, hm, hsame, hd⟩ := rotate_unused hu hI.unmarked hs
        rcases hd with ⟨d, rfl⟩ | ⟨rfl, hu'⟩
        · exact ⟨.rotated k old new rfl rfl hk rfl hn hi hm hsame, grows_of_eq rfl, nofun⟩
        · refine ⟨.failed k (some old) rfl rfl hk rfl ⟨?_, fun h hh => ?_, fun u f _ => hm u f⟩,
            grows_of_eq rfl, nofun⟩
          · exact hi ▸ Finset.subset_insert _ _
          · by_cases hho : h = old
            · exact hho ▸ hu'
            · exact (hsame h hho).trans hh
      · cases h
    · cases h
  | refuse k =>
    simp only [machine] at h
    split at h
    · rename_i cookie hk
      obtain ⟨rfl, rfl⟩ := Prod.mk.inj (Option.some.inj h)
      exact ⟨.failed k cookie rfl rfl hk rfl (.refl _), grows_of_eq rfl, nofun⟩
    · cases h
  | familyRead k members =>
    simp only [machine] at h
    split at h
    · rename_i cookie u f hk
      rcases hnot k cookie _ hk with hx | ⟨new, hx⟩ <;> cases hx
    · cases h
  | familyGet k =>
    simp only [machine] at h
    split at h
    · rename_i cookie hk
      -- no refresh has got as far as the revocation of a family
      rcases hnot k cookie _ hk with hx | ⟨new, hx⟩ <;> cases hx
    · cases h
  | familyExec k =>
    simp only [machine] at h
    split at h
    · rename_i cookie hk
      rcases hnot k cookie _ hk with hx | ⟨new, hx⟩ <;> cases hx
    · cases h
  | refreshArrives k accessToken =>
    simp only [machine] at h
    split at h
    · rename_i cookie newToken hk
      obtain ⟨⟨x, a⟩, hx, hr⟩ := Option.map_eq_some_iff.mp h
      obtain ⟨rfl, rfl⟩ := Prod.mk.inj hr
      exact ⟨.arrived k cookie newToken rfl rfl hk rfl rfl, grows_update rfl (length_le_of_step hx),
        nofun⟩
    · cases h
  | login h' u f =>
    simp only [machine] at h
    obtain ⟨⟨x, σ⟩, hx, hr⟩ := Option.map_eq_some_iff.mp h
    obtain ⟨rfl, rfl⟩ := Prod.mk.inj hr
    obtain ⟨hkeep, hn, hi, rfl⟩ := keeps_store hx
    exact ⟨.login h' rfl rfl rfl hkeep hn hi, grows_of_eq rfl, nofun⟩
  | loginArrives t h' accessToken =>
    simp only [machine] at h
    split_ifs at h with hh
    obtain ⟨⟨x, a⟩, hx, hr⟩ := Option.map_eq_some_iff.mp h
    obtain ⟨rfl, rfl⟩ := Prod.mk.inj hr
    exact ⟨.loggedIn h' hh rfl rfl rfl rfl, grows_update rfl (length_le_of_step hx), nofun⟩
  | cookieExpires =>
    obtain ⟨rfl, rfl⟩ := Prod.mk.inj (Option.some.inj h)
    exact ⟨.quiet (Or.inr rfl) rfl rfl (.refl _), grows_of_eq rfl, nofun⟩
  | tick d =>
    simp only [machine] at h
    obtain ⟨⟨x, σ⟩, hx, hr⟩ := Option.map_eq_some_iff.mp h
    obtain ⟨rfl, rfl⟩ := Prod.mk.inj hr
    obtain ⟨hkeep, rfl⟩ := keeps_tick hx
    exact ⟨.quiet (Or.inl rfl) rfl rfl hkeep, grows_of_eq rfl, nofun⟩

/-! ### Runs -/

variable {l : List (Event T H U F Tok τ ι)} {now : T}

/-- The invariant holds along every run that meets the condition, and no token is reused in it. -/
theorem inv_of_run (h : (machine ttl csrf).Run (init now) l s)
    (hfree : ∀ e ∈ l, CookieFree csrf e) :
    Inv s ∧ ∀ e ∈ l, NotReused e.reply := by
  revert hfree
  refine h.induction (fun l s => (∀ e ∈ l, CookieFree csrf e) → Inv s ∧ ∀ e ∈ l, NotReused e.reply)
    (fun _ => ⟨inv_init now, nofun⟩) ?_
  intro l s c r s' _ ih hs hfree
  obtain ⟨hI, hno⟩ := ih fun e he => hfree e (List.mem_append_left _ he)
  obtain ⟨hm, hg, hr⟩ := move_of_step hI hs
  have hlast := hfree ⟨s, c, r⟩ (List.mem_append_right _ List.mem_cons_self)
  refine ⟨hI.step hm hg hlast, fun e he => ?_⟩
  rcases List.mem_append.mp he with he | he
  · exact hno e he
  · obtain rfl := List.mem_singleton.mp he
    exact hr

/-- **Honest tabs never trip the reuse detection** when no refresh request is sent while another one
with the same cookie is in flight: no rotation answers `TokenReused`, and no family is revoked. -/
theorem honest_tabs_never_reused (h : (machine ttl csrf).Run (init now) l s)
    (hfree : ∀ e ∈ l, CookieFree csrf e) :
    (∀ e ∈ l, ∀ u f, e.reply ≠ .rotated (.tokenReused u f)) ∧
      ∀ u f, marker s.server.keys u f = none :=
  let ⟨hI, hno⟩ := inv_of_run h hfree
  ⟨hno, hI.unmarked⟩

/-- A login, and two tabs that refresh one after the other. -/
def politeRun : List (Event ℕ ℕ ℕ ℕ ℕ Bool ℕ) × State ℕ ℕ ℕ ℕ ℕ Bool ℕ :=
  (machine 10 "cerberus_csrf").runOf (init 0)
    [.login 0 7 5, .loginArrives false 0 100, .tab false (.restoreSession ⟨[], false⟩),
      .rotate (false, 0) 1, .refreshArrives (false, 0) 101,
      .tab true (.restoreSession ⟨[], false⟩), .rotate (true, 0) 2] (by decide)

theorem cookieFree_politeRun : ∀ e ∈ politeRun.1, CookieFree "cerberus_csrf" e := by
  intro e he
  obtain ⟨⟨i, hi⟩, rfl⟩ := List.get_of_mem he
  match i, hi with
  | 0, _ => exact nofun
  | 1, _ => exact nofun
  | 2, _ => exact fun t c env _ _ _ h _ k x hk => by cases hk
  | 3, _ => exact nofun
  | 4, _ => exact nofun
  | 5, _ =>
    -- the request of the other tab has been answered, and its flight is over
    intro t c env _ _ _ h _ k x hk
    match k with
    | (true, _) => cases hk
    | (false, 0) => cases hk
    | (false, p + 1) => cases hk
  | 6, _ => exact nofun

theorem honest_tabs_never_reused_politeRun :
    (∀ e ∈ politeRun.1, ∀ u f, e.reply ≠ .rotated (.tokenReused u f)) ∧
      ∀ u f, marker politeRun.2.server.keys u f = none :=
  honest_tabs_never_reused (Machine.run_runOf _ _ _ _ :
    (machine 10 "cerberus_csrf").Run (init 0) politeRun.1 politeRun.2) cookieFree_politeRun

/-- A login, and two tabs that refresh at the same time. -/
def twoTabsRun : List (Event ℕ ℕ ℕ ℕ ℕ Bool ℕ) × State ℕ ℕ ℕ ℕ ℕ Bool ℕ :=
  (machine 10 "cerberus_csrf").runOf (init 0)
    [.login 0 7 5, .loginArrives false 0 100, .tab false (.restoreSession ⟨[], false⟩),
      .tab true (.restoreSession ⟨[], false⟩), .rotate (false, 0) 1, .rotate (true, 0) 2]
    (by decide)

/-- Two tabs that send the cookie they share at the same time trip the reuse detection. -/
theorem tabs_reused : ¬∀ (l : List (Event ℕ ℕ ℕ ℕ ℕ Bool ℕ)) (s : State ℕ ℕ ℕ ℕ ℕ Bool ℕ),
    (machine 10 "cerberus_csrf").Run (init 0) l s →
      ∀ e ∈ l, ∀ u f, e.reply ≠ .rotated (.tokenReused u f) := by
  intro hall
  have hrun : (machine 10 "cerberus_csrf").Run (init 0) twoTabsRun.1 twoTabsRun.2 :=
    Machine.run_runOf _ _ _ _
  exact hall _ _ hrun (twoTabsRun.1.get ⟨5, by decide⟩) (List.get_mem _ _) 7 5 rfl

end Tabs
