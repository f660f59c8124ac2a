import TaskManagement.RedisStore.SessionLifetime
import Mathlib.Data.List.Chain
import Mathlib.Tactic.Abel

/-!
# How long a session lives

`session_lifetime`: in every run after the creation of a session, in which nothing deletes it, an
authentication of the session succeeds if and only if the time since the creation or the previous
authentication was less than `session_ttl_seconds` each time and the absolute lifetime is not over;
the CSRF token is alive exactly when the session is; and the session is never alive after the later
of its first and its absolute expiry, the latter rounded up by less than a second.

* `Tracks`: the keys of a session whose authentications so far are given;
* `tracks_step`: every step keeps it.
-/

namespace SessionLifetime

open Session (SessionData AuthResult Call Reply Settings Commands getSession getCsrfToken
  createSession touchSession authenticate deleteSession deleteAllSessions machine)

set_option linter.unusedSectionVars false

variable {T U S : Type} [Ring T] [LinearOrder T] [IsStrictOrderedRing T] [FloorRing T]
variable [DecidableEq U] [DecidableEq S]

/-- From `c` on, no two successive times are `ttl` or more apart. -/
def OnTime (ttl c : T) (ts : List T) : Prop := List.IsChain (fun a b => b - a < ttl) (c :: ts)

theorem onTime_singleton {ttl c t : T} : OnTime ttl c [t] ↔ t < c + ttl := by
  rw [OnTime, List.isChain_cons_cons, sub_lt_iff_lt_add']
  simp

/-- One more time, at the end. -/
theorem onTime_snoc {ttl c t t' : T} {ts : List T} :
    OnTime ttl c (ts ++ [t] ++ [t']) ↔ OnTime ttl c (ts ++ [t]) ∧ t' < t + ttl := by
  have hlist : c :: (ts ++ [t] ++ [t']) = (c :: ts) ++ t :: t' :: [] := by simp
  rw [OnTime, hlist, List.isChain_append_cons_cons, OnTime, List.cons_append, sub_lt_iff_lt_add']
  simp

/-- The keys of the session `sid`, created at `c` and authenticated at the times `ts`: both expire at
`x`, and `x` tells whether a further authentication would succeed. -/
structure Tracks (settings : Settings T) (sid : S) (u : U) (c : T) (ts : List T) (s : Keys T U S)
    (x : T) : Prop where
  session : ∃ ip, s.entry (.session sid) = some ⟨⟨u, c, ip⟩, some x⟩
  csrf : ∃ csrfToken, s.entry (.csrf sid) = some ⟨csrfToken, some x⟩
  law : ∀ t, s.now ≤ t → (t < x ∧ t < c + settings.sessionAbsoluteTtl ↔
    OnTime settings.sessionTtl c (ts ++ [t]) ∧
      t < c + settings.sessionAbsoluteTtl)
  bound : x ≤ max (c + settings.sessionTtl) (c + settings.sessionAbsoluteTtl + 1)

/-- The call neither creates nor deletes the session `sid`. -/
def spares (sid : S) : Call T U S → Bool
  | .create sid' _ _ _ => decide (sid' ≠ sid)
  | .delete sid' _ => decide (sid' ≠ sid)
  | .deleteAll _ sessionIds => decide (sid ∉ sessionIds)
  | _ => true

/-- The call authenticates the session `sid`. -/
def authenticates (sid : S) : Call T U S → Bool
  | .authenticate sid' => decide (sid' = sid)
  | _ => false

/-- The times of the authentications of `sid`. -/
def authTimes (sid : S) (l : List (Machine.Event (Keys T U S) (Call T U S) (Reply U S))) : List T :=
  (l.filter fun e => authenticates sid e.call).map fun e => e.pre.now

/-! ### The commands -/

section Commands

variable {settings : Settings T} {sid sid' : S} {u u' : U} {s : Keys T U S} {c x : T} {ts : List T}

theorem now_eq (s : Keys T U S) : Commands.now s = s.now := rfl

theorem readSession_eq (s : Keys T U S) (sid : S) :
    Commands.readSession s sid = s.get (.session sid) := rfl

theorem readCsrf_eq (s : Keys T U S) (sid : S) :
    Commands.readCsrf s sid = s.get (.csrf sid) := rfl

theorem createSession_eq (ttl : T) (s : Keys T U S) (sid : S) (csrfToken : String) (u : U)
    (ip : Option String) : createSession ttl s sid csrfToken u ip =
      (((s.setEx (.session sid) ⟨u, s.now, ip⟩ ttl).setEx (.csrf sid) csrfToken ttl).modify
        (.userSessions u) fun members => some (insert sid (members.getD ∅))).expire
          (.userSessions u) ttl := rfl

theorem deleteSession_eq (s : Keys T U S) (sid : S) (u : U) : deleteSession s sid u =
    ((s.del (.session sid)).del (.csrf sid)).modify (.userSessions u) fun members =>
      (members.map fun m => m.erase sid).filter fun m => decide (m ≠ ∅) := rfl

theorem deleteAllSessions_eq (s : Keys T U S) (u : U) (sessionIds : List S) :
    deleteAllSessions s u sessionIds =
      (sessionIds.foldl (fun s sid => (s.del (.session sid)).del (.csrf sid)) s).del
        (.userSessions u) := rfl

/-- The keys of `sid` and the clock are those of `s`. -/
def Agrees (sid : S) (s s' : Keys T U S) : Prop :=
  s'.entry (.session sid) = s.entry (.session sid) ∧ s'.entry (.csrf sid) = s.entry (.csrf sid) ∧
    s'.now = s.now

theorem Agrees.tracks {s' : Keys T U S} (ha : Agrees sid s s')
    (h : Tracks settings sid u c ts s x) : Tracks settings sid u c ts s' x where
  session := by rw [ha.1]; exact h.session
  csrf := by rw [ha.2.1]; exact h.csrf
  law t ht := h.law t (ha.2.2 ▸ ht)
  bound := h.bound

theorem agrees_createSession {csrfToken : String} {ip : Option String} {ttl : T}
    (h : sid' ≠ sid) : Agrees sid s (createSession ttl s sid' csrfToken u' ip) := by
  have hne : sid ≠ sid' := h.symm
  refine ⟨?_, ?_, by simp [createSession_eq]⟩
  · rw [createSession_eq, TimedKeys.expire_entry_of_ne _ (by simp),
      TimedKeys.modify_entry_of_ne _ (by simp), TimedKeys.setEx_entry_of_ne _ _ (by simp),
      TimedKeys.setEx_entry_of_ne _ _ (by simpa using hne)]
  · rw [createSession_eq, TimedKeys.expire_entry_of_ne _ (by simp),
      TimedKeys.modify_entry_of_ne _ (by simp),
      TimedKeys.setEx_entry_of_ne _ _ (by simpa using hne),
      TimedKeys.setEx_entry_of_ne _ _ (by simp)]

theorem agrees_deleteSession (h : sid' ≠ sid) : Agrees sid s (deleteSession s sid' u') := by
  have hne : sid ≠ sid' := h.symm
  refine ⟨?_, ?_, by simp [deleteSession_eq]⟩
  · rw [deleteSession_eq, TimedKeys.modify_entry_of_ne _ (by simp),
      TimedKeys.del_entry_of_ne (by simp), TimedKeys.del_entry_of_ne (by simpa using hne)]
  · rw [deleteSession_eq, TimedKeys.modify_entry_of_ne _ (by simp),
      TimedKeys.del_entry_of_ne (by simpa using hne), TimedKeys.del_entry_of_ne (by simp)]

theorem agrees_deleteAllSessions {sessionIds : List S} (h : sid ∉ sessionIds) :
    Agrees sid s (deleteAllSessions s u' sessionIds) := by
  suffices hgen : ∀ s : Keys T U S, Agrees sid s
      (sessionIds.foldl (fun s sid => (s.del (.session sid)).del (.csrf sid)) s) by
    obtain ⟨hs, hc, hnow⟩ := hgen s
    refine ⟨?_, ?_, hnow⟩
    · rw [deleteAllSessions_eq, TimedKeys.del_entry_of_ne (by simp), hs]
    · rw [deleteAllSessions_eq, TimedKeys.del_entry_of_ne (by simp), hc]
  induction sessionIds with
  | nil => exact fun s => ⟨rfl, rfl, rfl⟩
  | cons sid' l ih =>
    intro s
    have hne : sid ≠ sid' := List.ne_of_not_mem_cons h
    obtain ⟨hs, hc, hnow⟩ := ih (List.not_mem_of_not_mem_cons h)
      ((s.del (.session sid')).del (.csrf sid'))
    refine ⟨hs.trans ?_, hc.trans ?_, hnow⟩
    · rw [TimedKeys.del_entry_of_ne (by simp), TimedKeys.del_entry_of_ne (by simpa using hne)]
    · rw [TimedKeys.del_entry_of_ne (by simpa using hne), TimedKeys.del_entry_of_ne (by simp)]

/-- What `touch_session` does to the keys of a live session. -/
def touched (s : Keys T U S) (sid : S) (u : U) (effectiveTtl : T) : Keys T U S :=
  ((s.expire (.session sid) effectiveTtl).expire (.csrf sid) effectiveTtl).expire (.userSessions u)
    effectiveTtl

theorem agrees_touched {effectiveTtl : T} (h : sid' ≠ sid) :
    Agrees sid s (touched s sid' u' effectiveTtl) := by
  have hne : sid ≠ sid' := h.symm
  refine ⟨?_, ?_, by simp [touched]⟩
  · rw [touched, TimedKeys.expire_entry_of_ne _ (by simp),
      TimedKeys.expire_entry_of_ne _ (by simp), TimedKeys.expire_entry_of_ne _ (by simpa using hne)]
  · rw [touched, TimedKeys.expire_entry_of_ne _ (by simp),
      TimedKeys.expire_entry_of_ne _ (by simpa using hne), TimedKeys.expire_entry_of_ne _ (by simp)]

/-- An authentication fails and changes nothing, or prolongs the session. -/
theorem authenticate_cases (settings : Settings T) (s : Keys T U S) (sid : S) :
    ((∀ d, s.get (.session sid) = some d →
        d.createdAt + settings.sessionAbsoluteTtl ≤ s.now) ∧
      authenticate settings s sid = (.sessionExpired, s)) ∨
    ∃ d, s.get (.session sid) = some d ∧ s.now < d.createdAt + settings.sessionAbsoluteTtl ∧
      authenticate settings s sid = (.context d.userId sid, touched s sid d.userId
        (min settings.sessionTtl ⌈d.createdAt + settings.sessionAbsoluteTtl - s.now⌉)) := by
  cases hd : s.get (.session sid) with
  | none =>
    exact Or.inl ⟨fun d h => (by cases h), by rw [authenticate, getSession, readSession_eq, hd]⟩
  | some d =>
    rw [authenticate, getSession, readSession_eq, hd]
    simp only [touchSession, readSession_eq, hd]
    by_cases hr : d.createdAt + settings.sessionAbsoluteTtl - s.now ≤ 0
    · refine Or.inl ⟨fun d' h => ?_, by rw [now_eq, if_pos hr]; rfl⟩
      obtain rfl := Option.some.inj h
      exact sub_nonpos.mp hr
    · refine Or.inr ⟨d, rfl, sub_pos.mp (not_le.mp hr), ?_⟩
      rw [now_eq, if_neg hr]
      rfl

theorem tracks_createSession (settings : Settings T) (s : Keys T U S) (sid : S) (csrfToken : String)
    (u : U) (ip : Option String) : Tracks settings sid u s.now []
      (createSession settings.sessionTtl s sid csrfToken u ip)
      (s.now + settings.sessionTtl) where
  session := by
    refine ⟨ip, ?_⟩
    rw [createSession_eq, TimedKeys.expire_entry_of_ne _ (by simp),
      TimedKeys.modify_entry_of_ne _ (by simp), TimedKeys.setEx_entry_of_ne _ _ (by simp),
      TimedKeys.setEx_entry_self]
  csrf := by
    refine ⟨csrfToken, ?_⟩
    rw [createSession_eq, TimedKeys.expire_entry_of_ne _ (by simp),
      TimedKeys.modify_entry_of_ne _ (by simp), TimedKeys.setEx_entry_self, TimedKeys.setEx_now]
  law t _ := by rw [List.nil_append, onTime_singleton]
  bound := le_max_left _ _

variable (ht : Tracks settings sid u c ts s x)

include ht

theorem Tracks.get_session : s.get (.session sid) = none ∧ x ≤ s.now ∨
    ∃ d : SessionData T U, s.get (.session sid) = some d ∧ d.userId = u ∧ d.createdAt = c ∧
      s.now < x := by
  obtain ⟨ip, he⟩ := ht.session
  rw [TimedKeys.get_of_entry he]
  split
  · rename_i hx
    exact Or.inr ⟨_, rfl, rfl, rfl, hx⟩
  · rename_i hx
    exact Or.inl ⟨rfl, not_lt.mp hx⟩

/-- An authentication now succeeds exactly if it is on time and before the absolute expiry. -/
theorem Tracks.authenticate_iff : (authenticate settings s sid).1 = .context u sid ↔
    OnTime settings.sessionTtl c (ts ++ [s.now]) ∧
      s.now < c + settings.sessionAbsoluteTtl := by
  rw [← ht.law s.now le_rfl]
  rcases authenticate_cases settings s sid with ⟨hd, ha⟩ | ⟨d, hd, hlt, ha⟩
  · rw [ha]
    refine ⟨fun h => (by cases h), ?_⟩
    rintro ⟨hx, hc⟩
    rcases ht.get_session with ⟨-, hx'⟩ | ⟨d, hd', -, rfl, -⟩
    · exact absurd hx (not_lt.mpr hx')
    · exact absurd hc (not_lt.mpr (hd d hd'))
  · rw [ha]
    rcases ht.get_session with ⟨hd', -⟩ | ⟨d', hd', rfl, rfl, hx⟩
    · rw [hd] at hd'
      cases hd'
    · obtain rfl := Option.some.inj (hd.symm.trans hd')
      exact ⟨fun _ => ⟨hx, hlt⟩, fun _ => rfl⟩

theorem Tracks.authenticate : ∃ x',
    Tracks settings sid u c (ts ++ [s.now]) (authenticate settings s sid).2 x' := by
  have hiff := ht.authenticate_iff
  rcases authenticate_cases settings s sid with ⟨hd, ha⟩ | ⟨d, hd, hlt, ha⟩
  · -- the authentication fails, and so will every later one
    rw [ha] at hiff ⊢
    have hfails : ¬(OnTime settings.sessionTtl c (ts ++ [s.now]) ∧
        s.now < c + settings.sessionAbsoluteTtl) := fun h => by cases hiff.mpr h
    refine ⟨x, ht.session, ht.csrf, fun t hle => ?_, ht.bound⟩
    rw [onTime_snoc]
    refine ⟨fun h => ?_, fun h => absurd ⟨h.1.1, hle.trans_lt h.2⟩ hfails⟩
    exact absurd ((ht.law s.now le_rfl).mp ⟨hle.trans_lt h.1, hle.trans_lt h.2⟩) hfails
  · rw [ha] at hiff ⊢
    rcases ht.get_session with ⟨hd', -⟩ | ⟨d', hd', rfl, rfl, hx⟩
    · rw [hd] at hd'
      cases hd'
    obtain rfl := Option.some.inj (hd.symm.trans hd')
    obtain ⟨ip, hs⟩ := ht.session
    obtain ⟨csrfToken, hcsrf⟩ := ht.csrf
    have hon := (hiff.mp rfl).1
    -- the remaining time, rounded up, covers the absolute expiry and exceeds it by less than 1
    have hcover := Int.le_ceil (d.createdAt + settings.sessionAbsoluteTtl - s.now)
    have hceil := Int.ceil_lt_add_one
      (d.createdAt + settings.sessionAbsoluteTtl - s.now)
    generalize ⌈d.createdAt + settings.sessionAbsoluteTtl - s.now⌉ = n at *
    refine ⟨s.now + (min settings.sessionTtl n), ⟨ip, ?_⟩, ⟨csrfToken, ?_⟩,
      fun t hle => ?_, ?_⟩
    · rw [touched, TimedKeys.expire_entry_of_ne _ (by simp),
        TimedKeys.expire_entry_of_ne _ (by simp), TimedKeys.expire_entry_self _ hs hx]
    · have hcsrf' : (s.expire (.session sid) (min settings.sessionTtl n)).entry
          (.csrf sid) = some ⟨csrfToken, some x⟩ := by
        rw [TimedKeys.expire_entry_of_ne _ (by simp), hcsrf]
      rw [touched, TimedKeys.expire_entry_of_ne _ (by simp),
        TimedKeys.expire_entry_self _ hcsrf' (by simpa using hx), TimedKeys.expire_now]
    · rw [onTime_snoc, ← min_add_add_left, lt_min_iff]
      refine ⟨fun h => ⟨⟨hon, h.1.1⟩, h.2⟩, fun h => ⟨⟨h.1.2, ?_⟩, h.2⟩⟩
      exact h.2.trans_le (sub_le_iff_le_add'.mp hcover)
    · refine le_max_of_le_right ?_
      calc s.now + min settings.sessionTtl (n : T)
          ≤ s.now + n := add_le_add_right (min_le_right _ _) s.now
        _ ≤ s.now + (d.createdAt + settings.sessionAbsoluteTtl - s.now + 1) :=
          add_le_add_right hceil.le s.now
        _ = d.createdAt + settings.sessionAbsoluteTtl + 1 := by abel

end Commands

/-! ### Runs -/

variable {settings : Settings T} {sid : S} {u : U} {c x : T} {ts : List T} {s s' : Keys T U S}
variable {call : Call T U S} {r : Reply U S}

/-- A call that is no authentication of the session adds no time. -/
theorem authTimes_of_not (h : authenticates sid call = false) :
    authTimes sid [⟨s, call, r⟩] = [] := by
  simp [authTimes, h]

/-- The step lemma: a call that spares the session keeps track of its keys. -/
theorem tracks_step (ht : Tracks settings sid u c ts s x)
    (h : (machine settings).step s call = some (r, s')) (hcall : spares sid call) :
    ∃ x', Tracks settings sid u c (ts ++ authTimes sid [⟨s, call, r⟩]) s' x' := by
  cases call with
  | create sid' csrfToken u' ip =>
    simp only [machine] at h
    split at h
    · obtain ⟨-, rfl⟩ := Prod.mk.inj (Option.some.inj h)
      refine ⟨x, ?_⟩
      rw [authTimes_of_not rfl, List.append_nil]
      exact (agrees_createSession (of_decide_eq_true hcall)).tracks ht
    · cases h
  | authenticate sid' =>
    simp only [machine] at h
    split at h
    · obtain ⟨-, rfl⟩ := Prod.mk.inj (Option.some.inj h)
      by_cases hsid : sid' = sid
      · subst hsid
        simpa [authTimes, authenticates] using ht.authenticate
      · refine ⟨x, ?_⟩
        rw [authTimes_of_not (by simpa [authenticates] using hsid), List.append_nil]
        rcases authenticate_cases settings s sid' with ⟨-, ha⟩ | ⟨d, -, -, ha⟩
        · rwa [ha]
        · rw [ha]
          exact (agrees_touched hsid).tracks ht
    · cases h
  | delete sid' u' =>
    obtain ⟨-, rfl⟩ := Prod.mk.inj (Option.some.inj h)
    refine ⟨x, ?_⟩
    rw [authTimes_of_not rfl, List.append_nil]
    exact (agrees_deleteSession (of_decide_eq_true hcall)).tracks ht
  | deleteAll u' sessionIds =>
    simp only [machine] at h
    split at h
    · obtain ⟨-, rfl⟩ := Prod.mk.inj (Option.some.inj h)
      refine ⟨x, ?_⟩
      rw [authTimes_of_not rfl, List.append_nil]
      exact (agrees_deleteAllSessions (of_decide_eq_true hcall)).tracks ht
    · cases h
  | tick d =>
    simp only [machine] at h
    split at h
    · rename_i hd
      obtain ⟨-, rfl⟩ := Prod.mk.inj (Option.some.inj h)
      refine ⟨x, ?_⟩
      rw [authTimes_of_not rfl, List.append_nil]
      exact ⟨ht.session, ht.csrf, fun t hle => ht.law t ((le_add_of_nonneg_right hd).trans hle),
        ht.bound⟩
    · cases h

variable {l : List (Machine.Event (Keys T U S) (Call T U S) (Reply U S))} {s₀ s₁ : Keys T U S}

theorem tracks_run (h : (machine settings).Run s₁ l s) (ht : Tracks settings sid u c [] s₁ x)
    (hl : ∀ e ∈ l, spares sid e.call) : ∃ x', Tracks settings sid u c (authTimes sid l) s x' := by
  revert hl
  refine h.induction (fun l s => (∀ e ∈ l, spares sid e.call) →
    ∃ x', Tracks settings sid u c (authTimes sid l) s x') (fun _ => ⟨x, ht⟩) ?_
  intro l s call r s' _ ih hs hl
  obtain ⟨x', hx'⟩ := ih fun e he => hl e (List.mem_append_left _ he)
  have hstep := tracks_step hx' hs (hl _ (List.mem_append_right _ (List.mem_singleton_self _)))
  rwa [authTimes, authTimes, ← List.map_append, ← List.filter_append] at hstep

/-- Both keys exist while the clock has not reached their expiry. -/
theorem Tracks.isSome (ht : Tracks settings sid u c ts s x) :
    ((getSession s sid).isSome ↔ s.now < x) ∧ ((getCsrfToken s sid).isSome ↔ s.now < x) := by
  obtain ⟨ip, hs⟩ := ht.session
  obtain ⟨csrfToken, hcsrf⟩ := ht.csrf
  rw [getSession, getCsrfToken, readSession_eq, readCsrf_eq, TimedKeys.get_of_entry hs,
    TimedKeys.get_of_entry hcsrf]
  constructor <;> split <;> simp [*]

/-- The lifetime of a session, over every run after its creation that does not delete it. -/
theorem session_lifetime {csrfToken : String} {ip : Option String}
    (hcreate : (machine settings).step s₀ (.create sid csrfToken u ip) = some (r, s₁))
    (hrun : (machine settings).Run s₁ l s) (hl : ∀ e ∈ l, spares sid e.call) :
    (∀ l₁ e l₂, l = l₁ ++ e :: l₂ → e.call = .authenticate sid →
      (e.reply = .authenticated (.context u sid) ↔
        OnTime settings.sessionTtl s₀.now (authTimes sid l₁ ++ [e.pre.now]) ∧
          e.pre.now < s₀.now + settings.sessionAbsoluteTtl)) ∧
    ((getCsrfToken s sid).isSome ↔ (getSession s sid).isSome) ∧
    ((getSession s sid).isSome → s.now < max (s₀.now + settings.sessionTtl)
      (s₀.now + settings.sessionAbsoluteTtl + 1)) := by
  simp only [machine] at hcreate
  split at hcreate
  · rename_i httl
    obtain ⟨-, rfl⟩ := Prod.mk.inj (Option.some.inj hcreate)
    have hnew := tracks_createSession settings s₀ sid csrfToken u ip
    refine ⟨fun l₁ e l₂ hl₁ hcall => ?_, ?_⟩
    · subst hl₁
      obtain ⟨hrun₁, s₂, hs, -⟩ := hrun.split
      obtain ⟨x, hx⟩ := tracks_run hrun₁ hnew fun e he => hl e (List.mem_append_left _ he)
      rw [← hx.authenticate_iff]
      simp only [machine, hcall, if_pos httl] at hs
      obtain ⟨hreply, -⟩ := Prod.mk.inj (Option.some.inj hs)
      rw [← hreply]
      exact ⟨fun h => Reply.authenticated.inj h, fun h => by rw [h]⟩
    · obtain ⟨x, hx⟩ := tracks_run hrun hnew hl
      exact ⟨hx.isSome.2.trans hx.isSome.1.symm,
        fun h => (hx.isSome.1.mp h).trans_le hx.bound⟩
  · cases hcreate

/-- A session that is authenticated twice, with 5 seconds to live and 8 in all. -/
theorem session_lifetime_twice :
    let settings : Settings ℤ := ⟨5, 8⟩
    let s₀ : Keys ℤ ℕ ℕ := .empty 0
    let run := (machine settings).runOf (createSession 5 s₀ 1 "csrf" 7 none)
      [.tick 4, .authenticate 1, .tick 3, .authenticate 1, .tick 1, .authenticate 1] (by decide)
    (∀ l₁ e l₂, run.1 = l₁ ++ e :: l₂ → e.call = .authenticate 1 →
      (e.reply = .authenticated (.context 7 1) ↔
        OnTime 5 0 (authTimes 1 l₁ ++ [e.pre.now]) ∧ e.pre.now < 0 + 8)) ∧
    ((getCsrfToken run.2 1).isSome ↔ (getSession run.2 1).isSome) ∧
    ((getSession run.2 1).isSome → run.2.now < max (0 + 5) (0 + 8 + 1)) :=
  session_lifetime (show (machine ⟨5, 8⟩).step (.empty 0 : Keys ℤ ℕ ℕ) (.create 1 "csrf" 7 none) =
    some (.done, _) from rfl) (Machine.run_runOf _ _ _ _) (by decide)

end SessionLifetime
