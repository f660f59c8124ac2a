import TaskManagement.RedisStore.LoginFailure
import Mathlib.Algebra.Order.Group.Nat

/-!
# How many wrong passwords a lockout lets through

`lockout_bound`: while a counter lives, at most `login_max_attempts` wrong passwords are verified,
and every attempt that is answered `TooManyAttempts` has no password verified, in a run in which an
attempt passes the check only when the failures counted and the attempts under way leave room for
it.  Attempts that pass the check together before any of them is counted exceed the bound
(`lockout_exceeded`).

* `Effect` lists what a step does to a counter and to the attempts that it will count;
* `counted_le` and `verified_le` are the two invariants: the failures counted and the attempts under
  way stay below the maximum, and every wrong password of the lifetime is counted or about to be.
-/

namespace LoginFailure

set_option linter.unusedSectionVars false

variable {T N I A P Hash : Type} [AddCommMonoid T] [LinearOrder T] [IsOrderedAddMonoid T] [Sub T]
variable [DecidableEq N] [DecidableEq A]

/-! ### The attempts under way -/

/-- The attempt has passed the check, and its failure, if it fails, is not counted yet. -/
def Phase.underWay : Phase Hash → Bool
  | .checked | .read _ | .failed => true
  | _ => false

/-- The attempt has failed, and the failure is not counted yet. -/
def Phase.uncounted : Phase Hash → Bool
  | .failed => true
  | _ => false

/-- The number of attempts on the counter `k` in a phase of the kind `p`. -/
def inPhase (normalize : I → N) (p : Phase Hash → Bool) (s : State T N I A P Hash) (k : N × A) :
    ℕ :=
  s.attempts.countP fun a => decide (a.key normalize = k) && p a.phase

/-- The failures counted under `k`. -/
abbrev failures (s : State T N I A P Hash) (k : N × A) : ℕ := getLoginFailureCount s.keys k

theorem inPhase_le (normalize : I → N) (s : State T N I A P Hash) (k : N × A) :
    inPhase normalize Phase.uncounted s k ≤ inPhase normalize Phase.underWay s k := by
  refine List.countP_mono_left fun a _ h => ?_
  rw [Bool.and_eq_true] at h ⊢
  refine ⟨h.1, ?_⟩
  cases hp : a.phase with
  | failed => rfl
  | _ =>
    rw [hp] at h
    cases h.2

/-- Moving an attempt from one phase to another. -/
theorem inPhase_setPhase (normalize : I → N) (p : Phase Hash → Bool) {s : State T N I A P Hash}
    {i : ℕ} {a : Attempt I A P Hash} (k : N × A) (ha : s.attempts[i]? = some a) (phase : Phase Hash)
    (keys : Keys T (N × A)) : inPhase normalize p (setPhase { s with keys := keys } i a phase) k +
        (if a.key normalize = k ∧ p a.phase then 1 else 0) =
      inPhase normalize p s k + if a.key normalize = k ∧ p phase then 1 else 0 := by
  obtain ⟨hi, hget⟩ := List.getElem?_eq_some_iff.mp ha
  have hmem : a ∈ s.attempts := hget ▸ List.getElem_mem hi
  have hkey : ({ a with phase := phase } : Attempt I A P Hash).key normalize = a.key normalize := rfl
  have hpos : (a.key normalize = k ∧ p a.phase = true) →
      0 < s.attempts.countP fun a => decide (a.key normalize = k) && p a.phase := by
    rintro ⟨hk, hp⟩
    exact List.countP_pos_iff.mpr ⟨a, hmem, by simp [hk, hp]⟩
  simp only [inPhase, setPhase, List.countP_set hi, hget, hkey, Bool.and_eq_true,
    decide_eq_true_eq]
  split_ifs with h₁ h₂ h₂
  · have := hpos h₁
    omega
  · have := hpos h₁
    omega
  · omega
  · omega

/-! ### The counter -/

section Counter

variable {κ : Type} [DecidableEq κ] (s : Keys T κ) (k : κ)

theorem getLoginFailureCount_incr_self :
    getLoginFailureCount (incr s k) k = getLoginFailureCount s k + 1 := by
  have halive : ∀ x ∈ some (⟨getLoginFailureCount s k + 1, (s.string k).bind Entry.expiry⟩ :
      Entry T ℕ), x.alive s.now := by
    rintro _ ⟨⟩
    cases h : s.string k with
    | none => rfl
    | some e => exact s.string_live k e h
  rw [getLoginFailureCount, incr, Keyspace.get_of_some (s.putString_string_self halive)]
  rfl

variable {s k} in
theorem getLoginFailureCount_of_string {s' : Keys T κ} (h : s'.string k = s.string k) :
    getLoginFailureCount s' k = getLoginFailureCount s k := by
  simp only [getLoginFailureCount, Keyspace.get, h]

theorem getLoginFailureCount_incr_of_ne {k' : κ} (h : k' ≠ k) :
    getLoginFailureCount (incr s k) k' = getLoginFailureCount s k' :=
  getLoginFailureCount_of_string (s.putString_string_of_ne h)

theorem getLoginFailureCount_reset : getLoginFailureCount (resetLoginFailure s k) k = 0 := by
  rw [getLoginFailureCount, resetLoginFailure, Keyspace.get_of_none (Keyspace.del_string_self s)]
  rfl

/-- `EXPIRE` keeps the count. -/
theorem getLoginFailureCount_expire {window : T} (hw : 0 ≤ window) (k' : κ) :
    getLoginFailureCount (s.expire k window) k' = getLoginFailureCount s k' := by
  by_cases h : k' = k
  · subst h
    rw [getLoginFailureCount, Keyspace.get, Keyspace.expire_string_self s hw, Option.map_map]
    rfl
  · exact getLoginFailureCount_of_string (Keyspace.expire_string_of_ne s _ h)

/-- Time leaves a counter alone, or takes it away. -/
theorem getLoginFailureCount_advance (d : T) :
    getLoginFailureCount (s.advance d) k = getLoginFailureCount s k ∨
      getLoginFailureCount (s.advance d) k = 0 ∧ (s.string k).isSome ∧
        (s.advance d).string k = none := by
  cases h : (s.advance d).string k with
  | some e =>
    refine Or.inl (getLoginFailureCount_of_string ?_)
    rw [h, ((Keyspace.advance_string_eq_some s d).mp h).1]
  | none =>
    cases hs : s.string k with
    | none => exact Or.inl (getLoginFailureCount_of_string (h.trans hs.symm))
    | some e =>
      refine Or.inr ⟨?_, rfl, rfl⟩
      rw [getLoginFailureCount, Keyspace.get_of_none h]
      rfl

end Counter

/-! ### What a step can do -/

/-- The events of a run of `machine`. -/
abbrev Event (T N I A P Hash : Type) [LE T] [DecidableLE T] : Type :=
  Machine.Event (State T N I A P Hash) (Call T I A P Hash) (Reply T)

variable {settings : Settings T} {normalize : I → N} {verifyPassword : P → Hash → Bool}
variable {dummyPasswordHash : Hash}

/-- The event verifies the password of an attempt on the counter `k`, and it is wrong. -/
def verifiesWrong (normalize : I → N) (k : N × A) (e : Event T N I A P Hash) : Bool :=
  match e.call, e.reply with
  | .verify i, .verified false => e.pre.attempts[i]?.any fun a => decide (a.key normalize = k)
  | _, _ => false

/-- The counter `k` is reset by a successful login, or it expires. -/
def LosesCounter (normalize : I → N) (k : N × A) (e : Event T N I A P Hash) : Prop :=
  match e.call with
  | .reset i => ∃ a, e.pre.attempts[i]? = some a ∧ a.key normalize = k
  | .tick d => (e.pre.keys.string k).isSome ∧ (e.pre.keys.advance d).string k = none
  | _ => False

/-- If the event is an attempt that passes the check of the counter `k`, then the failures counted
and the attempts under way leave room for it. -/
def LeavesRoom (settings : Settings T) (normalize : I → N) (k : N × A)
    (e : Event T N I A P Hash) : Prop :=
  ∀ identifier clientIp password, e.call = .check identifier clientIp password →
    (normalize identifier, clientIp) = k → failures e.pre k < settings.loginMaxAttempts →
      failures e.pre k + inPhase normalize Phase.underWay e.pre k < settings.loginMaxAttempts

/-- What a step does to the counter `k` and to the attempts that it will count. -/
inductive Effect (settings : Settings T) (normalize : I → N) (k : N × A) (e : Event T N I A P Hash)
    (s' : State T N I A P Hash) : Prop where
  | quiet : verifiesWrong normalize k e = false → failures s' k = failures e.pre k →
      inPhase normalize Phase.underWay s' k ≤ inPhase normalize Phase.underWay e.pre k →
      inPhase normalize Phase.uncounted s' k = inPhase normalize Phase.uncounted e.pre k →
      Effect settings normalize k e s'
  | lost : LosesCounter normalize k e → failures s' k = 0 →
      inPhase normalize Phase.underWay s' k ≤ inPhase normalize Phase.underWay e.pre k →
      Effect settings normalize k e s'
  | passed : (LeavesRoom settings normalize k e →
        failures e.pre k + inPhase normalize Phase.underWay e.pre k < settings.loginMaxAttempts) →
      verifiesWrong normalize k e = false → failures s' k = failures e.pre k →
      inPhase normalize Phase.underWay s' k = inPhase normalize Phase.underWay e.pre k + 1 →
      inPhase normalize Phase.uncounted s' k = inPhase normalize Phase.uncounted e.pre k →
      Effect settings normalize k e s'
  | wrong : failures s' k = failures e.pre k →
      inPhase normalize Phase.underWay s' k = inPhase normalize Phase.underWay e.pre k →
      inPhase normalize Phase.uncounted s' k = inPhase normalize Phase.uncounted e.pre k + 1 →
      Effect settings normalize k e s'
  | counted : verifiesWrong normalize k e = false → failures s' k = failures e.pre k + 1 →
      inPhase normalize Phase.underWay s' k + 1 = inPhase normalize Phase.underWay e.pre k →
      inPhase normalize Phase.uncounted s' k + 1 = inPhase normalize Phase.uncounted e.pre k →
      Effect settings normalize k e s'

variable {s s' : State T N I A P Hash} {c : Call T I A P Hash} {r : Reply T} {k : N × A}

/-- A phase change between phases that are not counted, with the counters as they were. -/
theorem effect_setPhase {i : ℕ} {a : Attempt I A P Hash} {phase : Phase Hash}
    (keys : Keys T (N × A)) (ha : s.attempts[i]? = some a)
    (hw : verifiesWrong normalize k ⟨s, c, r⟩ = false)
    (hk : getLoginFailureCount keys k = failures s k)
    (hu : phase.underWay → a.phase.underWay) (hc : phase.uncounted = a.phase.uncounted) :
    Effect settings normalize k ⟨s, c, r⟩ (setPhase { s with keys := keys } i a phase) := by
  refine .quiet hw hk ?_ ?_
  · have h := inPhase_setPhase normalize Phase.underWay k ha phase keys
    show inPhase normalize Phase.underWay (setPhase { s with keys := keys } i a phase) k ≤
      inPhase normalize Phase.underWay s k
    by_cases hnew : a.key normalize = k ∧ phase.underWay
    · rw [if_pos hnew, if_pos ⟨hnew.1, hu hnew.2⟩] at h
      omega
    · rw [if_neg hnew] at h
      omega
  · have h := inPhase_setPhase normalize Phase.uncounted k ha phase keys
    rw [hc] at h
    exact Nat.add_right_cancel h

/-- A phase change of an attempt on another counter. -/
theorem effect_setPhase_of_ne {i : ℕ} {a : Attempt I A P Hash} {phase : Phase Hash}
    (keys : Keys T (N × A)) (ha : s.attempts[i]? = some a) (hkey : a.key normalize ≠ k)
    (hw : verifiesWrong normalize k ⟨s, c, r⟩ = false)
    (hk : getLoginFailureCount keys k = failures s k) :
    Effect settings normalize k ⟨s, c, r⟩ (setPhase { s with keys := keys } i a phase) := by
  have hset (p : Phase Hash → Bool) :
      inPhase normalize p (setPhase { s with keys := keys } i a phase) k = inPhase normalize p s k := by
    have h := inPhase_setPhase normalize p k ha phase keys
    rwa [if_neg fun h => hkey h.1, if_neg fun h => hkey h.1] at h
  exact .quiet hw hk (hset _).le (hset _)

theorem inPhase_concat (p : Phase Hash → Bool) (a : Attempt I A P Hash) :
    inPhase normalize p { s with attempts := s.attempts ++ [a] } k =
      inPhase normalize p s k + if a.key normalize = k ∧ p a.phase then 1 else 0 := by
  simp only [inPhase, List.countP_append, List.countP_singleton, Bool.and_eq_true]
  exact congrArg _ (if_congr (and_congr_left' decide_eq_true_iff) rfl rfl)

/-- An attempt goes on if its counter is below the maximum, and is refused if it is not. -/
theorem effect_check (identifier : I) (clientIp : A) (password : P) :
    Effect settings normalize k ⟨s, .check identifier clientIp password, r⟩
      { s with attempts := s.attempts ++ [⟨identifier, clientIp, password,
        if failures s (normalize identifier, clientIp) ≥ settings.loginMaxAttempts then .limited
        else .checked⟩] } := by
  split_ifs with hmax
  · refine .quiet rfl rfl ?_ ?_
    · rw [inPhase_concat, if_neg (by simp [Phase.underWay])]
      rfl
    · rw [inPhase_concat, if_neg (by simp [Phase.uncounted])]
      rfl
  · by_cases hkey : (normalize identifier, clientIp) = k
    · refine .passed (fun hroom => ?_) rfl rfl ?_ ?_
      · exact hroom identifier clientIp password rfl hkey (hkey ▸ Nat.lt_of_not_le hmax)
      · rw [inPhase_concat, if_pos ⟨hkey, rfl⟩]
      · rw [inPhase_concat, if_neg (by simp [Phase.uncounted])]
        rfl
    · refine .quiet rfl rfl ?_ ?_
      · rw [inPhase_concat, if_neg fun hk => hkey hk.1]
        rfl
      · rw [inPhase_concat, if_neg fun hk => hkey hk.1]
        rfl

/-- A wrong password is to be counted. -/
theorem effect_verify_wrong {i : ℕ} {a : Attempt I A P Hash} {storedHash : Option Hash}
    (ha : s.attempts[i]? = some a) (hp : a.phase = .read storedHash) :
    Effect settings normalize k ⟨s, .verify i, .verified false⟩ (setPhase s i a .failed) := by
  have hany : verifiesWrong normalize k ⟨s, .verify i, .verified false⟩ =
      decide (a.key normalize = k) := by
    simp only [verifiesWrong, ha, Option.any_some]
  by_cases hkey : a.key normalize = k
  · -- one attempt under way less, one to be counted more
    refine .wrong rfl ?_ ?_
    · have hset := inPhase_setPhase normalize Phase.underWay k ha .failed s.keys
      rw [hp, if_pos ⟨hkey, rfl⟩, if_pos ⟨hkey, rfl⟩] at hset
      exact Nat.add_right_cancel hset
    · have hset := inPhase_setPhase normalize Phase.uncounted k ha .failed s.keys
      rw [hp, if_neg (by simp [Phase.uncounted]), if_pos ⟨hkey, rfl⟩] at hset
      exact hset
  · exact effect_setPhase_of_ne s.keys ha hkey (hany.trans (decide_eq_false hkey)) rfl

/-- `INCR` counts the attempt, whose phase is then one that is not counted again. -/
theorem effect_incr {i : ℕ} {a : Attempt I A P Hash} {phase : Phase Hash}
    (ha : s.attempts[i]? = some a) (hp : a.phase = .failed)
    (hno : phase.underWay = false ∧ phase.uncounted = false) :
    Effect settings normalize k ⟨s, .incr i, r⟩
      (setPhase { s with keys := incr s.keys (a.key normalize) } i a phase) := by
  by_cases hkey : a.key normalize = k
  · refine .counted rfl ?_ ?_ ?_
    · rw [hkey]
      exact getLoginFailureCount_incr_self s.keys k
    · have hset := inPhase_setPhase normalize Phase.underWay k ha phase
        (incr s.keys (a.key normalize))
      rw [hp, if_pos ⟨hkey, rfl⟩, if_neg (by simp [hno.1])] at hset
      exact hset
    · have hset := inPhase_setPhase normalize Phase.uncounted k ha phase
        (incr s.keys (a.key normalize))
      rw [hp, if_pos ⟨hkey, rfl⟩, if_neg (by simp [hno.2])] at hset
      exact hset
  · exact effect_setPhase_of_ne _ ha hkey rfl
      (getLoginFailureCount_incr_of_ne s.keys _ (Ne.symm hkey))

/-- A successful login takes the counter away. -/
theorem effect_reset {i : ℕ} {a : Attempt I A P Hash} (ha : s.attempts[i]? = some a)
    (hp : a.phase = .matched) :
    Effect settings normalize k ⟨s, .reset i, r⟩
      (setPhase { s with keys := resetLoginFailure s.keys (a.key normalize) } i a .succeeded) := by
  by_cases hkey : a.key normalize = k
  · refine .lost ⟨a, ha, hkey⟩ ?_ ?_
    · rw [hkey]
      exact getLoginFailureCount_reset s.keys k
    · have hset := inPhase_setPhase normalize Phase.underWay k ha .succeeded
        (resetLoginFailure s.keys (a.key normalize))
      rw [hp, if_neg (by simp [Phase.underWay]), if_neg (by simp [Phase.underWay])] at hset
      exact hset.le
  · exact effect_setPhase_of_ne _ ha hkey rfl
      (getLoginFailureCount_of_string (Keyspace.del_string_of_ne s.keys (Ne.symm hkey)))

theorem effect_of_step (k : N × A) (h : (machine settings normalize verifyPassword
    dummyPasswordHash).step s c = some (r, s')) : Effect settings normalize k ⟨s, c, r⟩ s' := by
  cases c with
  | check identifier clientIp password =>
    obtain ⟨rfl, rfl⟩ := Prod.mk.inj (Option.some.inj h)
    exact effect_check identifier clientIp password
  | ttl i =>
    obtain ⟨a, ha, h⟩ := Option.bind_eq_some_iff.mp h
    split at h
    · rename_i hp
      obtain ⟨rfl, rfl⟩ := Prod.mk.inj (Option.some.inj h)
      exact effect_setPhase s.keys ha rfl rfl (by rintro ⟨⟩) (by rw [hp]; rfl)
    · cases h
  | read i =>
    obtain ⟨a, ha, h⟩ := Option.bind_eq_some_iff.mp h
    split at h
    · rename_i hp
      obtain ⟨rfl, rfl⟩ := Prod.mk.inj (Option.some.inj h)
      exact effect_setPhase s.keys ha rfl rfl (fun _ => by rw [hp]; rfl) (by rw [hp]; rfl)
    · cases h
  | verify i =>
    obtain ⟨a, ha, h⟩ := Option.bind_eq_some_iff.mp h
    split at h
    · rename_i storedHash hp
      dsimp only at h
      generalize hok : (storedHash.isSome &&
        verifyPassword a.password (storedHash.getD dummyPasswordHash)) = ok at h
      obtain ⟨rfl, rfl⟩ := Prod.mk.inj (Option.some.inj h)
      cases ok with
      | true => exact effect_setPhase s.keys ha rfl rfl (by rintro ⟨⟩) (by rw [hp]; rfl)
      | false => exact effect_verify_wrong ha hp
    · cases h
  | incr i =>
    obtain ⟨a, ha, h⟩ := Option.bind_eq_some_iff.mp h
    split at h
    · rename_i hp
      split_ifs at h
      dsimp only at h
      generalize hphase : (if getLoginFailureCount (incr s.keys (a.key normalize))
        (a.key normalize) = 1 then Phase.counted else Phase.invalidCredentials) = phase at h
      obtain ⟨rfl, rfl⟩ := Prod.mk.inj (Option.some.inj h)
      have hno : phase.underWay = false ∧ phase.uncounted = false := by
        rw [← hphase]
        split_ifs <;> exact ⟨rfl, rfl⟩
      exact effect_incr ha hp hno
    · cases h
  | expire i =>
    obtain ⟨a, ha, h⟩ := Option.bind_eq_some_iff.mp h
    split at h
    · rename_i hp
      split_ifs at h with hw
      obtain ⟨rfl, rfl⟩ := Prod.mk.inj (Option.some.inj h)
      exact effect_setPhase _ ha rfl (getLoginFailureCount_expire s.keys _ hw.le k) (by rintro ⟨⟩)
        (by rw [hp]; rfl)
    · cases h
  | reset i =>
    obtain ⟨a, ha, h⟩ := Option.bind_eq_some_iff.mp h
    split at h
    · rename_i hp
      obtain ⟨rfl, rfl⟩ := Prod.mk.inj (Option.some.inj h)
      exact effect_reset ha hp
    · cases h
  | users passwordHash =>
    obtain ⟨rfl, rfl⟩ := Prod.mk.inj (Option.some.inj h)
    exact .quiet rfl rfl le_rfl rfl
  | tick d =>
    simp only [machine] at h
    split_ifs at h
    obtain ⟨rfl, rfl⟩ := Prod.mk.inj (Option.some.inj h)
    rcases getLoginFailureCount_advance s.keys k d with hsame | ⟨hzero, hlost⟩
    · exact .quiet rfl hsame le_rfl rfl
    · exact .lost hlost hzero le_rfl

/-! ### Attempts and their verification -/

/-- The password of the attempt was verified. -/
def Phase.verified : Phase Hash → Bool
  | .failed | .counted | .matched | .invalidCredentials | .succeeded => true
  | _ => false

/-- `login` has answered the attempt, or goes on after a password that matched. -/
def Phase.ended : Phase Hash → Bool
  | .tooManyAttempts | .invalidCredentials | .succeeded => true
  | _ => false

/-- The attempts whose password was verified are those with a verification in the history. -/
structure Verifications (l : List (Event T N I A P Hash)) (s : State T N I A P Hash) : Prop where
  lt : ∀ e ∈ l, ∀ i, e.call = .verify i → i < s.attempts.length
  iff : ∀ i a, s.attempts[i]? = some a → (a.phase.verified ↔ ∃ e ∈ l, e.call = .verify i)

variable {l : List (Event T N I A P Hash)}

/-- A phase change moves an attempt to a phase after the verification just when it verifies. -/
theorem Verifications.setPhase (h : Verifications l s) {i : ℕ} {a : Attempt I A P Hash}
    {phase : Phase Hash} (keys : Keys T (N × A)) (ha : s.attempts[i]? = some a)
    (hc : ∀ j, c = .verify j → j = i)
    (hv : phase.verified ↔ a.phase.verified ∨ c = .verify i) :
    Verifications (l ++ [⟨s, c, r⟩]) (setPhase { s with keys := keys } i a phase) where
  lt e he j hj := by
    have hlen : (LoginFailure.setPhase { s with keys := keys } i a phase).attempts.length =
      s.attempts.length := List.length_set
    rw [hlen]
    rcases List.mem_append.mp he with he | he
    · exact h.lt e he j hj
    · obtain rfl := List.mem_singleton.mp he
      obtain rfl := hc j hj
      exact (List.getElem?_eq_some_iff.mp ha).1
  iff j b hb := by
    have hlast : (∃ e ∈ l ++ [(⟨s, c, r⟩ : Event T N I A P Hash)], e.call = .verify j) ↔
        (∃ e ∈ l, e.call = .verify j) ∨ c = .verify j := by
      simp only [List.mem_append, List.mem_singleton, or_and_right, exists_or, exists_eq_left]
    rw [hlast]
    by_cases hij : i = j
    · subst hij
      have hb' : b = { a with phase := phase } := by
        have hset : (s.attempts.set i { a with phase := phase })[i]? =
            some { a with phase := phase } :=
          List.getElem?_set_self (List.getElem?_eq_some_iff.mp ha).1
        exact Option.some.inj (hb.symm.trans hset)
      rw [hb', ← h.iff i a ha]
      exact hv
    · have hb' : s.attempts[j]? = some b := (List.getElem?_set_ne hij).symm.trans hb
      rw [h.iff j b hb']
      exact ⟨Or.inl, fun h => h.resolve_right fun hj => hij (hc j hj).symm⟩

/-- A new attempt was not verified. -/
theorem Verifications.snoc (h : Verifications l s) {a : Attempt I A P Hash}
    (hc : ∀ j, c ≠ .verify j) (ha : a.phase.verified = false) :
    Verifications (l ++ [⟨s, c, r⟩]) { s with attempts := s.attempts ++ [a] } where
  lt e he j hj := by
    rw [List.length_append]
    rcases List.mem_append.mp he with he | he
    · exact Nat.lt_add_right _ (h.lt e he j hj)
    · obtain rfl := List.mem_singleton.mp he
      exact absurd hj (hc j)
  iff j b hb := by
    have hlast : (∃ e ∈ l ++ [(⟨s, c, r⟩ : Event T N I A P Hash)], e.call = .verify j) ↔
        ∃ e ∈ l, e.call = .verify j := by
      simp only [List.mem_append, List.mem_singleton, or_and_right, exists_or, exists_eq_left,
        hc j, or_false]
    rw [hlast]
    rcases Nat.lt_trichotomy j s.attempts.length with hlt | rfl | hgt
    · exact h.iff j b ((List.getElem?_append_left hlt).symm.trans hb)
    · obtain rfl := Option.some.inj (List.getElem?_concat_length.symm.trans hb)
      refine ⟨fun hv => ?_, ?_⟩
      · rw [ha] at hv
        cases hv
      · rintro ⟨e, he, hj⟩
        exact absurd (h.lt e he _ hj) (Nat.lt_irrefl _)
    · rw [List.getElem?_eq_none (by simpa using Nat.succ_le_of_lt hgt)] at hb
      cases hb

/-- A step that leaves the attempts alone. -/
theorem Verifications.of_eq (h : Verifications l s) (hc : ∀ j, c ≠ .verify j)
    (hs : s'.attempts = s.attempts) : Verifications (l ++ [⟨s, c, r⟩]) s' where
  lt e he j hj := by
    rw [hs]
    rcases List.mem_append.mp he with he | he
    · exact h.lt e he j hj
    · obtain rfl := List.mem_singleton.mp he
      exact absurd hj (hc j)
  iff j b hb := by
    rw [h.iff j b (hs ▸ hb)]
    simp only [List.mem_append, List.mem_singleton, or_and_right, exists_or, exists_eq_left,
      hc j, or_false]

theorem verifications_step (h : Verifications l s) (hs : (machine settings normalize verifyPassword
    dummyPasswordHash).step s c = some (r, s')) : Verifications (l ++ [⟨s, c, r⟩]) s' := by
  cases c with
  | check identifier clientIp password =>
    obtain ⟨rfl, rfl⟩ := Prod.mk.inj (Option.some.inj hs)
    refine h.snoc nofun ?_
    dsimp only
    split_ifs <;> rfl
  | ttl i =>
    obtain ⟨a, ha, hs⟩ := Option.bind_eq_some_iff.mp hs
    split at hs
    · rename_i hp
      obtain ⟨rfl, rfl⟩ := Prod.mk.inj (Option.some.inj hs)
      exact h.setPhase s.keys ha nofun (by simp [hp, Phase.verified])
    · cases hs
  | read i =>
    obtain ⟨a, ha, hs⟩ := Option.bind_eq_some_iff.mp hs
    split at hs
    · rename_i hp
      obtain ⟨rfl, rfl⟩ := Prod.mk.inj (Option.some.inj hs)
      exact h.setPhase s.keys ha nofun (by simp [hp, Phase.verified])
    · cases hs
  | verify i =>
    obtain ⟨a, ha, hs⟩ := Option.bind_eq_some_iff.mp hs
    split at hs
    · obtain ⟨rfl, rfl⟩ := Prod.mk.inj (Option.some.inj hs)
      refine h.setPhase s.keys ha (fun j hj => (Call.verify.inj hj).symm) ?_
      simp only [or_true, iff_true]
      split_ifs <;> rfl
    · cases hs
  | incr i =>
    obtain ⟨a, ha, hs⟩ := Option.bind_eq_some_iff.mp hs
    split at hs
    · rename_i hp
      split_ifs at hs
      obtain ⟨rfl, rfl⟩ := Prod.mk.inj (Option.some.inj hs)
      refine h.setPhase _ ha nofun ?_
      simp only [hp, Phase.verified, true_or, iff_true]
      split_ifs <;> rfl
    · cases hs
  | expire i =>
    obtain ⟨a, ha, hs⟩ := Option.bind_eq_some_iff.mp hs
    split at hs
    · rename_i hp
      split_ifs at hs
      obtain ⟨rfl, rfl⟩ := Prod.mk.inj (Option.some.inj hs)
      exact h.setPhase _ ha nofun (by simp [hp, Phase.verified])
    · cases hs
  | reset i =>
    obtain ⟨a, ha, hs⟩ := Option.bind_eq_some_iff.mp hs
    split at hs
    · rename_i hp
      obtain ⟨rfl, rfl⟩ := Prod.mk.inj (Option.some.inj hs)
      exact h.setPhase _ ha nofun (by simp [hp, Phase.verified])
    · cases hs
  | users passwordHash =>
    obtain ⟨rfl, rfl⟩ := Prod.mk.inj (Option.some.inj hs)
    exact h.of_eq nofun rfl
  | tick d =>
    simp only [machine] at hs
    split_ifs at hs
    obtain ⟨rfl, rfl⟩ := Prod.mk.inj (Option.some.inj hs)
    exact h.of_eq nofun rfl

/-! ### Runs -/

variable {now : T} {passwordHash : I → Option Hash}

theorem verifications_of_run (h : (machine settings normalize verifyPassword
    dummyPasswordHash).Run (init now passwordHash) l s) : Verifications l s :=
  h.induction Verifications ⟨nofun, nofun⟩ fun _ _ _ _ _ _ hv hs => verifications_step hv hs

/-- The failures counted and the attempts under way stay below the maximum. -/
theorem counted_le (h : (machine settings normalize verifyPassword dummyPasswordHash).Run
    (init now passwordHash) l s) (hroom : ∀ e ∈ l, LeavesRoom settings normalize k e) :
    failures s k + inPhase normalize Phase.underWay s k ≤ settings.loginMaxAttempts := by
  revert hroom
  refine h.induction (fun l s => (∀ e ∈ l, LeavesRoom settings normalize k e) →
    failures s k + inPhase normalize Phase.underWay s k ≤ settings.loginMaxAttempts)
    (fun _ => Nat.zero_le _) ?_
  intro l s c r s' _ ih hs hroom
  have hbefore := ih fun e he => hroom e (List.mem_append_left _ he)
  have hnow := hroom ⟨s, c, r⟩ (List.mem_append_right _ List.mem_cons_self)
  cases effect_of_step k hs with
  | quiet _ hf hu =>
    dsimp only at hf hu
    omega
  | lost _ hf hu =>
    dsimp only at hf hu
    omega
  | passed hlt _ hf hu =>
    have := hlt hnow
    dsimp only at this hf hu
    omega
  | wrong hf hu =>
    dsimp only at hf hu
    omega
  | counted _ hf hu =>
    dsimp only at hf hu
    omega

/-- Every wrong password verified while the counter lives is counted, or about to be. -/
theorem verified_le {l₂ : List (Event T N I A P Hash)} {s₁ : State T N I A P Hash}
    (h : (machine settings normalize verifyPassword dummyPasswordHash).Run s₁ l₂ s)
    (hlife : ∀ e ∈ l₂, ¬LosesCounter normalize k e) :
    l₂.countP (verifiesWrong normalize k) ≤
      failures s k + inPhase normalize Phase.uncounted s k := by
  revert hlife
  refine h.induction (fun l₂ s => (∀ e ∈ l₂, ¬LosesCounter normalize k e) →
    l₂.countP (verifiesWrong normalize k) ≤
      failures s k + inPhase normalize Phase.uncounted s k) (fun _ => Nat.zero_le _) ?_
  intro l s c r s' _ ih hs hlife
  have hbefore := ih fun e he => hlife e (List.mem_append_left _ he)
  have hnow := hlife ⟨s, c, r⟩ (List.mem_append_right _ List.mem_cons_self)
  rw [List.countP_append, List.countP_singleton]
  have hone : (if verifiesWrong normalize k ⟨s, c, r⟩ then 1 else 0) ≤ 1 := by
    split_ifs <;> omega
  cases effect_of_step k hs with
  | lost hl => exact absurd hl hnow
  | quiet hw hf _ hu =>
    rw [hw, if_neg Bool.false_ne_true]
    dsimp only at hf hu
    omega
  | passed _ hw hf _ hu =>
    rw [hw, if_neg Bool.false_ne_true]
    dsimp only at hf hu
    omega
  | wrong hf _ hu =>
    dsimp only at hf hu
    omega
  | counted hw hf _ hu =>
    rw [hw, if_neg Bool.false_ne_true]
    dsimp only at hf hu
    omega

/-- **The lockout bound.**  While the counter `k` is neither reset nor expires, at most
`login_max_attempts` wrong passwords are verified on it, and an attempt that has ended has had its
password verified or is answered `TooManyAttempts` without a verification, when every attempt that
passes the check finds room for it. -/
theorem lockout_bound {l₁ l₂ : List (Event T N I A P Hash)} {s₁ s₂ : State T N I A P Hash}
    (h₁ : (machine settings normalize verifyPassword dummyPasswordHash).Run
      (init now passwordHash) l₁ s₁)
    (h₂ : (machine settings normalize verifyPassword dummyPasswordHash).Run s₁ l₂ s₂)
    (hlife : ∀ e ∈ l₂, ¬LosesCounter normalize k e)
    (hroom : ∀ e ∈ l₁ ++ l₂, LeavesRoom settings normalize k e) :
    l₂.countP (verifiesWrong normalize k) ≤ settings.loginMaxAttempts ∧
      ∀ i a, s₂.attempts[i]? = some a → a.phase.ended →
        (∃ e ∈ l₁ ++ l₂, e.call = .verify i) ∨
          a.phase = .tooManyAttempts ∧ ∀ e ∈ l₁ ++ l₂, e.call ≠ .verify i := by
  have h := h₁.append h₂
  have hle := inPhase_le normalize s₂ k
  have hcounted := counted_le h hroom
  have hverified := verified_le h₂ hlife
  refine ⟨by omega, fun i a ha hend => ?_⟩
  have hv := (verifications_of_run h).iff i a ha
  cases hp : a.phase with
  | tooManyAttempts =>
    refine Or.inr ⟨rfl, fun e he hc => ?_⟩
    have hno := hv.mpr ⟨e, he, hc⟩
    rw [hp] at hno
    cases hno
  | invalidCredentials => exact Or.inl (hv.mp (by rw [hp]; rfl))
  | succeeded => exact Or.inl (hv.mp (by rw [hp]; rfl))
  | _ =>
    rw [hp] at hend
    cases hend

/-- The default settings, with passwords that are their own hashes. -/
abbrev plainMachine : Machine (State ℕ ℕ ℕ ℕ ℕ ℕ) (Call ℕ ℕ ℕ ℕ ℕ) (Reply ℕ) :=
  machine ⟨5, 900⟩ id (fun password hash => password == hash) 0

/-- An attempt with a wrong password, and the next one. -/
def oneFailureRun : List (Event ℕ ℕ ℕ ℕ ℕ ℕ) × State ℕ ℕ ℕ ℕ ℕ ℕ :=
  plainMachine.runOf (init 0 fun _ => some 7)
    [.check 1 2 3, .read 0, .verify 0, .incr 0, .expire 0, .check 1 2 4] (by decide)

theorem lockout_bound_oneFailureRun :
    oneFailureRun.1.countP (verifiesWrong id (1, 2)) ≤ 5 ∧
      ∀ i a, oneFailureRun.2.attempts[i]? = some a → a.phase.ended →
        (∃ e ∈ [] ++ oneFailureRun.1, e.call = .verify i) ∨
          a.phase = .tooManyAttempts ∧ ∀ e ∈ [] ++ oneFailureRun.1, e.call ≠ .verify i := by
  refine lockout_bound (Machine.Run.nil : plainMachine.Run (init 0 fun _ => some 7) [] _)
    (Machine.run_runOf plainMachine _ _ _) ?_ ?_
  · intro e he
    obtain ⟨⟨i, hi⟩, rfl⟩ := List.get_of_mem he
    match i, hi with
    | 0, _ => exact nofun
    | 1, _ => exact nofun
    | 2, _ => exact nofun
    | 3, _ => exact nofun
    | 4, _ => exact nofun
    | 5, _ => exact nofun
  · intro e he
    obtain ⟨⟨i, hi⟩, rfl⟩ := List.get_of_mem he
    match i, hi with
    | 0, _ => exact fun _ _ _ _ _ _ => of_decide_eq_true rfl
    | 1, _ => exact nofun
    | 2, _ => exact nofun
    | 3, _ => exact nofun
    | 4, _ => exact nofun
    | 5, _ => exact fun _ _ _ _ _ _ => of_decide_eq_true rfl

/-- Six attempts with wrong passwords that all pass the check before any of them is counted. -/
def parallelRun : List (Event ℕ ℕ ℕ ℕ ℕ ℕ) × State ℕ ℕ ℕ ℕ ℕ ℕ :=
  plainMachine.runOf (init 0 fun _ => some 7)
    (List.replicate 6 (.check 1 2 3) ++ (List.range 6).map .read ++ (List.range 6).map .verify)
    (by decide)

/-- Six parallel attempts have their wrong passwords verified, where five are allowed. -/
theorem lockout_exceeded : ¬∀ (l : List (Event ℕ ℕ ℕ ℕ ℕ ℕ)) (s : State ℕ ℕ ℕ ℕ ℕ ℕ),
    plainMachine.Run (init 0 fun _ => some 7) l s → (∀ e ∈ l, ¬LosesCounter id (1, 2) e) →
      l.countP (verifiesWrong id (1, 2)) ≤ 5 := by
  intro hall
  have hrun : plainMachine.Run (init 0 fun _ => some 7) parallelRun.1 parallelRun.2 :=
    Machine.run_runOf _ _ _ _
  have hcalls : ∀ e ∈ parallelRun.1, (match e.call with
      | .reset _ | .tick _ => false
      | _ => true) = true := by decide
  have hlife : ∀ e ∈ parallelRun.1, ¬LosesCounter id (1, 2) e := by
    intro e he hl
    have hcall := hcalls e he
    unfold LosesCounter at hl
    split at hl
    · rename_i hc
      rw [hc] at hcall
      cases hcall
    · rename_i hc
      rw [hc] at hcall
      cases hcall
    · exact hl
  exact absurd (hall _ _ hrun hlife) (by decide)

end LoginFailure
