import TaskManagement.RedisStore.Counters
import Mathlib.Algebra.Order.Group.Nat

/-!
# Do the counters expire, and what do they admit?

`counters_expire_and_admit`: in a state in which no call is between its two commands, a key without
a time to live was created by a call that lost its `EXPIRE`; and during the lifetime of a key, of
the calls that increment it, all up to the first `m` see a count of at most `m`.

* `string_step` says what one step does to a key;
* `Lifetime` are the events of a run from the creation of a key on, as long as the key is there;
* `counts_lifetime`: the counts of a lifetime are `1, 2, …`.
-/

namespace Counters

open LoginFailure (Keys getLoginFailureCount incr)
open Machine (Event)

variable {T I N A S V : Type} [AddCommMonoid T] [LinearOrder T]
variable [DecidableEq N] [DecidableEq A] [DecidableEq S] [DecidableEq V]
variable {normalize : I → N}

set_option linter.unusedSectionVars false

/-! ### Steps -/

/-- The key that a call increments. -/
def incrKey (normalize : I → N) : Call T I A S V → Option (Key N A S V)
  | .incrLoginFailure identifier clientIp _ => some (.loginFail (normalize identifier) clientIp)
  | .checkRateLimit scope value _ _ => some (.rateLimit scope value)
  | _ => none

/-- The count that a call sees of the key `k`. -/
def countOf (normalize : I → N) (k : Key N A S V)
    (e : Event (State T (Key N A S V)) (Call T I A S V) Reply) : Option ℕ :=
  match e.reply with
  | .count n => if incrKey normalize e.call = some k then some n else none
  | _ => none

variable {s s' : State T (Key N A S V)} {call : Call T I A S V} {r : Reply}
  {k : Key N A S V}

/-- `INCR` of a key, with its expiry. -/
theorem incr_string_self (keys : Keys T (Key N A S V)) (k : Key N A S V) :
    (incr keys k).string k =
      some ⟨getLoginFailureCount keys k + 1, (keys.string k).bind Entry.expiry⟩ := by
  refine keys.putString_string_self ?_
  rintro _ ⟨⟩
  cases h : keys.string k with
  | none => rfl
  | some e => exact keys.string_live k e h

theorem getLoginFailureCount_incr (keys : Keys T (Key N A S V)) (k : Key N A S V) :
    getLoginFailureCount (incr keys k) k = getLoginFailureCount keys k + 1 := by
  rw [getLoginFailureCount, Keyspace.get_of_some (incr_string_self keys k)]
  rfl

/-- After an `EXPIRE` the key has a time to live. -/
theorem expiry_of_expire {keys : Keys T (Key N A S V)} {k : Key N A S V} {window : T}
    {e : Entry T ℕ} (h : (keys.expire k window).string k = some e) : e.expiry ≠ none := by
  simp only [Keyspace.expire, Keyspace.putString, Function.update_self] at h
  obtain ⟨e₀, -, rfl⟩ := Option.map_eq_some_iff.mp (Option.filter_eq_some_iff.mp h).1
  exact Option.some_ne_none _

/-- What a step can do. -/
inductive StepCase (normalize : I → N) (s : State T (Key N A S V)) (call : Call T I A S V) :
    Reply → State T (Key N A S V) → Prop where
  | incr (k : Key N A S V) (window : T) (hk : incrKey normalize call = some k) :
    StepCase normalize s call (.count (getLoginFailureCount s.keys k + 1))
      { keys := LoginFailure.incr s.keys k
        callers := s.callers ++ [⟨k, window,
          if getLoginFailureCount s.keys k + 1 = 1 then .counted else .returned⟩] }
  | valueError : StepCase normalize s call .valueError s
  | expire (i : ℕ) (c : Caller (Key N A S V) T) (hi : s.callers[i]? = some c) :
    StepCase normalize s call .done
      { keys := s.keys.expire c.key c.window
        callers := s.callers.set i { c with phase := .returned } }
  | lost (i : ℕ) (c : Caller (Key N A S V) T) (hi : s.callers[i]? = some c) :
    StepCase normalize s call .done
      { s with callers := s.callers.set i { c with phase := .lost } }
  | reset (k : Key N A S V) : StepCase normalize s call .done { s with keys := s.keys.del k }
  | tick (d : T) : StepCase normalize s call .done { s with keys := s.keys.advance d }

theorem stepCase_increment {window : T} (hk : incrKey normalize call = some k)
    (h : increment s k window = (r, s')) : StepCase normalize s call r s' := by
  unfold increment at h
  split_ifs at h
  · obtain ⟨rfl, rfl⟩ := Prod.mk.inj h
    rw [getLoginFailureCount_incr]
    exact .incr k window hk
  · obtain ⟨rfl, rfl⟩ := Prod.mk.inj h
    exact .valueError

theorem settle_eq_some {i : ℕ} {keys : Caller (Key N A S V) T → Keys T (Key N A S V)}
    {phase : Phase} (h : settle s i keys phase = some (r, s')) :
    ∃ c, s.callers[i]? = some c ∧ r = .done ∧
      s' = { keys := keys c, callers := s.callers.set i { c with phase := phase } } := by
  obtain ⟨c, hc, h⟩ := Option.bind_eq_some_iff.mp h
  split_ifs at h
  obtain ⟨rfl, rfl⟩ := Prod.mk.inj (Option.some.inj h)
  exact ⟨c, hc, rfl, rfl⟩

theorem step_cases (h : (machine normalize).step s call = some (r, s')) :
    StepCase normalize s call r s' := by
  cases call with
  | incrLoginFailure identifier clientIp window =>
    exact stepCase_increment rfl (Option.some.inj h)
  | checkRateLimit scope value maxRequests window =>
    have h' := Option.some.inj h
    split_ifs at h'
    · obtain ⟨rfl, rfl⟩ := Prod.mk.inj h'
      exact .valueError
    · exact stepCase_increment rfl h'
  | expire i =>
    obtain ⟨c, hc, rfl, rfl⟩ := settle_eq_some h
    exact .expire i c hc
  | expireFails i =>
    obtain ⟨c, hc, rfl, rfl⟩ := settle_eq_some h
    exact .lost i c hc
  | crash i =>
    obtain ⟨c, hc, rfl, rfl⟩ := settle_eq_some h
    exact .lost i c hc
  | resetLoginFailure identifier clientIp =>
    obtain ⟨rfl, rfl⟩ := Prod.mk.inj (Option.some.inj h)
    exact .reset _
  | tick d =>
    simp only [machine] at h
    split_ifs at h
    obtain ⟨rfl, rfl⟩ := Prod.mk.inj (Option.some.inj h)
    exact .tick d

/-- What a step does to a key: an `INCR` answers the next count, and the other commands keep the
value of a key that stays, and its expiry. -/
theorem string_step (h : StepCase normalize s call r s') (k : Key N A S V) :
    (countOf normalize k ⟨s, call, r⟩ = some (getLoginFailureCount s.keys k + 1) ∧
      s'.keys.string k =
        some ⟨getLoginFailureCount s.keys k + 1, (s.keys.string k).bind Entry.expiry⟩) ∨
    (countOf normalize k ⟨s, call, r⟩ = none ∧
      ∀ e', s'.keys.string k = some e' → ∃ e, s.keys.string k = some e ∧ e'.value = e.value ∧
        (e'.expiry = none → e.expiry = none)) := by
  have hsame : ∀ e', s.keys.string k = some e' → ∃ e, s.keys.string k = some e ∧
      e'.value = e.value ∧ (e'.expiry = none → e.expiry = none) :=
    fun e' he' => ⟨e', he', rfl, id⟩
  cases h with
  | incr k' window hk =>
    by_cases hkk : k' = k
    · subst hkk
      exact Or.inl ⟨if_pos hk, incr_string_self s.keys k'⟩
    · refine Or.inr ⟨if_neg fun h => hkk (Option.some.inj (hk.symm.trans h)), fun e' he' => ?_⟩
      rw [LoginFailure.incr, Keyspace.putString_string_of_ne _ (Ne.symm hkk)] at he'
      exact hsame e' he'
  | valueError => exact Or.inr ⟨rfl, hsame⟩
  | expire i c hi =>
    refine Or.inr ⟨rfl, fun e' he' => ?_⟩
    by_cases hck : k = c.key
    · subst hck
      obtain ⟨e, he, hv⟩ := Keyspace.expire_string_value _ _ he'
      -- `EXPIRE` keeps the value and sets an expiry
      exact ⟨e, he, hv.symm, fun hn => absurd hn (expiry_of_expire he')⟩
    · rw [Keyspace.expire_string_of_ne _ _ hck] at he'
      exact hsame e' he'
  | lost i c hi => exact Or.inr ⟨rfl, hsame⟩
  | reset k' =>
    refine Or.inr ⟨rfl, fun e' he' => ?_⟩
    by_cases hkk : k = k'
    · subst hkk
      rw [Keyspace.del_string_self] at he'
      cases he'
    · rw [Keyspace.del_string_of_ne _ hkk] at he'
      exact hsame e' he'
  | tick d =>
    exact Or.inr ⟨rfl, fun e' he' => hsame e' ((Keyspace.advance_string_eq_some _ _).mp he').1⟩

/-! ### Lifetimes -/

/-- `e` creates the key `k`, and the key is there whenever one of the events `l` begins. -/
structure Lifetime (normalize : I → N) (k : Key N A S V)
    (e : Event (State T (Key N A S V)) (Call T I A S V) Reply)
    (l : List (Event (State T (Key N A S V)) (Call T I A S V) Reply)) : Prop where
  absent : e.pre.keys.string k = none
  counts : (countOf normalize k e).isSome
  lives : ∀ e' ∈ l, e'.pre.keys.string k ≠ none

variable {e : Event (State T (Key N A S V)) (Call T I A S V) Reply}
  {l l₁ l₂ : List (Event (State T (Key N A S V)) (Call T I A S V) Reply)} {now : T}

theorem Lifetime.snoc (h : Lifetime normalize k e l)
    {e' : Event (State T (Key N A S V)) (Call T I A S V) Reply}
    (he' : e'.pre.keys.string k ≠ none) : Lifetime normalize k e (l ++ [e']) where
  absent := h.absent
  counts := h.counts
  lives e'' h'' := by
    rcases List.mem_append.mp h'' with h'' | h''
    · exact h.lives e'' h''
    · obtain rfl := List.mem_singleton.mp h''
      exact he'

/-! ### Keys without a time to live -/

/-- The key `k` was created by a call that has not made its `EXPIRE`; the callers are numbered. -/
def Owed (normalize : I → N)
    (l : List (Event (State T (Key N A S V)) (Call T I A S V) Reply)) (s : State T (Key N A S V))
    (k : Key N A S V) : Prop :=
  ∃ l₁ e l₂ c, l = l₁ ++ e :: l₂ ∧ Lifetime normalize k e l₂ ∧
    s.callers[e.pre.callers.length]? = some c ∧ c.key = k ∧ c.phase ≠ .returned

/-- A step that keeps the key keeps what its creator owes, or makes up for it. -/
theorem Owed.step (h : Owed normalize l s k) (hst : StepCase normalize s call r s')
    {x x' : Entry T ℕ} (hx : s.keys.string k = some x) (hx' : s'.keys.string k = some x')
    (hn : x'.expiry = none) : Owed normalize (l ++ [⟨s, call, r⟩]) s' k := by
  obtain ⟨l₁, e, l₂, c, rfl, hlife, hc, hck, hphase⟩ := h
  have hlife' : Lifetime normalize k e (l₂ ++ [⟨s, call, r⟩]) :=
    hlife.snoc (by rw [hx]; exact Option.some_ne_none x)
  -- the creator of the key has not returned yet
  suffices hc' : ∃ c', s'.callers[e.pre.callers.length]? = some c' ∧ c'.key = k ∧
      c'.phase ≠ .returned by
    obtain ⟨c', hc'⟩ := hc'
    exact ⟨l₁, e, _, c', by rw [List.append_assoc, List.cons_append], hlife', hc'⟩
  have hset : ∀ {i c₀ phase}, s.callers[i]? = some c₀ → i = e.pre.callers.length →
      (s.callers.set i { c₀ with phase := phase })[e.pre.callers.length]? =
        some { c with phase := phase } := by
    rintro i c₀ phase hi rfl
    obtain rfl := Option.some.inj (hi.symm.trans hc)
    exact List.getElem?_set_self (List.getElem?_eq_some_iff.mp hc).1
  cases hst with
  | incr k' window hk =>
    exact ⟨c, (List.getElem?_append_left (List.getElem?_eq_some_iff.mp hc).1).trans hc, hck, hphase⟩
  | valueError => exact ⟨c, hc, hck, hphase⟩
  | expire i c₀ hi =>
    by_cases hie : i = e.pre.callers.length
    · subst hie
      obtain rfl := Option.some.inj (hi.symm.trans hc)
      rw [hck] at hx'
      -- the `EXPIRE` of the creator sets an expiry
      exact absurd hn (expiry_of_expire hx')
    · exact ⟨c, (List.getElem?_set_ne hie).trans hc, hck, hphase⟩
  | lost i c₀ hi =>
    by_cases hie : i = e.pre.callers.length
    · exact ⟨_, hset hi hie, hck, nofun⟩
    · exact ⟨c, (List.getElem?_set_ne hie).trans hc, hck, hphase⟩
  | reset k' => exact ⟨c, hc, hck, hphase⟩
  | tick d => exact ⟨c, hc, hck, hphase⟩

/-- The creation of a key. -/
theorem owed_of_create (hst : StepCase normalize s call r s')
    (hcount : countOf normalize k ⟨s, call, r⟩ = some (getLoginFailureCount s.keys k + 1))
    (hnone : s.keys.string k = none) : Owed normalize (l ++ [⟨s, call, r⟩]) s' k := by
  cases hst with
  | incr k' window hk =>
    have hkk : k' = k := by
      by_contra hkk
      have hno : countOf normalize k ⟨s, call, .count (getLoginFailureCount s.keys k' + 1)⟩ =
          none := if_neg fun h => hkk (Option.some.inj (hk.symm.trans h))
      rw [hno] at hcount
      cases hcount
    subst hkk
    have hzero : getLoginFailureCount s.keys k' = 0 := by
      rw [getLoginFailureCount, Keyspace.get_of_none hnone]
      rfl
    refine ⟨l, _, [], _, rfl, ⟨hnone, ?_, fun _ h => absurd h List.not_mem_nil⟩,
      List.getElem?_concat_length, rfl, ?_⟩
    · rw [hcount]
      rfl
    · rw [hzero]
      nofun
  | _ => cases hcount

/-- A key without a time to live is owed one by the call that created it. -/
theorem owed_of_run (h : (machine normalize).Run (init now) l s) :
    ∀ k x, s.keys.string k = some x → x.expiry = none → Owed normalize l s k := by
  refine Machine.Run.induction
    (fun l s => ∀ k x, s.keys.string k = some x → x.expiry = none → Owed normalize l s k) h
    (fun k x hx => nomatch hx) fun l s call r s' _ ih hstep k x' hx' hn => ?_
  have hcase := step_cases hstep
  rcases string_step hcase k with ⟨hcount, hstr⟩ | ⟨-, hkeep⟩
  · cases hx : s.keys.string k with
    | none => exact owed_of_create hcase hcount hx
    | some x =>
      obtain rfl := Option.some.inj (hx'.symm.trans hstr)
      rw [hx] at hn
      exact (ih k x hx hn).step hcase hx hx' (by rw [hx]; exact hn)
  · obtain ⟨x, hx, -, hexp⟩ := hkeep x' hx'
    exact (ih k x hx (hexp hn)).step hcase hx hx' hn

/-! ### The counts of a lifetime -/

/-- The counts that the calls of a run see of the key `k`. -/
def counts (normalize : I → N) (k : Key N A S V)
    (l : List (Event (State T (Key N A S V)) (Call T I A S V) Reply)) : List ℕ :=
  l.filterMap (countOf normalize k)

/-- As long as the key is there, the counts go up by one from its value. -/
theorem counts_of_lives (h : (machine normalize).Run s l s') {x : Entry T ℕ}
    (hx : s.keys.string k = some x) (hlives : ∀ e ∈ l, e.pre.keys.string k ≠ none) :
    counts normalize k l = List.range' (x.value + 1) (counts normalize k l).length ∧
      ∀ x', s'.keys.string k = some x' →
        x'.value = x.value + (counts normalize k l).length := by
  refine Machine.Run.induction (fun l s' => (∀ e ∈ l, e.pre.keys.string k ≠ none) →
    counts normalize k l = List.range' (x.value + 1) (counts normalize k l).length ∧
      ∀ x', s'.keys.string k = some x' → x'.value = x.value + (counts normalize k l).length) h
    (fun _ => ⟨rfl, fun x' hx' => ?_⟩) (fun l s₁ call r s₂ _ ih hstep hlives => ?_) hlives
  · obtain rfl := Option.some.inj (hx.symm.trans hx')
    rfl
  · obtain ⟨hrange, hvalue⟩ := ih fun e he => hlives e (List.mem_append_left _ he)
    obtain ⟨x₁, hx₁⟩ := Option.ne_none_iff_exists'.mp
      (hlives ⟨s₁, call, r⟩ (List.mem_append_right _ List.mem_cons_self))
    have hv₁ := hvalue x₁ hx₁
    have hcount₁ : getLoginFailureCount s₁.keys k = x₁.value := by
      rw [getLoginFailureCount, Keyspace.get_of_some hx₁]
      rfl
    unfold counts at hrange hv₁ ⊢
    rw [List.filterMap_append, List.length_append]
    rcases string_step (step_cases hstep) k with ⟨hcount, hstr⟩ | ⟨hcount, hkeep⟩
    · -- an `INCR` of the key answers the next count
      have hone : [⟨s₁, call, r⟩].filterMap (countOf normalize k) = [x₁.value + 1] := by
        rw [List.filterMap_cons_some hcount, hcount₁]
        rfl
      rw [hone]
      refine ⟨?_, fun x' hx' => ?_⟩
      · rw [List.length_singleton, List.range'_concat, ← hrange, hv₁, Nat.one_mul,
          Nat.add_right_comm]
      · obtain rfl := Option.some.inj (hx'.symm.trans hstr)
        rw [hcount₁, hv₁, List.length_singleton, Nat.add_assoc]
    · have hone : [⟨s₁, call, r⟩].filterMap (countOf normalize k) = [] :=
        List.filterMap_cons_none hcount
      rw [hone, List.append_nil, List.length_nil, Nat.add_zero]
      refine ⟨hrange, fun x' hx' => ?_⟩
      obtain ⟨x, hx, hv, -⟩ := hkeep x' hx'
      obtain rfl := Option.some.inj (hx.symm.trans hx₁)
      exact hv.trans hv₁

theorem counts_lifetime (h : (machine normalize).Run (init now) (l₁ ++ e :: l₂) s)
    (hlife : Lifetime normalize k e l₂) :
    counts normalize k (e :: l₂) = List.range' 1 (counts normalize k (e :: l₂)).length := by
  obtain ⟨-, s₁, hstep, hrun⟩ := h.split
  have hzero : getLoginFailureCount e.pre.keys k = 0 := by
    rw [getLoginFailureCount, Keyspace.get_of_none hlife.absent]
    rfl
  rcases string_step (step_cases hstep) k with ⟨hcount, hstr⟩ | ⟨hcount, -⟩
  · obtain ⟨hrange, -⟩ := counts_of_lives hrun hstr hlife.lives
    rw [hzero] at hcount hrange
    have hcons : counts normalize k (e :: l₂) = 1 :: counts normalize k l₂ :=
      List.filterMap_cons_some hcount
    rw [hcons, List.length_cons, List.range'_succ, ← hrange]
  · have hcounts := hlife.counts
    rw [show e = ⟨e.pre, e.call, e.reply⟩ from rfl, hcount] at hcounts
    cases hcounts

/-- Of the numbers `1, …, n`, the first `m` are at most `m`. -/
theorem countP_le_range' (m n : ℕ) :
    (List.range' 1 n).countP (fun x => decide (x ≤ m)) = min n m := by
  induction n with
  | zero => exact (Nat.zero_min m).symm
  | succ n ih =>
    rw [List.range'_concat, List.countP_append, ih, List.countP_singleton]
    split_ifs with h
    · have hle : 1 + 1 * n ≤ m := of_decide_eq_true h
      omega
    · have hlt : ¬1 + 1 * n ≤ m := of_decide_eq_false (Bool.eq_false_iff.mpr h)
      omega

/-! ### The counters -/

/-- **When the counters expire, and what they admit.** -/
theorem counters_expire_and_admit
    (h : (machine (T := T) (A := A) (S := S) (V := V) normalize).Run (init now) l s) :
    ((∀ c ∈ s.callers, c.phase ≠ .counted) → ∀ k x, s.keys.string k = some x → x.expiry = none →
      ∃ l₁ e l₂ c, l = l₁ ++ e :: l₂ ∧ Lifetime normalize k e l₂ ∧
        s.callers[e.pre.callers.length]? = some c ∧ c.key = k ∧ c.phase = .lost) ∧
    ∀ l₁ e l₂ scope value, l = l₁ ++ e :: l₂ → Lifetime normalize (.rateLimit scope value) e l₂ →
      ∀ maxRequests : ℕ,
        (counts normalize (.rateLimit scope value) (e :: l₂)).countP
            (fun count => decide (count ≤ maxRequests)) =
          min (counts normalize (.rateLimit scope value) (e :: l₂)).length maxRequests := by
  constructor
  · intro hidle k x hx hn
    obtain ⟨l₁, e, l₂, c, hl, hlife, hc, hck, hphase⟩ := owed_of_run h k x hx hn
    refine ⟨l₁, e, l₂, c, hl, hlife, hc, hck, ?_⟩
    have hcounted := hidle c (List.mem_of_getElem? hc)
    cases hp : c.phase with
    | counted => exact absurd hp hcounted
    | returned => exact absurd hp hphase
    | lost => rfl
  · rintro l₁ e l₂ scope value rfl hlife maxRequests
    rw [counts_lifetime h hlife, countP_le_range', List.length_range']

/-! ### A call that crashes -/

/-- The calls with numbers for identifiers, addresses, scopes and values. -/
abbrev numbered : Machine (State ℕ (Key ℕ ℕ ℕ ℕ)) (Call ℕ ℕ ℕ ℕ ℕ) Reply := machine id

def requests : List (Call ℕ ℕ ℕ ℕ ℕ) :=
  [.checkRateLimit 1 2 2 60, .expire 0, .checkRateLimit 1 2 2 60, .checkRateLimit 1 2 2 60]

theorem counters_expire_and_admit_requests :
    (counts id (.rateLimit 1 2) (numbered.runOf (init 0) requests (by decide)).1).countP
      (fun count => decide (count ≤ 2)) = 2 := by
  obtain ⟨-, hadmit⟩ := counters_expire_and_admit
    (Machine.run_runOf numbered (init 0) requests (by decide))
  exact hadmit [] _ _ 1 2 rfl ⟨rfl, rfl, by decide⟩ 2

/-- The caller crashes after its `INCR`. -/
def crashed : State ℕ (Key ℕ ℕ ℕ ℕ) :=
  (numbered.runOf (init 0) [.checkRateLimit 1 2 2 60, .crash 0] (by decide)).2

/-- No call is between its two commands, and the key stays for ever. -/
theorem counter_without_expiry :
    (∃ l, numbered.Run (init 0) l crashed) ∧ (∀ c ∈ crashed.callers, c.phase ≠ .counted) ∧
      crashed.keys.string (.rateLimit 1 2) = some ⟨1, none⟩ ∧
      ∀ d, (crashed.keys.advance d).string (.rateLimit 1 2) = some ⟨1, none⟩ :=
  ⟨⟨_, Machine.run_runOf _ _ _ _⟩, by decide, rfl, fun _ => rfl⟩

end Counters
