import Mathlib.Data.List.Basic
import Mathlib.Order.Lattice
import Mathlib.Tactic.Common

/-!
# Time zones

A time zone is a history of its offset from UTC: constant but for transitions at increasing
instants.  Instants, local times and offsets are integers of one unit.

* `offsetAt`, `localTime`: the offset at an instant, and what the local clock shows there;
* `localOffset`: the offset at which a local time is read, with the search that `zoneinfo` makes for
  `fold=0`: the wall times of the transitions are searched by `bisectRight`, and a wall time is that
  of the later reading of its transition;
* `Crosses`: a transition jumps over a local time or back behind it;
* `localTime_lt_iff`: the clock passes a local time that no transition crosses once, at the instant
  that `localOffset` gives;
* `reads_iff`: for a regular zone and two local times a day or more apart, the instants between the
  two readings are those with a local time in between exactly if no transition crosses either.
-/

namespace TimeZone

/-- From `instant` on, the offset is `offset`. -/
structure Transition where
  instant : ℤ
  offset : ℤ
deriving DecidableEq, Repr

/-- The offset before every transition, and the transitions. -/
structure History where
  initial : ℤ
  transitions : List Transition
  sorted : transitions.Pairwise fun t t' => t.instant < t'.instant

/-- A zone that has kept one offset has no transitions. -/
theorem noTransitions_sorted :
    List.Pairwise (fun t t' : Transition => t.instant < t'.instant) [] :=
  .nil

/-! ### Bisection -/

/-- The loop of `bisect_right`. -/
def bisectFrom (l : List ℤ) (x : ℤ) : ℕ → ℕ → ℕ → ℕ
  | 0, lo, _ => lo
  | fuel + 1, lo, hi =>
    if lo < hi then
      let mid := (lo + hi) / 2
      if (l[mid]?).any fun v => decide (x < v) then bisectFrom l x fuel lo mid
      else bisectFrom l x fuel (mid + 1) hi
    else lo

/-- `bisect_right(l, x)` -/
def bisectRight (l : List ℤ) (x : ℤ) : ℕ := bisectFrom l x l.length 0 l.length

/-! ### Offsets -/

/-- The offset at the instant `u`, if it is `o` before the transitions `l`. -/
def offsetFrom (o : ℤ) : List Transition → ℤ → ℤ
  | [], _ => o
  | t :: l, u => if u < t.instant then o else offsetFrom t.offset l u

/-- The wall times at which the transitions are over. -/
def wallTimes (o : ℤ) : List Transition → List ℤ
  | [] => []
  | t :: l => (t.instant + max o t.offset) :: wallTimes t.offset l

/-- The offset after the first `k` transitions. -/
def offsetAfter (o : ℤ) (l : List Transition) : ℕ → ℤ
  | 0 => o
  | k + 1 => (l[k]?).elim o Transition.offset

namespace History

variable (h : History)

def offsetAt (u : ℤ) : ℤ := offsetFrom h.initial h.transitions u

/-- What the local clock shows at the instant `u`. -/
def localTime (u : ℤ) : ℤ := u + h.offsetAt u

/-- The offset at which the local time `v` is read. -/
def localOffset (v : ℤ) : ℤ :=
  let walls := wallTimes h.initial h.transitions
  if walls.head?.any fun first => decide (v < first) then h.initial
  else if walls.getLast?.all fun last => decide (last < v) then
    offsetAfter h.initial h.transitions walls.length
  else offsetAfter h.initial h.transitions (bisectRight walls v)

/-- The instant as which the local time `v` is read. -/
def readLocal (v : ℤ) : ℤ := v - h.localOffset v

end History

/-- A transition jumps over the local time `v`, or from a later to an earlier one. -/
def CrossesFrom (o : ℤ) : List Transition → ℤ → Prop
  | [], _ => False
  | t :: l, v => (t.instant + min o t.offset < v ∧ v < t.instant + max o t.offset) ∨
      CrossesFrom t.offset l v

/-- The transitions change the offset by at most `day`, and the local times that one of them skips
or repeats come before those of the next. -/
def RegularFrom (day o : ℤ) : List Transition → Prop
  | [] => True
  | t :: l => max o t.offset ≤ min o t.offset + day ∧
      (∀ t' ∈ l.head?, t.instant + max o t.offset ≤ t'.instant + min t.offset t'.offset) ∧
      RegularFrom day t.offset l

namespace History

variable (h : History)

def Crosses (v : ℤ) : Prop := CrossesFrom h.initial h.transitions v

def Regular (day : ℤ) : Prop := RegularFrom day h.initial h.transitions

/-- Every offset is smaller than `day`. -/
def Bounded (day : ℤ) : Prop :=
  (-day < h.initial ∧ h.initial < day) ∧ ∀ t ∈ h.transitions, -day < t.offset ∧ t.offset < day

end History

/-! ### Prefixes -/

section Prefix

variable {l : List ℤ} {x : ℤ}

/-- The elements up to `x` come first. -/
abbrev PrefixTo (l : List ℤ) (x : ℤ) : Prop := l.Pairwise fun a b => b ≤ x → a ≤ x

theorem countP_eq_zero {a : ℤ} (hl : PrefixTo (a :: l) x) (ha : ¬a ≤ x) :
    l.countP (fun b => decide (b ≤ x)) = 0 := by
  rw [List.countP_eq_zero]
  intro b hb hle
  exact ha ((List.pairwise_cons.mp hl).1 b hb (of_decide_eq_true hle))

/-- Which elements are among those up to `x`. -/
theorem le_iff_lt_countP (hl : PrefixTo l x) {i : ℕ} {v : ℤ} (hv : l[i]? = some v) :
    v ≤ x ↔ i < l.countP fun b => decide (b ≤ x) := by
  induction l generalizing i with
  | nil => simp at hv
  | cons a l ih =>
    have hl' := (List.pairwise_cons.mp hl).2
    rw [List.countP_cons]
    by_cases ha : a ≤ x
    · rw [if_pos (decide_eq_true ha)]
      cases i with
      | zero =>
        obtain rfl := Option.some.inj hv
        exact ⟨fun _ => Nat.succ_pos _, fun _ => ha⟩
      | succ i => rw [ih hl' hv, Nat.succ_lt_succ_iff]
    · rw [if_neg (by simpa using ha), countP_eq_zero hl ha]
      refine ⟨fun hle => ?_, fun h => absurd h (Nat.not_lt_zero i)⟩
      cases i with
      | zero =>
        obtain rfl := Option.some.inj hv
        exact absurd hle ha
      | succ i =>
        exact absurd ((List.pairwise_cons.mp hl).1 v (List.mem_of_getElem? hv) hle) ha

/-- The loop ends at the first element that is greater than `x`. -/
theorem bisectFrom_eq (hl : PrefixTo l x) {fuel lo hi : ℕ} (hfuel : hi ≤ lo + fuel)
    (hhi : hi ≤ l.length) (h₁ : lo ≤ l.countP fun b => decide (b ≤ x))
    (h₂ : l.countP (fun b => decide (b ≤ x)) ≤ hi) :
    bisectFrom l x fuel lo hi = l.countP fun b => decide (b ≤ x) := by
  induction fuel generalizing lo hi with
  | zero =>
    rw [bisectFrom]
    omega
  | succ fuel ih =>
    rw [bisectFrom]
    split
    · rename_i hlt
      have hmid : (lo + hi) / 2 < l.length := by omega
      have hv := List.getElem?_eq_getElem hmid
      have hiff := le_iff_lt_countP hl hv
      simp only [hv, Option.any_some, decide_eq_true_iff]
      split
      · rename_i hgt
        have hcount : ¬(lo + hi) / 2 < l.countP fun b => decide (b ≤ x) := by
          rw [← hiff]
          exact not_le.mpr hgt
        exact ih (by omega) (by omega) h₁ (by omega)
      · rename_i hgt
        have hcount := hiff.mp (not_lt.mp hgt)
        exact ih (by omega) hhi (by omega) h₂
    · omega

theorem bisectRight_eq (hl : PrefixTo l x) :
    bisectRight l x = l.countP fun b => decide (b ≤ x) :=
  bisectFrom_eq hl (by omega) le_rfl (Nat.zero_le _) List.countP_le_length

end Prefix

/-! ### Reading a local time -/

section Walk

variable {o : ℤ} {l : List Transition} {v : ℤ}

/-- The offset at which the local time `v` is read when the wall times are searched in order. -/
def readFrom (o : ℤ) : List Transition → ℤ → ℤ
  | [], _ => o
  | t :: l, v => if v < t.instant + max o t.offset then o else readFrom t.offset l v

@[simp] theorem wallTimes_length (o : ℤ) (l : List Transition) :
    (wallTimes o l).length = l.length := by
  induction l generalizing o with
  | nil => rfl
  | cons t l ih => rw [wallTimes, List.length_cons, ih, List.length_cons]

theorem offsetAfter_cons (o : ℤ) (t : Transition) {k : ℕ} (hk : k ≤ l.length) :
    offsetAfter o (t :: l) (k + 1) = offsetAfter t.offset l k := by
  cases k with
  | zero => rfl
  | succ k =>
    have hlt : k < l.length := hk
    simp only [offsetAfter, List.getElem?_cons_succ, List.getElem?_eq_getElem hlt, Option.elim_some]

/-- While the wall times up to `v` come first, both searches give the same. -/
theorem offsetAfter_countP (hl : PrefixTo (wallTimes o l) v) :
    offsetAfter o l ((wallTimes o l).countP fun w => decide (w ≤ v)) = readFrom o l v := by
  induction l generalizing o with
  | nil => rfl
  | cons t l ih =>
    rw [readFrom, wallTimes]
    split
    · rename_i hlt
      rw [List.countP_cons_of_neg (by simpa using hlt), countP_eq_zero hl (not_le.mpr hlt)]
      rfl
    · rename_i hle
      rw [List.countP_cons_of_pos (by simpa using not_lt.mp hle), offsetAfter_cons, ih]
      · exact (List.pairwise_cons.mp hl).2
      · exact List.countP_le_length.trans (wallTimes_length _ l).le

theorem History.localOffset_eq (h : History) (hl : PrefixTo (wallTimes h.initial h.transitions) v) :
    h.localOffset v = readFrom h.initial h.transitions v := by
  rw [← offsetAfter_countP hl, History.localOffset]
  cases hw : wallTimes h.initial h.transitions with
  | nil => rfl
  | cons first rest =>
    rw [hw] at hl
    simp only [List.head?_cons, Option.any_some, decide_eq_true_iff]
    split
    · rename_i hlt
      rw [List.countP_cons_of_neg (by simpa using hlt), countP_eq_zero hl (not_le.mpr hlt)]
      rfl
    · split
      · rename_i hlast
        -- the last wall time is not later than `v`, and so all are
        have hget : (first :: rest)[rest.length]? = (first :: rest).getLast? := by
          rw [List.getLast?_eq_getElem?, List.length_cons, Nat.add_sub_cancel]
        obtain ⟨last, hl'⟩ : ∃ last, (first :: rest).getLast? = some last :=
          ⟨_, List.getLast?_eq_some_getLast (List.cons_ne_nil _ _)⟩
        rw [hl', Option.all_some, decide_eq_true_iff] at hlast
        have hcount := (le_iff_lt_countP hl (hget.trans hl')).mp hlast.le
        have hle := List.countP_le_length (p := fun w => decide (w ≤ v)) (l := first :: rest)
        rw [List.length_cons] at hle ⊢
        rw [show List.countP (fun w => decide (w ≤ v)) (first :: rest) = rest.length + 1 by omega]
      · rw [bisectRight_eq hl]

/-! ### Local times that no transition crosses -/

/-- The transitions `l` come after the instant `s`, in order. -/
def After (s : ℤ) (l : List Transition) : Prop :=
  (∀ t ∈ l, s < t.instant) ∧ l.Pairwise fun t t' => t.instant < t'.instant

theorem After.cons {s : ℤ} {t : Transition} (hl : After s (t :: l)) :
    s < t.instant ∧ After t.instant l :=
  ⟨hl.1 t List.mem_cons_self, List.pairwise_cons.mp hl.2⟩

/-- Every offset is the first one or that of a transition. -/
theorem offsetFrom_cases (o u : ℤ) (l : List Transition) :
    offsetFrom o l u = o ∨ ∃ t ∈ l, offsetFrom o l u = t.offset := by
  induction l generalizing o with
  | nil => exact .inl rfl
  | cons t l ih =>
    rw [offsetFrom]
    split_ifs with h
    · exact .inl rfl
    · rcases ih t.offset with heq | ⟨t', ht', heq⟩
      · exact .inr ⟨t, List.mem_cons_self, heq⟩
      · exact .inr ⟨t', List.mem_cons_of_mem t ht', heq⟩

theorem offsetFrom_of_lt {s u : ℤ} (hl : After s l) (hu : u ≤ s) : offsetFrom o l u = o := by
  cases l with
  | nil => rfl
  | cons t l => rw [offsetFrom, if_pos (hu.trans_lt hl.cons.1)]

/-- When the clock has passed `v`, it stays behind it. -/
theorem le_of_not_crosses {s : ℤ} (hl : After s l) (hc : ¬CrossesFrom o l v) (hv : v ≤ s + o) :
    (∀ w ∈ wallTimes o l, v < w) ∧ ∀ u, s ≤ u → v ≤ u + offsetFrom o l u := by
  induction l generalizing o s with
  | nil =>
    refine ⟨fun w hw => absurd hw List.not_mem_nil, fun u hu => ?_⟩
    rw [offsetFrom]
    omega
  | cons t l ih =>
    obtain ⟨hs, hl'⟩ := hl.cons
    obtain ⟨hwindow, hc'⟩ := not_or.mp hc
    obtain ⟨hw, hu⟩ := ih hl' hc' (by omega)
    refine ⟨fun w hmem => ?_, fun u hsu => ?_⟩
    · rcases List.mem_cons.mp hmem with rfl | hmem
      · omega
      · exact hw w hmem
    · rw [offsetFrom]
      split
      · omega
      · exact hu u (by omega)

/-- The clock passes a local time that no transition crosses once, at the instant as which it is
read. -/
theorem lt_iff_of_not_crosses (hl : l.Pairwise fun t t' => t.instant < t'.instant)
    (hc : ¬CrossesFrom o l v) : PrefixTo (wallTimes o l) v ∧
      ∀ u, u + offsetFrom o l u < v ↔ u < v - readFrom o l v := by
  induction l generalizing o with
  | nil =>
    refine ⟨List.Pairwise.nil, fun u => ?_⟩
    rw [offsetFrom, readFrom]
    omega
  | cons t l ih =>
    have hl' : After t.instant l := List.pairwise_cons.mp hl
    obtain ⟨hwindow, hc'⟩ := not_or.mp hc
    obtain ⟨hfront, hlt⟩ := ih hl'.2 hc'
    rw [wallTimes]
    by_cases hv : v < t.instant + max o t.offset
    · obtain ⟨hw, hu⟩ := le_of_not_crosses hl' hc' (by omega)
      refine ⟨List.pairwise_cons.mpr ⟨fun w hmem hle => ?_, hfront⟩, fun u => ?_⟩
      · exact absurd hle (not_le.mpr (hw w hmem))
      · rw [offsetFrom, readFrom, if_pos hv]
        split
        · omega
        · have := hu u (by omega)
          omega
    · refine ⟨List.pairwise_cons.mpr ⟨fun _ _ _ => not_lt.mp hv, hfront⟩, fun u => ?_⟩
      rw [offsetFrom, readFrom, if_neg hv]
      split
      · rename_i hut
        -- before the transition, the clock is behind `v` with either offset
        have hu := (hlt u).mp
        rw [offsetFrom_of_lt hl' hut.le] at hu
        omega
      · exact hlt u

/-! ### Local times that a transition crosses -/

section Regular

variable {day : ℤ}

theorem RegularFrom.wallTimes_le {t : Transition} (hr : RegularFrom day o (t :: l)) :
    ∀ w ∈ wallTimes t.offset l, t.instant + max o t.offset ≤ w := by
  induction l generalizing o t with
  | nil => exact fun w hw => absurd hw List.not_mem_nil
  | cons t' l ih =>
    obtain ⟨-, hnext, hr'⟩ := hr
    have hle := hnext t' rfl
    intro w hw
    rcases List.mem_cons.mp hw with rfl | hw
    · omega
    · have := ih hr' w hw
      omega

theorem RegularFrom.prefixTo (hr : RegularFrom day o l) (v : ℤ) : PrefixTo (wallTimes o l) v := by
  induction l generalizing o with
  | nil => exact List.Pairwise.nil
  | cons t l ih =>
    exact List.pairwise_cons.mpr ⟨fun w hw hle => (hr.wallTimes_le w hw).trans hle, ih hr.2.2⟩

/-- A local time that a transition crosses comes after the start of the first window. -/
theorem RegularFrom.lt_of_crosses (hr : RegularFrom day o l) (hc : CrossesFrom o l v) :
    ∀ t ∈ l.head?, t.instant + min o t.offset < v := by
  induction l generalizing o with
  | nil => exact hc.elim
  | cons t l ih =>
    rintro t' ⟨⟩
    rcases hc with hwindow | hc
    · exact hwindow.1
    · have hlt := ih hr.2.2 hc
      cases l with
      | nil => exact hc.elim
      | cons t' l =>
        have := hlt t' rfl
        have := hr.2.1 t' rfl
        omega

/-- After a transition the clock does not go back behind the time that it shows then. -/
theorem RegularFrom.le_of_le {s : ℤ} (hr : RegularFrom day o l) (hl : After s l)
    (hfirst : ∀ t ∈ l.head?, s + o ≤ t.instant + min o t.offset) :
    ∀ u, s ≤ u → s + o ≤ u + offsetFrom o l u := by
  induction l generalizing o s with
  | nil =>
    intro u hu
    rw [offsetFrom]
    omega
  | cons t l ih =>
    intro u hu
    have hle := hfirst t rfl
    rw [offsetFrom]
    split
    · omega
    · have hnext : ∀ t' ∈ l.head?, t.instant + t.offset ≤ t'.instant + min t.offset t'.offset := by
        intro t' ht'
        have := hr.2.1 t' ht'
        omega
      have := ih hr.2.2 hl.cons.2 hnext u (by omega)
      omega

/-- A transition from the offset `b` that crosses `v`, and the clock around it. -/
structure Crossing (day o : ℤ) (l : List Transition) (v b : ℤ) (t : Transition) : Prop where
  mem : t ∈ l
  start : t.instant + min b t.offset < v
  stop : v < t.instant + max b t.offset
  change : max b t.offset ≤ min b t.offset + day
  read : readFrom o l v = b
  offset : offsetFrom o l t.instant = t.offset
  after : ∀ u, t.instant ≤ u → t.instant + t.offset ≤ u + offsetFrom o l u
  until_stop : ∀ u, t.instant ≤ u → u + t.offset < t.instant + max b t.offset →
    offsetFrom o l u = t.offset

theorem exists_crossing (hr : RegularFrom day o l) {s : ℤ} (hl : After s l)
    (hc : CrossesFrom o l v) : ∃ b t, Crossing day o l v b t := by
  induction l generalizing o s with
  | nil => exact hc.elim
  | cons t l ih =>
    obtain ⟨hst, hl'⟩ := hl.cons
    rcases hc with hwindow | hc
    · -- it crosses the first transition of the list
      have hoff : ∀ u, t.instant ≤ u → offsetFrom o (t :: l) u = offsetFrom t.offset l u :=
        fun u hu => by rw [offsetFrom, if_neg (not_lt.mpr hu)]
      refine ⟨o, t, List.mem_cons_self, hwindow.1, hwindow.2, hr.1, ?_, ?_, fun u hu => ?_,
        fun u hu hlt => ?_⟩
      · rw [readFrom, if_pos hwindow.2]
      · rw [hoff _ le_rfl, offsetFrom_of_lt hl' le_rfl]
      · rw [hoff u hu]
        refine hr.2.2.le_of_le hl' (fun t' ht' => ?_) u hu
        have := hr.2.1 t' ht'
        omega
      · rw [hoff u hu]
        cases l with
        | nil => rfl
        | cons t' l =>
          have := hr.2.1 t' rfl
          rw [offsetFrom, if_pos (by omega)]
    · -- or a later one, whose window the first transition ends before
      obtain ⟨b, t', hx⟩ := ih hr.2.2 hl' hc
      have hlt := hl'.1 t' hx.mem
      have hoff : ∀ u, t'.instant ≤ u → offsetFrom o (t :: l) u = offsetFrom t.offset l u :=
        fun u hu => by rw [offsetFrom, if_neg (by omega)]
      refine ⟨b, t', List.mem_cons_of_mem t hx.mem, hx.start, hx.stop, hx.change, ?_, ?_,
        fun u hu => ?_, fun u hu hlt => ?_⟩
      · have hwall : t.instant + max o t.offset ≤ v := by
          cases l with
          | nil => exact hc.elim
          | cons t'' l =>
            have := hr.2.1 t'' rfl
            have := hr.2.2.lt_of_crosses hc t'' rfl
            omega
        rw [readFrom, if_neg (not_lt.mpr hwall), hx.read]
      · rw [hoff _ le_rfl, hx.offset]
      · rw [hoff u hu]
        exact hx.after u hu
      · rw [hoff u hu]
        exact hx.until_stop u hu hlt

end Regular

end Walk

namespace History

variable (h : History) {v v' : ℤ}

theorem offsetAfter_bounded {day : ℤ} (hb : h.Bounded day) (k : ℕ) :
    -day < offsetAfter h.initial h.transitions k ∧ offsetAfter h.initial h.transitions k < day := by
  cases k with
  | zero => exact hb.1
  | succ k =>
    rw [offsetAfter]
    cases ht : h.transitions[k]? with
    | none => exact hb.1
    | some t => exact hb.2 t (List.mem_of_getElem? ht)

theorem localOffset_bounded {day : ℤ} (hb : h.Bounded day) (v : ℤ) :
    -day < h.localOffset v ∧ h.localOffset v < day := by
  rw [localOffset]
  split
  · exact hb.1
  · split
    · exact h.offsetAfter_bounded hb _
    · exact h.offsetAfter_bounded hb _

theorem localTime_lt_iff (hc : ¬h.Crosses v) (u : ℤ) : h.localTime u < v ↔ u < h.readLocal v := by
  obtain ⟨hfront, hlt⟩ := lt_iff_of_not_crosses h.sorted hc
  rw [readLocal, localOffset_eq h hfront]
  exact hlt u

/-- The instants between the readings of two local times. -/
theorem reads_of_not_crosses (hc : ¬h.Crosses v) (hc' : ¬h.Crosses v') (u : ℤ) :
    h.readLocal v ≤ u ∧ u < h.readLocal v' ↔ v ≤ h.localTime u ∧ h.localTime u < v' := by
  rw [h.localTime_lt_iff hc', ← not_lt, ← h.localTime_lt_iff hc, not_lt]

/-- A transition of a regular zone that crosses `v`. -/
theorem exists_crossing {day : ℤ} (hr : h.Regular day) (hc : h.Crosses v) :
    ∃ b t, Crossing day h.initial h.transitions v b t := by
  cases hl : h.transitions with
  | nil =>
    rw [Crosses, hl] at hc
    exact hc.elim
  | cons t l =>
    rw [Crosses, hl] at hc
    rw [Regular, hl] at hr
    refine TimeZone.exists_crossing hr (s := t.instant - 1) ⟨fun t' ht' => ?_, hl ▸ h.sorted⟩ hc
    rcases List.mem_cons.mp ht' with rfl | ht'
    · omega
    · have := (List.pairwise_cons.mp (hl ▸ h.sorted)).1 t' ht'
      omega

/-- For a regular zone, the readings of two local times bound the instants in between only if no
transition crosses either. -/
theorem reads_iff {day : ℤ} (hday : 0 < day) (hr : h.Regular day) (hv : v + day ≤ v') :
    (∀ u, h.readLocal v ≤ u ∧ u < h.readLocal v' ↔ v ≤ h.localTime u ∧ h.localTime u < v') ↔
      ¬h.Crosses v ∧ ¬h.Crosses v' := by
  refine ⟨fun hall => ?_, fun hc => h.reads_of_not_crosses hc.1 hc.2⟩
  have hread : ∀ {v b t}, Crossing day h.initial h.transitions v b t → h.readLocal v = v - b :=
    fun hx => by rw [readLocal, localOffset_eq h (hr.prefixTo _), hx.read]
  have htime : ∀ {v b t}, Crossing day h.initial h.transitions v b t →
      h.localTime t.instant = t.instant + t.offset :=
    fun hx => by rw [localTime, offsetAt, hx.offset]
  -- the last local time before `v'` would come back after the reading of `v'`
  have hforward : ∀ {b t}, Crossing day h.initial h.transitions v' b t → b < t.offset := by
    intro b t hx
    by_contra hback
    have hstart := hx.start
    have hstop := hx.stop
    have hu : h.localTime (v' - t.offset - 1) = v' - 1 := by
      rw [localTime, offsetAt, hx.until_stop _ (by omega) (by omega)]
      omega
    have hin := (hall (v' - t.offset - 1)).mpr (by rw [hu]; omega)
    rw [hread hx] at hin
    omega
  have hc : ¬h.Crosses v := by
    intro hc
    obtain ⟨b, t, hx⟩ := h.exists_crossing hr hc
    have hstart := hx.start
    have hstop := hx.stop
    have hchange := hx.change
    have hin := hall t.instant
    rw [htime hx, hread hx] at hin
    by_cases hgap : b < t.offset
    · -- the instant of the transition is missed
      have := hin.mpr (by omega)
      omega
    · -- the instant of the transition is included
      have hlt : t.instant < h.readLocal v' := by
        by_cases hc' : h.Crosses v'
        · obtain ⟨b', t', hx'⟩ := h.exists_crossing hr hc'
          have hforward' := hforward hx'
          have hstart' := hx'.start
          have hstop' := hx'.stop
          have hlater : t.instant < t'.instant := by
            by_contra hle
            have := hx'.after t.instant (not_lt.mp hle)
            rw [hx.offset] at this
            omega
          rw [hread hx']
          omega
        · rw [← h.localTime_lt_iff hc', htime hx]
          omega
      have := (hin.mp ⟨by omega, hlt⟩).1
      omega
  refine ⟨hc, fun hc' => ?_⟩
  obtain ⟨b, t, hx⟩ := h.exists_crossing hr hc'
  have hforward' := hforward hx
  have hstart := hx.start
  have hstop := hx.stop
  have hle : h.readLocal v ≤ t.instant := by
    rw [← not_lt, ← h.localTime_lt_iff hc, htime hx]
    omega
  have hin := hall t.instant
  rw [htime hx, hread hx] at hin
  have := (hin.mp ⟨hle, by omega⟩).2
  omega

end History

end TimeZone
