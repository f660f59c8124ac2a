import Mathlib.Data.Set.Function
import Mathlib.Logic.Function.Basic
import Mathlib.Tactic.SplitIfs

/-!
# Ordered columns

A `Layout T C` places items `T` in columns `C`: every item has at most one slot, a column and an
integer position.  A layout is `Ordered` when no two items share a slot and no position is
negative; positions may have gaps.

`shift` moves a range of the positions of one column by a constant.  Placing an item at a slot
keeps a layout ordered when the other items are rearranged without a clash and leave that slot
free (`Frees`, `Ordered.place`); the rearrangements of a board do:

* `frees_append`, `frees_openGap`: a new item, at the end of a column or in a gap opened for it;
* `frees_closeGap_append`, `frees_closeGap_openGap`: an item that leaves a column, whose gap is
  closed, for another one;
* `frees_moveUp`, `frees_moveDown`: an item that moves within its column.

A column is filled up to `n` when its items hold the positions `0`, ..., `n - 1`, one each
(`Fills`), and a layout is `Contiguous` when every column is filled up to some number.  The
rearrangements keep that, with one position less in the column that an item leaves and one more in
the column that it enters (`Fills.place_leave`, `Fills.place_enter`, `Fills.place_within`,
`Fills.place_elsewhere`).
-/

namespace Columns

variable {T C : Type*}

/-- The slot of every item, `none` for the items that are not in a column. -/
abbrev Layout (T C : Type*) : Type _ := T → Option (C × ℤ)

/-- No two items share a slot, and positions are not negative. -/
structure Ordered (v : Layout T C) : Prop where
  distinct : ∀ {a b s}, v a = some s → v b = some s → a = b
  nonneg : ∀ {a s}, v a = some s → 0 ≤ s.2

/-- `f` rearranges the slots of `S` without a clash, keeps them non-negative and leaves the slot
`target` free. -/
structure Frees (S : Set (C × ℤ)) (f : C × ℤ → C × ℤ) (target : C × ℤ) : Prop where
  injOn : Set.InjOn f S
  avoids : ∀ s ∈ S, f s ≠ target
  nonneg : ∀ s ∈ S, 0 ≤ s.2 → 0 ≤ (f s).2

/-- The layout after `f` has rearranged the slots and `a` has been placed at `target`. -/
def place [DecidableEq T] (v : Layout T C) (f : C × ℤ → C × ℤ) (a : T) (target : C × ℤ) :
    Layout T C :=
  Function.update (fun b => (v b).map f) a (some target)

/-- Placing an item at a slot that has been freed keeps a layout ordered. -/
theorem Ordered.place [DecidableEq T] {v : Layout T C} (hv : Ordered v) {S : Set (C × ℤ)}
    {f : C × ℤ → C × ℤ} {a : T} {target : C × ℤ} (hS : ∀ b s, b ≠ a → v b = some s → s ∈ S)
    (hf : Frees S f target) (ht : 0 ≤ target.2) : Ordered (place v f a target) := by
  -- the slot of an item other than `a` comes from a slot in `S`
  have hother : ∀ {b s}, b ≠ a → Columns.place v f a target b = some s →
      ∃ s', v b = some s' ∧ s' ∈ S ∧ f s' = s := by
    intro b s hb h
    rw [Columns.place, Function.update_of_ne hb] at h
    obtain ⟨s', hs', rfl⟩ := Option.map_eq_some_iff.mp h
    exact ⟨s', hs', hS b s' hb hs', rfl⟩
  have hself : ∀ {s}, Columns.place v f a target a = some s → s = target := by
    intro s h
    rw [Columns.place, Function.update_self] at h
    exact (Option.some.inj h).symm
  constructor
  · intro b c s hb hc
    by_cases hba : b = a
    · by_cases hca : c = a
      · rw [hba, hca]
      · obtain ⟨s', -, hs', rfl⟩ := hother hca hc
        rw [hba] at hb
        exact absurd (hself hb) (hf.avoids s' hs')
    · obtain ⟨s', hvb, hs', rfl⟩ := hother hba hb
      by_cases hca : c = a
      · rw [hca] at hc
        exact absurd (hself hc) (hf.avoids s' hs')
      · obtain ⟨s'', hvc, hs'', heq⟩ := hother hca hc
        have hss : s'' = s' := hf.injOn hs'' hs' heq
        exact hv.distinct hvb (hss ▸ hvc)
  · intro b s hb
    by_cases hba : b = a
    · rw [hba] at hb
      rw [hself hb]
      exact ht
    · obtain ⟨s', hvb, hs', rfl⟩ := hother hba hb
      exact hf.nonneg s' hs' (hv.nonneg hvb)

/-- The slots of the items other than `a`. -/
def others (v : Layout T C) (a : T) : Set (C × ℤ) := {s | ∃ b, b ≠ a ∧ v b = some s}

theorem Ordered.notMem_others {v : Layout T C} (hv : Ordered v) {a : T} {s : C × ℤ}
    (ha : v a = some s) : s ∉ others v a := by
  rintro ⟨b, hb, hs⟩
  exact hb (hv.distinct hs ha)

/-- Placing an item at a slot that the other items have been moved away from. -/
theorem Ordered.place_others [DecidableEq T] {v : Layout T C} (hv : Ordered v)
    {f : C × ℤ → C × ℤ} {a : T} {target : C × ℤ} (hf : Frees (others v a) f target)
    (ht : 0 ≤ target.2) : Ordered (Columns.place v f a target) :=
  hv.place (S := others v a) (fun b _ hb hs => ⟨b, hb, hs⟩) hf ht

/-! ### Shifts -/

variable [DecidableEq C]

/-- Move the positions of the column `c` that lie in `range` by `δ`. -/
def shift (c : C) (range : ℤ → Prop) [DecidablePred range] (δ : ℤ) (s : C × ℤ) : C × ℤ :=
  if s.1 = c ∧ range s.2 then (s.1, s.2 + δ) else s

theorem shift_of_notMem {c : C} {range : ℤ → Prop} [DecidablePred range] {δ : ℤ} {s : C × ℤ}
    (h : ¬(s.1 = c ∧ range s.2)) : shift c range δ s = s := if_neg h

@[simp] theorem shift_fst (c : C) (range : ℤ → Prop) [DecidablePred range] (δ : ℤ) (s : C × ℤ) :
    (shift c range δ s).1 = s.1 := by
  unfold shift
  split_ifs <;> rfl

theorem shift_of_fst_ne {c : C} {range : ℤ → Prop} [DecidablePred range] {δ : ℤ} {s : C × ℤ}
    (h : s.1 ≠ c) : shift c range δ s = s := shift_of_notMem fun hs => h hs.1

theorem shift_self (c : C) (range : ℤ → Prop) [DecidablePred range] (δ x : ℤ) :
    (shift c range δ (c, x)).2 = if range x then x + δ else x := by
  unfold shift
  split_ifs with h₁ h₂ h₂
  · rfl
  · exact absurd h₁.2 h₂
  · exact absurd ⟨rfl, h₂⟩ h₁
  · rfl

/-- A shift that sends no position of its range below zero keeps positions non-negative. -/
theorem shift_nonneg {c : C} {range : ℤ → Prop} [DecidablePred range] {δ : ℤ}
    (h : ∀ x, 0 ≤ x → range x → 0 ≤ x + δ) {s : C × ℤ} (hs : 0 ≤ s.2) :
    0 ≤ (shift c range δ s).2 := by
  unfold shift
  split_ifs with hr
  · exact h s.2 hs hr.2
  · exact hs

omit [DecidableEq C] in
/-- A rearrangement that keeps the columns is free of clashes when it is so in each column. -/
theorem frees_of_column {S : Set (C × ℤ)} {f : C × ℤ → C × ℤ} {c : C} {q : ℤ}
    (hfst : ∀ s, (f s).1 = s.1)
    (hinj : ∀ d x y, (d, x) ∈ S → (d, y) ∈ S → (f (d, x)).2 = (f (d, y)).2 → x = y)
    (havoid : ∀ x, (c, x) ∈ S → (f (c, x)).2 ≠ q)
    (hnonneg : ∀ s ∈ S, 0 ≤ s.2 → 0 ≤ (f s).2) : Frees S f (c, q) where
  injOn := by
    rintro ⟨d, x⟩ hx ⟨e, y⟩ hy h
    have hde : d = e := by
      have h1 := congrArg Prod.fst h
      rwa [hfst, hfst] at h1
    subst hde
    rw [hinj d x y hx hy (congrArg Prod.snd h)]
  avoids := by
    rintro ⟨d, x⟩ hx h
    have hd : d = c := by
      have h1 := congrArg Prod.fst h
      rwa [hfst] at h1
    subst hd
    exact havoid x hx (congrArg Prod.snd h)
  nonneg := hnonneg

/-- A shift is free of clashes when it is so in its own column. -/
theorem frees_shift {S : Set (C × ℤ)} {c : C} {range : ℤ → Prop} [DecidablePred range] {δ q : ℤ}
    (hinj : ∀ x y, (c, x) ∈ S → (c, y) ∈ S →
      (if range x then x + δ else x) = (if range y then y + δ else y) → x = y)
    (havoid : ∀ x, (c, x) ∈ S → (if range x then x + δ else x) ≠ q)
    (hnonneg : ∀ x, 0 ≤ x → range x → 0 ≤ x + δ) : Frees S (shift c range δ) (c, q) := by
  refine frees_of_column (shift_fst _ _ _) ?_ ?_ fun _ _ hs => shift_nonneg hnonneg hs
  · intro d x y hx hy h
    by_cases hd : d = c
    · subst hd
      rw [shift_self, shift_self] at h
      exact hinj x y hx hy h
    · rwa [shift_of_fst_ne hd, shift_of_fst_ne hd] at h
  · intro x hx
    rw [shift_self]
    exact havoid x hx

/-! ### Rearrangements of a board -/

omit [DecidableEq C] in
/-- The end of a column is free. -/
theorem frees_append {S : Set (C × ℤ)} {c : C} {n : ℤ} (hn : ∀ x, (c, x) ∈ S → x < n) :
    Frees S id (c, n) :=
  frees_of_column (fun _ => rfl) (fun _ _ _ _ _ h => h) (fun x hx => (hn x hx).ne)
    (fun _ _ h => h)

/-- Moving the positions from `q` on by one opens a gap at `q`. -/
theorem frees_openGap (S : Set (C × ℤ)) (c : C) (q : ℤ) : Frees S (shift c (q ≤ ·) 1) (c, q) := by
  apply frees_shift
  · intro x y _ _ h
    split_ifs at h <;> omega
  · intro x _
    split_ifs <;> omega
  · omega

/-- Moving the positions behind `o` back by one is free of clashes when no item is at `o`. -/
theorem closeGap_injOn {S : Set (C × ℤ)} {c : C} {o : ℤ} (hS : (c, o) ∉ S) :
    Set.InjOn (shift c (o < ·) (-1)) S := by
  have hne : ∀ {x}, (c, x) ∈ S → x ≠ o := fun hx h => hS (h ▸ hx)
  rintro ⟨d, x⟩ hx ⟨e, y⟩ hy h
  have hde : d = e := by
    have h1 := congrArg Prod.fst h
    rwa [shift_fst, shift_fst] at h1
  subst hde
  by_cases hd : d = c
  · subst hd
    have hx' := hne hx
    have hy' := hne hy
    have h2 := congrArg Prod.snd h
    rw [shift_self, shift_self] at h2
    have hxy : x = y := by
      split_ifs at h2 <;> omega
    rw [hxy]
  · rwa [shift_of_fst_ne hd, shift_of_fst_ne hd] at h

theorem closeGap_nonneg {c : C} {o : ℤ} (ho : 0 ≤ o) {s : C × ℤ} (hs : 0 ≤ s.2) :
    0 ≤ (shift c (o < ·) (-1) s).2 :=
  shift_nonneg (fun x _ hx => by omega) hs

/-- An item leaves `(c, o)` for the end of another column. -/
theorem frees_closeGap_append {S : Set (C × ℤ)} {c c' : C} {o n : ℤ} (hc : c' ≠ c) (ho : 0 ≤ o)
    (hS : (c, o) ∉ S) (hn : ∀ x, (c', x) ∈ S → x < n) :
    Frees S (shift c (o < ·) (-1)) (c', n) where
  injOn := closeGap_injOn hS
  avoids := by
    rintro ⟨d, x⟩ hx h
    have hd : d = c' := by
      have h1 := congrArg Prod.fst h
      rwa [shift_fst] at h1
    subst hd
    rw [shift_of_fst_ne hc] at h
    exact (hn x hx).ne (congrArg Prod.snd h)
  nonneg _ _ hs := closeGap_nonneg ho hs

/-- An item leaves `(c, o)` for the position `q` of another column. -/
theorem frees_closeGap_openGap {S : Set (C × ℤ)} {c : C} {o : ℤ} (c' : C) (q : ℤ) (ho : 0 ≤ o)
    (hS : (c, o) ∉ S) : Frees S (shift c' (q ≤ ·) 1 ∘ shift c (o < ·) (-1)) (c', q) := by
  have hopen : Frees Set.univ (shift c' (q ≤ ·) 1) (c', q) := frees_openGap Set.univ c' q
  constructor
  · exact Set.InjOn.comp hopen.injOn (closeGap_injOn hS) fun _ _ => Set.mem_univ _
  · exact fun s _ => hopen.avoids _ (Set.mem_univ _)
  · exact fun s _ hs => hopen.nonneg _ (Set.mem_univ _) (closeGap_nonneg ho hs)

/-- An item moves from `o` to a later position `q` of its column. -/
theorem frees_moveUp {S : Set (C × ℤ)} {c : C} {o q : ℤ} (hoq : o < q) (ho : 0 ≤ o)
    (hS : (c, o) ∉ S) : Frees S (shift c (fun x => o < x ∧ x ≤ q) (-1)) (c, q) := by
  have hne : ∀ {x}, (c, x) ∈ S → x ≠ o := fun hx h => hS (h ▸ hx)
  apply frees_shift
  · intro x y hx hy h
    have hx' := hne hx
    have hy' := hne hy
    split_ifs at h <;> omega
  · intro x hx
    have hx' := hne hx
    split_ifs <;> omega
  · omega

/-- An item moves from `o` to an earlier position `q` of its column. -/
theorem frees_moveDown {S : Set (C × ℤ)} {c : C} {o q : ℤ} (hqo : q < o) (hS : (c, o) ∉ S) :
    Frees S (shift c (fun x => q ≤ x ∧ x < o) 1) (c, q) := by
  have hne : ∀ {x}, (c, x) ∈ S → x ≠ o := fun hx h => hS (h ▸ hx)
  apply frees_shift
  · intro x y hx hy h
    have hx' := hne hx
    have hy' := hne hy
    split_ifs at h <;> omega
  · intro x hx
    have hx' := hne hx
    split_ifs <;> omega
  · omega

/-! ### Contiguous columns -/

omit [DecidableEq C] in
/-- The items of the column `c` hold the positions `0`, ..., `n - 1`, one each. -/
structure Fills (v : Layout T C) (c : C) (n : ℕ) : Prop where
  distinct : ∀ {a b x}, v a = some (c, x) → v b = some (c, x) → a = b
  taken : ∀ x, (∃ a, v a = some (c, x)) ↔ 0 ≤ x ∧ x < n

/-- Every column is filled up to some number. -/
def Contiguous (v : Layout T C) : Prop := ∀ c, ∃ n, Fills v c n

section Fills

variable {v : Layout T C} {c d : C} {n m : ℕ}

omit [DecidableEq C] in
theorem Fills.mem (h : Fills v c n) {a : T} {x : ℤ} (ha : v a = some (c, x)) : 0 ≤ x ∧ x < n :=
  (h.taken x).mp ⟨a, ha⟩

omit [DecidableEq C] in
/-- A column is filled up to one number only. -/
theorem Fills.unique (h : Fills v c n) (h' : Fills v c m) : n = m := by
  have hiff : ∀ x : ℤ, (0 ≤ x ∧ x < n) ↔ (0 ≤ x ∧ x < m) := fun x =>
    (h.taken x).symm.trans (h'.taken x)
  have hn := hiff n
  have hm := hiff m
  omega

omit [DecidableEq C] in
theorem Contiguous.ordered (h : Contiguous v) : Ordered v where
  distinct {a b s} ha hb := by
    obtain ⟨n, hn⟩ := h s.1
    exact hn.distinct ha hb
  nonneg {a s} ha := by
    obtain ⟨n, hn⟩ := h s.1
    exact (hn.mem (x := s.2) ha).1

omit [DecidableEq C] in
/-- A column after an item has been placed: it is filled when the rearranged positions and the one
of the item are an initial segment. -/
theorem Fills.place [DecidableEq T] (h : Fills v c n) (hv : Ordered v) {f : C × ℤ → C × ℤ} {a : T}
    {target : C × ℤ} (hf : Frees (others v a) f target) (ht : 0 ≤ target.2)
    (hfst : ∀ s, (f s).1 = s.1)
    (hm : ∀ x, ((c, x) = target ∨
      ∃ y : ℤ, (0 ≤ y ∧ y < n) ∧ v a ≠ some (c, y) ∧ f (c, y) = (c, x)) ↔ 0 ≤ x ∧ x < m) : 
    Fills (Columns.place v f a target) c m where
  distinct := (hv.place_others hf ht).distinct
  taken x := by
    rw [← hm]
    constructor
    · rintro ⟨b, hb⟩
      by_cases hba : b = a
      · rw [hba, Columns.place, Function.update_self] at hb
        exact Or.inl (Option.some.inj hb).symm
      · rw [Columns.place, Function.update_of_ne hba] at hb
        obtain ⟨⟨e, y⟩, hvb, hy⟩ := Option.map_eq_some_iff.mp hb
        obtain rfl : e = c := (hfst (e, y)).symm.trans (congrArg Prod.fst hy)
        exact Or.inr ⟨y, h.mem hvb, fun ha => hba (h.distinct hvb ha), hy⟩
    · rintro (hx | ⟨y, hy, hay, hx⟩)
      · exact ⟨a, by rw [Columns.place, Function.update_self, hx]⟩
      · obtain ⟨b, hb⟩ := (h.taken y).mpr hy
        have hba : b ≠ a := by
          rintro rfl
          exact hay hb
        exact ⟨b, by rw [Columns.place, Function.update_of_ne hba, hb, Option.map_some, hx]⟩

section Place

variable [DecidableEq T] {f : C × ℤ → C × ℤ} {a : T} {target : C × ℤ} {o q : ℤ}

omit [DecidableEq C] in
/-- The column that the item leaves, with the gap closed. -/
theorem Fills.place_leave (h : Fills v c n) (hv : Ordered v) (hf : Frees (others v a) f target)
    (ht : 0 ≤ target.2) (hfst : ∀ s, (f s).1 = s.1) (ha : v a = some (c, o)) (hne : target.1 ≠ c)
    (hc : ∀ y, f (c, y) = (c, if o < y then y - 1 else y)) :
    Fills (Columns.place v f a target) c (n - 1) := by
  have ho := h.mem ha
  refine h.place hv hf ht hfst fun x => ?_
  simp only [ha, hc, ne_eq, Option.some.injEq, Prod.mk.injEq, true_and]
  constructor
  · rintro (rfl | ⟨y, hy, hoy, rfl⟩)
    · exact absurd rfl hne
    · split_ifs <;> omega
  · intro hx
    -- the position `x` comes from itself before the gap and from `x + 1` behind it
    by_cases hxo : x < o
    · exact Or.inr ⟨x, by omega, by omega, if_neg (by omega)⟩
    · exact Or.inr ⟨x + 1, by omega, by omega, by rw [if_pos (by omega)]; omega⟩

omit [DecidableEq C] in
/-- The column that the item enters, with a gap opened for it. -/
theorem Fills.place_enter (h : Fills v c n) (hv : Ordered v) (hf : Frees (others v a) f (c, q))
    (hq : 0 ≤ q ∧ q ≤ n) (hfst : ∀ s, (f s).1 = s.1) (ha : ∀ x, v a ≠ some (c, x))
    (hc : ∀ y : ℤ, y < n → f (c, y) = (c, if q ≤ y then y + 1 else y)) :
    Fills (Columns.place v f a (c, q)) c (n + 1) := by
  refine h.place hv hf hq.1 hfst fun x => ?_
  simp only [ne_eq, ha, not_false_eq_true, true_and, Prod.mk.injEq]
  constructor
  · rintro (rfl | ⟨y, hy, hx⟩)
    · omega
    · rw [hc y hy.2] at hx
      have hx' := (Prod.mk.inj hx).2
      split_ifs at hx' <;> omega
  · intro hx
    rcases lt_trichotomy x q with hxq | rfl | hqx
    · exact Or.inr ⟨x, by omega, by rw [hc x (by omega), if_neg (by omega)]⟩
    · exact Or.inl rfl
    · exact Or.inr ⟨x - 1, by omega, by
        rw [hc (x - 1) (by omega), if_pos (by omega), Int.sub_add_cancel]⟩

omit [DecidableEq C] in
/-- The column in which the item moves. -/
theorem Fills.place_within (h : Fills v c n) (hv : Ordered v) (hf : Frees (others v a) f (c, q))
    (hq : 0 ≤ q ∧ q < n) (hfst : ∀ s, (f s).1 = s.1) (ha : v a = some (c, o))
    (hc : ∀ y, f (c, y) =
      (c, if o < y ∧ y ≤ q then y - 1 else if q ≤ y ∧ y < o then y + 1 else y)) :
    Fills (Columns.place v f a (c, q)) c n := by
  have ho := h.mem ha
  refine h.place hv hf hq.1 hfst fun x => ?_
  simp only [ha, hc, ne_eq, Option.some.injEq, Prod.mk.injEq, true_and]
  constructor
  · rintro (rfl | ⟨y, hy, hoy, rfl⟩)
    · omega
    · split_ifs <;> omega
  · intro hx
    by_cases hxq : x = q
    · exact Or.inl hxq
    · right
      -- the items between the two positions have moved by one
      by_cases hup : o ≤ x ∧ x < q
      · exact ⟨x + 1, by omega, by omega, by rw [if_pos (by omega)]; omega⟩
      · by_cases hdown : q < x ∧ x ≤ o
        · exact ⟨x - 1, by omega, by omega, by rw [if_neg (by omega), if_pos (by omega)]; omega⟩
        · exact ⟨x, by omega, by omega, by rw [if_neg (by omega), if_neg (by omega)]⟩

omit [DecidableEq C] in
/-- A column that the item neither leaves nor enters. -/
theorem Fills.place_elsewhere (h : Fills v c n) (hv : Ordered v)
    (hf : Frees (others v a) f target) (ht : 0 ≤ target.2) (hfst : ∀ s, (f s).1 = s.1)
    (ha : ∀ x, v a ≠ some (c, x)) (hne : target.1 ≠ c) (hc : ∀ y, f (c, y) = (c, y)) :
    Fills (Columns.place v f a target) c n := by
  refine h.place hv hf ht hfst fun x => ?_
  simp only [ne_eq, ha, not_false_eq_true, true_and, hc, Prod.mk.injEq, exists_eq_right]
  constructor
  · rintro (rfl | hx)
    · exact absurd rfl hne
    · exact hx
  · exact Or.inr

end Place

end Fills

end Columns
