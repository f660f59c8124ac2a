import TaskManagement.Pages
import Mathlib.Data.Finset.Interval
import Mathlib.Data.Int.ConditionallyCompleteOrder
import Mathlib.Data.Int.Interval

/-!
# Ranks in a sorted list

In a list without equal keys, sorted by them, the place of an element is the number of smaller keys
(`Pages.before`).

* `eq_of_pairwise`: such a list is determined by its elements;
* `pairwise_insertIdx`: an element inserted at its rank leaves the list sorted;
* `insertIdx_inj`: the list shows where a new element was inserted;
* `before_eq_iff`: exactly `n` keys are below `n` when every number below `n` is a key.
-/

namespace Ranks

open Pages (before)

variable {α κ : Type} [LinearOrder κ] {key : α → κ} {l l' : List α} {x : α}

theorem nodup_of_pairwise (hs : l.Pairwise fun a b => key a < key b) : l.Nodup := by
  refine hs.imp ?_
  rintro a b h rfl
  exact lt_irrefl _ h

theorem eq_of_pairwise (hs : l.Pairwise fun a b => key a < key b)
    (hs' : l'.Pairwise fun a b => key a < key b) (hmem : ∀ a, a ∈ l ↔ a ∈ l') : l = l' := by
  have hp : l.Perm l' :=
    (List.perm_ext_iff_of_nodup (nodup_of_pairwise hs) (nodup_of_pairwise hs')).mpr hmem
  exact hp.eq_of_pairwise (fun a b _ _ h h' => absurd h (lt_asymm h')) hs hs'

/-- The elements before the rank of a key are those with a smaller key. -/
theorem before_cons_of_lt {a : α} {k : κ} (h : key a < k) :
    before key (a :: l) k = before key l k + 1 :=
  List.countP_cons_of_pos (decide_eq_true h)

theorem before_eq_zero {k : κ} (h : ∀ a ∈ l, k ≤ key a) : before key l k = 0 :=
  List.countP_eq_zero.mpr fun a ha => by simpa using h a ha

theorem before_le_length (k : κ) : before key l k ≤ l.length := List.countP_le_length

theorem pairwise_insertIdx (hs : l.Pairwise fun a b => key a < key b)
    (hx : ∀ a ∈ l, key a ≠ key x) :
    (l.insertIdx (before key l (key x)) x).Pairwise fun a b => key a < key b := by
  induction l with
  | nil => simp [before]
  | cons a l ih =>
    obtain ⟨ha, hl⟩ := List.pairwise_cons.mp hs
    rcases lt_or_gt_of_ne (hx a List.mem_cons_self) with hlt | hgt
    · rw [before_cons_of_lt hlt, List.insertIdx_succ_cons, List.pairwise_cons]
      refine ⟨fun b hb => ?_, ih hl fun b hb => hx b (List.mem_cons_of_mem a hb)⟩
      rcases (List.mem_insertIdx (before_le_length _)).mp hb with rfl | hb
      · exact hlt
      · exact ha b hb
    · have hall : ∀ b ∈ a :: l, key x < key b := by
        intro b hb
        rcases List.mem_cons.mp hb with rfl | hb
        · exact hgt
        · exact hgt.trans (ha b hb)
      rw [before_eq_zero fun b hb => (hall b hb).le, List.insertIdx_zero]
      exact List.pairwise_cons.mpr ⟨hall, hs⟩

theorem insertIdx_inj {i j : ℕ} (hx : x ∉ l) (hi : i ≤ l.length) (hj : j ≤ l.length) :
    l.insertIdx i x = l.insertIdx j x ↔ i = j := by
  refine ⟨fun h => ?_, fun h => by rw [h]⟩
  induction l generalizing i j with
  | nil =>
    rw [List.length_nil] at hi hj
    omega
  | cons a l ih =>
    have hax : x ≠ a := fun h => hx (h ▸ List.mem_cons_self)
    cases i with
    | zero =>
      cases j with
      | zero => rfl
      | succ j =>
        rw [List.insertIdx_zero, List.insertIdx_succ_cons] at h
        exact absurd (List.cons.inj h).1 hax
    | succ i =>
      cases j with
      | zero =>
        rw [List.insertIdx_zero, List.insertIdx_succ_cons] at h
        exact absurd (List.cons.inj h).1.symm hax
      | succ j =>
        rw [List.insertIdx_succ_cons, List.insertIdx_succ_cons] at h
        rw [ih (fun h => hx (List.mem_cons_of_mem a h)) (Nat.le_of_succ_le_succ hi)
          (Nat.le_of_succ_le_succ hj) (List.cons.inj h).2]

/-! ### Distinct non-negative keys -/

/-- The keys below `n`. -/
def keysBelow (key : α → ℤ) (l : List α) (n : ℤ) : Finset ℤ :=
  ((l.map key).filter fun x => decide (x < n)).toFinset

section

variable {key : α → ℤ}

theorem mem_keysBelow {n x : ℤ} : x ∈ keysBelow key l n ↔ (∃ a ∈ l, key a = x) ∧ x < n := by
  rw [keysBelow, List.mem_toFinset, List.mem_filter, List.mem_map, decide_eq_true_eq]

theorem card_keysBelow (hs : (l.map key).Nodup) (n : ℤ) :
    (keysBelow key l n).card = before key l n := by
  rw [keysBelow, List.toFinset_card_of_nodup (hs.filter _), ← List.countP_eq_length_filter,
    List.countP_map]
  rfl

theorem keysBelow_subset (h0 : ∀ a ∈ l, 0 ≤ key a) (n : ℤ) :
    keysBelow key l n ⊆ Finset.Ico 0 n := by
  intro x hx
  obtain ⟨⟨a, ha, rfl⟩, hlt⟩ := mem_keysBelow.mp hx
  exact Finset.mem_Ico.mpr ⟨h0 a ha, hlt⟩

/-- There are `n` keys below `n` exactly when all numbers below `n` are among them. -/
theorem before_eq_iff (hs : (l.map key).Nodup) (h0 : ∀ a ∈ l, 0 ≤ key a) (n : ℕ) :
    before key l n = n ↔ ∀ x : ℤ, 0 ≤ x → x < n → ∃ a ∈ l, key a = x := by
  have hIco : (Finset.Ico 0 (n : ℤ)).card = n := by simp
  rw [← card_keysBelow hs]
  constructor
  · intro h x hx hxn
    have heq : keysBelow key l n = Finset.Ico 0 (n : ℤ) :=
      Finset.eq_of_subset_of_card_le (keysBelow_subset h0 n) (by rw [hIco, h])
    have hx' : x ∈ keysBelow key l n := heq ▸ Finset.mem_Ico.mpr ⟨hx, hxn⟩
    exact (mem_keysBelow.mp hx').1
  · intro h
    have heq : keysBelow key l n = Finset.Ico 0 (n : ℤ) := by
      refine (keysBelow_subset h0 n).antisymm fun x hx => ?_
      obtain ⟨hx0, hxn⟩ := Finset.mem_Ico.mp hx
      exact mem_keysBelow.mpr ⟨h x hx0 hxn, hxn⟩
    rw [heq, hIco]

end

end Ranks
