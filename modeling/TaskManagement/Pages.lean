import Mathlib.Data.List.Perm.Basic
import Mathlib.Data.List.Sort
import Mathlib.Order.Basic

/-!
# Pages of a sorted result

`ORDER BY key DESC LIMIT n OFFSET o` leaves the order of rows with equal keys open, and every query
may resolve it in its own way (`OrderBy`).  When each page of a result is a query of its own, the
pages together are the result, whatever the queries do, exactly when no rows with equal keys are on
two sides of a page boundary (`pages_perm_iff`).

* `above` and `upTo` say where the rows with a key begin and end in every sorted order;
* `take_perm`: up to a boundary that no rows with equal keys span, all sorted orders have the same
  rows;
* `mem_page_of_sorted`: without equal keys a page has the rows whose places are on it.
-/

namespace Pages

variable {α κ : Type} [LinearOrder κ] {key : α → κ} {rows l : List α} {b n : ℕ}

/-- An `ORDER BY key DESC`, as a query may resolve it. -/
structure OrderBy (key : α → κ) where
  sort : List α → List α
  perm : ∀ l, (sort l).Perm l
  sorted : ∀ l, (sort l).Pairwise fun a b => key b ≤ key a

/-- `LIMIT n OFFSET offset` -/
def page (n offset : ℕ) (l : List α) : List α := (l.drop offset).take n

/-- The number of rows that come before the rows with the key `k`. -/
def above (key : α → κ) (rows : List α) (k : κ) : ℕ := rows.countP fun a => decide (k < key a)

/-- The number of rows that come before the end of the rows with the key `k`. -/
def upTo (key : α → κ) (rows : List α) (k : κ) : ℕ := rows.countP fun a => decide (k ≤ key a)

/-- The rows with equal keys are on both sides of the boundary `b`. -/
def TieAcross (key : α → κ) (rows : List α) (b : ℕ) (a : α) : Prop :=
  above key rows (key a) < b ∧ b < upTo key rows (key a)

/-- No rows with equal keys are on two sides of a boundary of the pages of `n` rows. -/
def NoTieAcross (key : α → κ) (rows : List α) (n : ℕ) : Prop :=
  ∀ a ∈ rows, ∀ i, ¬TieAcross key rows (i * n) a

theorem page_eq_nil_iff (hn : 0 < n) (offset : ℕ) : page n offset l = [] ↔ l.length ≤ offset := by
  rw [page, List.take_eq_nil_iff, List.drop_eq_nil_iff]
  exact or_iff_right hn.ne'

/-! ### Where a row is in a sorted order -/

theorem upTo_le_length (k : κ) : upTo key rows k ≤ rows.length := List.countP_le_length

theorem above_perm (h : l.Perm rows) (k : κ) : above key l k = above key rows k := h.countP_eq _

theorem upTo_perm (h : l.Perm rows) (k : κ) : upTo key l k = upTo key rows k := h.countP_eq _

/-- The rows with a greater key come before all rows with a smaller one. -/
theorem upTo_le_above (key : α → κ) (rows : List α) {k k' : κ} (h : k < k') :
    upTo key rows k' ≤ above key rows k :=
  List.countP_mono_left fun _ _ ha => decide_eq_true (h.trans_le (of_decide_eq_true ha))

/-- In a sorted list a row is not before its place. -/
theorem above_le_of_sorted {l₁ l₂ : List α} {a : α}
    (hs : (l₁ ++ a :: l₂).Pairwise fun a b => key b ≤ key a) :
    above key (l₁ ++ a :: l₂) (key a) ≤ l₁.length := by
  have hafter : (a :: l₂).countP (fun x => decide (key a < key x)) = 0 := by
    refine List.countP_eq_zero.mpr fun x hx => ?_
    rw [decide_eq_true_eq, not_lt]
    rcases List.mem_cons.mp hx with rfl | hx
    · exact le_rfl
    · exact (List.pairwise_cons.mp (List.pairwise_append.mp hs).2.1).1 x hx
  rw [above, List.countP_append, hafter, Nat.add_zero]
  exact List.countP_le_length

/-- In a sorted list a row is not after its place. -/
theorem lt_upTo_of_sorted {l₁ l₂ : List α} {a : α}
    (hs : (l₁ ++ a :: l₂).Pairwise fun a b => key b ≤ key a) :
    l₁.length < upTo key (l₁ ++ a :: l₂) (key a) := by
  have hbefore : l₁.countP (fun x => decide (key a ≤ key x)) = l₁.length :=
    List.countP_eq_length.mpr fun x hx =>
      decide_eq_true ((List.pairwise_append.mp hs).2.2 x hx a List.mem_cons_self)
  have hself : 0 < (a :: l₂).countP fun x => decide (key a ≤ key x) :=
    List.countP_pos_iff.mpr ⟨a, List.mem_cons_self, decide_eq_true le_rfl⟩
  rw [upTo, List.countP_append, hbefore]
  omega

/-- The rows between the begin and the end of a key have this key. -/
theorem key_eq_of_sorted {l₁ l₂ : List α} {x : α} {k : κ}
    (hs : (l₁ ++ x :: l₂).Pairwise fun a b => key b ≤ key a)
    (hlo : above key (l₁ ++ x :: l₂) k ≤ l₁.length)
    (hhi : l₁.length < upTo key (l₁ ++ x :: l₂) k) : key x = k := by
  have hge := above_le_of_sorted hs
  have hlt := lt_upTo_of_sorted hs
  refine le_antisymm (le_of_not_gt fun h => ?_) (le_of_not_gt fun h => ?_)
  · have := upTo_le_above key (l₁ ++ x :: l₂) h
    omega
  · have := upTo_le_above key (l₁ ++ x :: l₂) h
    omega

/-- Up to a boundary that no rows with equal keys span, a sorted order has the rows that end before
it. -/
theorem take_perm (hp : l.Perm rows) (hs : l.Pairwise fun a b => key b ≤ key a)
    (hb : ∀ a ∈ rows, ¬TieAcross key rows b a) :
    (l.take b).Perm (rows.filter fun a => decide (upTo key rows (key a) ≤ b)) := by
  have hsplit : l.take b ++ l.drop b = l := List.take_append_drop b l
  -- a row among the first `b` has its whole key there
  have hbefore : ∀ a ∈ l.take b, decide (upTo key rows (key a) ≤ b) = true := by
    intro a ha
    obtain ⟨l₁, l₂, hl⟩ := List.append_of_mem ha
    have hlen : l₁.length < b := by
      have hle := List.length_take_le b l
      rw [hl, List.length_append, List.length_cons] at hle
      omega
    rw [hl, List.append_assoc, List.cons_append] at hsplit
    rw [← hsplit] at hs
    have hplace := above_le_of_sorted hs
    rw [hsplit, above_perm hp] at hplace
    have hmem : a ∈ rows := hp.mem_iff.mp (List.mem_of_mem_take ha)
    exact decide_eq_true (le_of_not_gt fun h => hb a hmem ⟨hplace.trans_lt hlen, h⟩)
  -- a row behind them has some of its key there
  have hafter : ∀ a ∈ l.drop b, ¬decide (upTo key rows (key a) ≤ b) = true := by
    intro a ha
    obtain ⟨l₁, l₂, hl⟩ := List.append_of_mem ha
    have hlen : (l.take b).length = b := by
      refine List.length_take_of_le (le_of_lt ?_)
      rw [← Nat.sub_pos_iff_lt, ← List.length_drop]
      exact List.length_pos_of_mem ha
    rw [hl, ← List.append_assoc] at hsplit
    rw [← hsplit] at hs
    have hplace := lt_upTo_of_sorted hs
    rw [hsplit, upTo_perm hp, List.length_append, hlen] at hplace
    rw [decide_eq_true_eq]
    omega
  have hfilter : l.filter (fun a => decide (upTo key rows (key a) ≤ b)) = l.take b := by
    conv_lhs => rw [← hsplit]
    rw [List.filter_append, List.filter_eq_self.mpr hbefore, List.filter_eq_nil_iff.mpr hafter,
      List.append_nil]
  rw [← hfilter]
  exact hp.filter _

/-! ### Pages of a result without equal keys -/

/-- The number of rows that come before the key `k` in ascending order. -/
def before (key : α → κ) (rows : List α) (k : κ) : ℕ := rows.countP fun a => decide (key a < k)

theorem before_perm (h : l.Perm rows) (k : κ) : before key l k = before key rows k := h.countP_eq _

theorem before_lt_length {a : α} (ha : a ∈ l) : before key l (key a) < l.length := by
  refine lt_of_le_of_ne List.countP_le_length fun h => ?_
  exact lt_irrefl _ (of_decide_eq_true (List.countP_eq_length.mp h a ha))

/-- A row of a strictly sorted list is at its place. -/
theorem before_of_sorted {l₁ l₂ : List α} {a : α}
    (hs : (l₁ ++ a :: l₂).Pairwise fun a b => key a < key b) :
    before key (l₁ ++ a :: l₂) (key a) = l₁.length := by
  obtain ⟨-, hs₂, hs₁₂⟩ := List.pairwise_append.mp hs
  have hbefore : l₁.countP (fun x => decide (key x < key a)) = l₁.length :=
    List.countP_eq_length.mpr fun x hx => decide_eq_true (hs₁₂ x hx a List.mem_cons_self)
  have hafter : (a :: l₂).countP (fun x => decide (key x < key a)) = 0 := by
    refine List.countP_eq_zero.mpr fun x hx => ?_
    rw [decide_eq_true_eq, not_lt]
    rcases List.mem_cons.mp hx with rfl | hx
    · exact le_rfl
    · exact ((List.pairwise_cons.mp hs₂).1 x hx).le
  rw [before, List.countP_append, hbefore, hafter, Nat.add_zero]

theorem length_page (n offset : ℕ) (l : List α) :
    (page n offset l).length = min n (l.length - offset) := by
  rw [page, List.length_take, List.length_drop]

/-- A page has the rows whose places are on it. -/
theorem mem_page_of_sorted {offset : ℕ} {a : α} (hs : l.Pairwise fun a b => key a < key b)
    (ha : a ∈ l) (hlo : offset ≤ before key l (key a)) (hhi : before key l (key a) < offset + n) :
    a ∈ page n offset l := by
  obtain ⟨l₁, l₂, rfl⟩ := List.append_of_mem ha
  rw [before_of_sorted hs] at hlo hhi
  have hdrop : (l₁ ++ a :: l₂).drop offset = l₁.drop offset ++ a :: l₂ :=
    List.drop_append_of_le_length hlo
  have htake : l₁.length - offset < n := by omega
  rw [page, hdrop, List.take_append, List.length_drop]
  refine List.mem_append_right _ ?_
  obtain ⟨m, hm⟩ := Nat.exists_eq_succ_of_ne_zero (Nat.sub_pos_of_lt htake).ne'
  rw [hm, List.take_succ_cons]
  exact List.mem_cons_self

/-! ### The pages together -/

/-- The pages `0, …, m - 1`, each of the order that its query has. -/
def pages (ord : ℕ → List α) (n m : ℕ) : List α :=
  (List.range m).flatMap fun i => page n (i * n) (ord i)

theorem pages_succ (ord : ℕ → List α) (n m : ℕ) :
    pages ord n (m + 1) = pages ord n m ++ page n (m * n) (ord m) := by
  rw [pages, List.range_succ, List.flatMap_append, List.flatMap_singleton]
  rfl

theorem take_succ_mul (l : List α) (n m : ℕ) :
    l.take ((m + 1) * n) = l.take (m * n) ++ page n (m * n) l := by
  rw [Nat.succ_mul, List.take_add]
  rfl

/-- The pages of one order are its beginning. -/
theorem pages_const (l : List α) (n m : ℕ) : pages (fun _ => l) n m = l.take (m * n) := by
  induction m with
  | zero => simp [pages]
  | succ m ih => rw [pages_succ, ih, ← take_succ_mul]

theorem pages_perm (ord : ℕ → OrderBy key) (hno : NoTieAcross key rows n) (m : ℕ) :
    (pages (fun i => (ord i).sort rows) n m).Perm
      (rows.filter fun a => decide (upTo key rows (key a) ≤ m * n)) := by
  have htake (i j : ℕ) := take_perm ((ord i).perm rows) ((ord i).sorted rows)
    (fun a ha => hno a ha j)
  induction m with
  | zero =>
    have h := htake 0 0
    rw [Nat.zero_mul, List.take_zero] at h
    rw [Nat.zero_mul]
    exact h
  | succ m ih =>
    rw [pages_succ]
    have hbefore := htake m m
    have hafter := htake m (m + 1)
    rw [take_succ_mul] at hafter
    exact ((ih.trans hbefore.symm).append_right _).trans hafter

theorem mergeSort_sorted (key : α → κ) (l : List α) :
    (l.mergeSort fun a b => decide (key b ≤ key a)).Pairwise fun a b => key b ≤ key a := by
  have hsorted : (l.mergeSort fun a b => decide (key b ≤ key a)).Pairwise
      fun a b => decide (key b ≤ key a) = true := List.pairwise_mergeSort
    (fun a b c hab hbc => by
      simp only [decide_eq_true_eq] at hab hbc ⊢
      exact hbc.trans hab)
    (fun a b => by simpa using le_total (key b) (key a)) l
  exact hsorted.imp of_decide_eq_true

/-- A sorting that is stable. -/
def OrderBy.mergeSort (key : α → κ) : OrderBy key where
  sort l := l.mergeSort fun a b => decide (key b ≤ key a)
  perm l := List.mergeSort_perm l _
  sorted := mergeSort_sorted key

/-- A query may have any sorted order of its rows. -/
theorem exists_orderBy_eq (hl : l.Perm rows) (hs : l.Pairwise fun a b => key b ≤ key a) :
    ∃ o : OrderBy key, o.sort rows = l := by
  classical
  refine ⟨⟨fun l' => if l' = rows then l else l'.mergeSort fun a b => decide (key b ≤ key a),
    fun l' => ?_, fun l' => ?_⟩, if_pos rfl⟩
  · split_ifs with h
    · rw [h]
      exact hl
    · exact List.mergeSort_perm _ _
  · split_ifs with h
    · exact hs
    · exact mergeSort_sorted key l'

/-- Swapping two neighbours with equal keys keeps a list sorted. -/
theorem sorted_swap {l₁ l₂ : List α} {x y : α} (hxy : key x = key y)
    (hs : (l₁ ++ x :: y :: l₂).Pairwise fun a b => key b ≤ key a) :
    (l₁ ++ y :: x :: l₂).Pairwise fun a b => key b ≤ key a := by
  obtain ⟨h₁, h₂, h₁₂⟩ := List.pairwise_append.mp hs
  obtain ⟨hx, hy, h₃⟩ : (∀ b ∈ y :: l₂, key b ≤ key x) ∧ (∀ b ∈ l₂, key b ≤ key y) ∧
      l₂.Pairwise fun a b => key b ≤ key a := by
    simpa only [List.pairwise_cons] using h₂
  refine List.pairwise_append.mpr ⟨h₁, List.pairwise_cons.mpr ⟨fun b hb => ?_,
    List.pairwise_cons.mpr ⟨fun b hb => hx b (List.mem_cons_of_mem _ hb), h₃⟩⟩, fun a ha b hb => ?_⟩
  · rcases List.mem_cons.mp hb with rfl | hb
    · exact hxy.le
    · exact hy b hb
  · refine h₁₂ a ha b ?_
    rw [← (List.Perm.swap x y l₂).mem_iff]
    exact hb

/-- Around a boundary that rows with equal keys span, two of them are neighbours. -/
theorem exists_neighbours (hp : l.Perm rows) (hs : l.Pairwise fun a b => key b ≤ key a) {a : α}
    (hb : TieAcross key rows b a) :
    ∃ l₁ x y l₂, l = l₁ ++ x :: y :: l₂ ∧ key x = key y ∧ l₁.length + 1 = b := by
  obtain ⟨hlo, hhi⟩ := hb
  rw [← above_perm hp] at hlo
  rw [← upTo_perm hp] at hhi
  have hlen : b < l.length := hhi.trans_le (upTo_le_length _)
  obtain ⟨b, rfl⟩ : ∃ b', b = b' + 1 := Nat.exists_eq_succ_of_ne_zero (by omega)
  have hx : l = l.take b ++ l[b] :: l[b + 1] :: l.drop (b + 2) := by
    rw [List.getElem_cons_drop, List.getElem_cons_drop, List.take_append_drop]
  have hlx : (l.take b).length = b := List.length_take_of_le (by omega)
  have hy : l = (l.take b ++ [l[b]]) ++ l[b + 1] :: l.drop (b + 2) := by
    rw [List.append_assoc, List.singleton_append]
    exact hx
  have hly : (l.take b ++ [l[b]]).length = b + 1 := by
    rw [List.length_append, hlx, List.length_singleton]
  have hkx : key l[b] = key a := by
    refine key_eq_of_sorted (hx ▸ hs) ?_ ?_
    · rw [← hx, hlx]
      omega
    · rw [← hx, hlx]
      omega
  have hky : key l[b + 1] = key a := by
    refine key_eq_of_sorted (hy ▸ hs) ?_ ?_
    · rw [← hy, hly]
      omega
    · rw [← hy, hly]
      omega
  exact ⟨l.take b, l[b], l[b + 1], l.drop (b + 2), hx, hkx.trans hky.symm, by rw [hlx]⟩

/-- Two concatenations that differ in one part have the same elements only if this part has. -/
theorem perm_of_flatMap_perm {β : Type} {f g : β → List α} {L : List β} {i : β} (hi : i ∈ L)
    (hL : L.Nodup) (hfg : ∀ j, j ≠ i → f j = g j) (h : (L.flatMap f).Perm (L.flatMap g)) :
    (f i).Perm (g i) := by
  obtain ⟨A, B, rfl⟩ := List.append_of_mem hi
  obtain ⟨hiA, -⟩ := List.nodup_append.mp hL |>.2.1 |> List.nodup_cons.mp
  have hA : A.flatMap f = A.flatMap g := List.flatMap_congr fun j hj => hfg j fun hji =>
    (List.nodup_append.mp hL).2.2 j hj i List.mem_cons_self hji
  have hB : B.flatMap f = B.flatMap g := List.flatMap_congr fun j hj => hfg j fun hji =>
    hiA (hji ▸ hj)
  rw [List.flatMap_append, List.flatMap_append, List.flatMap_cons, List.flatMap_cons, hA, hB] at h
  exact (List.perm_append_right_iff _).mp ((List.perm_append_left_iff _).mp h)

/-- **Pages partition a result** however each query resolves the order of equal keys, exactly when
no rows with equal keys are on two sides of a page boundary. -/
theorem pages_perm_iff (hn : 0 < n) (hnd : rows.Nodup) {m : ℕ} (hm : rows.length ≤ m * n) :
    (∀ ord : ℕ → OrderBy key, (pages (fun i => (ord i).sort rows) n m).Perm rows) ↔
      NoTieAcross key rows n := by
  constructor
  · -- the query of the page after the boundary swaps the neighbours that the others do not
    intro hall a ha i htie
    have hsort : (rows.mergeSort fun a b => decide (key b ≤ key a)).Perm rows :=
      List.mergeSort_perm _ _
    obtain ⟨l₁, x, y, l₂, hl, hxy, hlen⟩ := exists_neighbours hsort (mergeSort_sorted key rows) htie
    have hs : (l₁ ++ x :: y :: l₂).Pairwise fun a b => key b ≤ key a :=
      hl ▸ mergeSort_sorted key rows
    have hp : (l₁ ++ x :: y :: l₂).Perm rows := hl ▸ hsort
    have hp' : (l₁ ++ y :: x :: l₂).Perm rows := ((List.Perm.swap x y l₂).append_left l₁).trans hp
    obtain ⟨o, ho⟩ := exists_orderBy_eq hp hs
    obtain ⟨o', ho'⟩ := exists_orderBy_eq hp' (sorted_swap hxy hs)
    have hlt : i < m := by
      have hle : upTo key rows (key a) ≤ rows.length := upTo_le_length _
      exact Nat.lt_of_mul_lt_mul_right (htie.2.trans_le (hle.trans hm))
    -- with one order for all queries the pages are the whole result
    have hconst : (pages (fun _ => o.sort rows) n m).Perm rows := by
      rw [pages_const, ho, List.take_of_length_le (hp.length_eq.trans_le hm)]
      exact hp
    have hpage := perm_of_flatMap_perm (f := fun j =>
      page n (j * n) ((if j = i then o' else o).sort rows)) (List.mem_range.mpr hlt)
      List.nodup_range (fun j hj => by simp only [if_neg hj])
      ((hall fun j => if j = i then o' else o).trans hconst.symm)
    dsimp only at hpage
    rw [if_pos rfl, ho, ho', ← hlen] at hpage
    -- the swapped query gives `x` again on its page
    have hx : x ∈ page n (l₁.length + 1) (l₁ ++ y :: x :: l₂) := by
      obtain ⟨n, rfl⟩ := Nat.exists_eq_succ_of_ne_zero hn.ne'
      have hdrop : (l₁ ++ y :: x :: l₂).drop (l₁.length + 1) = x :: l₂ := by simp
      rw [page, hdrop, List.take_succ_cons]
      exact List.mem_cons_self
    -- which the page of the other order has behind the boundary
    have hx' : x ∈ y :: l₂ := by
      have hdrop : (l₁ ++ x :: y :: l₂).drop (l₁.length + 1) = y :: l₂ := by simp
      have hmem := hpage.mem_iff.mp hx
      rw [page, hdrop] at hmem
      exact List.mem_of_mem_take hmem
    have hnodup := hp.nodup_iff.mpr hnd
    exact (List.nodup_cons.mp (List.nodup_append.mp hnodup).2.1).1 hx'
  · intro hno ord
    have hp := pages_perm ord hno m
    rwa [List.filter_eq_self.mpr fun a _ => decide_eq_true ((upTo_le_length _).trans hm)] at hp

end Pages
