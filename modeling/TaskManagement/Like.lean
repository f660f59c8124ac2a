import Mathlib.Data.List.Infix
import Mathlib.Tactic.Common

/-!
# `LIKE` patterns

A pattern of `LIKE` is matched against a whole text: `%` stands for any characters, `_` for one, and
`\` takes the special meaning from the character after it.  `ILIKE` folds the case of both first
(`CaseFold`).

* `like_append_percent`: a text without special characters before a `%` matches the texts that start
  with it;
* `take_filter_eq_iff`: when the first `n` elements that satisfy a condition are those that satisfy
  another one.
-/

namespace Like

/-- The special characters. -/
def specials : List Char := ['%', '_', '\\']

/-- Whether the text matches the pattern; a pattern that ends with its escape character is an error
in SQL. -/
def like : List Char → List Char → Bool
  | [], t => t.isEmpty
  | ['\\'], _ => false
  | '\\' :: p :: ps, t => t.head? == some p && like ps t.tail
  | p :: ps, t =>
    if p = '%' then t.tails.any (like ps)
    else (t.head?.any fun c => p == '_' || p == c) && like ps t.tail

/-- Case folding, one character at a time; the special characters have no case. -/
structure CaseFold where
  fold : Char → Char
  special : ∀ m ∈ specials, ∀ c, fold c = m ↔ c = m

namespace CaseFold

variable (f : CaseFold)

/-- `ILIKE` -/
def ilike (pattern text : List Char) : Bool := like (pattern.map f.fold) (text.map f.fold)

/-- The text starts with `q`, read literally and compared without case. -/
def startsWith (q text : List Char) : Bool := (q.map f.fold).isPrefixOf (text.map f.fold)

end CaseFold

/-! ### Literal patterns -/

theorem like_percent (t : List Char) : like ['%'] t = true := by
  rw [like, if_pos rfl, List.any_eq_true]
  · exact ⟨[], (List.mem_tails _ _).mpr List.nil_suffix, rfl⟩
  all_goals simp

/-- A pattern that begins with a character without special meaning. -/
theorem like_cons_of_literal {p : Char} {ps t : List Char} (hp : p ∉ specials) :
    like (p :: ps) t = (t.head? == some p && like ps t.tail) := by
  simp only [specials, List.mem_cons, List.not_mem_nil, or_false, not_or] at hp
  obtain ⟨hpercent, hunderscore, hescape⟩ := hp
  rw [like, if_neg hpercent]
  · cases t with
    | nil => rfl
    | cons c t =>
      have hne : (p == '_') = false := beq_eq_false_iff_ne.mpr hunderscore
      rw [List.head?_cons, Option.any_some, hne, Bool.false_or, Option.some_beq_some, BEq.comm]
  · rintro rfl
    exact absurd rfl hescape
  · rintro q qs rfl
    exact absurd rfl hescape

/-- Without special characters before a `%` the pattern matches the texts that start with it. -/
theorem like_append_percent {q t : List Char} (hq : ∀ c ∈ q, c ∉ specials) :
    like (q ++ ['%']) t = q.isPrefixOf t := by
  induction q generalizing t with
  | nil =>
    rw [List.nil_append, like_percent]
    rfl
  | cons p q ih =>
    rw [List.cons_append, like_cons_of_literal (hq p List.mem_cons_self)]
    cases t with
    | nil => rfl
    | cons c t =>
      rw [List.head?_cons, List.tail_cons, ih fun c hc => hq c (List.mem_cons_of_mem p hc)]
      rw [List.isPrefixOf, Option.some_beq_some, BEq.comm]

/-- Without special characters the case-insensitive pattern is the literal search. -/
theorem CaseFold.ilike_append_percent (f : CaseFold) {q t : List Char}
    (hq : ∀ c ∈ q, c ∉ specials) : f.ilike (q ++ ['%']) t = f.startsWith q t := by
  have hpercent : f.fold '%' = '%' := (f.special '%' List.mem_cons_self '%').mpr rfl
  rw [CaseFold.ilike, CaseFold.startsWith, List.map_append, List.map_singleton, hpercent]
  refine like_append_percent fun c hc hspecial => ?_
  obtain ⟨c', hc', rfl⟩ := List.mem_map.mp hc
  rw [(f.special _ hspecial c').mp rfl] at hc'
  exact hq _ hc' hspecial

/-! ### The first elements that satisfy a condition -/

section

variable {α : Type} {a b : α → Bool}

/-- The condition of `take_filter_eq_iff` at a list that begins with `y`. -/
theorem forall_split_cons_iff {y : α} {l : List α} {P : List α → α → Prop} :
    (∀ l₁ x l₂, y :: l = l₁ ++ x :: l₂ → P l₁ x) ↔
      P [] y ∧ ∀ l₁ x l₂, l = l₁ ++ x :: l₂ → P (y :: l₁) x := by
  constructor
  · intro h
    refine ⟨h [] y l rfl, ?_⟩
    rintro l₁ x l₂ rfl
    exact h (y :: l₁) x l₂ rfl
  · rintro ⟨hhead, htail⟩ l₁ x l₂ heq
    cases l₁ with
    | nil =>
      obtain ⟨rfl, rfl⟩ := List.cons.inj heq
      exact hhead
    | cons z l₁ =>
      obtain ⟨rfl, hl⟩ := List.cons.inj heq
      exact htail l₁ x l₂ hl

/-- A list that begins with an element that `b` excludes has not the elements that satisfy `b`. -/
theorem take_cons_ne_take_filter {y : α} {l l' : List α} {n : ℕ} (hb : b y = false) :
    (y :: l').take (n + 1) ≠ (l.filter b).take (n + 1) := by
  intro h
  have hmem : y ∈ (l.filter b).take (n + 1) := by
    rw [← h, List.take_succ_cons]
    exact List.mem_cons_self
  have htrue := (List.mem_filter.mp (List.mem_of_mem_take hmem)).2
  rw [hb] at htrue
  cases htrue

/-- The first `n` elements that satisfy `a` are those that satisfy `b` exactly if before every
element on which the two differ there are `n` that satisfy both. -/
theorem take_filter_eq_iff (l : List α) (n : ℕ) :
    (l.filter a).take n = (l.filter b).take n ↔
      ∀ l₁ x l₂, l = l₁ ++ x :: l₂ → a x ≠ b x → n ≤ l₁.countP fun y => a y && b y := by
  induction l generalizing n with
  | nil => simp
  | cons y l ih =>
    rw [forall_split_cons_iff (P := fun l₁ x => a x ≠ b x → n ≤ l₁.countP fun y => a y && b y)]
    cases n with
    | zero => simp
    | succ n =>
      cases ha : a y <;> cases hb : b y
      · -- neither list has the element
        rw [List.filter_cons_of_neg (by simp [ha]), List.filter_cons_of_neg (by simp [hb]), ih]
        simp [ha]
      · rw [List.filter_cons_of_neg (by simp [ha]), List.filter_cons_of_pos hb]
        refine iff_of_false (fun h => take_cons_ne_take_filter ha h.symm) fun h => ?_
        have := h.1 (by simp)
        simp at this
      · rw [List.filter_cons_of_pos ha, List.filter_cons_of_neg (by simp [hb])]
        refine iff_of_false (take_cons_ne_take_filter hb) fun h => ?_
        have := h.1 (by simp)
        simp at this
      · -- both have it
        rw [List.filter_cons_of_pos ha, List.filter_cons_of_pos hb, List.take_succ_cons,
          List.take_succ_cons, List.cons_inj_right, ih]
        simp [ha, hb]

end

end Like
