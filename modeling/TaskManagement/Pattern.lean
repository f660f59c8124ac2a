import Mathlib.Data.List.Basic

/-!
# Patterns

A pattern `^A+B{2,}...$` without alternatives: a list of parts, each of which stands for a number of
elements of a set.  `fullmatch` tries every length for every part; a text matches exactly when it is
a concatenation of texts that the parts admit (`fullmatch_iff`).
-/

namespace Pattern

variable {α : Type}

/-- Between `least` and `most` elements of `set`. -/
structure Part (α : Type) where
  set : α → Bool
  least : ℕ
  most : Option ℕ

/-- One element. -/
def Part.one (set : α → Bool) : Part α := ⟨set, 1, some 1⟩

/-- `{n,}`; `+` for `n = 1`. -/
def Part.atLeast (n : ℕ) (set : α → Bool) : Part α := ⟨set, n, none⟩

/-- The part stands for the text. -/
def Part.Admits (p : Part α) (text : List α) : Prop :=
  p.least ≤ text.length ∧ (∀ n ∈ p.most, text.length ≤ n) ∧ ∀ x ∈ text, p.set x = true

instance (p : Part α) (text : List α) : Decidable (p.Admits text) :=
  inferInstanceAs (Decidable (_ ∧ _ ∧ _))

def fullmatch : List (Part α) → List α → Bool
  | [], text => text.isEmpty
  | p :: parts, text => (List.range (text.length + 1)).any fun n =>
    decide (p.Admits (text.take n)) && fullmatch parts (text.drop n)

theorem fullmatch_cons_iff {p : Part α} {parts : List (Part α)} {text : List α} :
    fullmatch (p :: parts) text = true ↔
      ∃ a b, text = a ++ b ∧ p.Admits a ∧ fullmatch parts b = true := by
  rw [fullmatch, List.any_eq_true]
  constructor
  · rintro ⟨n, -, h⟩
    obtain ⟨hp, hparts⟩ := Bool.and_eq_true_iff.mp h
    exact ⟨text.take n, text.drop n, (List.take_append_drop n text).symm, of_decide_eq_true hp,
      hparts⟩
  · rintro ⟨a, b, rfl, hp, hparts⟩
    refine ⟨a.length, List.mem_range.mpr ?_, ?_⟩
    · rw [List.length_append]
      omega
    · rw [List.take_left, List.drop_left, decide_eq_true hp, hparts]
      rfl

/-- A text matches when it is a concatenation of texts, one for each part. -/
theorem fullmatch_iff {parts : List (Part α)} {text : List α} : fullmatch parts text = true ↔
    ∃ texts, List.Forall₂ Part.Admits parts texts ∧ text = texts.flatten := by
  induction parts generalizing text with
  | nil =>
    rw [fullmatch, List.isEmpty_iff]
    constructor
    · rintro rfl
      exact ⟨[], .nil, rfl⟩
    · rintro ⟨texts, h, rfl⟩
      cases h
      rfl
  | cons p parts ih =>
    rw [fullmatch_cons_iff]
    constructor
    · rintro ⟨a, b, rfl, hp, hparts⟩
      obtain ⟨texts, htexts, rfl⟩ := ih.mp hparts
      exact ⟨a :: texts, .cons hp htexts, rfl⟩
    · rintro ⟨texts, h, rfl⟩
      cases h with
      | cons hp htexts => exact ⟨_, _, rfl, hp, ih.mpr ⟨_, htexts, rfl⟩⟩

/-- Every element is one of a part. -/
theorem exists_part_of_mem {parts : List (Part α)} {text : List α}
    (h : fullmatch parts text = true) {x : α} (hx : x ∈ text) : ∃ p ∈ parts, p.set x = true := by
  obtain ⟨texts, htexts, rfl⟩ := fullmatch_iff.mp h
  clear h
  induction htexts with
  | nil => cases hx
  | cons hp _ ih =>
    rcases List.mem_append.mp hx with hx | hx
    · exact ⟨_, List.mem_cons_self, hp.2.2 x hx⟩
    · obtain ⟨p, hp, hset⟩ := ih hx
      exact ⟨p, List.mem_cons_of_mem _ hp, hset⟩

/-- A part that stands for some elements has one in the text. -/
theorem exists_mem_of_part {parts : List (Part α)} {text : List α}
    (h : fullmatch parts text = true) {p : Part α} (hp : p ∈ parts) (hleast : 0 < p.least) :
    ∃ x ∈ text, p.set x = true := by
  obtain ⟨texts, htexts, rfl⟩ := fullmatch_iff.mp h
  clear h
  induction htexts with
  | nil => cases hp
  | @cons q a parts texts hq _ ih =>
    rcases List.mem_cons.mp hp with rfl | hp
    · obtain ⟨x, hx⟩ := List.exists_mem_of_length_pos (Nat.lt_of_lt_of_le hleast hq.1)
      exact ⟨x, List.mem_append_left _ hx, hq.2.2 x hx⟩
    · obtain ⟨x, hx, hset⟩ := ih hp
      exact ⟨x, List.mem_append_right _ hx, hset⟩

/-- A pattern of one part. -/
theorem fullmatch_atLeast_iff {n : ℕ} {set : α → Bool} {text : List α} :
    fullmatch [.atLeast n set] text = true ↔ n ≤ text.length ∧ ∀ x ∈ text, set x = true := by
  rw [fullmatch_cons_iff]
  constructor
  · rintro ⟨a, b, rfl, ⟨hleast, -, hset⟩, hb⟩
    rw [fullmatch, List.isEmpty_iff] at hb
    subst hb
    rw [List.append_nil]
    exact ⟨hleast, hset⟩
  · rintro ⟨hleast, hset⟩
    refine ⟨text, [], (List.append_nil text).symm, ⟨hleast, ?_, hset⟩, rfl⟩
    rintro n ⟨⟩

end Pattern
