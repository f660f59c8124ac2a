import Mathlib.Data.List.Nodup
import Mathlib.Logic.Function.Basic

/-!
# Typed row stores

A `Store ρ` is a database: finitely many rows, each under an identifier `i : ι` that names its
table and its primary key, with `ρ i` the type of the row stored there.  `Store.set` writes or
deletes one row and `Store.overlay` lays the pending writes of a transaction over a store; the
lemmas below say which rows such an overlay can change.
-/

namespace ReadCommitted

/-- A database of typed rows.  `ids` lists every identifier that was ever used, so that a
statement can enumerate the rows. -/
structure Store {ι : Type} (ρ : ι → Type) where
  ids : List ι
  row : (i : ι) → Option (ρ i)
  /-- No identifier is listed twice. -/
  nodup : ids.Nodup
  /-- Every stored row is listed. -/
  mem_ids : ∀ i, (row i).isSome → i ∈ ids

/-- A pending write: the new version of a row, `none` for a deletion. -/
abbrev Write {ι : Type} (ρ : ι → Type) : Type := (i : ι) × Option (ρ i)

namespace Store

variable {ι : Type} {ρ : ι → Type}

/-- The store without rows. -/
def empty : Store ρ where
  ids := []
  row _ := none
  nodup := List.nodup_nil
  mem_ids _ h := by simp at h

variable [DecidableEq ι]

/-- Write (`some`) or delete (`none`) the row `i`. -/
def set (s : Store ρ) (i : ι) (v : Option (ρ i)) : Store ρ where
  ids := s.ids.insert i
  row := Function.update s.row i v
  nodup := List.Nodup.insert s.nodup
  mem_ids j h := by
    by_cases hj : j = i
    · exact List.mem_insert_iff.mpr (Or.inl hj)
    · rw [Function.update_of_ne hj] at h
      exact List.mem_insert_iff.mpr (Or.inr (s.mem_ids j h))

@[simp] theorem set_row_self (s : Store ρ) (i : ι) (v : Option (ρ i)) : (s.set i v).row i = v := by
  simp [set]

theorem set_row_of_ne (s : Store ρ) {i j : ι} (v : Option (ρ i)) (h : j ≠ i) :
    (s.set i v).row j = s.row j := by
  simp [set, Function.update_of_ne h]

/-- The store with the pending writes `ws` (newest first) applied. -/
def overlay (s : Store ρ) : List (Write ρ) → Store ρ
  | [] => s
  | w :: ws => (s.overlay ws).set w.1 w.2

@[simp] theorem overlay_nil (s : Store ρ) : s.overlay [] = s := rfl

@[simp] theorem overlay_cons (s : Store ρ) (w : Write ρ) (ws : List (Write ρ)) :
    s.overlay (w :: ws) = (s.overlay ws).set w.1 w.2 := rfl

/-- A row that no write names is the stored one. -/
theorem overlay_row_of_forall_ne (s : Store ρ) {ws : List (Write ρ)} {i : ι}
    (h : ∀ w ∈ ws, w.1 ≠ i) : (s.overlay ws).row i = s.row i := by
  induction ws with
  | nil => rfl
  | cons w ws ih =>
    rw [overlay_cons, set_row_of_ne _ _ (h w List.mem_cons_self).symm]
    exact ih fun v hv => h v (List.mem_cons_of_mem w hv)

/-- What an overlay shows at `i` depends on the store only through its row `i`. -/
theorem overlay_row_congr {s t : Store ρ} (ws : List (Write ρ)) {i : ι} (h : s.row i = t.row i) :
    (s.overlay ws).row i = (t.overlay ws).row i := by
  induction ws with
  | nil => exact h
  | cons w ws ih =>
    rw [overlay_cons, overlay_cons]
    by_cases hi : i = w.1
    · subst hi
      rw [set_row_self, set_row_self]
    · rw [set_row_of_ne _ _ hi, set_row_of_ne _ _ hi, ih]

end Store

/-- A row-wise `UPDATE` or `DELETE`: `none` where the `WHERE` clause fails, `some (some r)` for
the new version, `some none` for a deletion. -/
abbrev RowUpdate {ι : Type} (ρ : ι → Type) : Type := (i : ι) → ρ i → Option (Option (ρ i))

namespace Store

variable {ι : Type} {ρ : ι → Type}

/-- The rows that match the `WHERE` clause of `u`. -/
def matching (s : Store ρ) (u : RowUpdate ρ) : List ι :=
  s.ids.filter fun i => ((s.row i).bind (u i)).isSome

theorem mem_matching {s : Store ρ} {u : RowUpdate ρ} {i : ι} :
    i ∈ s.matching u ↔ ∃ r v, s.row i = some r ∧ u i r = some v := by
  rw [matching, List.mem_filter]
  constructor
  · rintro ⟨-, h⟩
    obtain ⟨v, hv⟩ := Option.isSome_iff_exists.mp h
    obtain ⟨r, hr, hu⟩ := Option.bind_eq_some_iff.mp hv
    exact ⟨r, v, hr, hu⟩
  · rintro ⟨r, v, hr, hu⟩
    exact ⟨s.mem_ids i (by rw [hr]; rfl), by rw [hr, Option.bind_some, hu]; rfl⟩

theorem nodup_matching (s : Store ρ) (u : RowUpdate ρ) : (s.matching u).Nodup :=
  List.Nodup.filter _ s.nodup

/-- A statement whose `WHERE` clause admits only the row `i` matches that row or none. -/
theorem matching_of_single (s : Store ρ) {u : RowUpdate ρ} {i : ι}
    (hu : ∀ j r, j ≠ i → u j r = none) : s.matching u = [i] ∨ s.matching u = [] := by
  have hall : ∀ j ∈ s.matching u, j = i := by
    intro j hj
    obtain ⟨r, v, -, hv⟩ := mem_matching.mp hj
    by_contra hne
    rw [hu j r hne] at hv
    cases hv
  have hnd := s.nodup_matching u
  cases hm : s.matching u with
  | nil => exact Or.inr rfl
  | cons j l =>
    rw [hm] at hall hnd
    have hj : j = i := hall j List.mem_cons_self
    cases l with
    | nil => rw [hj]; exact Or.inl rfl
    | cons k l =>
      have hk : k = i := hall k (by simp)
      rw [hj, hk] at hnd
      simp at hnd

/-! ### Tables

`f` lists the rows of one table: `key a` is the identifier of the row with the key `a`, and `val`
says what is listed of it. -/

section Table

variable {α β γ : Type} {s : Store ρ} (key : α → ι) (val : (a : α) → ρ (key a) → β)
  {f : ι → Option β} (hrow : ∀ a, f (key a) = (s.row (key a)).map (val a))
  (hkey : ∀ i b, f i = some b → ∃ a, i = key a)

include hrow hkey

theorem mem_table_iff {b : β} :
    b ∈ s.ids.filterMap f ↔ ∃ a r, s.row (key a) = some r ∧ val a r = b := by
  rw [List.mem_filterMap]
  constructor
  · rintro ⟨i, -, hi⟩
    obtain ⟨a, rfl⟩ := hkey i b hi
    rw [hrow] at hi
    obtain ⟨r, hr, hb⟩ := Option.map_eq_some_iff.mp hi
    exact ⟨a, r, hr, hb⟩
  · rintro ⟨a, r, hr, rfl⟩
    refine ⟨key a, s.mem_ids _ (by rw [hr]; rfl), ?_⟩
    rw [hrow, hr]
    rfl

/-- No key is listed twice. -/
theorem nodup_table (name : β → α) (hname : ∀ a r, name (val a r) = a) :
    ((s.ids.filterMap f).map name).Nodup := by
  rw [List.map_filterMap]
  refine s.nodup.filterMap fun i j a hi hj => ?_
  -- a row is listed under its own identifier
  have hid : ∀ {i}, a ∈ (f i).map name → i = key a := by
    intro i hi
    obtain ⟨b, hb, rfl⟩ := Option.map_eq_some_iff.mp hi
    obtain ⟨a, rfl⟩ := hkey i b hb
    rw [hrow] at hb
    obtain ⟨r, -, rfl⟩ := Option.map_eq_some_iff.mp hb
    rw [hname]
  rw [hid hi, hid hj]

end Table

end Store

end ReadCommitted
