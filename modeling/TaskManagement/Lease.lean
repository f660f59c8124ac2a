import TaskManagement.Keyspace
import TaskManagement.Machine

/-!
# Leases

A lock is granted to an owner until a time, and only while it is free.  Its owner may give it back
before that time, and after it the lock is free by itself.  `Locks` tells what the events of a run
do to the locks, and `Tracks` relates a history to the entries that stand for the locks.

* `Tracks.owner_unique`: no two owners hold a lock at a time;
* `Tracks.isSome_iff`: there is an entry exactly while somebody holds the lock;
* `Tracks.expired`: when two owners have been granted a lock and neither has given it back, the time
  of one of them is over;
* `Tracks.other`, `Tracks.granted`, `Tracks.released` and `Tracks.later` are the kinds of steps.
-/

namespace Lease

/-- What the events `E` of a run do to the locks `K`, for owners `O` and times `T`. -/
structure Locks (E K O T : Type) where
  /-- The lock is granted to the owner until the time. -/
  grant : E → Option (K × O × T)
  /-- The owner gives the lock back. -/
  release : E → Option (K × O)

variable {E K O T : Type}

/-- The lock was granted to the owner until `x`, and the owner has not given it back since. -/
def Granted (m : Locks E K O T) (l : List E) (k : K) (o : O) (x : T) : Prop :=
  ∃ l₁ e l₂, l = l₁ ++ e :: l₂ ∧ m.grant e = some (k, o, x) ∧
    ∀ e' ∈ l₂, m.release e' ≠ some (k, o)

/-- The owner holds the lock at `now`. -/
def Held [LE T] (m : Locks E K O T) (l : List E) (now : T) (k : K) (o : O) : Prop :=
  ∃ x, Granted m l k o x ∧ now ≤ x

/-- The entries are the locks that are held. -/
def Tracks [LE T] (m : Locks E K O T) (entry : K → Option (Entry T O)) (now : T) (l : List E) :
    Prop :=
  ∀ k a, entry k = some a ↔ ∃ x, a.expiry = some x ∧ Granted m l k a.value x ∧ now ≤ x

variable {m : Locks E K O T} {entry entry' : K → Option (Entry T O)} {l : List E} {e : E}
  {k : K} {o o' : O} {now now' x x' : T} {a : Entry T O}

theorem not_granted_nil : ¬Granted m [] k o x := by
  rintro ⟨l₁, e, l₂, h, -⟩
  simp at h

/-- What is granted after one more event. -/
theorem granted_snoc : Granted m (l ++ [e]) k o x ↔
    (Granted m l k o x ∧ m.release e ≠ some (k, o)) ∨ m.grant e = some (k, o, x) := by
  constructor
  · rintro ⟨l₁, e', l₂, hl, hg, hr⟩
    rcases Machine.split_snoc hl with ⟨rfl, rfl⟩ | ⟨l₃, rfl⟩
    · exact Or.inr hg
    · have hl₂ : l₂ = l₃ ++ [e] := by
        rw [List.append_assoc, List.cons_append] at hl
        have hcons := List.append_cancel_left hl
        exact (List.cons.inj hcons).2.symm
      rw [hl₂] at hr
      refine Or.inl ⟨⟨l₁, e', l₃, rfl, hg, fun e'' he => hr e'' ?_⟩, hr e ?_⟩
      · exact List.mem_append_left _ he
      · exact List.mem_append_right _ List.mem_cons_self
  · rintro (⟨⟨l₁, e', l₂, rfl, hg, hr⟩, he⟩ | hg)
    · refine ⟨l₁, e', l₂ ++ [e], by simp, hg, fun e'' he'' => ?_⟩
      rcases List.mem_append.mp he'' with he'' | he''
      · exact hr e'' he''
      · rw [List.mem_singleton.mp he'']
        exact he
    · exact ⟨l, e, [], rfl, hg, fun e' he' => absurd he' List.not_mem_nil⟩

/-- What is granted stays so until its owner gives it back. -/
theorem Granted.snoc (h : Granted m l k o x) (he : m.release e ≠ some (k, o)) :
    Granted m (l ++ [e]) k o x :=
  granted_snoc.mpr (Or.inl ⟨h, he⟩)

/-! ### Who holds a lock -/

section Laws

variable [LE T]

/-- There is an entry of an owner exactly while the owner holds the lock. -/
theorem Tracks.held_iff (h : Tracks m entry now l) :
    (entry k).map Entry.value = some o ↔ Held m l now k o := by
  rw [Option.map_eq_some_iff]
  constructor
  · rintro ⟨a, ha, rfl⟩
    obtain ⟨x, -, hg, hx⟩ := (h k a).mp ha
    exact ⟨x, hg, hx⟩
  · rintro ⟨x, hg, hx⟩
    exact ⟨⟨o, some x⟩, (h k _).mpr ⟨x, rfl, hg, hx⟩, rfl⟩

theorem Tracks.isSome_iff (h : Tracks m entry now l) :
    (entry k).isSome ↔ ∃ o, Held m l now k o := by
  rw [Option.isSome_iff_exists]
  constructor
  · rintro ⟨a, ha⟩
    exact ⟨a.value, h.held_iff.mp (by rw [ha, Option.map_some])⟩
  · rintro ⟨o, ho⟩
    obtain ⟨a, ha, -⟩ := Option.map_eq_some_iff.mp (h.held_iff.mpr ho)
    exact ⟨a, ha⟩

theorem Tracks.owner_unique (h : Tracks m entry now l) (ho : Held m l now k o)
    (ho' : Held m l now k o') : o = o' := by
  have hentry := h.held_iff.mpr ho
  rw [h.held_iff.mpr ho'] at hentry
  exact (Option.some.inj hentry).symm

end Laws

/-- Of two owners that have a lock and have not given it back, the time of one is over. -/
theorem Tracks.expired [LinearOrder T] (h : Tracks m entry now l) (hne : o ≠ o')
    (hg : Granted m l k o x) (hg' : Granted m l k o' x') : x < now ∨ x' < now := by
  by_contra hlive
  rw [not_or, not_lt, not_lt] at hlive
  exact hne (h.owner_unique ⟨x, hg, hlive.1⟩ ⟨x', hg', hlive.2⟩)

/-! ### Steps -/

section Steps

theorem tracks_nil [LE T] : Tracks m (fun _ => none) now [] := by
  intro k a
  constructor
  · intro h
    cases h
  · rintro ⟨x, -, hg, -⟩
    exact absurd hg not_granted_nil

/-- An event that concerns no lock. -/
theorem Tracks.other [LE T] (h : Tracks m entry now l) (hg : m.grant e = none)
    (hr : m.release e = none) : Tracks m entry now (l ++ [e]) := by
  intro k a
  rw [h k a]
  simp [granted_snoc, hg, hr]

/-- A lock that is free is granted. -/
theorem Tracks.granted [LE T] (h : Tracks m entry now l) (hg : m.grant e = some (k, o, x))
    (hr : m.release e = none) (hx : now ≤ x) (hfree : entry k = none)
    (hself : entry' k = some ⟨o, some x⟩) (hother : ∀ k', k' ≠ k → entry' k' = entry k') :
    Tracks m entry' now (l ++ [e]) := by
  intro k' a
  by_cases hk : k' = k
  · subst hk
    rw [hself]
    constructor
    · intro ha
      obtain rfl := Option.some.inj ha
      exact ⟨x, rfl, granted_snoc.mpr (Or.inr hg), hx⟩
    · rintro ⟨x', hax, hga, hx'⟩
      rcases granted_snoc.mp hga with ⟨hga, -⟩ | hga
      · -- the lock was not free
        have hlive := (h k' a).mpr ⟨x', hax, hga, hx'⟩
        rw [hfree] at hlive
        cases hlive
      · obtain ⟨-, hox⟩ := Prod.mk.inj (Option.some.inj (hg.symm.trans hga))
        obtain ⟨rfl, rfl⟩ := Prod.mk.inj hox
        obtain ⟨v, expiry⟩ := a
        rw [show expiry = some x from hax]
  · have hne (o' : O) (x' : T) : m.grant e ≠ some (k', o', x') := by
      intro hg'
      exact hk (Prod.mk.inj (Option.some.inj (hg'.symm.trans hg))).1
    rw [hother k' hk, h k' a]
    simp [granted_snoc, hne, hr]

/-- An owner gives a lock back, if it holds it. -/
theorem Tracks.released [LE T] (h : Tracks m entry now l) (hg : m.grant e = none)
    (hr : m.release e = some (k, o))
    (hself : ∀ a, entry' k = some a ↔ entry k = some a ∧ a.value ≠ o)
    (hother : ∀ k', k' ≠ k → entry' k' = entry k') : Tracks m entry' now (l ++ [e]) := by
  intro k' a
  have hno (x : T) : m.grant e ≠ some (k', a.value, x) := by
    rw [hg]
    exact nofun
  by_cases hk : k' = k
  · subst hk
    have hkeep : m.release e ≠ some (k', a.value) ↔ a.value ≠ o := by
      rw [hr]
      simp [eq_comm]
    rw [hself, h k' a]
    constructor
    · rintro ⟨⟨x, hax, hga, hx⟩, hne⟩
      exact ⟨x, hax, hga.snoc (hkeep.mpr hne), hx⟩
    · rintro ⟨x, hax, hga, hx⟩
      obtain ⟨hga, hne⟩ := (granted_snoc.mp hga).resolve_right (hno x)
      exact ⟨⟨x, hax, hga, hx⟩, hkeep.mp hne⟩
  · have hkeep : m.release e ≠ some (k', a.value) := by
      rw [hr]
      intro hk'
      exact hk (Prod.mk.inj (Option.some.inj hk')).1.symm
    rw [hother k' hk, h k' a]
    simp [granted_snoc, hno, hkeep]

/-- Time passes. -/
theorem Tracks.later [LinearOrder T] (h : Tracks m entry now l) (hg : m.grant e = none)
    (hr : m.release e = none) (hnow : now ≤ now')
    (hentry : ∀ k, entry' k = (entry k).filter (Entry.alive now')) :
    Tracks m entry' now' (l ++ [e]) := by
  intro k a
  rw [hentry, Option.filter_eq_some_iff, h k a]
  constructor
  · rintro ⟨⟨x, hax, hga, -⟩, halive⟩
    rw [Entry.alive, hax] at halive
    exact ⟨x, hax, granted_snoc.mpr (Or.inl ⟨hga, by simp [hr]⟩), of_decide_eq_true halive⟩
  · rintro ⟨x, hax, hga, hx⟩
    rcases granted_snoc.mp hga with ⟨hga, -⟩ | hga
    · refine ⟨⟨x, hax, hga, hnow.trans hx⟩, ?_⟩
      rw [Entry.alive, hax]
      exact decide_eq_true hx
    · rw [hg] at hga
      cases hga

end Steps

end Lease
