import TaskManagement.Ledger
import TaskManagement.TimedKeys

/-!
# One-time tickets

A ticket is minted under a name with a value and a time to live, and a redemption takes it away,
whether or not it is still alive.  `Tickets` tells how the events of a run concern the tickets, and
`Tracks` relates a history to the entries of a keyspace.

* `Tracks.found_iff`: what a redemption finds is what the ticket was minted with, exactly when that
  was less than its time to live ago and nothing has minted or redeemed the name since;
* `Tracks.tally_le`: a name is found no more often than it was minted, so only once where the names
  are minted once (`Once`);
* `Tracks.other`, `Tracks.minted` and `Tracks.taken` are the three kinds of steps.
-/

namespace OneTime

open Ledger (tally tally_snoc tally_snoc_none tally_snoc_some)

/-- How the events `E` of a run concern the tickets `K`, with values in `V`: `take` is a redemption
and `found` one that finds a ticket. -/
structure Tickets (E K V T : Type) where
  mint : E → Option (K × V)
  take : E → Option K
  found : E → Option (K × V)
  time : E → T
  ttl : T

variable {E K V T : Type}

/-- The event mints or redeems the ticket. -/
def Tickets.Touches (t : Tickets E K V T) (e : E) (k : K) : Prop :=
  t.take e = some k ∨ ∃ v, t.mint e = some (k, v)

/-- The value of an entry that is alive at `now`. -/
def valueAt [LT T] [DecidableLT T] (now : T) (o : Option (Entry T V)) : Option V :=
  (o.filter fun a => a.expiry.all fun x => decide (now < x)).map Entry.value

variable [Add T]

/-- The ticket was minted as the entry `a`, and nothing has minted or redeemed its name since. -/
def Outstanding (t : Tickets E K V T) (l : List E) (k : K) (a : Entry T V) : Prop :=
  ∃ l₁ e l₂, l = l₁ ++ e :: l₂ ∧ t.mint e = some (k, a.value) ∧
    a.expiry = some (t.time e + t.ttl) ∧ ∀ e' ∈ l₂, ¬t.Touches e' k

/-- The entries are the outstanding tickets, and a name is found or alive no more often than it was
minted. -/
structure Tracks [DecidableEq K] (t : Tickets E K V T) (entry : K → Option (Entry T V))
    (l : List E) : Prop where
  entry_iff : ∀ k a, entry k = some a ↔ Outstanding t l k a
  found_le : ∀ k, tally t.found l k + (if (entry k).isSome then 1 else 0) ≤ tally t.mint l k

variable {t : Tickets E K V T} {entry entry' : K → Option (Entry T V)} {l : List E} {e : E} {k : K}
  {v : V} {a : Entry T V}

theorem not_outstanding_nil : ¬Outstanding t [] k a := by
  rintro ⟨l₁, e, l₂, h, -⟩
  simp at h

/-- What is outstanding after one more event. -/
theorem outstanding_snoc : Outstanding t (l ++ [e]) k a ↔
    (Outstanding t l k a ∧ ¬t.Touches e k) ∨
      (t.mint e = some (k, a.value) ∧ a.expiry = some (t.time e + t.ttl)) := by
  constructor
  · rintro ⟨l₁, e', l₂, hl, hm, hx, hr⟩
    rcases Machine.split_snoc hl with ⟨rfl, rfl⟩ | ⟨l₃, rfl⟩
    · exact Or.inr ⟨hm, hx⟩
    · have hl₂ : l₂ = l₃ ++ [e] := by
        rw [List.append_assoc, List.cons_append] at hl
        have hcons := List.append_cancel_left hl
        exact (List.cons.inj hcons).2.symm
      rw [hl₂] at hr
      refine Or.inl ⟨⟨l₁, e', l₃, rfl, hm, hx, fun e'' he => hr e'' ?_⟩, hr e ?_⟩
      · exact List.mem_append_left _ he
      · exact List.mem_append_right _ List.mem_cons_self
  · rintro (⟨⟨l₁, e', l₂, rfl, hm, hx, hr⟩, he⟩ | ⟨hm, hx⟩)
    · refine ⟨l₁, e', l₂ ++ [e], by simp, hm, hx, fun e'' he'' => ?_⟩
      rcases List.mem_append.mp he'' with he'' | he''
      · exact hr e'' he''
      · rw [List.mem_singleton.mp he'']
        exact he
    · exact ⟨l, e, [], rfl, hm, hx, fun e' he' => absurd he' List.not_mem_nil⟩

section Laws

variable [DecidableEq K] [LT T] [DecidableLT T]

/-- What a redemption finds. -/
theorem Tracks.found_iff (h : Tracks t entry l) {now : T} : valueAt now (entry k) = some v ↔
    ∃ l₁ e l₂, l = l₁ ++ e :: l₂ ∧ t.mint e = some (k, v) ∧ now < t.time e + t.ttl ∧
      ∀ e' ∈ l₂, ¬t.Touches e' k := by
  rw [valueAt, Option.map_eq_some_iff]
  simp only [Option.filter_eq_some_iff]
  constructor
  · rintro ⟨a, ⟨ha, halive⟩, rfl⟩
    obtain ⟨l₁, e, l₂, hl, hm, hx, hr⟩ := (h.entry_iff k a).mp ha
    rw [hx, Option.all_some, decide_eq_true_eq] at halive
    exact ⟨l₁, e, l₂, hl, hm, halive, hr⟩
  · rintro ⟨l₁, e, l₂, hl, hm, halive, hr⟩
    have ho : Outstanding t l k ⟨v, some (t.time e + t.ttl)⟩ := ⟨l₁, e, l₂, hl, hm, rfl, hr⟩
    exact ⟨_, ⟨(h.entry_iff k _).mpr ho, by simpa using halive⟩, rfl⟩

omit [LT T] [DecidableLT T] in
theorem Tracks.tally_le (h : Tracks t entry l) (k : K) : tally t.found l k ≤ tally t.mint l k :=
  (Nat.le_add_right _ _).trans (h.found_le k)

end Laws

/-! ### A name that is used once -/

section Once

variable {U : Type} [DecidableEq K] {f : E → Option (K × U)} {l₁ l₂ l₃ : List E} {e' : E}
  {u u' : U}

/-- No two events concern one name. -/
def Once (f : E → Option (K × U)) (l : List E) : Prop := ((l.filterMap f).map Prod.fst).Nodup

instance (f : E → Option (K × U)) (l : List E) : Decidable (Once f l) :=
  inferInstanceAs (Decidable (List.Nodup _))

theorem Once.tally_le (h : Once f l) (k : K) : tally f l k ≤ 1 := by
  have hcount : tally f l k = ((l.filterMap f).map Prod.fst).count k := by
    rw [tally, List.count, List.countP_map, List.countP_filterMap]
    refine List.countP_congr fun e _ => ?_
    cases f e <;> simp
  rw [hcount]
  exact List.nodup_iff_count_le_one.mp h k

/-- The only event of its kind that concerns a name. -/
theorem eq_of_tally_le_one (h : tally f l k ≤ 1) (he : e ∈ l) (he' : e' ∈ l)
    (hf : f e = some (k, u)) (hf' : f e' = some (k, u')) : e = e' := by
  rw [tally, List.countP_eq_length_filter] at h
  have hmem : e ∈ l.filter fun e => (f e).any fun x => decide (x.1 = k) :=
    List.mem_filter.mpr ⟨he, by simp [hf]⟩
  have hmem' : e' ∈ l.filter fun e => (f e).any fun x => decide (x.1 = k) :=
    List.mem_filter.mpr ⟨he', by simp [hf']⟩
  obtain ⟨i, hi, rfl⟩ := List.mem_iff_getElem.mp hmem
  obtain ⟨j, hj, rfl⟩ := List.mem_iff_getElem.mp hmem'
  have hij : i = j := by omega
  subst hij
  rfl

theorem two_le_tally (hl : l = l₁ ++ e :: l₂ ++ e' :: l₃) (hf : f e = some (k, u))
    (hf' : f e' = some (k, u')) : 2 ≤ tally f l k := by
  rw [hl, tally, List.countP_append, List.countP_append, List.countP_cons, List.countP_cons, hf,
    hf']
  simp
  omega

/-- An event that concerns a name by `f` does so by `g`. -/
theorem tally_le_tally {W : Type} {g : E → Option (K × W)}
    (h : ∀ e ∈ l, ∀ u, f e = some (k, u) → ∃ u', g e = some (k, u')) :
    tally f l k ≤ tally g l k := by
  refine List.countP_mono_left fun e he hany => ?_
  obtain ⟨⟨k', u⟩, hf, hk⟩ := (Option.any_eq_true _ _).mp hany
  obtain rfl : k' = k := of_decide_eq_true hk
  obtain ⟨u', hg⟩ := h e he u hf
  simp [hg]

end Once

/-! ### Steps -/

section Steps

variable [DecidableEq K]

theorem tracks_nil : Tracks t (fun _ => none) [] where
  entry_iff k a := by
    constructor
    · intro h
      cases h
    · intro h
      exact absurd h not_outstanding_nil
  found_le k := by simp [tally]

/-- An event that concerns no ticket. -/
theorem Tracks.other (h : Tracks t entry l) (hm : t.mint e = none) (ht : t.take e = none)
    (hf : t.found e = none) (hentry : ∀ k, entry' k = entry k) : Tracks t entry' (l ++ [e]) where
  entry_iff k a := by
    rw [hentry, h.entry_iff, outstanding_snoc]
    simp [Tickets.Touches, hm, ht]
  found_le k := by
    rw [tally_snoc_none hf, tally_snoc_none hm, hentry]
    exact h.found_le k

/-- A new ticket, in the place of one of its name. -/
theorem Tracks.minted (h : Tracks t entry l) (hm : t.mint e = some (k, v)) (ht : t.take e = none)
    (hf : t.found e = none) (hself : entry' k = some ⟨v, some (t.time e + t.ttl)⟩)
    (hother : ∀ k', k' ≠ k → entry' k' = entry k') : Tracks t entry' (l ++ [e]) where
  entry_iff k' a := by
    rw [outstanding_snoc]
    by_cases hk : k' = k
    · subst hk
      have htouch : t.Touches e k' := Or.inr ⟨v, hm⟩
      rw [hself, hm]
      constructor
      · intro ha
        rw [← Option.some.inj ha]
        exact Or.inr ⟨rfl, rfl⟩
      · rintro (⟨-, hn⟩ | ⟨hv, hx⟩)
        · exact absurd htouch hn
        · have hvalue : v = a.value := (Prod.mk.inj (Option.some.inj hv)).2
          rw [hvalue, ← hx]
    · have htouch : ¬t.Touches e k' := by
        rintro (hk' | ⟨v', hk'⟩)
        · rw [ht] at hk'
          cases hk'
        · rw [hm] at hk'
          exact hk (Prod.mk.inj (Option.some.inj hk')).1.symm
      have hmint : t.mint e ≠ some (k', a.value) := fun hk' => htouch (Or.inr ⟨_, hk'⟩)
      rw [hother k' hk, h.entry_iff]
      simp [htouch, hmint]
  found_le k' := by
    rw [tally_snoc_none hf, tally_snoc_some hm]
    have hle := h.found_le k'
    by_cases hk : k' = k
    · subst hk
      rw [if_pos rfl]
      split <;> omega
    · rw [if_neg (Ne.symm hk), hother k' hk]
      exact hle

/-- A redemption, which finds a ticket only where there is one. -/
theorem Tracks.taken (h : Tracks t entry l) (hm : t.mint e = none) (ht : t.take e = some k)
    (hf : ∀ k' v, t.found e = some (k', v) → k' = k ∧ (entry k).isSome) (hself : entry' k = none)
    (hother : ∀ k', k' ≠ k → entry' k' = entry k') : Tracks t entry' (l ++ [e]) where
  entry_iff k' a := by
    rw [outstanding_snoc, hm]
    by_cases hk : k' = k
    · subst hk
      have htouch : t.Touches e k' := Or.inl ht
      rw [hself]
      simp [htouch]
    · have htouch : ¬t.Touches e k' := by
        rintro (hk' | ⟨v', hk'⟩)
        · rw [ht] at hk'
          exact hk (Option.some.inj hk').symm
        · rw [hm] at hk'
          cases hk'
      rw [hother k' hk, h.entry_iff]
      simp [htouch]
  found_le k' := by
    have hle := h.found_le k'
    rw [tally_snoc_none hm]
    cases hfound : t.found e with
    | none =>
      rw [tally_snoc_none hfound]
      by_cases hk : k' = k
      · subst hk
        rw [hself]
        exact (Nat.le_add_right _ _).trans hle
      · rw [hother k' hk]
        exact hle
    | some x =>
      obtain ⟨k'', v⟩ := x
      obtain ⟨rfl, hsome⟩ := hf k'' v hfound
      rw [tally_snoc_some hfound]
      by_cases hk : k' = k''
      · subst hk
        rw [if_pos hsome] at hle
        rw [hself, if_pos rfl]
        exact hle
      · rw [if_neg (Ne.symm hk), hother k' hk]
        exact hle

end Steps

end OneTime
