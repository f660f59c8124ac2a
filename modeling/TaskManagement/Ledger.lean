import TaskManagement.Machine
import Mathlib.Data.List.Count

/-!
# Tokens in the history of a run

`tally f l h` counts the events of `l` that concern the token `h`, where `f` tells the token and the
owner that an event concerns, if any.  `Superseded f l h u` says that an event of `l` concerns a
token of `u` after one that concerned the token `h` of `u`, and `latest f l u` is the last token of
`u` that an event of `l` concerns.
-/

namespace Ledger

variable {E H U : Type} {f : E → Option (H × U)} {l : List E} {e : E} {h : H} {u : U}

/-- The number of events that concern the token `h`. -/
def tally [DecidableEq H] (f : E → Option (H × U)) (l : List E) (h : H) : ℕ :=
  l.countP fun e => (f e).any fun x => decide (x.1 = h)

/-- Some event concerns the token `h` of `u`. -/
def Occurs (f : E → Option (H × U)) (l : List E) (h : H) (u : U) : Prop :=
  ∃ e ∈ l, f e = some (h, u)

/-- An event that concerns the token `h` of `u` is followed by one for the same owner. -/
def Superseded (f : E → Option (H × U)) (l : List E) (h : H) (u : U) : Prop :=
  ∃ l₁ e l₂, l = l₁ ++ e :: l₂ ∧ (∃ h', f e = some (h', u)) ∧ Occurs f l₁ h u

/-- The last token of the owner `u` that an event concerns. -/
def latest [DecidableEq U] (f : E → Option (H × U)) (l : List E) (u : U) : Option H :=
  l.foldl (fun o e => (f e).elim o fun x => if x.2 = u then some x.1 else o) none

theorem latest_snoc [DecidableEq U] (f : E → Option (H × U)) (l : List E) (e : E) (u : U) :
    latest f (l ++ [e]) u =
      (f e).elim (latest f l u) fun x => if x.2 = u then some x.1 else latest f l u := by
  rw [latest, List.foldl_append]
  rfl

theorem latest_snoc_none [DecidableEq U] (hf : f e = none) :
    latest f (l ++ [e]) u = latest f l u := by
  rw [latest_snoc, hf]
  rfl

theorem latest_snoc_self [DecidableEq U] (hf : f e = some (h, u)) :
    latest f (l ++ [e]) u = some h := by
  rw [latest_snoc, hf]
  exact if_pos rfl

theorem latest_snoc_of_ne [DecidableEq U] {u' : U} (hf : f e = some (h, u')) (hu : u' ≠ u) :
    latest f (l ++ [e]) u = latest f l u := by
  rw [latest_snoc, hf]
  exact if_neg hu

theorem tally_snoc [DecidableEq H] (f : E → Option (H × U)) (l : List E) (e : E) (h : H) :
    tally f (l ++ [e]) h =
      tally f l h + if (f e).any (fun x => decide (x.1 = h)) then 1 else 0 := by
  rw [tally, List.countP_append, List.countP_singleton]
  rfl

/-- An event that concerns no token leaves every count as it was. -/
theorem tally_snoc_none [DecidableEq H] (hf : f e = none) : tally f (l ++ [e]) h = tally f l h := by
  rw [tally_snoc, hf]
  rfl

theorem tally_snoc_some [DecidableEq H] {h' : H} (hf : f e = some (h', u)) :
    tally f (l ++ [e]) h = tally f l h + if h' = h then 1 else 0 := by
  rw [tally_snoc, hf, Option.any_some]
  simp only [decide_eq_true_eq]

theorem tally_eq_zero [DecidableEq H] (hl : ∀ u, ¬Occurs f l h u) : tally f l h = 0 := by
  refine List.countP_eq_zero.mpr fun e he hany => ?_
  obtain ⟨⟨h', u⟩, hx, hh⟩ := (Option.any_eq_true _ _).mp hany
  obtain rfl : h' = h := of_decide_eq_true hh
  exact hl u ⟨e, he, hx⟩

theorem Occurs.snoc (ho : Occurs f l h u) : Occurs f (l ++ [e]) h u := by
  obtain ⟨e', he', hf⟩ := ho
  exact ⟨e', List.mem_append_left _ he', hf⟩

theorem occurs_last (hf : f e = some (h, u)) : Occurs f (l ++ [e]) h u :=
  ⟨e, List.mem_append_right _ List.mem_cons_self, hf⟩

theorem occurs_snoc (ho : Occurs f (l ++ [e]) h u) : Occurs f l h u ∨ f e = some (h, u) := by
  obtain ⟨e', he', hf⟩ := ho
  rcases List.mem_append.mp he' with he' | he'
  · exact Or.inl ⟨e', he', hf⟩
  · obtain rfl := List.mem_singleton.mp he'
    exact Or.inr hf

theorem not_superseded_nil : ¬Superseded f ([] : List E) h u := by
  rintro ⟨l₁, e, l₂, hl, -⟩
  simp at hl

theorem Superseded.occurs (hs : Superseded f l h u) : Occurs f l h u := by
  obtain ⟨l₁, e, l₂, rfl, -, e', he', hf⟩ := hs
  exact ⟨e', List.mem_append_left _ he', hf⟩

/-- A token that is superseded at the end of a history was so before, or its last event supersedes
it. -/
theorem superseded_snoc (hs : Superseded f (l ++ [e]) h u) :
    Superseded f l h u ∨ (∃ h', f e = some (h', u)) ∧ Occurs f l h u := by
  obtain ⟨l₁, e', l₂, hl, he', ho⟩ := hs
  rcases Machine.split_snoc hl with ⟨rfl, rfl⟩ | ⟨l₃, rfl⟩
  · exact Or.inr ⟨he', ho⟩
  · exact Or.inl ⟨l₁, e', l₃, rfl, he', ho⟩

end Ledger
