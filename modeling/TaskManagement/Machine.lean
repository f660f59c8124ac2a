import Mathlib.Data.List.Induction

/-!
# Deterministic machines and their runs

A `Machine S C R` answers calls `C` with replies `R`; a call that cannot be made in a state has no
step.  A `Run` records, for each step, the state in which the call was made, the call and the
reply, so that statements can speak about when something happened and what was answered.

* `Run.induction`: a property of runs that every step preserves holds of every run;
* `Run.split`: the state in which an event of a run happened is reached by the events before it;
* `run_of_exec`, `run_runOf`: a list of calls that can be made one after another is a run.
-/

/-- A deterministic machine: `none` when the call cannot be made. -/
structure Machine (S C R : Type) where
  step : S → C → Option (R × S)

namespace Machine

variable {S C R : Type}

/-- A step that was taken: the state before it, the call and the reply. -/
structure Event (S C R : Type) where
  pre : S
  call : C
  reply : R

/-- `M.Run s₀ l s`: the events `l`, in order, lead from `s₀` to `s`. -/
inductive Run (M : Machine S C R) (s₀ : S) : List (Event S C R) → S → Prop where
  | nil : Run M s₀ [] s₀
  | snoc {l : List (Event S C R)} {s s' : S} {c : C} {r : R} :
      Run M s₀ l s → M.step s c = some (r, s') → Run M s₀ (l ++ [⟨s, c, r⟩]) s'

variable {M : Machine S C R} {s₀ s s' : S} {l l' : List (Event S C R)}

/-- A property that holds of the empty run and that every step preserves holds of every run. -/
theorem Run.induction (I : List (Event S C R) → S → Prop) (h : M.Run s₀ l s) (h₀ : I [] s₀)
    (hstep : ∀ l s c r s', M.Run s₀ l s → I l s → M.step s c = some (r, s') →
      I (l ++ [⟨s, c, r⟩]) s') : I l s := by
  induction h with
  | nil => exact h₀
  | snoc hl hs ih => exact hstep _ _ _ _ _ hl ih hs

theorem Run.append (h : M.Run s₀ l s) (h' : M.Run s l' s') : M.Run s₀ (l ++ l') s' := by
  induction h' with
  | nil => rwa [List.append_nil]
  | snoc _ hs ih =>
    rw [← List.append_assoc]
    exact .snoc ih hs

/-- An event of a run happened in the state that the events before it reach, and the rest of the
run goes on from the state after it. -/
theorem Run.split {e : Event S C R} (h : M.Run s₀ (l ++ e :: l') s) :
    M.Run s₀ l e.pre ∧ ∃ s₁, M.step e.pre e.call = some (e.reply, s₁) ∧ M.Run s₁ l' s := by
  induction l' using List.reverseRecOn generalizing s with
  | nil =>
    generalize hL : l ++ [e] = L at h
    cases h with
    | nil => simp at hL
    | snoc hl hs =>
      obtain ⟨rfl, he⟩ := List.append_inj' hL rfl
      obtain rfl := List.singleton_inj.mp he
      exact ⟨hl, _, hs, .nil⟩
  | append_singleton l' e' ih =>
    generalize hL : l ++ e :: (l' ++ [e']) = L at h
    cases h with
    | nil => simp at hL
    | snoc hl hs =>
      rw [← List.cons_append, ← List.append_assoc] at hL
      obtain ⟨rfl, he⟩ := List.append_inj' hL rfl
      obtain rfl := List.singleton_inj.mp he
      obtain ⟨h₁, s₁, hs₁, h₂⟩ := ih hl
      exact ⟨h₁, s₁, hs₁, .snoc h₂ hs⟩

/-- Where an event of a list with one more event at the end is. -/
theorem split_snoc {α : Type} {l l₁ l₂ : List α} {a b : α} (h : l ++ [a] = l₁ ++ b :: l₂) :
    (l₁ = l ∧ b = a) ∨ ∃ l₃, l = l₁ ++ b :: l₃ := by
  induction l₂ using List.reverseRecOn with
  | nil =>
    obtain ⟨rfl, hab⟩ := List.append_inj' h rfl
    exact Or.inl ⟨rfl, (List.singleton_inj.mp hab).symm⟩
  | append_singleton l₃ c _ =>
    rw [← List.cons_append, ← List.append_assoc] at h
    exact Or.inr ⟨l₃, (List.append_inj' h rfl).1⟩

/-- A property of every event of a list and the events before it, checked by the number of the
event. -/
theorem forall_split {α : Type} {P : List α → α → Prop} {l : List α}
    (h : ∀ i (hi : i < l.length), P (l.take i) (l.get ⟨i, hi⟩)) {l₁ l₂ : List α} {a : α}
    (hl : l = l₁ ++ a :: l₂) : P l₁ a := by
  subst hl
  have hi := h l₁.length (by simp)
  rw [List.take_left] at hi
  simpa using hi

/-- The events of the calls `cs`, made one after another, and the state they reach. -/
def exec (M : Machine S C R) (s : S) : List C → Option (List (Event S C R) × S)
  | [] => some ([], s)
  | c :: cs =>
    match M.step s c with
    | none => none
    | some (r, s') => (M.exec s' cs).map fun x => (⟨s, c, r⟩ :: x.1, x.2)

theorem run_of_exec {cs : List C} (h : M.exec s cs = some (l, s')) : M.Run s l s' := by
  induction cs generalizing s l with
  | nil =>
    obtain ⟨rfl, rfl⟩ := Prod.mk.inj (Option.some.inj h)
    exact .nil
  | cons c cs ih =>
    simp only [exec] at h
    split at h
    · cases h
    · rename_i r s₁ hs
      obtain ⟨⟨l₁, s₂⟩, h₁, h₂⟩ := Option.map_eq_some_iff.mp h
      obtain ⟨rfl, rfl⟩ := Prod.mk.inj h₂
      exact Run.append (.snoc .nil hs) (ih h₁)

/-- The run of the calls `cs`. -/
def runOf (M : Machine S C R) (s : S) (cs : List C) (h : (M.exec s cs).isSome) :
    List (Event S C R) × S :=
  (M.exec s cs).get h

theorem run_runOf (M : Machine S C R) (s : S) (cs : List C) (h : (M.exec s cs).isSome) :
    M.Run s (M.runOf s cs h).1 (M.runOf s cs h).2 :=
  run_of_exec (Option.some_get h).symm

end Machine
