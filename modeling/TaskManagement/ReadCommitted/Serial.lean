import TaskManagement.ReadCommitted.Completion
import TaskManagement.ReadCommitted.Validity

/-!
# Transactions that run one after another

A `Serial` run is a list of calls, each run alone to its end on the rows that the one before has
left.  Its entries record the rows before each call, the call and the result.

* `Serial.entry`: the transaction of an entry;
* `Serial.invariant`: a property of the rows that every admitted call preserves holds before every
  call of a run whose calls are all admitted, and at its end;
* `Serial.valid`: the constraints hold throughout.
-/

namespace ReadCommitted

variable {ι : Type} {ρ : ι → Type} {κ ν ε α K : Type}

/-- A call that was made: the rows before it, and its result. -/
structure Entry {ι : Type} (K : Type) (ρ : ι → Type) (ε α : Type) where
  before : Store ρ
  call : K
  result : Except ε α

variable [DecidableEq ι] [DecidableEq κ]

/-- `r` is a result of the program `p`, run alone on the rows `s`, and `s'` are the rows then. -/
def EndsAlone (C : Constraints ρ ε) (p : Proc ρ κ ν ε α) (s : Store ρ) (r : Except ε α)
    (s' : Store ρ) : Prop :=
  ∃ c : Config Unit ρ κ ν ε α, Reachable C (.init s fun _ => p) c ∧ c.tx () = .done r ∧ c.db = s'

/-- The calls `l`, made one after another, lead from the rows `s₀` to `s`. -/
inductive Serial (C : Constraints ρ ε) (proc : K → Proc ρ κ ν ε α) (s₀ : Store ρ) :
    List (Entry K ρ ε α) → Store ρ → Prop where
  | nil : Serial C proc s₀ [] s₀
  | snoc {l : List (Entry K ρ ε α)} {s s' : Store ρ} {k : K} {r : Except ε α} :
      Serial C proc s₀ l s → EndsAlone C (proc k) s r s' →
        Serial C proc s₀ (l ++ [⟨s, k, r⟩]) s'

variable {C : Constraints ρ ε} {proc : K → Proc ρ κ ν ε α} {s₀ s : Store ρ}
  {l : List (Entry K ρ ε α)}

/-- The transaction of an entry. -/
theorem Serial.entry (h : Serial C proc s₀ l s) {e : Entry K ρ ε α} (he : e ∈ l) :
    ∃ s', EndsAlone C (proc e.call) e.before e.result s' := by
  induction h with
  | nil => cases he
  | snoc _ hend ih =>
    rcases List.mem_append.mp he with he | he
    · exact ih he
    · obtain rfl := List.mem_singleton.mp he
      exact ⟨_, hend⟩

/-- A property of the rows that every admitted call preserves. -/
theorem Serial.invariant (h : Serial C proc s₀ l s) (I : Store ρ → Prop)
    (ok : Store ρ → K → Prop) (h₀ : I s₀)
    (hstep : ∀ s k r s', I s → ok s k → EndsAlone C (proc k) s r s' → I s')
    (hok : ∀ e ∈ l, ok e.before e.call) : I s ∧ ∀ e ∈ l, I e.before := by
  induction h with
  | nil => exact ⟨h₀, fun e he => absurd he List.not_mem_nil⟩
  | snoc _ hend ih =>
    obtain ⟨hs, hl⟩ := ih fun e he => hok e (List.mem_append_left _ he)
    have hlast := hok _ (List.mem_append_right _ List.mem_cons_self)
    refine ⟨hstep _ _ _ _ hs hlast hend, fun e he => ?_⟩
    rcases List.mem_append.mp he with he | he
    · exact hl e he
    · obtain rfl := List.mem_singleton.mp he
      exact hs

/-- The constraints hold before every call. -/
theorem Serial.valid (h : Serial C proc s₀ l s) (h₀ : Valid C s₀) :
    Valid C s ∧ ∀ e ∈ l, Valid C e.before := by
  refine h.invariant (Valid C) (fun _ _ => True) h₀ ?_ fun _ _ => trivial
  rintro s k r _ hs - ⟨c, hrun, -, rfl⟩
  exact valid_of_reachable hs hrun

end ReadCommitted
