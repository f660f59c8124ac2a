import TaskManagement.Json.Loads

/-!
# `json.loads` does not run out of fuel

Every scanner leaves a shorter text than it was given (`Reads`), so the loops over the items of a
container end before their fuel does, and `loads` fails only as Python's does
(`loads_ne_outOfFuel`).
-/

namespace Json

variable {α β : Type} {n m : ℕ}

/-! ### Scanners that read -/

/-- A result that leaves fewer than `n` characters, or an error of Python's. -/
inductive Reads (n : ℕ) : Except Error (α × Str) → Prop
  | ok {a : α} {s : Str} (h : s.length < n) : Reads n (.ok (a, s))
  | error {e : Error} (h : e ≠ .outOfFuel) : Reads n (.error e)

theorem Reads.mono {x : Except Error (α × Str)} (h : Reads m x) (hmn : m ≤ n) : Reads n x := by
  cases h with
  | ok h => exact .ok (Nat.lt_of_lt_of_le h hmn)
  | error h => exact .error h

theorem Reads.bind {x : Except Error (α × Str)} {f : α × Str → Except Error (β × Str)}
    (h : Reads n x) (hf : ∀ a s, s.length < n → Reads n (f (a, s))) : Reads n (x >>= f) := by
  cases h with
  | ok h => exact hf _ _ h
  | error h => exact .error h

theorem Reads.ne_outOfFuel {x : Except Error (α × Str)} (h : Reads n x) :
    x ≠ .error .outOfFuel := by
  rintro rfl
  cases h with
  | error h => exact h rfl

theorem reads_jsonDecodeError : Reads n (.error .jsonDecodeError : Except Error (α × Str)) :=
  .error (by decide)

theorem length_skip_le (s : Str) : (skip s).length ≤ s.length :=
  (List.dropWhile_sublist isSpace).length_le

theorem length_span_le (s : Str) (p : ℕ → Bool) : (s.span p).2.length ≤ s.length := by
  rw [List.span_eq_takeWhile_dropWhile]
  exact (List.dropWhile_sublist p).length_le

/-! ### Atoms -/

theorem scanString_reads (state : StringState) (s : Str) :
    Reads s.length (scanString state s) := by
  induction s generalizing state with
  | nil =>
    rw [scanString]
    exact reads_jsonDecodeError
  | cons c s ih =>
    rw [scanString]
    cases state.step c with
    | invalid => exact reads_jsonDecodeError
    | close text => exact .ok (Nat.lt_succ_self _)
    | next text state =>
      apply ((ih state).mono (Nat.le_succ _)).bind
      intro more rest hrest
      exact .ok hrest

/-- Characters that a span has taken are gone from the rest. -/
theorem length_lt_of_span {s digits rest : Str} {p : ℕ → Bool} (h : s.span p = (digits, rest))
    (hdigits : digits ≠ []) : rest.length < s.length := by
  rw [List.span_eq_takeWhile_dropWhile, Prod.mk.injEq] at h
  have happend := congrArg List.length (List.takeWhile_append_dropWhile (p := p) (l := s))
  have hpos := List.length_pos_iff.2 hdigits
  rw [List.length_append, h.1, h.2] at happend
  omega

theorem scanDigits_reads (s : Str) : Reads s.length (scanDigits s) := by
  rw [scanDigits.eq_def]
  split
  · exact .ok (Nat.lt_succ_self _)
  · split
    · exact reads_jsonDecodeError
    · next digits hne =>
      exact .ok (length_lt_of_span rfl fun hnil => hne _ (Prod.ext hnil rfl))

theorem length_scanFraction_le (s : Str) : (scanFraction s).2.length ≤ s.length := by
  rw [scanFraction.eq_def]
  split
  · next t =>
    split
    · exact Nat.le_refl _
    · next digits rest _ h =>
      have := length_span_le t isDigit
      rw [h] at this
      exact Nat.le_succ_of_le this
  · exact Nat.le_refl _

theorem length_scanSign_le (s : Str) : (scanSign s).2.length ≤ s.length := by
  rw [scanSign.eq_def]
  split
  · exact Nat.le_succ _
  · exact Nat.le_succ _
  · exact Nat.le_refl _

theorem length_scanExponent_le (s : Str) : (scanExponent s).2.length ≤ s.length := by
  rw [scanExponent.eq_def]
  split
  · next e t =>
    split
    · dsimp only
      split
      · exact Nat.le_refl _
      · next digits rest _ h =>
        have hsign := length_scanSign_le t
        have := length_span_le (scanSign t).2 isDigit
        rw [h] at this
        show rest.length ≤ t.length + 1
        dsimp only at this
        omega
    · exact Nat.le_refl _
  · exact Nat.le_refl _

theorem scanUnsigned_reads (negative : Bool) (s : Str) :
    Reads s.length (scanUnsigned negative s) := by
  rw [scanUnsigned]
  apply (scanDigits_reads s).bind
  intro digits rest hrest
  have hfraction := length_scanFraction_le rest
  have hexponent := length_scanExponent_le (scanFraction rest).2
  dsimp only
  split
  · split
    · exact .error (by decide)
    · exact .ok (by omega)
  · exact .ok (by omega)

theorem constants_ne_nil : ∀ c ∈ constants, c.1 ≠ [] := by decide

theorem scanAtom_reads (s : Str) : Reads s.length (scanAtom s) := by
  rw [scanAtom.eq_def]
  split
  · next s =>
    apply ((scanString_reads .chars s).mono (Nat.le_succ _)).bind
    intro text rest hrest
    exact .ok hrest
  · split
    · next s hquote name value hfind =>
      have hpos := List.length_pos_iff.2
        (constants_ne_nil (name, value) (List.mem_of_find?_eq_some hfind))
      have hfound := List.find?_some hfind
      have hle := (List.isPrefixOf_iff_prefix.1 hfound).length_le
      apply Reads.ok
      rw [List.length_drop]
      dsimp only at hpos hle
      omega
    · split
      · next s _ _ => exact (scanUnsigned_reads true s).mono (Nat.le_succ _)
      · exact scanUnsigned_reads false _

/-! ### Containers -/

variable {value : Scan Value}

theorem scanItems_reads (hvalue : ∀ s, Reads s.length (value s)) (fuel : ℕ) :
    ∀ s : Str, s.length < fuel → Reads s.length (scanItems value fuel s) := by
  induction fuel with
  | zero =>
    intro s hs
    omega
  | succ fuel ih =>
    intro s hs
    rw [scanItems]
    apply (hvalue s).bind
    intro v rest hrest
    have hskip := length_skip_le rest
    dsimp only
    split
    · next t ht =>
      rw [ht, List.length_cons] at hskip
      exact .ok (by omega)
    · next t ht =>
      rw [ht, List.length_cons] at hskip
      have hskip' := length_skip_le t
      split
      · exact reads_jsonDecodeError
      · apply ((ih (skip t) (by omega)).mono (by omega)).bind
        intro vs rest hrest
        exact .ok hrest
    · exact reads_jsonDecodeError

theorem scanMember_reads (hvalue : ∀ s, Reads s.length (value s)) (s : Str) :
    Reads s.length (scanMember value s) := by
  rw [scanMember.eq_def]
  split
  · next s =>
    apply ((scanString_reads .chars s).mono (Nat.le_succ _)).bind
    intro key rest hrest
    have hskip := length_skip_le rest
    dsimp only
    split
    · next t ht =>
      rw [ht, List.length_cons] at hskip
      have hskip' := length_skip_le t
      apply ((hvalue (skip t)).mono (by omega)).bind
      intro v rest hrest
      exact .ok hrest
    · exact reads_jsonDecodeError
  · exact reads_jsonDecodeError

theorem scanMembers_reads (hvalue : ∀ s, Reads s.length (value s)) (fuel : ℕ) :
    ∀ s : Str, s.length < fuel → Reads s.length (scanMembers value fuel s) := by
  induction fuel with
  | zero =>
    intro s hs
    omega
  | succ fuel ih =>
    intro s hs
    rw [scanMembers]
    apply (scanMember_reads hvalue s).bind
    intro m rest hrest
    have hskip := length_skip_le rest
    dsimp only
    split
    · next t ht =>
      rw [ht, List.length_cons] at hskip
      exact .ok (by omega)
    · next t ht =>
      rw [ht, List.length_cons] at hskip
      have hskip' := length_skip_le t
      split
      · exact reads_jsonDecodeError
      · apply ((ih (skip t) (by omega)).mono (by omega)).bind
        intro ms rest hrest
        exact .ok hrest
    · exact reads_jsonDecodeError

theorem scanArray_reads (hvalue : ∀ s, Reads s.length (value s)) (s : Str) :
    Reads (s.length + 1) (scanArray value s) := by
  have hskip := length_skip_le s
  rw [scanArray]
  split
  · next t ht =>
    rw [ht, List.length_cons] at hskip
    exact .ok (by omega)
  · apply ((scanItems_reads hvalue _ (skip s) (Nat.lt_succ_self _)).mono (by omega)).bind
    intro items rest hrest
    exact .ok hrest

theorem scanObject_reads (hvalue : ∀ s, Reads s.length (value s)) (s : Str) :
    Reads (s.length + 1) (scanObject value s) := by
  have hskip := length_skip_le s
  rw [scanObject]
  split
  · next t ht =>
    rw [ht, List.length_cons] at hskip
    exact .ok (by omega)
  · apply ((scanMembers_reads hvalue _ (skip s) (Nat.lt_succ_self _)).mono (by omega)).bind
    intro members rest hrest
    exact .ok hrest

theorem scanOnce_reads (depth : ℕ) (s : Str) : Reads s.length (scanOnce depth s) := by
  induction depth generalizing s with
  | zero =>
    rw [scanOnce]
    split
    · exact .error (by decide)
    · exact scanAtom_reads s
  | succ depth ih =>
    rw [scanOnce.eq_def]
    split
    · next h => cases h
    · next h =>
      cases h
      exact scanObject_reads ih _
    · next h =>
      cases h
      exact scanArray_reads ih _
    · exact scanAtom_reads _

/-! ### `json.loads` -/

theorem loads_ne_outOfFuel (depth : ℕ) (bytes : List UInt8) :
    loads depth bytes ≠ .error .outOfFuel := by
  rw [loads]
  cases decode (bytes.map UInt8.toNat) with
  | none =>
    intro heq
    cases heq
  | some s =>
    have h := scanOnce_reads depth (skip s)
    intro heq
    dsimp only at heq
    cases hscan : scanOnce depth (skip s) with
    | error e =>
      rw [hscan] at heq h
      cases heq
      exact h.ne_outOfFuel rfl
    | ok r =>
      rw [hscan] at heq
      change (if skip r.2 = [] then _ else _) = _ at heq
      split at heq <;> cases heq

end Json
