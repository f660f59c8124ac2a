import Mathlib.Algebra.Order.Monoid.Defs
import Mathlib.Data.Finset.Insert
import Mathlib.Data.Finset.Basic
import Mathlib.Data.Finset.Dedup
import Mathlib.Logic.Function.Basic

/-!
# A keyspace with expiring keys

The part of a Redis database that the stores of this development use: keys that hold a value
(`string`) and keys that hold a set of members (`set`), each with an optional expiry, and a clock.
A key whose expiry has passed does not exist: that no expired entry is ever visible is part of the
type (`Keyspace.string_live`, `Keyspace.set_live`).  The commands keep their Redis names: `setEx`
is `SETEX` or `SET ... EX`, `sadd` keeps the expiry of the set it adds to, `srem` removes a set with
its last member, `expire` does nothing on a missing key.  A command that would leave an expiry in
the past removes the key.
-/

/-- The value of a key and the time after which the key is gone; `none` for a key that stays. -/
structure Entry (T α : Type) where
  value : α
  expiry : Option T

/-- The entry is not expired at `now`. -/
def Entry.alive {T α : Type} [LE T] [DecidableLE T] (now : T) (e : Entry T α) : Bool :=
  e.expiry.all fun x => decide (now ≤ x)

/-- A keyspace: `V k` is the type of the value of the key `k`, `μ` are the keys of sets and `M`
their members. -/
structure Keyspace (T : Type) [LE T] [DecidableLE T] {κ : Type} (V : κ → Type) (μ M : Type) where
  now : T
  string : (k : κ) → Option (Entry T (V k))
  set : μ → Option (Entry T (Finset M))
  string_live : ∀ k e, string k = some e → e.alive now
  set_live : ∀ m e, set m = some e → e.alive now

namespace Keyspace

variable {T : Type} {κ : Type} {V : κ → Type} {μ M : Type}

section Commands

variable [LE T] [DecidableLE T]

/-- The keyspace without keys. -/
def empty (now : T) : Keyspace T V μ M where
  now := now
  string _ := none
  set _ := none
  string_live _ _ h := by cases h
  set_live _ _ h := by cases h

/-- Put the entry `e` at the key `k`; an expired entry leaves no key. -/
def putString [DecidableEq κ] (s : Keyspace T V μ M) (k : κ) (e : Option (Entry T (V k))) :
    Keyspace T V μ M :=
  { s with
    string := Function.update s.string k (e.filter (Entry.alive s.now))
    string_live := by
      intro k' e' h
      by_cases hk : k' = k
      · subst hk
        rw [Function.update_self] at h
        exact (Option.filter_eq_some_iff.mp h).2
      · rw [Function.update_of_ne hk] at h
        exact s.string_live k' e' h }

/-- Put the entry `e` at the key `m` of a set; an expired entry leaves no key. -/
def putSet [DecidableEq μ] (s : Keyspace T V μ M) (m : μ) (e : Option (Entry T (Finset M))) :
    Keyspace T V μ M :=
  { s with
    set := Function.update s.set m (e.filter (Entry.alive s.now))
    set_live := by
      intro m' e' h
      by_cases hm : m' = m
      · subst hm
        rw [Function.update_self] at h
        exact (Option.filter_eq_some_iff.mp h).2
      · rw [Function.update_of_ne hm] at h
        exact s.set_live m' e' h }

/-- `GET` -/
def get (s : Keyspace T V μ M) (k : κ) : Option (V k) := (s.string k).map Entry.value

/-- `EXISTS` -/
def existsKey (s : Keyspace T V μ M) (k : κ) : Bool := (s.string k).isSome

/-- `SMEMBERS` -/
def smembers (s : Keyspace T V μ M) (m : μ) : Finset M := ((s.set m).map Entry.value).getD ∅

/-- `SMEMBERS` may answer in the order `members`. -/
def ListsMembers [DecidableEq M] (s : Keyspace T V μ M) (m : μ) (members : List M) : Prop :=
  members.Nodup ∧ members.toFinset = s.smembers m

instance [DecidableEq M] (s : Keyspace T V μ M) (m : μ) (members : List M) :
    Decidable (s.ListsMembers m members) :=
  inferInstanceAs (Decidable (_ ∧ _))

variable [DecidableEq κ] [DecidableEq μ] [DecidableEq M] [Add T]

/-- `SETEX` -/
def setEx (s : Keyspace T V μ M) (k : κ) (v : V k) (ttl : T) : Keyspace T V μ M :=
  s.putString k (some ⟨v, some (s.now + ttl)⟩)

/-- `DEL` of a value -/
def del (s : Keyspace T V μ M) (k : κ) : Keyspace T V μ M := s.putString k none

/-- `EXPIRE` of a value -/
def expire (s : Keyspace T V μ M) (k : κ) (ttl : T) : Keyspace T V μ M :=
  s.putString k ((s.string k).map fun e => { e with expiry := some (s.now + ttl) })

/-- `SADD` -/
def sadd (s : Keyspace T V μ M) (m : μ) (x : M) : Keyspace T V μ M :=
  s.putSet m (some ⟨insert x (s.smembers m), (s.set m).bind Entry.expiry⟩)

/-- `SREM` -/
def srem (s : Keyspace T V μ M) (m : μ) (x : M) : Keyspace T V μ M :=
  s.putSet m ((s.set m).bind fun e =>
    if e.value.erase x = ∅ then none else some { e with value := e.value.erase x })

/-- `DEL` of a set -/
def delSet (s : Keyspace T V μ M) (m : μ) : Keyspace T V μ M := s.putSet m none

/-- `EXPIRE` of a set -/
def expireSet (s : Keyspace T V μ M) (m : μ) (ttl : T) : Keyspace T V μ M :=
  s.putSet m ((s.set m).map fun e => { e with expiry := some (s.now + ttl) })

/-- Let the time `d` pass: the keys that expire on the way are gone. -/
def advance (s : Keyspace T V μ M) (d : T) : Keyspace T V μ M where
  now := s.now + d
  string k := (s.string k).filter (Entry.alive (s.now + d))
  set m := (s.set m).filter (Entry.alive (s.now + d))
  string_live _ _ h := (Option.filter_eq_some_iff.mp h).2
  set_live _ _ h := (Option.filter_eq_some_iff.mp h).2

end Commands

/-! ### What a command changes -/

set_option linter.unusedSectionVars false

section

variable [LE T] [DecidableLE T] {s : Keyspace T V μ M} {k : κ}

theorem get_of_some {e : Entry T (V k)} (h : s.string k = some e) : s.get k = some e.value := by
  rw [get, h, Option.map_some]

theorem get_of_none (h : s.string k = none) : s.get k = none := by rw [get, h, Option.map_none]

theorem existsKey_of_some {e : Entry T (V k)} (h : s.string k = some e) : s.existsKey k := by
  rw [existsKey, h, Option.isSome_some]

theorem existsKey_of_none (h : s.string k = none) : s.existsKey k = false := by
  rw [existsKey, h, Option.isSome_none]

theorem mem_smembers {m : μ} {e : Entry T (Finset M)} {x : M} (h : s.set m = some e)
    (hx : x ∈ e.value) : x ∈ s.smembers m := by
  rw [smembers, h]
  exact hx

/-- The members of a set are among those that `SMEMBERS` answers. -/
theorem ListsMembers.mem [DecidableEq M] {m : μ} {members : List M} {e : Entry T (Finset M)}
    {x : M} (hl : s.ListsMembers m members) (h : s.set m = some e) (hx : x ∈ e.value) :
    x ∈ members := by
  rw [← List.mem_toFinset, hl.2]
  exact mem_smembers h hx

variable (s) in
theorem string_iff_alive (k : κ) (e : Entry T (V k)) :
    s.string k = some e ↔ s.string k = some e ∧ e.alive s.now :=
  ⟨fun h => ⟨h, s.string_live k e h⟩, And.left⟩

end

section

variable [LE T] [DecidableLE T] [DecidableEq κ] [DecidableEq μ]
variable (s : Keyspace T V μ M) {k k' : κ} {m m' : μ}

@[simp] theorem putString_now (e : Option (Entry T (V k))) : (s.putString k e).now = s.now := rfl
@[simp] theorem putString_set (e : Option (Entry T (V k))) : (s.putString k e).set = s.set := rfl
@[simp] theorem putSet_now (e : Option (Entry T (Finset M))) : (s.putSet m e).now = s.now := rfl
@[simp] theorem putSet_string (e : Option (Entry T (Finset M))) :
    (s.putSet m e).string = s.string := rfl

theorem putString_string_self {e : Option (Entry T (V k))} (h : ∀ x ∈ e, x.alive s.now) :
    (s.putString k e).string k = e := by
  simp only [putString, Function.update_self]
  cases e with
  | none => rfl
  | some x => exact Option.filter_some_pos (h x rfl)

theorem putString_string_of_ne {e : Option (Entry T (V k))} (h : k' ≠ k) :
    (s.putString k e).string k' = s.string k' := by
  simp only [putString, Function.update_of_ne h]

theorem putSet_set_self {e : Option (Entry T (Finset M))} (h : ∀ x ∈ e, x.alive s.now) :
    (s.putSet m e).set m = e := by
  simp only [putSet, Function.update_self]
  cases e with
  | none => rfl
  | some x => exact Option.filter_some_pos (h x rfl)

theorem putSet_set_of_ne {e : Option (Entry T (Finset M))} (h : m' ≠ m) :
    (s.putSet m e).set m' = s.set m' := by
  simp only [putSet, Function.update_of_ne h]

end

section

variable [LE T] [DecidableLE T] [DecidableEq κ] [DecidableEq μ] [DecidableEq M] [Add T]
variable (s : Keyspace T V μ M) {k k' : κ} {m m' : μ} (v : V k) (x : M) (ttl : T)

@[simp] theorem setEx_now : (s.setEx k v ttl).now = s.now := rfl
@[simp] theorem setEx_set : (s.setEx k v ttl).set = s.set := rfl
@[simp] theorem del_now : (s.del k).now = s.now := rfl
@[simp] theorem del_set : (s.del k).set = s.set := rfl
@[simp] theorem expire_now : (s.expire k ttl).now = s.now := rfl
@[simp] theorem expire_set : (s.expire k ttl).set = s.set := rfl
@[simp] theorem sadd_now : (s.sadd m x).now = s.now := rfl
@[simp] theorem sadd_string : (s.sadd m x).string = s.string := rfl
@[simp] theorem srem_now : (s.srem m x).now = s.now := rfl
@[simp] theorem srem_string : (s.srem m x).string = s.string := rfl
@[simp] theorem delSet_now : (s.delSet m).now = s.now := rfl
@[simp] theorem delSet_string : (s.delSet m).string = s.string := rfl
@[simp] theorem expireSet_now : (s.expireSet m ttl).now = s.now := rfl
@[simp] theorem expireSet_string : (s.expireSet m ttl).string = s.string := rfl
@[simp] theorem advance_now : (s.advance ttl).now = s.now + ttl := rfl

theorem setEx_string_of_ne (h : k' ≠ k) : (s.setEx k v ttl).string k' = s.string k' :=
  s.putString_string_of_ne h

@[simp] theorem del_string_self : (s.del k).string k = none :=
  s.putString_string_self (by simp)

theorem del_string_of_ne (h : k' ≠ k) : (s.del k).string k' = s.string k' :=
  s.putString_string_of_ne h

theorem expire_string_of_ne (h : k' ≠ k) : (s.expire k ttl).string k' = s.string k' :=
  s.putString_string_of_ne h

/-- `EXPIRE` changes no value. -/
theorem expire_string_value {e : Entry T (V k')} (h : (s.expire k ttl).string k' = some e) :
    ∃ e', s.string k' = some e' ∧ e'.value = e.value := by
  by_cases hk : k' = k
  · subst hk
    simp only [expire, putString, Function.update_self] at h
    obtain ⟨e', he', rfl⟩ := Option.map_eq_some_iff.mp (Option.filter_eq_some_iff.mp h).1
    exact ⟨e', he', rfl⟩
  · rw [expire_string_of_ne s ttl hk] at h
    exact ⟨e, h, rfl⟩

/-- `SADD` keeps the expiry of the set. -/
@[simp] theorem sadd_set_self : (s.sadd m x).set m =
    some ⟨insert x (s.smembers m), (s.set m).bind Entry.expiry⟩ := by
  refine s.putSet_set_self ?_
  rintro _ ⟨⟩
  cases h : s.set m with
  | none => rfl
  | some e => exact s.set_live m e h

theorem sadd_set_of_ne (h : m' ≠ m) : (s.sadd m x).set m' = s.set m' := s.putSet_set_of_ne h

@[simp] theorem delSet_set_self : (s.delSet m).set m = none := s.putSet_set_self (by simp)

theorem delSet_set_of_ne (h : m' ≠ m) : (s.delSet m).set m' = s.set m' := s.putSet_set_of_ne h

theorem srem_set_of_ne (h : m' ≠ m) : (s.srem m x).set m' = s.set m' := s.putSet_set_of_ne h

theorem expireSet_set_of_ne (h : m' ≠ m) : (s.expireSet m ttl).set m' = s.set m' :=
  s.putSet_set_of_ne h

/-- `SREM` keeps every other member, and the expiry. -/
theorem srem_set_self {e : Entry T (Finset M)} {y : M} (h : s.set m = some e) (hy : y ∈ e.value)
    (hne : y ≠ x) : (s.srem m x).set m = some ⟨e.value.erase x, e.expiry⟩ := by
  have hmem : y ∈ e.value.erase x := Finset.mem_erase.mpr ⟨hne, hy⟩
  have hput : (s.set m).bind (fun e => if e.value.erase x = ∅ then none
      else some { e with value := e.value.erase x }) = some ⟨e.value.erase x, e.expiry⟩ := by
    rw [h, Option.bind_some, if_neg (Finset.ne_empty_of_mem hmem)]
  rw [srem, hput]
  refine s.putSet_set_self ?_
  rintro _ ⟨⟩
  exact s.set_live m e h

theorem advance_string_eq_some {e : Entry T (V k)} : (s.advance ttl).string k = some e ↔
    s.string k = some e ∧ e.alive (s.now + ttl) :=
  Option.filter_eq_some_iff

theorem advance_set_eq_some {e : Entry T (Finset M)} : (s.advance ttl).set m = some e ↔
    s.set m = some e ∧ e.alive (s.now + ttl) :=
  Option.filter_eq_some_iff

theorem advance_string_eq_none (h : s.string k = none) : (s.advance ttl).string k = none := by
  simp [advance, h]

end

section

variable [AddCommMonoid T] [LinearOrder T] [IsOrderedAddMonoid T]
variable [DecidableEq κ] [DecidableEq μ] [DecidableEq M]
variable (s : Keyspace T V μ M) {k : κ} {m : μ} (v : V k) {ttl : T}

/-- An entry that expires after `ttl ≥ 0` is alive. -/
theorem alive_add {α : Type} (v : α) (now : T) (h : 0 ≤ ttl) :
    Entry.alive now ⟨v, some (now + ttl)⟩ :=
  decide_eq_true (le_add_of_nonneg_right h)

theorem setEx_string_self (h : 0 ≤ ttl) :
    (s.setEx k v ttl).string k = some ⟨v, some (s.now + ttl)⟩ := by
  refine s.putString_string_self ?_
  rintro _ ⟨⟩
  exact alive_add v s.now h

theorem expire_string_self (h : 0 ≤ ttl) : (s.expire k ttl).string k =
    (s.string k).map fun e => { e with expiry := some (s.now + ttl) } := by
  refine s.putString_string_self fun x hx => ?_
  obtain ⟨e, -, rfl⟩ := Option.map_eq_some_iff.mp hx
  exact alive_add e.value s.now h

theorem expireSet_set_self (h : 0 ≤ ttl) : (s.expireSet m ttl).set m =
    (s.set m).map fun e => { e with expiry := some (s.now + ttl) } := by
  refine s.putSet_set_self fun x hx => ?_
  obtain ⟨e, -, rfl⟩ := Option.map_eq_some_iff.mp hx
  exact alive_add e.value s.now h

/-- `SADD` and `EXPIRE` together: the member is added and the set expires after `ttl`. -/
theorem sadd_expireSet_set (x : M) (h : 0 ≤ ttl) : ((s.sadd m x).expireSet m ttl).set m =
    some ⟨insert x (s.smembers m), some (s.now + ttl)⟩ := by
  rw [expireSet_set_self _ h, sadd_set_self, Option.map_some, sadd_now]

theorem sadd_expireSet_set_of_ne {m' : μ} (x : M) (h : m' ≠ m) :
    ((s.sadd m x).expireSet m ttl).set m' = s.set m' := by
  rw [expireSet_set_of_ne _ _ h, sadd_set_of_ne _ _ h]

/-- What is visible expires no earlier than now. -/
theorem now_le_expiry {e : Entry T (V k)} {x : T} (h : s.string k = some e)
    (hx : e.expiry = some x) : s.now ≤ x := by
  have hl := s.string_live k e h
  rw [Entry.alive, hx] at hl
  exact of_decide_eq_true hl

end

end Keyspace
