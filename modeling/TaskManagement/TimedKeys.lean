import TaskManagement.Keyspace

/-!
# Keys that live for exactly their time to live

A keyspace like `Keyspace`, for statements about the instant at which a key expires: a key that is
given the time `n` to live at `t` is alive from `t` on and before `t + n`.  An entry stays in the
state when it has expired, and no command sees it (`live`).
-/

/-- The entries of a keyspace, expired ones included. -/
structure TimedKeys (T : Type) {κ : Type} (V : κ → Type) where
  now : T
  entry : (k : κ) → Option (Entry T (V k))

namespace TimedKeys

variable {T κ : Type} {V : κ → Type}

section Commands

variable [LT T] [DecidableLT T]

/-- The keyspace without keys. -/
def empty (now : T) : TimedKeys T V := ⟨now, fun _ => none⟩

/-- The entry of a key that exists. -/
def live (s : TimedKeys T V) (k : κ) : Option (Entry T (V k)) :=
  (s.entry k).filter fun e => e.expiry.all fun x => decide (s.now < x)

/-- `GET` and `SMEMBERS` -/
def get (s : TimedKeys T V) (k : κ) : Option (V k) := (s.live k).map Entry.value

variable [DecidableEq κ]

/-- Put an entry at a key. -/
def put (s : TimedKeys T V) (k : κ) (e : Option (Entry T (V k))) : TimedKeys T V :=
  { s with entry := Function.update s.entry k e }

/-- `DEL` -/
def del (s : TimedKeys T V) (k : κ) : TimedKeys T V := s.put k none

/-- `SADD` and `SREM`, which keep the expiry; `none` removes the key. -/
def modify (s : TimedKeys T V) (k : κ) (f : Option (V k) → Option (V k)) : TimedKeys T V :=
  s.put k ((f (s.get k)).map fun v => ⟨v, (s.live k).bind Entry.expiry⟩)

variable [Add T]

/-- `SETEX` -/
def setEx (s : TimedKeys T V) (k : κ) (v : V k) (ttl : T) : TimedKeys T V :=
  s.put k (some ⟨v, some (s.now + ttl)⟩)

/-- `EXPIRE`, which does nothing on a missing key. -/
def expire (s : TimedKeys T V) (k : κ) (ttl : T) : TimedKeys T V :=
  match s.live k with
  | some e => s.put k (some { e with expiry := some (s.now + ttl) })
  | none => s

omit [LT T] [DecidableLT T] [DecidableEq κ] in
/-- Let the time `d` pass. -/
def advance (s : TimedKeys T V) (d : T) : TimedKeys T V := { s with now := s.now + d }

end Commands

/-! ### What a command changes -/

set_option linter.unusedSectionVars false

section

variable [LT T] [DecidableLT T] {s : TimedKeys T V} {k k' : κ}

theorem live_of_entry {e : Entry T (V k)} {x : T} (h : s.entry k = some e)
    (hx : e.expiry = some x) : s.live k = if s.now < x then some e else none := by
  rw [live, h]
  simp [Option.filter, hx]

theorem get_of_entry {v : V k} {x : T} (h : s.entry k = some ⟨v, some x⟩) :
    s.get k = if s.now < x then some v else none := by
  rw [get, live_of_entry h rfl, apply_ite (Option.map Entry.value)]
  rfl

variable [DecidableEq κ]

@[simp] theorem put_now (k : κ) (e : Option (Entry T (V k))) : (s.put k e).now = s.now := rfl

@[simp] theorem put_entry_self (k : κ) (e : Option (Entry T (V k))) :
    (s.put k e).entry k = e := by
  simp [put]

theorem put_entry_of_ne (e : Option (Entry T (V k))) (h : k' ≠ k) :
    (s.put k e).entry k' = s.entry k' := by
  simp [put, h]

@[simp] theorem del_now (k : κ) : (s.del k).now = s.now := rfl

theorem del_entry_of_ne (h : k' ≠ k) : (s.del k).entry k' = s.entry k' := put_entry_of_ne none h

@[simp] theorem modify_now (k : κ) (f : Option (V k) → Option (V k)) :
    (s.modify k f).now = s.now := rfl

theorem modify_entry_of_ne (f : Option (V k) → Option (V k)) (h : k' ≠ k) :
    (s.modify k f).entry k' = s.entry k' := put_entry_of_ne _ h

variable [Add T]

@[simp] theorem setEx_now (v : V k) (ttl : T) : (s.setEx k v ttl).now = s.now := rfl

@[simp] theorem setEx_entry_self (v : V k) (ttl : T) :
    (s.setEx k v ttl).entry k = some ⟨v, some (s.now + ttl)⟩ := put_entry_self k _

theorem setEx_entry_of_ne (v : V k) (ttl : T) (h : k' ≠ k) :
    (s.setEx k v ttl).entry k' = s.entry k' := put_entry_of_ne _ h

@[simp] theorem expire_now (k : κ) (ttl : T) : (s.expire k ttl).now = s.now := by
  rw [expire]
  split <;> rfl

theorem expire_entry_of_ne (ttl : T) (h : k' ≠ k) :
    (s.expire k ttl).entry k' = s.entry k' := by
  rw [expire]
  split
  · exact put_entry_of_ne _ h
  · rfl

theorem expire_entry_self {v : V k} {x : T} (ttl : T) (h : s.entry k = some ⟨v, some x⟩)
    (hx : s.now < x) : (s.expire k ttl).entry k = some ⟨v, some (s.now + ttl)⟩ := by
  rw [expire, live_of_entry h rfl, if_pos hx]
  exact put_entry_self k _

end

end TimedKeys
