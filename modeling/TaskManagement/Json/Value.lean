import Mathlib.Data.Int.Notation
import Mathlib.Data.Set.Defs
import Mathlib.Tactic.Common

/-!
# JSON values

The values of Python's `json`, the induction on them (`Value.induct`), and their parts by paths.  A
list of members has an order that an object has not; `Value.Same` compares objects without it.
-/

namespace Json

/-- A text, by its code points; it may hold surrogates. -/
abbrev Str : Type := List ℕ

def str (s : String) : Str := s.toList.map Char.toNat

/-- A float is kept as its literal, and an object in the order of its keys. -/
inductive Value : Type where
  | null
  | bool (b : Bool)
  | int (n : ℤ)
  | float (literal : Str)
  | str (s : Str)
  | arr (items : List Value)
  | obj (members : List (Str × Value))

/-- A property of the items and of the members' values passes to the containers. -/
@[elab_as_elim]
theorem Value.induct {motive : Value → Prop} (null : motive .null) (bool : ∀ b, motive (.bool b))
    (int : ∀ n, motive (.int n)) (float : ∀ literal, motive (.float literal))
    (str : ∀ s, motive (.str s))
    (arr : ∀ items, (∀ v ∈ items, motive v) → motive (.arr items))
    (obj : ∀ members, (∀ m ∈ members, motive m.2) → motive (.obj members)) (v : Value) :
    motive v := by
  apply @Value.rec motive (fun items => ∀ v ∈ items, motive v)
    (fun members => ∀ m ∈ members, motive m.2) (fun m => motive m.2) null bool int float str arr obj
  · intro v hv
    exact absurd hv List.not_mem_nil
  · intro v items hv hitems w hw
    obtain rfl | hw := List.mem_cons.1 hw
    · exact hv
    · exact hitems w hw
  · intro m hm
    exact absurd hm List.not_mem_nil
  · intro m members hm hmembers n hn
    obtain rfl | hn := List.mem_cons.1 hn
    · exact hm
    · exact hmembers n hn
  · intro key v hv
    exact hv

/-! ### Paths -/

inductive Step : Type where
  | key (key : Str)
  | index (i : ℕ)

/-- The part of a value at a path. -/
def Value.at? : List Step → Value → Option Value
  | [], v => some v
  | .key key :: path, .obj members => (members.lookup key).bind (at? path)
  | .index i :: path, .arr items => items[i]?.bind (at? path)
  | _, _ => none

/-- A value without its parts. -/
inductive Kind : Type where
  | scalar (v : Value)
  | arr (length : ℕ)
  | obj (keys : Set Str)

def Value.kind : Value → Kind
  | .arr items => .arr items.length
  | .obj members => .obj {key | key ∈ members.map Prod.fst}
  | v => .scalar v

/-- Equality of values that does not see the order of members. -/
def Value.Same (v w : Value) : Prop := ∀ path, (v.at? path).map kind = (w.at? path).map kind

theorem Value.at?_key (members : List (Str × Value)) (key : Str) (path : List Step) :
    (Value.obj members).at? (.key key :: path) = (members.lookup key).bind (at? path) := rfl

theorem Value.at?_index (items : List Value) (i : ℕ) (path : List Step) :
    (Value.arr items).at? (.index i :: path) = items[i]?.bind (at? path) := rfl

end Json
