import TaskManagement.Core.History

/-!
# Masking

`mask` shows nothing of the values under sensitive keys and everything else as it is.  Values that
differ only under such keys (`DifferUnder`, or `SameOutside` where members have no order) have the
same mask, also where the stack ends first, and at every path the mask is described by the value:
`kind_at?_mask` on paths without a sensitive key, `at?_mask_sensitive` and `at?_mask_below` at and
below one.
-/

namespace History

open Json

variable {lower : Str → Str} {v w : Value} {path : List Step} {key : Str}

/-! ### Members and items -/

theorem maskItems_eq_map (items : List Value) :
    maskItems lower items = items.map (mask lower) := by
  induction items with
  | nil => rfl
  | cons v items ih => rw [maskItems, ih, List.map_cons]

theorem maskMembers_eq_map (members : List (Str × Value)) :
    maskMembers lower members = members.map fun m =>
      (m.1, if isSensitive lower m.1 then redacted else mask lower m.2) := by
  induction members with
  | nil => rfl
  | cons m members ih => rw [maskMembers, ih, List.map_cons]

/-- The keys stay, in their order. -/
theorem keys_maskMembers (members : List (Str × Value)) :
    (maskMembers lower members).map Prod.fst = members.map Prod.fst := by
  rw [maskMembers_eq_map, List.map_map]
  rfl

theorem lookup_maskMembers (members : List (Str × Value)) (key : Str) :
    (maskMembers lower members).lookup key =
      (members.lookup key).map fun v =>
        if isSensitive lower key then redacted else mask lower v := by
  induction members with
  | nil => rfl
  | cons m members ih =>
    rw [maskMembers, List.lookup_cons, List.lookup_cons]
    by_cases h : key = m.1
    · subst h
      rw [beq_self_eq_true]
      rfl
    · rw [beq_eq_false_iff_ne.2 h]
      exact ih

/-! ### Idempotence -/

theorem mask_mask (v : Value) : mask lower (mask lower v) = mask lower v := by
  induction v using Value.induct with
  | null => rfl
  | bool => rfl
  | int => rfl
  | float => rfl
  | str => rfl
  | arr items ih =>
    rw [mask, mask, maskItems_eq_map, maskItems_eq_map, List.map_map]
    congr 1
    exact List.map_congr_left ih
  | obj members ih =>
    rw [mask, mask, maskMembers_eq_map, maskMembers_eq_map, List.map_map]
    congr 1
    apply List.map_congr_left
    intro m hm
    dsimp only [Function.comp_apply]
    split
    · rfl
    · rw [ih m hm]

/-! ### The stack -/

mutual

/-- The frames that `_mask` takes. -/
def frames (lower : Str → Str) : Value → ℕ
  | .obj members => framesMembers lower members + 1
  | .arr items => framesItems lower items + 1
  | _ => 1

def framesItems (lower : Str → Str) : List Value → ℕ
  | [] => 0
  | v :: items => max (frames lower v) (framesItems lower items)

def framesMembers (lower : Str → Str) : List (Str × Value) → ℕ
  | [] => 0
  | (key, v) :: members =>
    max (if isSensitive lower key then 0 else frames lower v) (framesMembers lower members)

end

theorem framesItems_le_iff {n : ℕ} (items : List Value) :
    framesItems lower items ≤ n ↔ ∀ v ∈ items, frames lower v ≤ n := by
  induction items with
  | nil => simp [framesItems]
  | cons v items ih => rw [framesItems, Nat.max_le, ih, List.forall_mem_cons]

theorem framesMembers_le_iff {n : ℕ} (members : List (Str × Value)) :
    framesMembers lower members ≤ n ↔
      ∀ m ∈ members, isSensitive lower m.1 = true ∨ frames lower m.2 ≤ n := by
  induction members with
  | nil => simp [framesMembers]
  | cons m members ih =>
    rw [framesMembers, Nat.max_le, ih, List.forall_mem_cons]
    apply and_congr_left
    intro _
    split
    · next h => simp [h]
    · next h => simp [h]

theorem frames_mask (v : Value) : frames lower (mask lower v) = frames lower v := by
  induction v using Value.induct with
  | arr items ih =>
    rw [mask, frames, frames, Nat.add_right_cancel_iff]
    induction items with
    | nil => rfl
    | cons v items hitems =>
      rw [maskItems, framesItems, framesItems, ih v List.mem_cons_self,
        hitems fun u hu => ih u (List.mem_cons_of_mem v hu)]
  | obj members ih =>
    rw [mask, frames, frames, Nat.add_right_cancel_iff]
    induction members with
    | nil => rfl
    | cons m members hmembers =>
      rw [maskMembers, framesMembers, framesMembers,
        hmembers fun n hn => ih n (List.mem_cons_of_mem m hn)]
      by_cases hs : isSensitive lower m.1 = true
      · rw [if_pos hs, if_pos hs]
      · rw [if_neg hs, if_neg hs, if_neg hs, ih m List.mem_cons_self]
  | _ => rfl

/-- `mapM` of a function that fails off a predicate. -/
theorem mapM_eq_ite {α β X : Type} {f : α → Except X β} {p : α → Prop} [DecidablePred p]
    {g : α → β} {e : X} (l : List α)
    (h : ∀ a ∈ l, f a = if p a then .ok (g a) else .error e) :
    l.mapM f = if ∀ a ∈ l, p a then .ok (l.map g) else .error e := by
  induction l with
  | nil => rfl
  | cons a l ih =>
    rw [List.mapM_cons, h a List.mem_cons_self, ih fun b hb => h b (List.mem_cons_of_mem a hb)]
    by_cases ha : p a
    · by_cases hl : ∀ b ∈ l, p b
      · rw [if_pos ha, if_pos hl, if_pos (List.forall_mem_cons.2 ⟨ha, hl⟩)]
        rfl
      · rw [if_pos ha, if_neg hl, if_neg fun h => hl (List.forall_mem_cons.1 h).2]
        rfl
    · rw [if_neg ha, if_neg fun h => ha (List.forall_mem_cons.1 h).1]
      rfl

/-- With room for its frames, `_mask` returns the mask. -/
theorem maskIn_eq (n : ℕ) (v : Value) :
    maskIn lower n v =
      if frames lower v ≤ n then .ok (mask lower v) else .error .recursionError := by
  induction n generalizing v with
  | zero =>
    have hpos : 0 < frames lower v := by
      cases v <;> exact Nat.succ_pos _
    rw [maskIn, if_neg (by omega)]
  | succ n ih =>
    cases v with
    | null => rfl
    | bool => rfl
    | int => rfl
    | float => rfl
    | str => rfl
    | arr items =>
      rw [maskIn, mapM_eq_ite items fun v _ => ih v, frames, mask, maskItems_eq_map]
      simp only [Nat.add_le_add_iff_right, framesItems_le_iff]
      split
      · rfl
      · rfl
    | obj members =>
      have hmember : ∀ m ∈ members,
          (if isSensitive lower m.1 then pure (m.1, redacted) else do
            let v ← maskIn lower n m.2
            return (m.1, v) : Except Json.Error (Str × Value)) =
          if isSensitive lower m.1 = true ∨ frames lower m.2 ≤ n then
            .ok (m.1, if isSensitive lower m.1 then redacted else mask lower m.2)
          else .error .recursionError := by
        intro m _
        rw [ih]
        by_cases hs : isSensitive lower m.1 = true
        · simp only [hs, if_true, true_or]
          rfl
        · by_cases hf : frames lower m.2 ≤ n
          · simp only [hs, hf, if_true, or_true]
            rfl
          · simp only [hs, hf, if_false]
            rfl
      rw [maskIn, mapM_eq_ite members hmember, frames, mask, maskMembers_eq_map]
      simp only [Nat.add_le_add_iff_right, framesMembers_le_iff]
      split
      · rfl
      · rfl

/-! ### Values that differ under sensitive keys -/

mutual

/-- Two values that differ only in the values under the hidden keys. -/
inductive DifferUnder (hidden : Str → Bool) : Value → Value → Prop
  | refl (v : Value) : DifferUnder hidden v v
  | arr {items items' : List Value} :
    DifferItems hidden items items' → DifferUnder hidden (.arr items) (.arr items')
  | obj {members members' : List (Str × Value)} :
    DifferMembers hidden members members' → DifferUnder hidden (.obj members) (.obj members')

inductive DifferItems (hidden : Str → Bool) : List Value → List Value → Prop
  | nil : DifferItems hidden [] []
  | cons {v w : Value} {items items' : List Value} :
    DifferUnder hidden v w → DifferItems hidden items items' →
      DifferItems hidden (v :: items) (w :: items')

inductive DifferMembers (hidden : Str → Bool) :
    List (Str × Value) → List (Str × Value) → Prop
  | nil : DifferMembers hidden [] []
  | hidden {key : Str} {v w : Value} {members members' : List (Str × Value)} :
    hidden key = true → DifferMembers hidden members members' →
      DifferMembers hidden ((key, v) :: members) ((key, w) :: members')
  | shown {key : Str} {v w : Value} {members members' : List (Str × Value)} :
    DifferUnder hidden v w → DifferMembers hidden members members' →
      DifferMembers hidden ((key, v) :: members) ((key, w) :: members')

end

/-- Two values with one mask, for which `_mask` needs as many frames. -/
def Alike (lower : Str → Str) (v w : Value) : Prop :=
  mask lower v = mask lower w ∧ frames lower v = frames lower w

theorem DifferItems.alike {items items' : List Value}
    (ih : ∀ v ∈ items, ∀ w, DifferUnder (isSensitive lower) v w → Alike lower v w)
    (h : DifferItems (isSensitive lower) items items') :
    maskItems lower items = maskItems lower items' ∧
      framesItems lower items = framesItems lower items' := by
  induction items generalizing items' with
  | nil =>
    cases h with
    | nil => exact ⟨rfl, rfl⟩
  | cons v items hitems =>
    cases h with
    | cons hv h =>
      obtain ⟨hmask, hframes⟩ := ih v List.mem_cons_self _ hv
      obtain ⟨hmasks, hmax⟩ := hitems (fun u hu => ih u (List.mem_cons_of_mem v hu)) h
      rw [maskItems, maskItems, framesItems, framesItems, hmask, hframes, hmasks, hmax]
      exact ⟨rfl, rfl⟩

theorem DifferMembers.alike {members members' : List (Str × Value)}
    (ih : ∀ m ∈ members, ∀ w, DifferUnder (isSensitive lower) m.2 w → Alike lower m.2 w)
    (h : DifferMembers (isSensitive lower) members members') :
    maskMembers lower members = maskMembers lower members' ∧
      framesMembers lower members = framesMembers lower members' := by
  induction members generalizing members' with
  | nil =>
    cases h with
    | nil => exact ⟨rfl, rfl⟩
  | cons m members hmembers =>
    have ih' := fun n hn => ih n (List.mem_cons_of_mem m hn)
    cases h with
    | hidden hkey h =>
      obtain ⟨hmasks, hmax⟩ := hmembers ih' h
      simp only [maskMembers, framesMembers, hkey, if_true, hmasks, hmax, and_self]
    | shown hv h =>
      obtain ⟨hmask, hframes⟩ := ih _ List.mem_cons_self _ hv
      obtain ⟨hmasks, hmax⟩ := hmembers ih' h
      dsimp only at hmask hframes
      rw [maskMembers, maskMembers, framesMembers, framesMembers, hmask, hframes, hmasks, hmax]
      exact ⟨rfl, rfl⟩

theorem DifferUnder.alike (h : DifferUnder (isSensitive lower) v w) : Alike lower v w := by
  induction v using Value.induct generalizing w with
  | arr items ih =>
    cases h with
    | refl => exact ⟨rfl, rfl⟩
    | arr h =>
      obtain ⟨hmasks, hmax⟩ := h.alike ih
      rw [Alike, mask, mask, frames, frames, hmasks, hmax]
      exact ⟨rfl, rfl⟩
  | obj members ih =>
    cases h with
    | refl => exact ⟨rfl, rfl⟩
    | obj h =>
      obtain ⟨hmasks, hmax⟩ := h.alike ih
      rw [Alike, mask, mask, frames, frames, hmasks, hmax]
      exact ⟨rfl, rfl⟩
  | _ =>
    cases h with
    | refl => exact ⟨rfl, rfl⟩

theorem maskIn_eq_of_differUnder (h : DifferUnder (isSensitive lower) v w) (n : ℕ) :
    maskIn lower n v = maskIn lower n w := by
  rw [maskIn_eq, maskIn_eq, h.alike.1, h.alike.2]

/-! ### Paths -/

/-- A path that meets no sensitive key. -/
def Open (lower : Str → Str) (path : List Step) : Prop :=
  ∀ key, .key key ∈ path → isSensitive lower key = false

theorem at?_mask (h : Open lower path) (v : Value) :
    (mask lower v).at? path = (v.at? path).map (mask lower) := by
  induction path generalizing v with
  | nil => rfl
  | cons step path ih =>
    have hrest : Open lower path := fun key hkey => h key (List.mem_cons_of_mem step hkey)
    cases step with
    | key key =>
      cases v with
      | obj members =>
        rw [mask, Value.at?_key, Value.at?_key, lookup_maskMembers, h key List.mem_cons_self]
        cases members.lookup key with
        | none => rfl
        | some v => exact ih hrest v
      | _ => rfl
    | index i =>
      cases v with
      | arr items =>
        rw [mask, Value.at?_index, Value.at?_index, maskItems_eq_map, List.getElem?_map]
        cases items[i]? with
        | none => rfl
        | some v => exact ih hrest v
      | _ => rfl

theorem kind_mask (v : Value) : (mask lower v).kind = v.kind := by
  cases v with
  | arr items => rw [mask, maskItems_eq_map, Value.kind, Value.kind, List.length_map]
  | obj members => rw [mask, Value.kind, Value.kind, keys_maskMembers]
  | _ => rfl

/-- Keys, lengths and scalars stay where no key is sensitive. -/
theorem kind_at?_mask (h : Open lower path) (v : Value) :
    ((mask lower v).at? path).map Value.kind = (v.at? path).map Value.kind := by
  rw [at?_mask h, Option.map_map]
  congr 1
  funext u
  exact kind_mask u

theorem at?_append (v : Value) (path rest : List Step) :
    v.at? (path ++ rest) = (v.at? path).bind (Value.at? rest) := by
  induction path generalizing v with
  | nil => rfl
  | cons step path ih =>
    cases step with
    | key key =>
      cases v with
      | obj members =>
        rw [List.cons_append, Value.at?_key, Value.at?_key, Option.bind_assoc]
        congr 1
        funext u
        exact ih u
      | _ => rfl
    | index i =>
      cases v with
      | arr items =>
        rw [List.cons_append, Value.at?_index, Value.at?_index, Option.bind_assoc]
        congr 1
        funext u
        exact ih u
      | _ => rfl

theorem mask_at?_key (hkey : isSensitive lower key = true) (v : Value) (rest : List Step) :
    (mask lower v).at? (.key key :: rest) =
      (v.at? [.key key]).bind fun _ => redacted.at? rest := by
  cases v with
  | obj members =>
    rw [mask, Value.at?_key, Value.at?_key, lookup_maskMembers, hkey]
    cases members.lookup key with
    | none => rfl
    | some v => rfl
  | _ => rfl

/-- At a sensitive key the mask has its own text, and only there. -/
theorem at?_mask_sensitive (h : Open lower path) (hkey : isSensitive lower key = true) (v : Value) :
    (mask lower v).at? (path ++ [.key key]) =
      (v.at? (path ++ [.key key])).map fun _ => redacted := by
  rw [at?_append, at?_append, at?_mask h, Option.map_bind]
  cases v.at? path with
  | none => rfl
  | some u =>
    apply (mask_at?_key hkey u []).trans
    rw [Option.bind_some, Function.comp_apply]
    cases u.at? [.key key] with
    | none => rfl
    | some t => rfl

/-- Below a sensitive key there is nothing. -/
theorem at?_mask_below (h : Open lower path) (hkey : isSensitive lower key = true) (v : Value)
    {rest : List Step} (hrest : rest ≠ []) :
    (mask lower v).at? (path ++ .key key :: rest) = none := by
  have hnone : redacted.at? rest = none := by
    cases rest with
    | nil => exact absurd rfl hrest
    | cons step rest => cases step <;> rfl
  rw [at?_append, at?_mask h]
  cases v.at? path with
  | none => rfl
  | some u =>
    rw [Option.map_some, Option.bind_some, mask_at?_key hkey, hnone]
    cases u.at? [.key key] <;> rfl

/-! ### Values as objects without an order -/

/-- Two values that agree on the paths without a sensitive key. -/
def SameOutside (lower : Str → Str) (v w : Value) : Prop :=
  ∀ path, Open lower path → (v.at? path).map Value.kind = (w.at? path).map Value.kind

/-- Every path is open, or goes to a sensitive key first. -/
theorem open_or_exists (lower : Str → Str) (path : List Step) :
    Open lower path ∨ ∃ front key rest, path = front ++ .key key :: rest ∧ Open lower front ∧
      isSensitive lower key = true := by
  induction path with
  | nil =>
    left
    intro key hkey
    exact absurd hkey List.not_mem_nil
  | cons step path ih =>
    by_cases hstep : ∃ key, step = .key key ∧ isSensitive lower key = true
    · obtain ⟨key, rfl, hkey⟩ := hstep
      right
      refine ⟨[], key, path, rfl, ?_, hkey⟩
      intro key hkey
      exact absurd hkey List.not_mem_nil
    · have hopen : ∀ {rest}, Open lower rest → Open lower (step :: rest) := by
        intro rest hrest key hkey
        obtain h | h := List.mem_cons.1 hkey
        · exact Bool.eq_false_iff.2 fun hs => hstep ⟨key, h.symm, hs⟩
        · exact hrest key h
      obtain h | ⟨front, key, rest, rfl, hfront, hkey⟩ := ih
      · exact Or.inl (hopen h)
      · exact Or.inr ⟨step :: front, key, rest, rfl, hopen hfront, hkey⟩

theorem isSome_lookup_iff (members : List (Str × Value)) (key : Str) :
    (members.lookup key).isSome = true ↔ key ∈ members.map Prod.fst := by
  rw [List.lookup_isSome_iff, List.mem_map]
  apply exists_congr
  intro m
  rw [beq_iff_eq, eq_comm]

/-- Whether an object has a key is seen from its kind. -/
theorem isSome_at?_key (v : Value) (key : Str) :
    (v.at? [.key key]).isSome = true ↔ ∃ keys, v.kind = .obj keys ∧ key ∈ keys := by
  cases v with
  | obj members =>
    rw [Value.at?_key, Value.kind]
    have hsome : ((members.lookup key).bind (Value.at? [])).isSome = true ↔
        key ∈ {k | k ∈ members.map Prod.fst} := by
      rw [show Value.at? [] = some from rfl, Option.bind_fun_some]
      exact isSome_lookup_iff members key
    rw [hsome]
    constructor
    · intro h
      exact ⟨_, rfl, h⟩
    · rintro ⟨keys, h, hkey⟩
      cases h
      exact hkey
  | _ =>
    constructor
    · intro h
      cases h
    · rintro ⟨keys, h, -⟩
      cases h

/-- Whether a value has a key at a path is the same for both. -/
theorem SameOutside.isSome_at? (h : SameOutside lower v w) (hpath : Open lower path) (key : Str) :
    (v.at? (path ++ [.key key])).isSome = (w.at? (path ++ [.key key])).isSome := by
  have hkind := h path hpath
  rw [at?_append, at?_append]
  cases hv : v.at? path with
  | none =>
    rw [hv, Option.map_none, eq_comm, Option.map_eq_none_iff] at hkind
    rw [hkind]
  | some u =>
    rw [hv, Option.map_some, eq_comm, Option.map_eq_some_iff] at hkind
    obtain ⟨t, ht, hkind⟩ := hkind
    rw [ht, Option.bind_some, Option.bind_some, Bool.eq_iff_iff, isSome_at?_key, isSome_at?_key,
      hkind]

theorem SameOutside.same_mask (h : SameOutside lower v w) :
    (mask lower v).Same (mask lower w) := by
  intro path
  obtain hpath | ⟨front, key, rest, rfl, hfront, hkey⟩ := open_or_exists lower path
  · rw [kind_at?_mask hpath, kind_at?_mask hpath]
    exact h path hpath
  · by_cases hrest : rest = []
    · subst hrest
      have hsome := h.isSome_at? hfront key
      rw [at?_mask_sensitive hfront hkey, at?_mask_sensitive hfront hkey]
      cases hv : v.at? (front ++ [.key key]) with
      | none =>
        rw [hv, eq_comm, Option.isSome_none, Option.isSome_eq_false_iff,
          Option.isNone_iff_eq_none] at hsome
        rw [hsome]
      | some u =>
        rw [hv, Option.isSome_some, eq_comm, Option.isSome_iff_exists] at hsome
        obtain ⟨t, ht⟩ := hsome
        rw [ht]
        rfl
    · rw [at?_mask_below hfront hkey v hrest, at?_mask_below hfront hkey w hrest]

/-! ### The main result -/

/-- Masking shows nothing of the values under sensitive keys and leaves the rest as it is; with room
for its frames it returns. -/
theorem mask_noninterfering (lower : Str → Str) :
    (∀ v w, DifferUnder (isSensitive lower) v w → ∀ n, maskIn lower n v = maskIn lower n w) ∧
    (∀ v w, SameOutside lower v w → (mask lower v).Same (mask lower w)) ∧
    (∀ v n, frames lower v ≤ n → maskIn lower n v = .ok (mask lower v)) ∧
    (∀ v n u, maskIn lower n v = .ok u →
      (∀ path, Open lower path → (u.at? path).map Value.kind = (v.at? path).map Value.kind) ∧
      (∀ path key, Open lower path → isSensitive lower key = true →
        u.at? (path ++ [.key key]) = (v.at? (path ++ [.key key])).map fun _ => redacted) ∧
      maskIn lower n u = .ok u) := by
  refine ⟨fun v w h n => maskIn_eq_of_differUnder h n, fun v w h => h.same_mask, ?_, ?_⟩
  · intro v n h
    rw [maskIn_eq, if_pos h]
  · intro v n u h
    rw [maskIn_eq] at h
    split at h
    · next hframes =>
      cases h
      refine ⟨fun path hpath => kind_at?_mask hpath v,
        fun path key hpath hkey => at?_mask_sensitive hpath hkey v, ?_⟩
      rw [maskIn_eq, frames_mask, if_pos hframes, mask_mask]
    · cases h

end History
