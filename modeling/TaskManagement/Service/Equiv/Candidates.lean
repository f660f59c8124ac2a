import TaskManagement.Service.Members
import Mathlib.Data.List.Perm.Basic
import Mathlib.Data.String.Basic

/-!
# When the search for candidates is literal

`search_candidates` makes its query a part of an `ILIKE` pattern, so that `%`, `_` and `\` in it are
not read literally.  It finds the first candidates in the order of the usernames whose names start
with the query exactly if, before every candidate on which the two readings differ, there are
already as many others as the page holds (`candidates_literal_iff`); a query without these
characters is always read literally (`matchesQuery_eq_startsWithQuery`).
-/

namespace Members

open ReadCommitted TaskDb
open Like (CaseFold specials)

section

variable {f : CaseFold} {c : Collation} {d : MembersDb} {p u v : Uuid} {q : String}

/-- A name starts with the query, read literally and compared without case. -/
def startsWithQuery (f : CaseFold) (d : MembersDb) (query : String) (u : Uuid) : Bool :=
  (d.db.row (.user u)).any fun r =>
    f.startsWith query.toList (d.username u).toList ||
      f.startsWith query.toList (fullName r).toList

/-- The user `v` comes before `u` in the order of the usernames. -/
def before (c : Collation) (d : MembersDb) (u v : Uuid) : Bool :=
  c.le (d.username v) (d.username u) && v != u

/-- The first `n` users that satisfy `P`, in the order of the usernames. -/
def FirstOf (c : Collation) (d : MembersDb) (n : ℕ) (P : Uuid → Prop) (users : List Uuid) : Prop :=
  ∃ all : List Uuid, (all.Pairwise fun u v => before c d v u = true) ∧ (∀ u, u ∈ all ↔ P u) ∧
    users = all.take n

/-! ### The users in the order of the usernames -/

theorem mem_userIds {db : Db} : u ∈ userIds db ↔ (db.row (.user u)).isSome = true := by
  refine (Store.mem_table_iff RowId.user (fun u _ => u) (fun _ => rfl) fun i b h => ?_).trans ?_
  · cases i with
    | user u => exact ⟨u, rfl⟩
    | _ => cases h
  · rw [Option.isSome_iff_exists]
    constructor
    · rintro ⟨v, r, hr, rfl⟩
      exact ⟨r, hr⟩
    · rintro ⟨r, hr⟩
      exact ⟨u, r, hr, rfl⟩

theorem nodup_userIds (db : Db) : (userIds db).Nodup := by
  rw [← List.map_id (userIds db)]
  refine Store.nodup_table RowId.user (fun u _ => u) (fun _ => rfl) (fun i b h => ?_) id fun _ _ => rfl
  cases i with
  | user u => exact ⟨u, rfl⟩
  | _ => cases h

variable (c d) in
/-- All users, in the order of the usernames. -/
def sortedUsers : List Uuid := c.sort d (userIds d.db)

theorem perm_sortedUsers : (sortedUsers c d).Perm (userIds d.db) := List.mergeSort_perm _ _

theorem mem_sortedUsers : u ∈ sortedUsers c d ↔ (d.db.row (.user u)).isSome = true :=
  perm_sortedUsers.mem_iff.trans mem_userIds

theorem pairwise_sort (l : List Uuid) :
    (c.sort d l).Pairwise fun u v => c.le (d.username u) (d.username v) = true :=
  List.pairwise_mergeSort (fun a b e => c.le_trans (d.username a) (d.username b) (d.username e))
    (fun a b => c.le_total (d.username a) (d.username b)) l

/-- Usernames in both orders belong to one user. -/
theorem eq_of_le_of_le (hu : (d.db.row (.user u)).isSome = true)
    (hv : (d.db.row (.user v)).isSome = true) (h : c.le (d.username u) (d.username v) = true)
    (h' : c.le (d.username v) (d.username u) = true) : u = v :=
  d.username_unique u v hu hv (c.le_antisymm _ _ h h')

theorem pairwise_sortedUsers : (sortedUsers c d).Pairwise fun u v => before c d v u = true := by
  have hle : (sortedUsers c d).Pairwise fun u v => c.le (d.username u) (d.username v) = true :=
    pairwise_sort _
  have hne : (sortedUsers c d).Pairwise fun u v => u ≠ v :=
    perm_sortedUsers.nodup_iff.mpr (nodup_userIds d.db)
  refine (hle.and hne).imp fun h => ?_
  rw [before, h.1, Bool.true_and]
  exact bne_iff_ne.mpr h.2

/-- Sorted lists of users with the same members are equal. -/
theorem eq_of_sorted {l l' : List Uuid} (hl : l.Pairwise fun u v => before c d v u = true)
    (hl' : l'.Pairwise fun u v => before c d v u = true)
    (husers : ∀ u ∈ l, (d.db.row (.user u)).isSome = true) (h : ∀ u, u ∈ l ↔ u ∈ l') : l = l' := by
  have hnodup : ∀ {l : List Uuid}, (l.Pairwise fun u v => before c d v u = true) → l.Nodup :=
    fun hl => hl.imp fun hb => bne_iff_ne.mp (Bool.and_eq_true _ _ ▸ hb).2
  have hle : ∀ {u v}, before c d v u = true → c.le (d.username u) (d.username v) = true :=
    fun hb => (Bool.and_eq_true _ _ ▸ hb).1
  refine List.Perm.eq_of_pairwise (fun u v hu hv h1 h2 => ?_) (hl.imp hle) (hl'.imp hle)
    ((List.perm_ext_iff_of_nodup (hnodup hl) (hnodup hl')).mpr h)
  exact eq_of_le_of_le (husers u hu) (husers v ((h v).mpr hv)) h1 h2

/-- The selected users in order are the users in order that are selected. -/
theorem sort_filter (s : Uuid → Bool) :
    c.sort d ((userIds d.db).filter s) = (sortedUsers c d).filter s := by
  refine List.Perm.eq_of_pairwise (fun u v hu hv h1 h2 => ?_) (pairwise_sort _)
    ((pairwise_sort _).filter s) ((List.mergeSort_perm _ _).trans (perm_sortedUsers.filter s).symm)
  have hmem : ∀ {w}, w ∈ (sortedUsers c d).filter s → (d.db.row (.user w)).isSome = true :=
    fun hw => mem_sortedUsers.mp (List.mem_of_mem_filter hw)
  have hu' := (List.mergeSort_perm _ _).mem_iff.mp hu
  exact eq_of_le_of_le (mem_userIds.mp (List.mem_of_mem_filter hu')) (hmem hv) h1 h2

/-- The users before one of them are the ones in front of it. -/
theorem countP_before {l₁ l₂ : List Uuid} (h : sortedUsers c d = l₁ ++ u :: l₂) (g : Uuid → Bool) :
    ((userIds d.db).countP fun v => g v && before c d u v) = l₁.countP g := by
  have hpair := pairwise_sortedUsers (c := c) (d := d)
  rw [h] at hpair
  obtain ⟨-, hrest, hfront⟩ := List.pairwise_append.mp hpair
  have hmem : ∀ v ∈ u :: l₂, (d.db.row (.user v)).isSome = true := by
    intro v hv
    apply (mem_sortedUsers (c := c)).mp
    rw [h]
    exact List.mem_append_right l₁ hv
  have hafter : (u :: l₂).countP (fun v => g v && before c d u v) = 0 := by
    refine List.countP_eq_zero.mpr fun v hv hb => ?_
    have hbu := (Bool.and_eq_true _ _ ▸ hb).2
    obtain ⟨hle, hne⟩ := (Bool.and_eq_true _ _ ▸ hbu : _ ∧ _)
    rcases List.mem_cons.mp hv with rfl | hv
    · exact bne_iff_ne.mp hne rfl
    · have hb' := (List.pairwise_cons.mp hrest).1 v hv
      have hle' := (Bool.and_eq_true _ _ ▸ hb').1
      exact bne_iff_ne.mp hne (eq_of_le_of_le (hmem v (List.mem_cons_of_mem u hv))
        (hmem u List.mem_cons_self) hle hle')
  rw [← perm_sortedUsers.countP_eq, h, List.countP_append, hafter, Nat.add_zero]
  refine List.countP_congr fun v hv => ?_
  rw [hfront v hv u List.mem_cons_self, Bool.and_true]

/-! ### What the search finds -/

/-- Without special characters the query is read literally. -/
theorem matchesQuery_eq_startsWithQuery (hq : ∀ x ∈ q.toList, x ∉ specials) (hne : q ≠ "") :
    matchesQuery f d q u = startsWithQuery f d q u := by
  have hfalse : (q == "") = false := beq_eq_false_iff_ne.mpr hne
  rw [matchesQuery, hfalse, Bool.false_or, startsWithQuery]
  simp only [ilikeQuery, f.ilike_append_percent hq]

/-- A candidate is a user of the table. -/
theorem isSome_of_isCandidate (h : isCandidate d.db p u = true) :
    (d.db.row (.user u)).isSome = true := by
  obtain ⟨r, hr, -⟩ := (Option.any_eq_true _ _).mp (Bool.and_eq_true _ _ ▸ h).1
  exact Option.isSome_iff_exists.mpr ⟨r, hr⟩

/-- The users that a search finds, if the query has no NUL. -/
theorem searchCandidates_eq (perPage : ℕ) (hnul : '\x00' ∉ q.toList) :
    (searchCandidates f c perPage d p q).map (·.map CandidateSummary.userId) =
      some (((sortedUsers c d).filter fun u => isCandidate d.db p u && matchesQuery f d q u).take
        perPage) := by
  have hcontains : ¬q.toList.contains '\x00' = true := fun h => hnul (List.contains_iff_mem.mp h)
  rw [searchCandidates, fnSearchMemberCandidates, if_neg hcontains]
  simp only [sort_filter, Option.map_some, List.drop_zero, List.map_map]
  rw [show (CandidateSummary.userId ∘ fun u => (⟨u, d.username u,
    (d.db.row (.user u)).bind displayName⟩ : CandidateSummary)) = id from rfl, List.map_id]

theorem searchCandidates_of_nul {perPage : ℕ} (hnul : '\x00' ∈ q.toList) :
    searchCandidates f c perPage d p q = none := by
  rw [searchCandidates, fnSearchMemberCandidates, if_pos (List.contains_iff_mem.mpr hnul)]
  rfl

/-- The first users that satisfy a condition are unique. -/
theorem firstOf_iff {perPage : ℕ} {s : Uuid → Bool} {users : List Uuid}
    (hs : ∀ u, s u = true → (d.db.row (.user u)).isSome = true) :
    FirstOf c d perPage (fun u => s u = true) users ↔
      users = ((sortedUsers c d).filter s).take perPage := by
  have hmem : ∀ u, u ∈ (sortedUsers c d).filter s ↔ s u = true := by
    intro u
    rw [List.mem_filter, mem_sortedUsers]
    exact ⟨fun h => h.2, fun h => ⟨hs u h, h⟩⟩
  constructor
  · rintro ⟨all, hsorted, hall, rfl⟩
    rw [eq_of_sorted hsorted (pairwise_sortedUsers.filter s)
      (fun u hu => hs u ((hall u).mp hu)) fun u => (hall u).trans (hmem u).symm]
  · rintro rfl
    exact ⟨_, pairwise_sortedUsers.filter s, hmem, rfl⟩

end

/-- The search returns the first candidates, in the order of the usernames, whose names start with
the query. -/
def LiteralSearch (f : CaseFold) (c : Collation) (perPage : ℕ) (d : MembersDb) (p : Uuid)
    (q : String) : Prop :=
  ∃ items, searchCandidates f c perPage d p q = some items ∧
    FirstOf c d perPage (fun u => (isCandidate d.db p u && startsWithQuery f d q u) = true)
      (items.map CandidateSummary.userId)

/-- When the search is literal. -/
theorem candidates_literal_iff (f : CaseFold) (c : Collation) (perPage : ℕ) (d : MembersDb)
    (p : Uuid) (q : String) :
    LiteralSearch f c perPage d p q ↔
      '\x00' ∉ q.toList ∧
        ∀ u, isCandidate d.db p u = true → matchesQuery f d q u ≠ startsWithQuery f d q u →
          perPage ≤ (userIds d.db).countP fun v => (isCandidate d.db p v &&
            matchesQuery f d q v && startsWithQuery f d q v) && before c d u v := by
  unfold LiteralSearch
  by_cases hnul : '\x00' ∈ q.toList
  · rw [searchCandidates_of_nul hnul]
    -- the driver does not send a text with a NUL
    refine iff_of_false ?_ fun h => h.1 hnul
    rintro ⟨items, hitems, -⟩
    cases hitems
  · have hsearch := searchCandidates_eq (f := f) (c := c) (d := d) (p := p) perPage hnul
    obtain ⟨items, hitems, hids⟩ := Option.map_eq_some_iff.mp hsearch
    -- both searches are the first rows of one sorted list
    have hcand : ∀ u, (isCandidate d.db p u && startsWithQuery f d q u) = true →
        (d.db.row (.user u)).isSome = true :=
      fun u hu => isSome_of_isCandidate (Bool.and_eq_true _ _ ▸ hu).1
    rw [hitems]
    simp only [Option.some_inj, exists_eq_left', firstOf_iff hcand, hids, Like.take_filter_eq_iff]
    rw [and_iff_right hnul]
    constructor
    · intro h u hu hne
      obtain ⟨l₁, l₂, hl⟩ := List.append_of_mem
        ((mem_sortedUsers (c := c)).mpr (isSome_of_isCandidate hu))
      rw [countP_before hl]
      refine (h l₁ u l₂ hl (by rwa [hu, Bool.true_and, Bool.true_and])).trans_eq ?_
      refine List.countP_congr fun v _ => ?_
      cases isCandidate d.db p v <;> simp
    · intro h l₁ u l₂ hl hne
      have hu : isCandidate d.db p u = true := by
        by_contra hc
        rw [Bool.not_eq_true] at hc
        rw [hc] at hne
        exact hne rfl
      rw [hu, Bool.true_and, Bool.true_and] at hne
      refine (h u hu hne).trans_eq ?_
      rw [countP_before hl]
      refine List.countP_congr fun v _ => ?_
      cases isCandidate d.db p v <;> simp

/-- The case folding of ASCII. -/
def asciiFold : CaseFold where
  fold := Char.toLower
  special m hm x := by
    have hm' : m.toNat = 37 ∨ m.toNat = 95 ∨ m.toNat = 92 := by
      simp only [specials, List.mem_cons, List.not_mem_nil, or_false] at hm
      rcases hm with rfl | rfl | rfl
      · exact .inl rfl
      · exact .inr (.inl rfl)
      · exact .inr (.inr rfl)
    by_cases h : x.val ≥ 'A'.val ∧ x.val ≤ 'Z'.val
    · -- a capital letter becomes a small one, and neither is special
      have hlo : 65 ≤ x.val.toNat := UInt32.le_iff_toNat_le.mp h.1
      have hhi : x.val.toNat ≤ 90 := UInt32.le_iff_toNat_le.mp h.2
      have hlower : x.toLower.toNat = x.val.toNat + 32 := by
        have hval : x.toLower.val = x.val + ('a'.val - 'A'.val) := congrArg Char.val (dif_pos h)
        show x.toLower.val.toNat = _
        rw [hval]
        rw [UInt32.toNat_add, show ('a'.val - 'A'.val).toNat = 32 from rfl]
        omega
      have hx : x.toNat = x.val.toNat := rfl
      refine iff_of_false (fun heq => ?_) fun heq => ?_
      · rw [← heq] at hm'
        omega
      · rw [← heq] at hm'
        omega
    · have hx : x.toLower = x := dif_neg h
      rw [hx]

/-- The collation by code points. -/
def codePoints : Collation where
  le a b := decide (a ≤ b)
  le_trans a b e h h' := decide_eq_true ((of_decide_eq_true h).trans (of_decide_eq_true h'))
  le_total a b := by
    rw [Bool.or_eq_true, decide_eq_true_eq, decide_eq_true_eq]
    exact le_total a b
  le_antisymm a b h h' := le_antisymm (of_decide_eq_true h) (of_decide_eq_true h')

/-- A single user, who is called `ann`. -/
def ann : MembersDb where
  db := Store.empty.set (.user 1) (some ⟨.member, true, none, none, none, none, none⟩)
  username _ := "ann"
  username_unique u v hu hv _ := by
    have hone : ∀ {u : Uuid}, ((Store.empty.set (.user 1) (some
        (⟨.member, true, none, none, none, none, none⟩ : User)) : Db).row (.user u)).isSome = true →
        u = 1 := by
      intro u hu
      by_contra hne
      rw [Store.set_row_of_ne _ _ (by simpa using hne)] at hu
      cases hu
    rw [hone hu, hone hv]

/-- The query `_` finds every user. -/
theorem candidates_not_literal :
    ¬∀ (f : CaseFold) (c : Collation) (perPage : ℕ) (d : MembersDb) (p : Uuid) (q : String),
      1 ≤ q.length → q.length ≤ 50 → LiteralSearch f c perPage d p q := by
  intro h
  obtain ⟨items, hitems, all, -, hall, hids⟩ :=
    h asciiFold codePoints 20 ann 2 "_" (by decide) (by decide)
  have hsearch := searchCandidates_eq (f := asciiFold) (c := codePoints) (d := ann) (p := 2)
    (q := "_") 20 (by decide)
  rw [hitems, Option.map_some, Option.some_inj, hids] at hsearch
  have hfound : (1 : Uuid) ∈ all.take 20 := by
    rw [hsearch, List.take_of_length_le]
    · exact List.mem_filter.mpr ⟨mem_sortedUsers.mpr rfl, by decide⟩
    · refine (List.length_filter_le _ _).trans ?_
      rw [perm_sortedUsers.length_eq]
      decide
  have hlit := (hall 1).mp (List.mem_of_mem_take hfound)
  exact absurd hlit (by decide)

end Members
