import TaskManagement.ReadCommitted.Alone
import TaskManagement.Service.Equiv.Candidates

/-!
# `add_member`, `remove_member` and the table of members

The checks of both calls go through `fn_is_project_member`, which looks at the role and at the flag
of a user before it looks at the table.  The calls therefore follow the table, for all users of a
project, exactly when every active administrator is a member of the project and every inactive
member is its owner (`calls_follow_table_iff`).

`Reached` are the rows that the requests lead to; in each of them a membership refers to a user
(`Reached.invariant`).
-/

namespace Members

open ReadCommitted TaskDb

variable {db db' : Db} {p q u v w : Uuid} {invitedBy : Option Uuid} {project : Project}

/-! ### Rows that can be reached -/

/-- A request: `setUser` creates a user or changes the role, the flag or the profile, `setProject`
keeps the owner, and `others` is any request on tasks, comments and notifications. -/
inductive Request : Db → Db → Prop where
  | setUser {db : Db} (u : Uuid) (r : User) : Request db (db.set (.user u) (some r))
  | createProject {db db' : Db} {a : CreateProject} {r : Except Error Uuid} :
      (db.row (.user a.ownerId)).isSome = true → EndsAlone schema (spCreateProject a) db r db' →
        Request db db'
  | setProject {db : Db} {p : Uuid} {old project : Project} :
      db.row (.project p) = some old → project.ownerId = old.ownerId →
        Request db (db.set (.project p) (some project))
  | addMember {db db' : Db} {p u invitedBy : Uuid} {r : Except Error Unit} :
      (db.row (.project p)).isSome = true →
        EndsAlone schema (addMember p u invitedBy) db r db' → Request db db'
  | removeMember {db db' : Db} {p u : Uuid} {project : Project} {r : Except Error Unit} :
      db.row (.project p) = some project →
        EndsAlone schema (removeMember p project.ownerId u) db r db' → Request db db'
  | others {db db' : Db} : Valid schema db' → (∀ u, db'.row (.user u) = db.row (.user u)) →
      (∀ p, db'.row (.project p) = db.row (.project p)) →
      (∀ p u, db'.row (.member p u) = db.row (.member p u)) → Request db db'

/-- The rows after any requests, one after another. -/
inductive Reached : Db → Prop where
  | empty : Reached .empty
  | request {db db' : Db} : Reached db → Request db db' → Reached db'

/-! ### What the calls are to do -/

/-- The call ends, and every end of it satisfies `Q`. -/
def Calls (program : TaskProc Unit) (db : Db) (Q : Except Error Unit → Db → Prop) : Prop :=
  (∃ r db', EndsAlone schema program db r db') ∧
    ∀ r db', EndsAlone schema program db r db' → Q r db'

/-- `add_member` of `v` to `p`, by the table. -/
structure Adds (db : Db) (p v : Uuid) (r : Except Error Unit) (db' : Db) : Prop where
  missing : db.row (.user v) = none → r = .error .notFound
  already : r = .error .alreadyMember ↔ isMember db p v = true
  added : db.row (.user v) ≠ none → isMember db p v = false → r = .ok () ∧
    ∀ q w, isMember db' q w = true ↔ (q, w) = (p, v) ∨ isMember db q w = true
  raised : ∀ e, r = .error e → db' = db

/-- `remove_member` of `v` from `p`, by the table. -/
structure Removes (db : Db) (p v : Uuid) (r : Except Error Unit) (db' : Db) : Prop where
  missing : r = .error .notFound ↔ isMember db p v = false
  removed : isMember db p v = true → r = .ok () ∧
    ∀ q w, isMember db' q w = true ↔ (q, w) ≠ (p, v) ∧ isMember db q w = true
  raised : ∀ e, r = .error e → db' = db

/-- The calls on the members of `p` follow the table. -/
structure FollowTable (db : Db) (p : Uuid) (project : Project) : Prop where
  add : ∀ v invitedBy, Calls (addMember p v invitedBy) db (Adds db p v)
  remove : ∀ v, v ≠ project.ownerId →
    Calls (removeMember p project.ownerId v) db (Removes db p v)
  search : ∀ f c perPage (d : MembersDb) query items, d.db = db →
    searchCandidates f c perPage d p query = some items → ∀ item ∈ items, ∀ invitedBy,
      Calls (addMember p item.userId invitedBy) db fun r _ => r = .ok ()

/-- Roles and flags say nothing that the table does not say. -/
structure TableDecides (db : Db) (p : Uuid) (project : Project) : Prop where
  admins : ∀ v r, db.row (.user v) = some r → r.isActive = true → r.role = .admin →
    isMember db p v = true
  inactive : ∀ v r, db.row (.user v) = some r → r.isActive = false → isMember db p v = true →
    v = project.ownerId

/-! ### What the calls do -/

/-- `fn_is_project_member` -/
def seenMember (db : Db) (p v : Uuid) : Bool :=
  (db.row (.user v)).any fun u => u.isActive && (decide (u.role = .admin) || isMember db p v)

theorem isMember_set {m : Option ProjectMember} :
    isMember (db.set (.member p v) m) q w =
      if (q, w) = (p, v) then m.isSome else isMember db q w := by
  unfold isMember
  split_ifs with h
  · obtain ⟨rfl, rfl⟩ := Prod.mk.inj h
    rw [Store.set_row_self]
  · rw [Store.set_row_of_ne]
    intro heq
    obtain ⟨rfl, rfl⟩ := RowId.member.inj heq
    exact h rfl

theorem supplied_addMember {invitedBy : Uuid} : (addMember p v invitedBy).Supplied := by
  refine Proc.supplied_select.bind fun user => ?_
  cases user with
  | none => trivial
  | some _ =>
    refine Proc.supplied_select.bind fun _ => Proc.supplied_raiseIf.bind fun _ => ?_
    refine Proc.Supplied.bind ?_ fun _ => ?_
    · exact Proc.supplied_select.bind fun _ => Proc.supplied_raiseIf.bind fun _ =>
        Proc.supplied_insertOrRaise
    · exact Proc.supplied_select.bind fun _ => Proc.supplied_raiseIf

theorem supplied_removeMember {ownerId : Uuid} : (removeMember p ownerId v).Supplied := by
  refine Proc.supplied_raiseIf.bind fun _ => Proc.supplied_select.bind fun _ => ?_
  refine Proc.supplied_raiseIf.bind fun _ => Proc.supplied_select.bind fun _ => ?_
  refine Proc.supplied_raiseIf.bind fun _ => Proc.supplied_update.bind fun _ => ?_
  exact Proc.supplied_update.bind fun _ => trivial

/-- `add_member`, run alone. -/
inductive AddMember (db : Db) (p v invitedBy : Uuid) : Except Error Unit → Db → Prop where
  | missing : db.row (.user v) = none → AddMember db p v invitedBy (.error .notFound) db
  | already : db.row (.user v) ≠ none → seenMember db p v = true ∨ isMember db p v = true →
      AddMember db p v invitedBy (.error .alreadyMember) db
  | added : db.row (.user v) ≠ none → seenMember db p v = false → isMember db p v = false →
      AddMember db p v invitedBy (.ok ()) (db.set (.member p v) (some ⟨some invitedBy⟩))

theorem addMember_calls (hdb : Valid schema db) (p v invitedBy : Uuid) :
    Calls (addMember p v invitedBy) db (AddMember db p v invitedBy) := by
  refine ⟨exists_endsAlone schema supplied_addMember db, fun r db' hend => ?_⟩
  by_cases huser : db.row (.user v) = none
  · have hsolo : Solo schema (· = .notFound) (addMember p v invitedBy) db fun _ _ => False := by
      refine Solo.bind (Solo.select ?_)
      rw [huser]
      exact Solo.throw rfl
    obtain ⟨e, rfl, rfl, rfl⟩ := hend.raises hsolo
    exact .missing huser
  obtain ⟨user, hrow⟩ := Option.ne_none_iff_exists'.mp huser
  by_cases hseen : seenMember db p v = true ∨ isMember db p v = true
  · have hsolo : Solo schema (· = .alreadyMember) (addMember p v invitedBy) db
        fun _ _ => False := by
      refine Solo.bind (Solo.select ?_)
      rw [hrow]
      refine Solo.bind (Solo.select (Solo.bind (Solo.raiseIf (fun _ => rfl) fun hcheck => ?_)))
      have hmember : isMember db p v = true := hseen.resolve_left hcheck
      refine Solo.bind (Solo.bind (Solo.select (Solo.bind (Solo.raiseIf (fun _ => rfl) ?_))))
      exact fun h => absurd hmember h
    obtain ⟨e, rfl, rfl, rfl⟩ := hend.raises hsolo
    exact .already huser hseen
  · rw [not_or, Bool.not_eq_true, Bool.not_eq_true] at hseen
    have hnone : db.row (.member p v) = none := Option.not_isSome_iff_eq_none.mp
      (by rw [show (db.row (.member p v)).isSome = false from hseen.2]; exact Bool.false_ne_true)
    have hsolo : Solo schema (fun _ => False) (addMember p v invitedBy) db
        fun _ db' => db' = db.set (.member p v) (some ⟨some invitedBy⟩) := by
      refine Solo.bind (Solo.select ?_)
      rw [hrow]
      refine Solo.bind (Solo.select (Solo.bind (Solo.raiseIf (fun h => ?_) fun _ => ?_)))
      · exact Bool.false_ne_true (hseen.1.symm.trans h)
      refine Solo.bind (Solo.bind (Solo.select ?_))
      refine Solo.bind (Solo.raiseIf (fun h => ?_) fun _ => ?_)
      · exact Bool.false_ne_true (hseen.2.symm.trans h)
      refine Solo.insertOrRaise (fun h => h hnone) (fun _ h => by cases h) fun _ => ?_
      refine Solo.bind (Solo.select (Solo.raiseIf (fun h => h ?_) fun _ => rfl))
      -- the new row is in the list
      refine List.mem_map.mpr ⟨(p, v), List.mem_filter.mpr ⟨mem_memberPairs.mpr ?_, ?_⟩, rfl⟩
      · rw [isMember_set, if_pos rfl]
        rfl
      · exact beq_self_eq_true p
    obtain ⟨-, rfl, rfl⟩ := hend.commits hsolo fun _ s hs => by
      subst hs
      refine deferred_of_slot_eq hdb.deferred fun t => slot_congr (Store.set_row_of_ne _ _ ?_)
      intro h
      cases h
    exact .added huser hseen.1 hseen.2

/-- The rows after a removal. -/
structure Removal (db : Db) (p v : Uuid) (db' : Db) : Prop where
  user : ∀ u, db'.row (.user u) = db.row (.user u)
  member : ∀ q w, isMember db' q w = true ↔ (q, w) ≠ (p, v) ∧ isMember db q w = true
  slot : ∀ t, slot db' t = slot db t

theorem removal_of_updated {s : Db} (hclear : Updated (clearAssignee p v) db s)
    (hdelete : Updated (deleteMember p v) s db') : Removal db p v db' where
  user u := by
    rw [hdelete, hclear]
    cases db.row (.user u) <;> rfl
  member q w := by
    have hs : s.row (.member q w) = db.row (.member q w) := by
      rw [hclear]
      cases db.row (.member q w) <;> rfl
    unfold isMember
    rw [hdelete, hs]
    by_cases h : (q, w) = (p, v)
    · obtain ⟨rfl, rfl⟩ := Prod.mk.inj h
      cases db.row (.member q w) with
      | none => simp
      | some r =>
        rw [Option.bind_some, deleteMember_self]
        simp
    · have hne : RowId.member q w ≠ .member p v := by
        intro heq
        obtain ⟨rfl, rfl⟩ := RowId.member.inj heq
        exact h rfl
      rw [and_iff_right h]
      cases db.row (.member q w) with
      | none => rfl
      | some r => rw [Option.bind_some, deleteMember_of_ne r hne, Option.getD_none]
  slot t := by
    have hd : db'.row (.task t) = s.row (.task t) := by
      rw [hdelete]
      cases s.row (.task t) <;> rfl
    rw [slot_congr hd, slot, slot, hclear]
    cases db.row (.task t) with
    | none => rfl
    | some r =>
      rw [Option.bind_some, clearAssignee]
      split_ifs <;> rfl

/-- `remove_member` of a user who does not own the project, run alone. -/
inductive RemoveMember (db : Db) (p v : Uuid) : Except Error Unit → Db → Prop where
  | missing : seenMember db p v = false → RemoveMember db p v (.error .notFound) db
  | removed {db' : Db} : seenMember db p v = true → Removal db p v db' →
      RemoveMember db p v (.ok ()) db'

theorem removeMember_calls (hdb : Valid schema db) (hp : db.row (.project p) = some project)
    (hv : v ≠ project.ownerId) :
    Calls (removeMember p project.ownerId v) db (RemoveMember db p v) := by
  refine ⟨exists_endsAlone schema supplied_removeMember db, fun r db' hend => ?_⟩
  by_cases hseen : seenMember db p v = false
  · have hsolo : Solo schema (· = .notFound) (removeMember p project.ownerId v) db
        fun _ _ => False := by
      refine Solo.bind (Solo.raiseIf (fun h => absurd h hv) fun _ => Solo.bind (Solo.select ?_))
      exact Solo.bind (Solo.raiseIf (fun _ => rfl) fun h => absurd hseen h)
    obtain ⟨e, rfl, rfl, rfl⟩ := hend.raises hsolo
    exact .missing hseen
  · have hsolo : Solo schema (fun _ => False) (removeMember p project.ownerId v) db
        fun _ db' => Removal db p v db' := by
      refine Solo.bind (Solo.raiseIf (fun h => hv h) fun _ => Solo.bind (Solo.select ?_))
      refine Solo.bind (Solo.raiseIf (fun h => hseen h) fun _ => Solo.bind (Solo.select ?_))
      refine Solo.bind (Solo.raiseIf (fun h => ?_) fun _ => Solo.bind (Solo.update ?_ ?_))
      · -- the procedure finds the same owner
        rw [hp] at h
        exact hv (of_decide_eq_true h).symm
      · -- the constraints do not mention the assignee
        intro i r r' e hr hu he
        cases i with
        | task t =>
          rw [clearAssignee] at hu
          split_ifs at hu
          obtain rfl := Option.some.inj (Option.some.inj hu)
          have hcheck := hdb.checked (.task t) r hr
          rw [show schema.check (.task t) r = some e from he] at hcheck
          cases hcheck
        | _ => cases hu
      · intro s hclear _
        refine Solo.bind (Solo.update ?_ fun s' hdelete _ =>
          Solo.ret (removal_of_updated hclear hdelete))
        intro i r r' e _ hu _
        cases i with
        | member q w =>
          rw [deleteMember] at hu
          split_ifs at hu
          cases hu
        | _ => cases hu
    obtain ⟨-, rfl, hremoval⟩ := hend.commits hsolo fun _ s hs =>
      deferred_of_slot_eq hdb.deferred hs.slot
    exact .removed (Bool.eq_true_of_not_eq_false hseen) hremoval

/-! ### The rows that are reached -/

/-- A membership refers to a user. -/
def Referring (db : Db) : Prop :=
  ∀ p u, isMember db p u = true → (db.row (.user u)).isSome = true

/-- The rows satisfy the constraints. -/
structure Invariant (db : Db) : Prop where
  valid : Valid schema db
  referring : Referring db

/-- A row that is no task is written. -/
theorem Invariant.set {i : RowId} {r : Row i} (h : Invariant db) (hi : ∀ t, i ≠ .task t)
    (hmember : ∀ p u, i ≠ .member p u) : Invariant (db.set i (some r)) where
  valid := by
    refine ⟨fun j r' hr' => ?_, deferred_of_slot_eq h.valid.deferred fun t =>
      slot_congr (Store.set_row_of_ne _ _ (hi t).symm)⟩
    by_cases hj : j = i
    · subst hj
      cases j with
      | task t => exact absurd rfl (hi t)
      | _ => rfl
    · rw [Store.set_row_of_ne _ _ hj] at hr'
      exact h.valid.checked j r' hr'
  referring p u hm := by
    rw [isMember, Store.set_row_of_ne _ _ (hmember p u).symm] at hm
    by_cases hu : RowId.user u = i
    · subst hu
      rw [Store.set_row_self]
      rfl
    · rw [Store.set_row_of_ne _ _ hu]
      exact h.referring p u hm

theorem valid_of_endsAlone {α : Type} {program : TaskProc α} {r : Except Error α}
    (h : EndsAlone schema program db r db') (hdb : Valid schema db) : Valid schema db' := by
  obtain ⟨c, hrun, -, rfl⟩ := h
  exact valid_of_reachable hdb hrun

/-- The rows after `sp_create_project`. -/
theorem referring_createProject {a : CreateProject} {r : Except Error Uuid} (hdb : Referring db)
    (howner : (db.row (.user a.ownerId)).isSome = true)
    (hend : EndsAlone schema (spCreateProject a) db r db') : Referring db' := by
  have hsolo : Solo schema (fun _ => True) (spCreateProject a) db fun _ db' => Referring db' := by
    refine Solo.bind (Solo.raiseIf (fun _ => trivial) fun _ => Solo.bind ?_)
    refine Solo.generate fun v _ => Solo.bind ?_
    refine Solo.insertOrRaise (fun _ => trivial) (fun _ _ => trivial) fun _ => Solo.bind ?_
    refine Solo.insertOrRaise (fun _ => trivial) (fun _ _ => trivial) fun _ => Solo.ret ?_
    intro p u hm
    rw [Store.set_row_of_ne _ _ (by intro h; cases h),
      Store.set_row_of_ne _ _ (by intro h; cases h)]
    rw [isMember_set] at hm
    split_ifs at hm with h
    · obtain ⟨-, rfl⟩ := Prod.mk.inj h
      exact howner
    · rw [isMember, Store.set_row_of_ne _ _ (by intro h; cases h)] at hm
      exact hdb p u hm
  cases r with
  | ok v => exact (hend.ok hsolo).1
  | error e =>
    rw [(hend.error hsolo).1]
    exact hdb

theorem Invariant.request (h : Invariant db) (hreq : Request db db') : Invariant db' := by
  cases hreq with
  | setUser u r => exact h.set (by intro t h; cases h) (by intro p u h; cases h)
  | createProject howner hend =>
    exact ⟨valid_of_endsAlone hend h.valid, referring_createProject h.referring howner hend⟩
  | setProject _ _ => exact h.set (by intro t h; cases h) (by intro p u h; cases h)
  | @addMember _ p v invitedBy r _ hend =>
    refine ⟨valid_of_endsAlone hend h.valid, ?_⟩
    cases (addMember_calls h.valid p v invitedBy).2 _ _ hend with
    | missing _ => exact h.referring
    | already _ _ => exact h.referring
    | added huser _ _ =>
      intro q w hm
      -- the new member is a user
      rw [Store.set_row_of_ne _ _ (by intro h; cases h)]
      rw [isMember_set] at hm
      split_ifs at hm with heq
      · obtain ⟨-, rfl⟩ := Prod.mk.inj heq
        exact Option.isSome_iff_ne_none.mpr huser
      · exact h.referring q w hm
  | @removeMember _ p v project r hp hend =>
    refine ⟨valid_of_endsAlone hend h.valid, ?_⟩
    by_cases hv : v = project.ownerId
    · -- the owner is not removed
      have hsolo : Solo schema (· = .ownerCannotBeRemoved) (removeMember p project.ownerId v) db
          fun _ _ => False := Solo.bind (Solo.raiseIf (fun _ => rfl) fun hne => absurd hv hne)
      obtain ⟨e, -, -, rfl⟩ := hend.raises hsolo
      exact h.referring
    · cases (removeMember_calls h.valid hp hv).2 _ _ hend with
      | missing _ => exact h.referring
      | removed _ hremoval =>
        intro q w hm
        rw [hremoval.user]
        exact h.referring q w ((hremoval.member q w).mp hm).2
  | others hvalid huser _ hmember =>
    refine ⟨hvalid, fun p u hm => ?_⟩
    rw [huser]
    rw [isMember, hmember] at hm
    exact h.referring p u hm

theorem Reached.invariant (h : Reached db) : Invariant db := by
  induction h with
  | empty =>
    have hchecked : Checked schema .empty := by
      intro i r hr
      cases hr
    exact ⟨⟨hchecked, rfl⟩, fun p u hm => by cases hm⟩
  | request _ hreq ih => exact ih.request hreq

/-! ### When the calls follow the table -/

/-- The check of the calls and the table agree on `v`. -/
def Agrees (db : Db) (p v : Uuid) : Prop := seenMember db p v = isMember db p v

/-- An active user: an administrator counts as a member. -/
theorem seenMember_of_active {r : User} (hrow : db.row (.user v) = some r)
    (hactive : r.isActive = true) :
    seenMember db p v = (decide (r.role = .admin) || isMember db p v) := by
  rw [seenMember, hrow, Option.any_some, hactive, Bool.true_and]

/-- An inactive user is no member. -/
theorem seenMember_of_inactive {r : User} (hrow : db.row (.user v) = some r)
    (hactive : r.isActive = false) : seenMember db p v = false := by
  rw [seenMember, hrow, Option.any_some, hactive, Bool.false_and]

theorem calls_adds_iff (hdb : Invariant db) {invitedBy : Uuid} :
    Calls (addMember p v invitedBy) db (Adds db p v) ↔
      (seenMember db p v = true → isMember db p v = true) := by
  obtain ⟨⟨r, db', hend⟩, hcalls⟩ := addMember_calls hdb.valid p v invitedBy
  constructor
  · rintro ⟨-, h⟩ hseen
    -- a membership that the procedure sees makes it answer that there is one already
    have hadds := h r db' hend
    cases hcalls r db' hend with
    | missing hnone =>
      rw [seenMember, hnone] at hseen
      cases hseen
    | already _ _ => exact hadds.already.mp rfl
    | added _ hseen' _ => exact absurd hseen (by rw [hseen']; exact Bool.false_ne_true)
  · intro h
    refine ⟨⟨r, db', hend⟩, fun r db' hend => ?_⟩
    cases hcalls r db' hend with
    | missing hnone =>
      -- a user that does not exist is no member
      have hfalse : isMember db p v ≠ true := by
        intro hm
        have hsome := hdb.referring p v hm
        rw [hnone] at hsome
        cases hsome
      exact ⟨fun _ => rfl, iff_of_false (by intro h; cases h) hfalse,
        fun hne => absurd hnone hne, fun _ _ => rfl⟩
    | already huser hor =>
      have hm : isMember db p v = true := hor.elim h id
      exact ⟨fun hnone => absurd hnone huser, iff_of_true rfl hm,
        fun _ hf => absurd hm (by rw [hf]; exact Bool.false_ne_true), fun _ _ => rfl⟩
    | added huser hseen hm =>
      refine ⟨fun hnone => absurd hnone huser, iff_of_false (by intro h; cases h) ?_,
        fun _ _ => ⟨rfl, fun q w => ?_⟩, fun e he => by cases he⟩
      · rw [hm]
        exact Bool.false_ne_true
      · rw [isMember_set]
        split_ifs with heq
        · exact iff_of_true rfl (.inl heq)
        · rw [or_iff_right heq]

theorem calls_removes_iff (hdb : Invariant db) (hp : db.row (.project p) = some project)
    (hv : v ≠ project.ownerId) :
    Calls (removeMember p project.ownerId v) db (Removes db p v) ↔ Agrees db p v := by
  obtain ⟨⟨r, db', hend⟩, hcalls⟩ := removeMember_calls hdb.valid hp hv
  unfold Agrees
  constructor
  · rintro ⟨-, h⟩
    have hremoves := h r db' hend
    cases hcalls r db' hend with
    | missing hseen => rw [hseen, hremoves.missing.mp rfl]
    | removed hseen _ =>
      rw [hseen]
      by_contra hm
      cases hremoves.missing.mpr (Bool.eq_false_of_not_eq_true (Ne.symm hm))
  · intro h
    refine ⟨⟨r, db', hend⟩, fun r db' hend => ?_⟩
    cases hcalls r db' hend with
    | missing hseen =>
      rw [hseen] at h
      exact ⟨iff_of_true rfl h.symm, fun hm => absurd (h.trans hm) Bool.false_ne_true,
        fun _ _ => rfl⟩
    | removed hseen hremoval =>
      rw [hseen] at h
      refine ⟨iff_of_false (by intro h; cases h) ?_, fun _ => ⟨rfl, hremoval.member⟩,
        fun e he => by cases he⟩
      rw [← h]
      exact Bool.noConfusion

/-- The users that a search finds are candidates. -/
theorem isCandidate_of_mem {f : Like.CaseFold} {c : Collation} {perPage : ℕ} {d : MembersDb}
    {query : String} {items : List CandidateSummary} {item : CandidateSummary}
    (hitems : searchCandidates f c perPage d p query = some items) (hitem : item ∈ items) :
    isCandidate d.db p item.userId = true := by
  have hnul : '\x00' ∉ query.toList := by
    intro h
    rw [searchCandidates_of_nul h] at hitems
    cases hitems
  have hids := searchCandidates_eq (f := f) (c := c) (d := d) (p := p) perPage hnul
  rw [hitems, Option.map_some, Option.some_inj] at hids
  have hmem : item.userId ∈ items.map CandidateSummary.userId := List.mem_map_of_mem hitem
  rw [hids] at hmem
  exact (Bool.and_eq_true _ _ ▸ (List.mem_filter.mp (List.mem_of_mem_take hmem)).2).1

/-- A candidate that the check does not take for a member can be added. -/
theorem calls_ok_of_isCandidate (hdb : Invariant db) {invitedBy : Uuid}
    (hcand : isCandidate db p v = true) (h : seenMember db p v = true → isMember db p v = true) :
    Calls (addMember p v invitedBy) db fun r _ => r = .ok () := by
  rw [isCandidate, Bool.and_eq_true, Bool.not_eq_true'] at hcand
  obtain ⟨hends, hcalls⟩ := addMember_calls hdb.valid p v invitedBy
  refine ⟨hends, fun r db' hend => ?_⟩
  cases hcalls r db' hend with
  | missing hnone =>
    rw [activeUser, hnone] at hcand
    cases hcand.1
  | already _ hor =>
    have hm := hor.elim h id
    rw [hcand.2] at hm
    cases hm
  | added _ _ _ => rfl

/-- In every state that is reached, the calls on the members of a project follow the table exactly
when every active administrator is a member and every inactive member is the owner. -/
theorem calls_follow_table_iff (hdb : Reached db) (hp : db.row (.project p) = some project) :
    FollowTable db p project ↔ TableDecides db p project := by
  have hinv := hdb.invariant
  constructor
  · intro h
    refine ⟨fun v r hrow hactive hadmin => ?_, fun v r hrow hinactive hm => ?_⟩
    · refine (calls_adds_iff hinv).mp (h.add v v) ?_
      rw [seenMember_of_active hrow hactive, hadmin]
      rfl
    · by_contra hv
      have hagrees := (calls_removes_iff hinv hp hv).mp (h.remove v hv)
      rw [Agrees, seenMember_of_inactive hrow hinactive, hm] at hagrees
      cases hagrees
  · intro h
    have hseen : ∀ v, seenMember db p v = true → isMember db p v = true := by
      intro v hv
      obtain ⟨r, hrow, hr⟩ := (Option.any_eq_true _ _).mp hv
      rw [Bool.and_eq_true, Bool.or_eq_true, decide_eq_true_eq] at hr
      exact hr.2.elim (h.admins v r hrow hr.1) id
    refine ⟨fun v invitedBy => (calls_adds_iff hinv).mpr (hseen v), fun v hv => ?_, ?_⟩
    · refine (calls_removes_iff hinv hp hv).mpr ?_
      unfold Agrees
      rw [Bool.eq_iff_iff]
      refine ⟨hseen v, fun hm => ?_⟩
      obtain ⟨r, hrow⟩ := Option.isSome_iff_exists.mp (hinv.referring p v hm)
      have hactive : r.isActive = true := by
        by_contra hne
        exact hv (h.inactive v r hrow (Bool.eq_false_of_not_eq_true hne) hm)
      rw [seenMember_of_active hrow hactive, hm, Bool.or_true]
    · rintro f c perPage d query items rfl hitems item hitem invitedBy
      exact calls_ok_of_isCandidate hinv (isCandidate_of_mem hitems hitem) (hseen _)

/-! ### A project, as an example -/

def oneUser : Db := Store.empty.set (.user 1) (some { role := .member, isActive := true })

def ownProject : CreateProject :=
  { ownerId := 1, name := "project", description := none, startAt := none, endAt := none }

/-- User 1 creates the project 2. -/
def createdRun : Config Unit Row LockKey Uuid Error Uuid :=
  (Config.init oneUser fun _ => spCreateProject ownProject).execTo schema (fun _ _ _ => True)
    [((), .gen 2), ((), .go), ((), .go), ((), .go)] (by decide)

theorem reached_createdRun : Reached createdRun.db :=
  .request (.request .empty (.setUser 1 { role := .member, isActive := true }))
    (.createProject (r := .ok 2) rfl ⟨createdRun, run_execTo _, rfl, rfl⟩)

/-- The users 3, 4 and 5 join. -/
def withUsers : Db :=
  ((createdRun.db.set (.user 3) (some { role := .member, isActive := true })).set
    (.user 4) (some { role := .member, isActive := true })).set
    (.user 5) (some { role := .member, isActive := true })

def addedRun (db : Db) (v : Uuid)
    (h : ((Config.init db fun _ : Unit => addMember 2 v 1).exec schema (fun _ _ _ => True)
      (List.replicate 6 ((), .go))).isSome) : Config Unit Row LockKey Uuid Error Unit :=
  (Config.init db fun _ => addMember 2 v 1).execTo schema (fun _ _ _ => True)
    (List.replicate 6 ((), .go)) h

theorem endsAlone_addedRun {v : Uuid}
    {h : ((Config.init db fun _ : Unit => addMember 2 v 1).exec schema (fun _ _ _ => True)
      (List.replicate 6 ((), .go))).isSome} (hok : (addedRun db v h).tx () = .done (.ok ())) :
    EndsAlone schema (addMember 2 v 1) db (.ok ()) (addedRun db v h).db :=
  ⟨_, run_execTo h, hok, rfl⟩

/-- The users 3 and 4 are added to the project. -/
def addedThree : Config Unit Row LockKey Uuid Error Unit := addedRun withUsers 3 (by decide)

def addedFour : Config Unit Row LockKey Uuid Error Unit := addedRun addedThree.db 4 (by decide)

/-- The user 3 becomes an administrator, and the owner inactive; the user 5 is not in the project. -/
def teamDb : Db :=
  (addedFour.db.set (.user 3) (some { role := .admin, isActive := true })).set
    (.user 1) (some { role := .member, isActive := false })

theorem reached_teamDb : Reached teamDb := by
  have husers : Reached withUsers :=
    .request (.request (.request reached_createdRun (.setUser 3 _)) (.setUser 4 _)) (.setUser 5 _)
  have hthree : Reached addedThree.db := .request husers (.addMember rfl (endsAlone_addedRun rfl))
  have hfour : Reached addedFour.db := .request hthree (.addMember rfl (endsAlone_addedRun rfl))
  exact .request (.request hfour (.setUser 3 _)) (.setUser 1 _)

theorem user_withUsers {r : User} (hrow : withUsers.row (.user v) = some r) :
    r = { role := .member, isActive := true } := by
  have hset {db : Db} {u : Uuid} (hrow : (db.set (.user u) (some
      { role := .member, isActive := true })).row (.user v) = some r) :
      r = { role := .member, isActive := true } ∨ db.row (.user v) = some r := by
    by_cases huv : v = u
    · subst huv
      rw [Store.set_row_self] at hrow
      exact Or.inl (Option.some.inj hrow).symm
    · rw [Store.set_row_of_ne _ _ (by simpa using huv)] at hrow
      exact Or.inr hrow
  rcases hset hrow with h | hrow
  · exact h
  rcases hset hrow with h | hrow
  · exact h
  rcases hset hrow with h | hrow
  · exact h
  -- the procedure writes no user
  have hrow' : oneUser.row (.user v) = some r := hrow
  rcases hset hrow' with h | hrow
  · exact h
  · cases hrow

/-- The only administrator is a member, and the only inactive user is the owner. -/
theorem tableDecides_teamDb : TableDecides teamDb 2 ⟨1, "project", none, none, none, true⟩ := by
  have huser : ∀ v r, v ≠ 1 → v ≠ 3 → teamDb.row (.user v) = some r →
      r = { role := .member, isActive := true } := by
    intro v r h₁ h₃ hrow
    rw [teamDb, Store.set_row_of_ne _ _ (by simpa using h₁),
      Store.set_row_of_ne _ _ (by simpa using h₃)] at hrow
    exact user_withUsers hrow
  refine ⟨fun v r hrow hactive hadmin => ?_, fun v r hrow hinactive hm => ?_⟩
  · by_cases h₃ : v = 3
    · rw [h₃]
      rfl
    by_cases h₁ : v = 1
    · subst h₁
      obtain rfl := Option.some.inj hrow
      cases hactive
    · rw [huser v r h₁ h₃ hrow] at hadmin
      cases hadmin
  · by_cases h₁ : v = 1
    · exact h₁
    by_cases h₃ : v = 3
    · subst h₃
      obtain rfl := Option.some.inj hrow
      cases hinactive
    · rw [huser v r h₁ h₃ hrow] at hinactive
      cases hinactive

/-- The user 5 can be added, and the user 4 removed. -/
theorem follow_table_teamDb :
    FollowTable teamDb 2 ⟨1, "project", none, none, none, true⟩ ∧
      isMember teamDb 2 5 = false ∧ isMember teamDb 2 4 = true :=
  ⟨(calls_follow_table_iff reached_teamDb rfl).mpr tableDecides_teamDb, rfl, rfl⟩

/-- An administrator who is no member of the project cannot be added to it. -/
theorem admin_cannot_be_added :
    ¬∀ (db : Db) (p : Uuid) (project : Project), Reached db →
      db.row (.project p) = some project → FollowTable db p project := by
  intro h
  set db : Db := createdRun.db.set (.user 3) (some { role := .admin, isActive := true }) with hdb
  have hreached : Reached db :=
    .request reached_createdRun (.setUser 3 { role := .admin, isActive := true })
  have hadds := (h db 2 ⟨1, "project", none, none, none, true⟩ hreached rfl).add 3 1
  have hm : isMember db 2 3 = true := (calls_adds_iff hreached.invariant).mp hadds rfl
  cases hm

end Members
