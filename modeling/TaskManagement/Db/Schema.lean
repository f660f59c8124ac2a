import TaskManagement.Columns
import TaskManagement.ReadCommitted.System
import Mathlib.Data.Prod.Lex
import Mathlib.Order.Basic

/-!
# The schema of the task database

The tables `users`, `projects`, `project_members`, `tasks`, `task_comments` and `notifications`,
with the columns that the modelled procedures read or write, as typed rows of a
`ReadCommitted.Store`.  The primary key of a row is its identifier (`RowId`); for a notification it
is the unique key `(user_id, dedupe_key)`, the one that `ON CONFLICT` refers to.

`schema` holds the constraints: the length of the title, the `INTEGER` ranges and the `CHECK`
constraints of a task, and the deferred `uq_tasks_project_status_position`, which does not see rows
without a project.
Foreign keys are left out: no modelled procedure deletes a row that another one references.
-/

namespace TaskDb

open ReadCommitted

abbrev Uuid : Type := ℕ

/-- A `TIMESTAMPTZ`, in microseconds. -/
abbrev Timestamp : Type := ℤ

/-- A `DATE`, in days. -/
abbrev Date : Type := ℤ

/-- The value that an assignment to a `VARCHAR(n)` stores: spaces beyond the length are cut off.
What is still too long is refused. -/
def varchar (n : ℕ) (value : String) : String :=
  if (value.toList.drop n).all (· == ' ') then String.ofList (value.toList.take n) else value

theorem varchar_of_length_le {n : ℕ} {value : String} (h : value.length ≤ n) :
    varchar n value = value := by
  have hlength : value.toList.length ≤ n := h
  unfold varchar
  rw [List.drop_eq_nil_of_le hlength, List.take_of_length_le hlength, String.ofList_toList]
  exact ite_self value

/-- What has been cut off is not cut off again. -/
theorem varchar_varchar (n : ℕ) (value : String) :
    varchar n (varchar n value) = varchar n value := by
  by_cases hspaces : (value.toList.drop n).all (· == ' ') = true
  · have hcut : varchar n value = String.ofList (value.toList.take n) := if_pos hspaces
    refine varchar_of_length_le ?_
    rw [hcut, String.length_ofList]
    exact List.length_take_le n value.toList
  · have hkept : varchar n value = value := if_neg hspaces
    rw [hkept, hkept]

/-- A text that an assignment to `tasks.title` stores as it is, or refuses. -/
abbrev Title : Type := {value : String // varchar 150 value = value}

/-- The value of an assignment to `tasks.title`. -/
def Title.assign (value : String) : Title := ⟨varchar 150 value, varchar_varchar 150 value⟩

instance : Coe String Title := ⟨Title.assign⟩

@[simp] theorem Title.assign_val (title : Title) : Title.assign title.val = title :=
  Subtype.ext title.property

/-- `ck_tasks_status`. -/
inductive Status : Type where
  | todo
  | inProgress
  | done
deriving DecidableEq, Repr

/-- The place of a status in the order of the texts `done`, `in_progress`, `todo`. -/
def Status.rank : Status → ℕ
  | .done => 0
  | .inProgress => 1
  | .todo => 2

theorem Status.rank_injective : Function.Injective Status.rank := by
  intro a b h
  cases a <;> cases b <;> first | rfl | cases h

instance : LinearOrder Status := LinearOrder.lift' Status.rank Status.rank_injective

/-- `ck_users_role`. -/
inductive Role : Type where
  | member
  | admin
deriving DecidableEq, Repr

structure User where
  role : Role
  isActive : Bool
  lastName : Option String := none
  firstName : Option String := none
  lastNameKana : Option String := none
  firstNameKana : Option String := none
  birthDate : Option Date := none
deriving DecidableEq, Repr

structure Project where
  ownerId : Uuid
  name : String
  description : Option String
  startAt : Option Timestamp
  endAt : Option Timestamp
  isActive : Bool
deriving DecidableEq, Repr

structure ProjectMember where
  invitedBy : Option Uuid
deriving DecidableEq, Repr

structure Task where
  projectId : Option Uuid
  title : Title
  description : Option String
  status : Status
  assigneeId : Option Uuid
  createdBy : Uuid
  position : ℤ
  version : ℤ
  dueAt : Option Timestamp
  isActive : Bool
deriving DecidableEq, Repr

structure TaskComment where
  taskId : Uuid
  userId : Uuid
  body : String
deriving DecidableEq, Repr

inductive NotificationType : Type where
  | dueTodayCreated
  | dueTodayUpdated
deriving DecidableEq, Repr

/-- `dedupe_key`: `created:<task>` or `updated:<task>:<due_at>`. -/
inductive DedupeKey : Type where
  | created (taskId : Uuid)
  | updated (taskId : Uuid) (dueAt : Timestamp)
deriving DecidableEq, Repr

structure Notification where
  taskId : Option Uuid
  type : NotificationType
  title : String
  body : Option String
  dueAt : Option Timestamp
deriving DecidableEq, Repr

/-- The table of a row and its key. -/
inductive RowId : Type where
  | user (id : Uuid)
  | project (id : Uuid)
  | member (projectId userId : Uuid)
  | task (id : Uuid)
  | comment (id : Uuid)
  | notification (userId : Uuid) (dedupeKey : DedupeKey)
deriving DecidableEq, Repr

/-- The rows of each table. -/
@[reducible] def Row : RowId → Type
  | .user _ => User
  | .project _ => Project
  | .member _ _ => ProjectMember
  | .task _ => Task
  | .comment _ => TaskComment
  | .notification _ _ => Notification

/-- The committed rows of the database. -/
abbrev Db : Type := Store Row

/-! ### Columns and their advisory keys -/

/-- A column of a board; without a project, the column of the unassigned tasks. -/
abbrev Column : Type := Option Uuid × Status

/-- The column of a task and its position there. -/
def Task.slot (r : Task) : Column × ℤ := ((r.projectId, r.status), r.position)

/-- The slots of all tasks. -/
def slot (db : Db) : Columns.Layout Uuid Column := fun t => (db.row (.task t)).map Task.slot

theorem slot_eq_some {db : Db} {t : Uuid} {s : Column × ℤ} :
    slot db t = some s ↔ ∃ r, db.row (.task t) = some r ∧ r.slot = s := Option.map_eq_some_iff

theorem slot_of_row {db : Db} {t : Uuid} {r : Task} (h : db.row (.task t) = some r) :
    slot db t = some r.slot := slot_eq_some.mpr ⟨r, h, rfl⟩

theorem slot_congr {db db' : Db} {t : Uuid} (h : db'.row (.task t) = db.row (.task t)) :
    slot db' t = slot db t := congrArg (Option.map Task.slot) h

/-- The keys of `pg_advisory_xact_lock`; no two texts `project:status` hash to one key. -/
abbrev LockKey : Type := Uuid ×ₗ Status

/-- `COALESCE(project_id::text, '00000000-0000-0000-0000-000000000000') || ':' || status`. -/
def columnKey (c : Column) : LockKey := toLex (c.1.getD 0, c.2)

/-! ### Constraints -/

/-- The errors that end a transaction. -/
inductive Error : Type where
  /-- `P0003`: user is already a project member. -/
  | alreadyMember
  /-- `P0004`: owner cannot be removed from project. -/
  | ownerCannotBeRemoved
  /-- `P0005`: task version conflict. -/
  | taskVersionConflict
  /-- `P0006`: assignee is not an active user. -/
  | assigneeNotActive
  /-- `P0009`: end_at must not be before start_at. -/
  | endBeforeStart
  /-- `23505`, of a primary key. -/
  | duplicateKey
  /-- `23505`, of `uq_tasks_project_status_position`. -/
  | duplicatePosition
  /-- `23514`, of `ck_tasks_position_non_negative`. -/
  | negativePosition
  /-- `23514`, of `ck_tasks_version_positive`. -/
  | versionNotPositive
  /-- `22003`: integer out of range. -/
  | integerOutOfRange
  /-- `22001`: value too long for type character varying. -/
  | valueTooLong
  /-- `UnauthenticatedError`, raised by the API. -/
  | unauthenticated
  /-- `UserInactiveError`, raised by the API. -/
  | userInactive
  /-- `NotFoundError`, raised by the API. -/
  | notFound
  /-- `ForbiddenError`, raised by the API. -/
  | forbidden
  /-- `ValidationError`, raised by the API, with the field of its details. -/
  | validation (field : Option String) (message : String)
deriving DecidableEq, Repr

/-- The largest `INTEGER`. -/
def maxInteger : ℤ := 2147483647

/-- The constraints on one task row.  A position is computed before the row is written, a version
when it is, behind the title. -/
def Task.check (r : Task) : Option Error :=
  if maxInteger < r.position then some .integerOutOfRange
  else if 150 < r.title.val.length then some .valueTooLong
  else if maxInteger < r.version then some .integerOutOfRange
  else if r.position < 0 then some .negativePosition
  else if r.version ≤ 0 then some .versionNotPositive
  else none

/-- Two tasks of one project with the same status and position. -/
def SamePosition (db : Db) : RowId → RowId → Prop
  | .task t, .task t' =>
    t ≠ t' ∧ slot db t = slot db t' ∧ ((slot db t).any fun s => s.1.1.isSome) = true
  | _, _ => False

instance (db : Db) : DecidableRel (SamePosition db) := fun i j => by
  cases i <;> cases j <;> unfold SamePosition <;> infer_instance

/-- `ck_tasks_*` and `uq_tasks_project_status_position DEFERRABLE INITIALLY DEFERRED`. -/
def schema : Constraints Row Error where
  check
    | .task _, r => Task.check r
    | _, _ => none
  deferred db :=
    if ∃ i ∈ db.ids, ∃ j ∈ db.ids, SamePosition db i j then some .duplicatePosition else none

/-- The task rows that pass the check. -/
theorem Task.check_eq_none_iff {r : Task} : r.check = none ↔
    (0 ≤ r.position ∧ r.position ≤ maxInteger) ∧ 0 < r.version ∧ r.version ≤ maxInteger ∧
      r.title.val.length ≤ 150 := by
  unfold Task.check
  split_ifs <;> simp <;> omega

/-- The checks that a row may fail whose position and version are not too small. -/
theorem Task.check_eq_some {r : Task} {e : Error} (hpos : 0 ≤ r.position) (hver : 0 < r.version)
    (he : r.check = some e) : (e = .valueTooLong ∧ 150 < r.title.val.length) ∨
      (e = .integerOutOfRange ∧ (maxInteger < r.position ∨ maxInteger < r.version)) := by
  unfold Task.check at he
  split_ifs at he with hlarge hlong hversion hneg hnone
  · exact Or.inr ⟨(Option.some.inj he).symm, Or.inl hlarge⟩
  · exact Or.inl ⟨(Option.some.inj he).symm, hlong⟩
  · exact Or.inr ⟨(Option.some.inj he).symm, Or.inr hversion⟩
  · exact absurd hpos (not_le.mpr hneg)
  · exact absurd hver (not_lt.mpr hnone)

/-- The check of a task reports a negative position only when there is one. -/
theorem Task.check_ne_negativePosition {r : Task} (h : 0 ≤ r.position) :
    r.check ≠ some .negativePosition ∧ r.check ≠ some .duplicatePosition := by
  unfold Task.check
  split_ifs
  · simp
  · simp
  · simp
  · omega
  · simp
  · simp

/-- The slots of the tasks that belong to a project, those that the deferred constraint sees. -/
def boardSlot (db : Db) : Columns.Layout Uuid Column := fun t =>
  (slot db t).filter fun s => s.1.1.isSome

theorem boardSlot_eq_some {db : Db} {t : Uuid} {s : Column × ℤ} :
    boardSlot db t = some s ↔ slot db t = some s ∧ s.1.1.isSome = true := Option.filter_eq_some_iff

/-- The deferred constraint holds when no two tasks of projects share a slot. -/
theorem deferred_eq_none_iff {db : Db} : schema.deferred db = none ↔
    ∀ t t' s, boardSlot db t = some s → boardSlot db t' = some s → t = t' := by
  have hiff : schema.deferred db = none ↔ ¬∃ i ∈ db.ids, ∃ j ∈ db.ids, SamePosition db i j :=
    ite_eq_right_iff.trans ⟨fun h hc => (nomatch h hc), fun h hc => absurd hc h⟩
  rw [hiff]
  constructor
  · intro h t t' s ht ht'
    obtain ⟨hs, hsome⟩ := boardSlot_eq_some.mp ht
    obtain ⟨hs', -⟩ := boardSlot_eq_some.mp ht'
    have hmem : ∀ {u}, slot db u = some s → RowId.task u ∈ db.ids := by
      intro u hu
      obtain ⟨r, hr, -⟩ := slot_eq_some.mp hu
      exact db.mem_ids _ (by rw [hr]; rfl)
    by_contra hne
    exact h ⟨.task t, hmem hs, .task t', hmem hs', hne, hs.trans hs'.symm, by rw [hs]; exact hsome⟩
  · rintro h ⟨i, -, j, -, hij⟩
    cases i <;> cases j <;> try exact hij
    rename_i t t'
    obtain ⟨hne, heq, hsome⟩ := hij
    obtain ⟨s, hs, hs'⟩ := (Option.any_eq_true _ _).mp hsome
    exact hne (h t t' s (boardSlot_eq_some.mpr ⟨hs, hs'⟩)
      (boardSlot_eq_some.mpr ⟨heq ▸ hs, hs'⟩))

/-- The deferred constraint sees the slots only. -/
theorem deferred_of_slot_eq {db db' : Db} (hdb : schema.deferred db = none)
    (h : ∀ t, slot db' t = slot db t) : schema.deferred db' = none := by
  have hslot : boardSlot db' = boardSlot db := by
    ext1 t
    rw [boardSlot, boardSlot, h t]
  rw [deferred_eq_none_iff] at hdb ⊢
  rwa [hslot]

/-- A layout without shared slots passes the deferred constraint. -/
theorem deferred_of_distinct {db : Db}
    (h : ∀ t t' s, slot db t = some s → slot db t' = some s → t = t') :
    schema.deferred db = none :=
  deferred_eq_none_iff.mpr fun t t' s ht ht' =>
    h t t' s (boardSlot_eq_some.mp ht).1 (boardSlot_eq_some.mp ht').1

end TaskDb
