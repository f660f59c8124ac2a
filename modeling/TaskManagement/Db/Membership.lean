import TaskManagement.Db.Procedures

/-!
# Projects and their members

The transactions that create a project, add a member and remove one, and what the tables `projects`
and `project_members` are to satisfy: the owner of a project is a member of it
(`OwnersAreMembers`), and no pair of a project and a user occurs twice (`memberPairs`).
-/

namespace TaskDb

open ReadCommitted

/-- A call of a procedure on projects and members. -/
inductive MemberCall : Type where
  | createProject (p : CreateProject)
  | addMember (pProjectId pUserId : Uuid) (pInvitedBy : Option Uuid)
  | removeMember (pProjectId pUserId : Uuid)
deriving DecidableEq

/-- The transaction of a call. -/
def MemberCall.proc : MemberCall → TaskProc Unit
  | .createProject p => do
    let _ ← spCreateProject p
    return ()
  | .addMember p u invitedBy => spAddProjectMember p u invitedBy
  | .removeMember p u => spRemoveProjectMember p u

/-- `EXISTS (SELECT 1 FROM projects WHERE id = p AND owner_id = u)`. -/
def isOwner (db : Db) (p u : Uuid) : Bool :=
  (db.row (.project p)).any fun r => decide (r.ownerId = u)

/-- The owner of every project is a member of it. -/
def OwnersAreMembers (db : Db) : Prop :=
  ∀ p u, isOwner db p u = true → isMember db p u = true

/-- The pairs of `project_members`, one for each row. -/
def memberPairs (db : Db) : List (Uuid × Uuid) :=
  db.ids.filterMap fun
    | .member p u => (db.row (.member p u)).map fun _ => (p, u)
    | _ => none

theorem mem_memberPairs {db : Db} {p u : Uuid} :
    (p, u) ∈ memberPairs db ↔ isMember db p u = true := by
  refine (Store.mem_table_iff (fun x : Uuid × Uuid => RowId.member x.1 x.2) (fun x _ => x)
    (fun _ => rfl) fun i b h => ?_).trans ?_
  · cases i with
    | member p u => exact ⟨(p, u), rfl⟩
    | _ => cases h
  · unfold isMember
    rw [Option.isSome_iff_exists]
    constructor
    · rintro ⟨x, m, hm, rfl⟩
      exact ⟨m, hm⟩
    · rintro ⟨m, hm⟩
      exact ⟨(p, u), m, hm, rfl⟩

/-- The primary key of `project_members`. -/
theorem nodup_memberPairs (db : Db) : (memberPairs db).Nodup := by
  rw [← List.map_id (memberPairs db)]
  refine Store.nodup_table (fun x : Uuid × Uuid => RowId.member x.1 x.2) (fun x _ => x)
    (fun _ => rfl) (fun i b h => ?_) id fun _ _ => rfl
  cases i with
  | member p u => exact ⟨(p, u), rfl⟩
  | _ => cases h

/-- A task of the project `p` whose assignee is `u`. -/
def Task.AssignedIn (p u : Uuid) (r : Task) : Prop := r.projectId = some p ∧ r.assigneeId = some u

instance (p u : Uuid) (r : Task) : Decidable (r.AssignedIn p u) := by
  unfold Task.AssignedIn
  infer_instance

/-- A task after the removal of `u` from `p` has found it. -/
def Task.unassign (p u : Uuid) (r : Task) : Task :=
  if r.AssignedIn p u then { r with assigneeId := none } else r

end TaskDb
