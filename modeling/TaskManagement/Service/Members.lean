import TaskManagement.Db.Membership
import TaskManagement.Like
import TaskManagement.Service.Tasks

/-!
# The members of a project

`add_member`, `remove_member` and `search_candidates` of the member service.  The first two are the
programs of their transactions, and the third is a query, over the tables of `TaskDb` with the
column `username` beside them (`MembersDb`).
-/

namespace Members

open ReadCommitted TaskDb
open Like (CaseFold)

/-! ### `add_member` and `remove_member` -/

/-- `fn_list_project_members`, the users of its rows. -/
def fnListProjectMembers (pProjectId : Uuid) : TaskProc (List Uuid) :=
  Proc.select fun db => ((memberPairs db).filter fun m => m.1 == pProjectId).map Prod.snd

/-- `add_member`; the `P0003` of the procedure becomes the error that the check before it raises. -/
def addMember (projectId userId invitedBy : Uuid) : TaskProc Unit := do
  match ← fnGetUser userId with
  | none => .throw .notFound
  | some _ => do
    let isMember ← fnIsProjectMember projectId userId
    Proc.raiseIf (isMember = true) .alreadyMember
    spAddProjectMember projectId userId (some invitedBy)
    let members ← fnListProjectMembers projectId
    Proc.raiseIf (userId ∉ members) .notFound

/-- `remove_member` of a project that belongs to `ownerId`. -/
def removeMember (projectId ownerId userId : Uuid) : TaskProc Unit := do
  Proc.raiseIf (userId = ownerId) .ownerCannotBeRemoved
  let isMember ← fnIsProjectMember projectId userId
  Proc.raiseIf (isMember = false) .notFound
  spRemoveProjectMember projectId userId

/-! ### `search_candidates` -/

/-- The tables with the column `username`, which is unique. -/
structure MembersDb where
  db : Db
  username : Uuid → String
  username_unique : ∀ u v, (db.row (.user u)).isSome → (db.row (.user v)).isSome →
    username u = username v → u = v

/-- The collation of the database. -/
structure Collation where
  le : String → String → Bool
  le_trans : ∀ a b c, le a b = true → le b c = true → le a c = true
  le_total : ∀ a b, (le a b || le b a) = true
  le_antisymm : ∀ a b, le a b = true → le b a = true → a = b

/-- The users of the table. -/
def userIds (db : Db) : List Uuid :=
  db.ids.filterMap fun
    | .user u => (db.row (.user u)).map fun _ => u
    | _ => none

/-- `concat_ws(' ', u.last_name, u.first_name)` -/
def fullName (r : User) : String := " ".intercalate ([r.lastName, r.firstName].filterMap id)

/-- `name ILIKE p_query || '%'` -/
def ilikeQuery (f : CaseFold) (query name : String) : Bool :=
  f.ilike (query.toList ++ ['%']) name.toList

/-- The `WHERE` clause of `fn_search_member_candidates` without the condition on the query. -/
def isCandidate (db : Db) (projectId : Uuid) (u : Uuid) : Bool :=
  activeUser db u && !isMember db projectId u

/-- The condition on the query. -/
def matchesQuery (f : CaseFold) (d : MembersDb) (query : String) (u : Uuid) : Bool :=
  query == "" || (d.db.row (.user u)).any fun r =>
    ilikeQuery f query (d.username u) || ilikeQuery f query (fullName r)

/-- `ORDER BY u.username` -/
def Collation.sort (c : Collation) (d : MembersDb) (l : List Uuid) : List Uuid :=
  l.mergeSort fun u v => c.le (d.username u) (d.username v)

/-- `fn_search_member_candidates`; an argument with a NUL is an error of the database. -/
def fnSearchMemberCandidates (f : CaseFold) (c : Collation) (d : MembersDb) (projectId : Uuid)
    (query : String) (limit offset : ℕ) : Option (List Uuid) :=
  if query.toList.contains '\x00' then none
  else
    let selected := (userIds d.db).filter fun u =>
      isCandidate d.db projectId u && matchesQuery f d query u
    some (((c.sort d selected).drop offset).take limit)

structure CandidateSummary where
  userId : Uuid
  username : String
  displayName : Option String
deriving DecidableEq, Repr

/-- `" ".join(part for part in (user.last_name, user.first_name) if part) or None` -/
def displayName (r : User) : Option String :=
  let name := " ".intercalate (([r.lastName, r.firstName].filterMap id).filter (· ≠ ""))
  if name = "" then none else some name

/-- `search_candidates`, with the setting `pagination_default_per_page`; `none` is an error of the
database. -/
def searchCandidates (f : CaseFold) (c : Collation) (perPage : ℕ) (d : MembersDb)
    (projectId : Uuid) (query : String) : Option (List CandidateSummary) :=
  (fnSearchMemberCandidates f c d projectId query perPage 0).map fun users =>
    users.map fun u =>
      { userId := u
        username := d.username u
        displayName := (d.db.row (.user u)).bind displayName }

end Members
