import TaskManagement.Service.Tasks

/-!
# The `PATCH` of a project and of a profile

`update_project` and `update_profile`, with the procedures that they call and the route
dependencies before them, as the program of the database transaction of the request.  Both read the
row, fill the fields that the payload omits with what they read, and then call a procedure that
writes every field.

`Call` collects the two, with the row that each of them is about and what its payload asks for
(`Call.patch`).
-/

namespace TaskDb

open ReadCommitted

/-! ### Procedures -/

/-- `UPDATE projects SET ... WHERE id = p`. -/
def setProject (p : Uuid) (set : Project → Project) : RowUpdate Row
  | .project p', r => if p' = p then some (some (set r)) else none
  | _, _ => none

/-- `UPDATE users SET ... WHERE id = u`. -/
def setUser (u : Uuid) (set : User → User) : RowUpdate Row
  | .user u', r => if u' = u then some (some (set r)) else none
  | _, _ => none

/-- `start_at` and `end_at` are set and `end_at < start_at`. -/
def EndBeforeStart (startAt endAt : Option Timestamp) : Prop := ∃ s ∈ startAt, ∃ e ∈ endAt, e < s

instance (startAt endAt : Option Timestamp) : Decidable (EndBeforeStart startAt endAt) := by
  unfold EndBeforeStart
  infer_instance

/-- The columns that `sp_update_project` writes. -/
structure ProjectFields where
  name : String
  description : Option String
  startAt : Option Timestamp
  endAt : Option Timestamp
deriving DecidableEq, Repr

/-- The row that `sp_update_project` writes. -/
def ProjectFields.apply (f : ProjectFields) (r : Project) : Project :=
  { r with name := f.name, description := f.description, startAt := f.startAt, endAt := f.endAt }

def spUpdateProject (pProjectId : Uuid) (f : ProjectFields) : TaskProc Unit := do
  Proc.raiseIf (EndBeforeStart f.startAt f.endAt) .endBeforeStart
  let _ ← Proc.update (setProject pProjectId f.apply)
  return ()

def spDeactivateProject (pProjectId : Uuid) (pIsActive : Bool) : TaskProc Unit := do
  let _ ← Proc.update (setProject pProjectId fun r => { r with isActive := pIsActive })
  return ()

/-- The columns that `sp_update_user_profile` writes. -/
structure ProfileFields where
  lastName : Option String
  firstName : Option String
  lastNameKana : Option String
  firstNameKana : Option String
  birthDate : Option Date
deriving DecidableEq, Repr

/-- The row that `sp_update_user_profile` writes. -/
def ProfileFields.apply (f : ProfileFields) (r : User) : User :=
  { r with
    lastName := f.lastName
    firstName := f.firstName
    lastNameKana := f.lastNameKana
    firstNameKana := f.firstNameKana
    birthDate := f.birthDate }

def spUpdateUserProfile (pUserId : Uuid) (f : ProfileFields) : TaskProc Unit := do
  let _ ← Proc.update (setUser pUserId f.apply)
  return ()

/-! ### `update_project` -/

/-- `ProjectUpdateRequest`: an omitted field is `none`; `name` and `is_active` may not be `null`. -/
structure ProjectUpdateRequest where
  name : Option String := none
  description : Option (Option String) := none
  startAt : Option (Option Timestamp) := none
  endAt : Option (Option Timestamp) := none
  isActive : Option Bool := none
deriving DecidableEq, Repr

/-- The arguments of `sp_update_project`: an omitted field is filled with the value that was read. -/
def ProjectUpdateRequest.fields (payload : ProjectUpdateRequest) (project : Project) :
    ProjectFields where
  name := payload.name.getD project.name
  description := payload.description.getD project.description
  startAt := payload.startAt.getD project.startAt
  endAt := payload.endAt.getD project.endAt

/-- `require_project_owner`, on top of `require_project_member`, which loads the project. -/
def requireProjectOwner (projectId : Uuid) (user : CurrentUser) : TaskProc Project := do
  match ← fnGetProject projectId with
  | none => .throw .notFound
  | some project => do
    let member ← fnIsProjectMember projectId user.id
    Proc.raiseIf (member = false) .notFound
    Proc.raiseIf (user.role ≠ .admin ∧ project.ownerId ≠ user.id) .forbidden
    return project

/-- `if payload.is_active is not None: await project_repository.set_active(...)`. -/
def setProjectActive (projectId : Uuid) (isActive : Option Bool) : TaskProc Unit :=
  match isActive with
  | none => return ()
  | some b => spDeactivateProject projectId b

/-- `update_project`, which is called with the project that `require_project_owner` loaded. -/
def updateProject (projectId : Uuid) (project : Project) (payload : ProjectUpdateRequest) :
    TaskProc Unit := do
  let f := payload.fields project
  Proc.raiseIf (EndBeforeStart f.startAt f.endAt)
    (.validation none "終了日時は開始日時以降である必要があります")
  spUpdateProject projectId f
  setProjectActive projectId payload.isActive
  let updated ← fnGetProject projectId
  Proc.raiseIf (updated = none) .notFound

/-! ### `update_profile` -/

/-- `UserProfileUpdateRequest`: an omitted field is `none`, and `some none` is an explicit `null`. -/
structure UserProfileUpdateRequest where
  lastName : Option (Option String) := none
  firstName : Option (Option String) := none
  lastNameKana : Option (Option String) := none
  firstNameKana : Option (Option String) := none
  birthDate : Option (Option Date) := none
deriving DecidableEq, Repr

/-- The arguments of `sp_update_user_profile`: an omitted field is filled with the value that was
read. -/
def UserProfileUpdateRequest.fields (payload : UserProfileUpdateRequest) (user : User) :
    ProfileFields where
  lastName := payload.lastName.getD user.lastName
  firstName := payload.firstName.getD user.firstName
  lastNameKana := payload.lastNameKana.getD user.lastNameKana
  firstNameKana := payload.firstNameKana.getD user.firstNameKana
  birthDate := payload.birthDate.getD user.birthDate

/-- A field that is set may not be set to `null`. -/
def requireNotNull {α : Type} (field : String) (value : Option (Option α)) : TaskProc Unit :=
  Proc.raiseIf (value.any Option.isNone = true) (.validation (some field) "null is not allowed")

/-- `update_profile`; the providers of its response are not read here. -/
def updateProfile (userId : Uuid) (payload : UserProfileUpdateRequest) : TaskProc Unit := do
  match ← fnGetUser userId with
  | none => .throw .notFound
  | some user => do
    requireNotNull "last_name" payload.lastName
    requireNotNull "first_name" payload.firstName
    requireNotNull "last_name_kana" payload.lastNameKana
    requireNotNull "first_name_kana" payload.firstNameKana
    requireNotNull "birth_date" payload.birthDate
    spUpdateUserProfile userId (payload.fields user)

/-! ### Calls -/

/-- A `PATCH` by an authenticated user. -/
inductive Call : Type where
  /-- `PATCH /api/projects/{project_id}` -/
  | updateProject (userId projectId : Uuid) (payload : ProjectUpdateRequest)
  /-- `PATCH /api/users/me` -/
  | updateProfile (userId : Uuid) (payload : UserProfileUpdateRequest)
deriving DecidableEq

namespace Call

/-- The transaction of a call. -/
def proc : Call → TaskProc Unit
  | .updateProject userId projectId payload => do
    let user ← getCurrentUser userId
    let project ← requireProjectOwner projectId user
    TaskDb.updateProject projectId project payload
  | .updateProfile userId payload => do
    let user ← getCurrentUser userId
    TaskDb.updateProfile user.id payload

/-- The row that a call updates. -/
def target : Call → RowId
  | .updateProject _ projectId _ => .project projectId
  | .updateProfile userId _ => .user userId

/-- What the payload of a call asks for: the fields that it names change to its values. -/
def patch : (c : Call) → Row c.target → Row c.target
  | .updateProject _ _ payload, r =>
    { (payload.fields r).apply r with isActive := payload.isActive.getD r.isActive }
  | .updateProfile _ payload, r => (payload.fields r).apply r

end Call

end TaskDb
