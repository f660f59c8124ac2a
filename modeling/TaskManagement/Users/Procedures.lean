import TaskManagement.Users.Schema

/-!
# The procedures of the user administration

`sp_admin_update_user_role` and `sp_admin_update_user_status` as transaction programs.
-/

namespace UserDb

open ReadCommitted

/-- The program of a transaction. -/
abbrev UserProc (α : Type) : Type := Proc Row LockKey Uuid Error α

/-- The session of a transaction. -/
abbrev UserSession : Type := Session Row LockKey

/-- `role = 'admin' AND is_active = true`. -/
def User.isActiveAdmin (r : User) : Bool := decide (r.role = .admin) && r.isActive

/-- The identifiers of the rows of `users`. -/
def userIds (db : Db) : List Uuid :=
  db.ids.filterMap fun
    | .user u => (db.row (.user u)).map fun _ => u
    | _ => none

/-- `SELECT count(*) FROM users WHERE role = 'admin' AND is_active = true AND id <> p_target_id`. -/
def countOtherActiveAdmins (db : Db) (pTargetId : Uuid) : ℕ :=
  (userIds db).countP fun u =>
    (db.row (.user u)).any User.isActiveAdmin && decide (u ≠ pTargetId)

/-- An `UPDATE users SET ... WHERE id = u`. -/
def setUser (u : Uuid) (set : User → User) : RowUpdate Row
  | .user u', r => if u' = u then some (some (set r)) else none
  | _, _ => none

/-- What both procedures do first: no self modification, the advisory lock, the row lock. -/
def lockTarget (pActorId pTargetId : Uuid) : UserProc User := do
  Proc.raiseIf (pActorId = pTargetId) .selfModification
  Proc.advisoryLock .adminProtection
  let row : Option User ← Proc.selectForUpdate (RowId.user pTargetId)
  match row with
  | none => .throw .targetNotFound
  | some old => return old

/-- The protection of the last active admin: `stays` tells that the target stays an active admin if
it is one. -/
def requireOtherActiveAdmin (pTargetId : Uuid) (old : User) (stays : Prop) [Decidable stays] :
    UserProc Unit :=
  if old.role = .admin ∧ old.isActive = true ∧ ¬stays then do
    let vOtherActiveAdmins ← Proc.select fun db => countOtherActiveAdmins db pTargetId
    Proc.raiseIf (vOtherActiveAdmins = 0) .lastActiveAdmin
  else return ()

/-- The result is `p_old_role`. -/
def spAdminUpdateUserRole (pActorId pTargetId : Uuid) (pNewRole : String) : UserProc Role := do
  let old ← lockTarget pActorId pTargetId
  requireOtherActiveAdmin pTargetId old (pNewRole = "admin")
  match Role.ofText pNewRole with
  | none => .throw .invalidRole
  | some role => do
    let _ ← Proc.update (setUser pTargetId fun r => { r with role := role })
    return old.role

/-- The result is `p_old_is_active`. -/
def spAdminUpdateUserStatus (pActorId pTargetId : Uuid) (pIsActive : Bool) : UserProc Bool := do
  let old ← lockTarget pActorId pTargetId
  requireOtherActiveAdmin pTargetId old (pIsActive = true)
  let _ ← Proc.update (setUser pTargetId fun r => { r with isActive := pIsActive })
  return old.isActive

end UserDb
