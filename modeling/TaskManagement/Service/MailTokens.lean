import TaskManagement.RedisStore.EmailVerify
import TaskManagement.RedisStore.PasswordReset
import TaskManagement.Service.Exceptions
import TaskManagement.Users.Accounts

/-!
# The services that consume a mail token

`verify_email` and `reset_password` of `email_verification_service.py`, between a token store that
other requests use as well and the database.  The token is known to the store by its hash `h`.
-/

namespace MailTokens

open Requests Service
open UserDb (Uuid User Timestamp)

/-- The calls of the two services. -/
inductive MailCall : Type where
  | consume
  | deleteAllSessions
  | revokeAllRefreshTokens
  /-- `mark_email_verified` or `update_password` -/
  | write
  | commit
  | rollback
  | restore
deriving DecidableEq, Repr

section Handlers

variable {S C R D : Type} (env : Environment S C R MailCall Exn)

/-- The token is restored by the call `c` of the store; an exception is passed over. -/
def restoreToken (c : C) : Request (World S C R D MailCall) Exn Unit := do
  try
    let _ ← env.ask .restore c
    pure ()
  catch _ => pure ()

/-- The end of both services: the procedure and the commit, with the handler of `DBAPIError`. -/
def writeOrRestore (procedure : D → D) (c : C) : Request (World S C R D MailCall) Exn Unit := do
  try
    callProcedure env .write procedure
    env.commit .commit
  catch exc =>
    if exc.isDBAPIError then
      env.rollback .rollback
      restoreToken env c
      raiseDatabaseError exc
    else throw exc

/-- `delete_all_sessions` and `revoke_all_refresh_tokens`.  What they delete is not read here. -/
def revokeCredentials : Request (World S C R D MailCall) Exn Unit := do
  env.call .deleteAllSessions fun w => ((), w)
  env.call .revokeAllRefreshTokens fun w => ((), w)

end Handlers

section Services

variable {T H ι : Type} [AddCommMonoid T] [LinearOrder T] [DecidableEq H]

/-- The stores of a call of `verify_email`. -/
abbrev VerifyWorld (T H ι : Type) [LE T] [DecidableLE T] : Type :=
  World (EmailVerify.State T H Uuid ι) (EmailVerify.Call T H Uuid ι) (EmailVerify.Reply Uuid)
    (List User) MailCall

/-- What happens around a call of `verify_email`. -/
abbrev VerifyEnv (T H ι : Type) [LE T] [DecidableLE T] : Type :=
  Environment (EmailVerify.State T H Uuid ι) (EmailVerify.Call T H Uuid ι)
    (EmailVerify.Reply Uuid) MailCall Exn

/-- `verify_email`, as the call `i` of the token store; `now` is `now()` of its transaction. -/
def verifyEmail (env : VerifyEnv T H ι) (i : ι) (h : H) (now : Timestamp) :
    Request (VerifyWorld T H ι) Exn Unit := do
  match ← env.ask .consume (.consume i h) with
  | some (.consumed (some userId)) =>
    writeOrRestore env (fun users => Accounts.spVerifyUserEmail now users userId) (.restore i)
  | _ => throw (.app .invalidVerifyToken)

/-- The stores of a call of `reset_password`. -/
abbrev ResetWorld (T H ι : Type) [LE T] [DecidableLE T] : Type :=
  World (PasswordReset.State T H Uuid ι) (PasswordReset.Call T H Uuid ι)
    (PasswordReset.Reply Uuid) (List User) MailCall

/-- What happens around a call of `reset_password`. -/
abbrev ResetEnv (T H ι : Type) [LE T] [DecidableLE T] : Type :=
  Environment (PasswordReset.State T H Uuid ι) (PasswordReset.Call T H Uuid ι)
    (PasswordReset.Reply Uuid) MailCall Exn

/-- `reset_password` -/
def resetPassword (env : ResetEnv T H ι) (hashPassword : String → String) (h : H)
    (newPassword : String) : Request (ResetWorld T H ι) Exn Unit := do
  match ← env.ask .consume (.consume h) with
  | some (.consumed (some userId)) =>
    let passwordHash := hashPassword newPassword
    try
      revokeCredentials env
    catch exc =>
      restoreToken env (.restore h userId)
      throw exc
    writeOrRestore env (fun users => Accounts.spUpdateUserPassword users userId passwordHash)
      (.restore h userId)
  | _ => throw (.app .invalidResetToken)

end Services

end MailTokens
