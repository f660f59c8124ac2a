import TaskManagement.Like
import TaskManagement.Frontend.Equiv.OAuthCallback
import TaskManagement.Frontend.Equiv.Board
import TaskManagement.Service.Equiv.Candidates
import TaskManagement.Frontend.Equiv.BoardCache
import TaskManagement.Service.Equiv.Summaries
import TaskManagement.ReadCommitted.Alone
import TaskManagement.Service.Equiv.Periods
import TaskManagement.Service.Equiv.MemberCalls
import TaskManagement.Frontend.Equiv.DateTime
import TaskManagement.Db.Equiv.Deadlock
import TaskManagement.Db.Equiv.Membership
import TaskManagement.Service.Equiv.PatchFrame
import TaskManagement.Service.Equiv.Patches
import TaskManagement.Service.Equiv.Assignees
import TaskManagement.Service.Equiv.Authorization
import TaskManagement.Service.Equiv.Responses
import TaskManagement.Service.Equiv.TaskWrites
import TaskManagement.Service.Equiv.Calendar
import TaskManagement.Service.Equiv.Gates
import TaskManagement.Service.Equiv.Logins
import TaskManagement.Service.Equiv.MailTokens
import TaskManagement.RedisStore.Equiv.Session
import TaskManagement.RedisStore.Equiv.SessionLifetime
import TaskManagement.RedisStore.Equiv.PasswordReset
import TaskManagement.RedisStore.Equiv.EmailVerify
import TaskManagement.RedisStore.Equiv.RevokeAll
import TaskManagement.RedisStore.Equiv.LoginFailure
import TaskManagement.RedisStore.Equiv.Counters
import TaskManagement.Users.Equiv.LastAdmin
import TaskManagement.Users.Equiv.Accounts
import TaskManagement.Users.Equiv.CredentialChange
import TaskManagement.Users.Equiv.Directory
import TaskManagement.Users.Equiv.OAuth
import TaskManagement.Users.Equiv.Registration
import TaskManagement.Frontend.Equiv.MoveTask
import TaskManagement.Frontend.Equiv.Tabs
import TaskManagement.Frontend.Equiv.TaskConsistency
import TaskManagement.Batch.Equiv.Accounting
import TaskManagement.Core.Equiv.ClientIp
import TaskManagement.Core.Equiv.History
import TaskManagement.Db.Equiv.Notifications
import TaskManagement.Service.Equiv.OAuthFlow
import TaskManagement.RedisStore.Equiv.Records
import TaskManagement.Frontend.Equiv.ApiErrors
import TaskManagement.Service.Equiv.Comments
import TaskManagement.Service.Equiv.Origins
import TaskManagement.Batch.Equiv.Lock
import TaskManagement.Frontend.Equiv.RegisterForm
