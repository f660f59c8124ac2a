import TaskManagement.Json.Dumps

/-!
# Error responses

`AppError` and its subclasses, and the exception handlers of `core/exceptions.py`.  A handler
answers with one JSON body, `_build_error_body`, which `JSONResponse` writes with
`ensure_ascii=False` and encodes: where a text of the body has a surrogate, the handler itself
raises, and the handler of all other exceptions answers instead.
-/

namespace Errors

open Json (Str Value str dumps dumpInt encode isScalar)

/-! ### `AppError` -/

/-- `AppError` and its subclasses. -/
inductive ErrorClass : Type where
  | app
  | notFound
  | forbidden
  | csrfInvalid
  | conflict
  | taskConflict
  | assigneeInactive
  | duplicateUsername
  | duplicateEmail
  | alreadyMember
  | ownerCannotBeRemoved
  | selfModification
  | lastAdminRequired
  | unauthenticated
  | notSupportedInMode
  | sessionExpired
  | tokenInvalid
  | tokenExpired
  | tokenRevoked
  | invalidState
  | oauthFailed
  | oauthDisabled
  | oauthEmailUnverified
  | oauthHandoffInvalid
  | userInactive
  | emailNotVerified
  | invalidCredentials
  | tooManyAttempts
  | invalidVerifyToken
  | invalidResetToken
  | validation
  | serviceUnavailable
deriving DecidableEq, Repr

namespace ErrorClass

/-- `code` -/
def code : ErrorClass → String
  | app | conflict => "INTERNAL_ERROR"
  | notFound => "NOT_FOUND"
  | forbidden => "FORBIDDEN"
  | csrfInvalid => "CSRF_INVALID"
  | taskConflict => "TASK_CONFLICT"
  | assigneeInactive => "ASSIGNEE_INACTIVE"
  | duplicateUsername => "DUPLICATE_USERNAME"
  | duplicateEmail => "DUPLICATE_EMAIL"
  | alreadyMember => "ALREADY_MEMBER"
  | ownerCannotBeRemoved => "OWNER_CANNOT_BE_REMOVED"
  | selfModification => "SELF_MODIFICATION_NOT_ALLOWED"
  | lastAdminRequired => "LAST_ADMIN_REQUIRED"
  | unauthenticated => "UNAUTHENTICATED"
  | notSupportedInMode => "NOT_SUPPORTED_IN_MODE"
  | sessionExpired => "SESSION_EXPIRED"
  | tokenInvalid => "TOKEN_INVALID"
  | tokenExpired => "TOKEN_EXPIRED"
  | tokenRevoked => "TOKEN_REVOKED"
  | invalidState => "INVALID_STATE"
  | oauthFailed => "OAUTH_FAILED"
  | oauthDisabled => "OAUTH_DISABLED"
  | oauthEmailUnverified => "OAUTH_EMAIL_UNVERIFIED"
  | oauthHandoffInvalid => "OAUTH_HANDOFF_INVALID"
  | userInactive => "USER_INACTIVE"
  | emailNotVerified => "EMAIL_NOT_VERIFIED"
  | invalidCredentials => "INVALID_CREDENTIALS"
  | tooManyAttempts => "TOO_MANY_ATTEMPTS"
  | invalidVerifyToken => "INVALID_VERIFY_TOKEN"
  | invalidResetToken => "INVALID_RESET_TOKEN"
  | validation => "VALIDATION_ERROR"
  | serviceUnavailable => "SERVICE_UNAVAILABLE"

/-- `status_code` -/
def statusCode : ErrorClass → ℤ
  | app => 500
  | notFound | oauthDisabled => 404
  | forbidden | csrfInvalid | userInactive | emailNotVerified => 403
  | conflict | taskConflict | assigneeInactive | duplicateUsername | duplicateEmail | alreadyMember
  | ownerCannotBeRemoved | selfModification | lastAdminRequired => 409
  | unauthenticated | sessionExpired | tokenInvalid | tokenExpired | tokenRevoked
  | invalidCredentials => 401
  | notSupportedInMode => 405
  | invalidState | oauthFailed | oauthEmailUnverified | oauthHandoffInvalid | invalidVerifyToken
  | invalidResetToken => 400
  | tooManyAttempts => 429
  | validation => 422
  | serviceUnavailable => 503

/-- `message` -/
def message : ErrorClass → String
  | app => "サーバーエラーが発生しました"
  | notFound => "リソースが見つかりません"
  | forbidden => "このリソースへのアクセス権がありません"
  | csrfInvalid => "CSRFトークンが不正です"
  | conflict => "競合が発生しました"
  | taskConflict => "他のユーザーが先に更新しました。最新の内容を取得し直してください"
  | assigneeInactive => "無効なユーザーは担当者に指定できません"
  | duplicateUsername => "このユーザーIDは既に使用されています"
  | duplicateEmail => "このメールアドレスは既に使用されています"
  | alreadyMember => "既にプロジェクトのメンバーです"
  | ownerCannotBeRemoved => "オーナーはメンバーから削除できません"
  | selfModification => "自分自身に対してこの操作は実行できません"
  | lastAdminRequired => "最後の管理者に対してこの操作は実行できません"
  | unauthenticated => "認証が必要です"
  | notSupportedInMode => "現在の認証方式ではサポートされていません"
  | sessionExpired => "セッションの有効期限が切れました"
  | tokenInvalid => "トークンが正しくありません"
  | tokenExpired => "トークンの有効期限が切れています"
  | tokenRevoked => "セッションが無効になりました。再度ログインしてください"
  | invalidState => "OAuth stateが無効です"
  | oauthFailed => "OAuth認証に失敗しました"
  | oauthDisabled => "Googleログインは現在無効です"
  | oauthEmailUnverified => "Googleアカウントのメールアドレスが検証されていません"
  | oauthHandoffInvalid => "OAuthログインの有効期限が切れています"
  | userInactive => "このアカウントは無効化されています"
  | emailNotVerified => "メールアドレスの認証が完了していません"
  | invalidCredentials => "IDまたはパスワードが正しくありません"
  | tooManyAttempts => "試行回数が多いため、しばらく待ってから再度お試しください"
  | invalidVerifyToken => "認証リンクが無効か、有効期限が切れています"
  | invalidResetToken => "リセットリンクが無効か、有効期限が切れています"
  | validation => "入力内容に誤りがあります"
  | serviceUnavailable => "現在サービスをご利用いただけません"

end ErrorClass

/-- An item of `details`. -/
structure FieldError where
  field : Str
  message : Str

/-- An `AppError`; every `details` in the sources is a list of fields or `None`, and only
`TooManyAttemptsError` has a `retry_after`. -/
structure AppError where
  errorClass : ErrorClass
  message : Option String
  details : Option (List FieldError)
  retryAfter : Option ℤ

/-! ### The exceptions -/

/-- A part of the `loc` of an error of pydantic. -/
inductive LocPart : Type where
  | name (s : Str)
  | index (n : ℤ)

/-- `str(part)` -/
def LocPart.text : LocPart → Str
  | .name s => s
  | .index n => dumpInt n

structure PydanticError where
  loc : List LocPart
  msg : Str

/-- The exceptions that a handler is registered for, and the others. -/
inductive Exn : Type where
  | app (e : AppError)
  | redis
  /-- `OperationalError` with the SQLSTATE of its cause, if it has one. -/
  | operational (sqlstate : Option String)
  | interface
  /-- Any other `DBAPIError`. -/
  | dbapi
  | sqlalchemyTimeout
  | disconnection
  /-- `RequestValidationError` or the `ValidationError` of pydantic. -/
  | validation (errors : List PydanticError)
  | other

/-- `_is_connection_operational_error` -/
def isConnectionOperationalError (sqlstate : Option String) : Bool :=
  match sqlstate with
  | some s => "08".toList.isPrefixOf s.toList || s == "57P03"
  | none => false

/-- `is_service_unavailable_database_error` -/
def isServiceUnavailableDatabaseError : Exn → Bool
  | .interface | .sqlalchemyTimeout | .disconnection => true
  | .operational sqlstate => isConnectionOperationalError sqlstate
  | _ => false

/-- `isinstance(exc, DBAPIError)` -/
def isDBAPIError : Exn → Bool
  | .operational _ | .interface | .dbapi => true
  | _ => false

/-! ### The handlers -/

/-- `".".join` -/
def joinDots : List Str → Str
  | [] => []
  | [s] => s
  | s :: t => s ++ 46 :: joinDots t

def PydanticError.fieldError (e : PydanticError) : FieldError :=
  ⟨joinDots (e.loc.map LocPart.text), e.msg⟩

/-- The arguments of `_build_error_body` in a handler, the status and the `Retry-After`. -/
structure Answer where
  statusCode : ℤ
  code : Str
  message : Str
  details : Option (List FieldError)
  retryAfter : Option ℤ

/-- The answer of `unhandled_exception_handler`. -/
def internalError : Answer :=
  ⟨500, str "INTERNAL_ERROR", str "サーバーエラーが発生しました", none, none⟩

/-- `_infrastructure_error_response` -/
def infrastructureErrorResponse (exc : Exn) : Answer :=
  let unavailable : Answer :=
    ⟨503, str ErrorClass.serviceUnavailable.code, str ErrorClass.serviceUnavailable.message, none,
      none⟩
  if isServiceUnavailableDatabaseError exc then unavailable
  else if isDBAPIError exc then internalError
  else unavailable

/-- The answer of `app_error_handler`, `infra_error_handler`, `validation_error_handler` and
`pydantic_validation_error_handler`, and of `unhandled_exception_handler` for the others. -/
def Exn.answer : Exn → Answer
  | .app e =>
    ⟨e.errorClass.statusCode, str e.errorClass.code, str (e.message.getD e.errorClass.message),
      e.details, if e.errorClass = .tooManyAttempts then e.retryAfter else none⟩
  | .validation errors =>
    ⟨422, str "VALIDATION_ERROR", str "入力内容に誤りがあります",
      some (errors.map PydanticError.fieldError), none⟩
  | .other => internalError
  | exc => infrastructureErrorResponse exc

/-! ### The response -/

def FieldError.value (e : FieldError) : Value :=
  .obj [(str "field", .str e.field), (str "message", .str e.message)]

def detailsValue : Option (List FieldError) → Value
  | none => .null
  | some details => .arr (details.map FieldError.value)

/-- `_build_error_body` -/
def buildErrorBody (code message : Str) (details : Value) (requestId : Str) : Value :=
  .obj [(str "error", .obj [(str "code", .str code), (str "message", .str message),
    (str "details", details), (str "request_id", .str requestId)])]

/-- `retryAfter` is the header `Retry-After`, and `requestId` the header `X-Request-ID`. -/
structure Response where
  statusCode : ℤ
  retryAfter : Option Str
  requestId : Option Str
  body : List UInt8

/-- `JSONResponse`; `none` is a `UnicodeEncodeError`. -/
def Answer.response (a : Answer) (requestId : Str) (header : Option Str) : Option Response :=
  (encode (dumps ⟨false, false⟩
    (buildErrorBody a.code a.message (detailsValue a.details) requestId))).map fun body =>
      ⟨a.statusCode, a.retryAfter.map dumpInt, header, body⟩

/-- An exception is outside of the registered handlers. -/
def Exn.isOther : Exn → Bool
  | .other => true
  | _ => false

/-- The response to an exception.  `request_id_middleware` sees the responses of all handlers but
that of the last one, which is outside of it. -/
def respond (requestId : Str) (exc : Exn) : Option Response :=
  let unhandled := internalError.response requestId none
  if exc.isOther then unhandled
  else exc.answer.response requestId (some requestId) <|> unhandled

end Errors
