import TaskManagement.Core.ClientIp
import TaskManagement.Json.Loads
import Mathlib.Data.List.Infix

/-!
# The history of requests

The middleware that records every request to `/api`, around the application below it.  Outside of
this module are the lower case of Unicode (`lower`), the stack of the interpreter (`Stack`), the
application below (`CallNext`), and what happens to the record in the database (`Saving`).
-/

namespace History

open Json (Str Value str loads)

/-! ### Masking -/

def sensitiveKeys : List Str :=
  ["password", "password_confirmation", "current_password", "new_password", "password_confirm",
    "token", "access_token", "refresh_token", "client_secret", "code", "state",
    "csrf_token"].map str

/-- `_REDACTED` -/
def redacted : Value := .str (str "[REDACTED]")

/-- The frames and the nested containers that the stack has room for. -/
structure Stack where
  frames : ℕ
  containers : ℕ

section

variable (lower : Str → Str)

def isSensitive (key : Str) : Bool := sensitiveKeys.contains (lower key)

mutual

/-- `_mask` -/
def mask : Value → Value
  | .obj members => .obj (maskMembers members)
  | .arr items => .arr (maskItems items)
  | v => v

def maskItems : List Value → List Value
  | [] => []
  | v :: items => mask v :: maskItems items

def maskMembers : List (Str × Value) → List (Str × Value)
  | [] => []
  | (key, v) :: members =>
    (key, if isSensitive lower key then redacted else mask v) :: maskMembers members

end

/-- `_mask` on a stack with room for a number of frames. -/
def maskIn : ℕ → Value → Except Json.Error Value
  | 0, _ => .error .recursionError
  | frames + 1, .obj members => do
    let members ← members.mapM fun m =>
      if isSensitive lower m.1 then pure (m.1, redacted)
      else do
        let v ← maskIn frames m.2
        return (m.1, v)
    return .obj members
  | frames + 1, .arr items => do
    let items ← items.mapM (maskIn frames)
    return .arr items
  | _ + 1, v => .ok v

example : mask id (.obj [(str "user", .arr [.obj [(str "token", .null), (str "id", .int 1)]])]) =
    .obj [(str "user", .arr [.obj [(str "token", redacted), (str "id", .int 1)]])] := by rfl

end

/-! ### Requests and responses -/

structure BackendSettings where
  apiHistoryBodyMaxBytes : ℤ
  apiHistoryErrorDetailMaxLength : ℤ
  trustedProxyCidrs : List (List Char)

structure Request extends ClientIp.Request where
  method : List Char
  /-- `request.url.path` -/
  urlPath : List Char
  body : List UInt8

inductive Chunk : Type where
  | bytes (b : List UInt8)
  | text (s : List Char)

variable {E : Type}

/-- What a response sends: `body`, or `body_iterator`, which may raise behind its last chunk, or
octets that the response has in neither. -/
inductive Content (E : Type) : Type where
  | body (b : List UInt8)
  | iterator (chunks : List Chunk) (failure : Option E)
  | other (b : List UInt8)

structure Response (E : Type) where
  statusCode : ℤ
  headers : List (List Char × List Char)
  content : Content E

/-- What the application below does with a request, and what it leaves in its scope and state. -/
structure CallNext (E : Type) where
  result : Except E (Response E)
  /-- `scope["route"].path` -/
  routePath : Option (List Char)
  /-- `state.current_user.id` -/
  currentUser : Option ℕ

/-- `headers.setdefault` -/
def setDefault (headers : List (List Char × List Char)) (name value : List Char) :
    List (List Char × List Char) :=
  if (headers.lookup name).isSome then headers else headers ++ [(name, value)]

/-! ### The record -/

inductive Status : Type where
  | success
  | error
deriving DecidableEq, Repr

structure ApiHistoryCreateInput where
  requestId : List Char
  method : List Char
  path : List Char
  status : Status
  statusCode : ℤ
  errorCode : Option Str
  errorDetail : Option Str
  body : Option Value
  userId : Option ℕ
  ipAddress : List Char
  userAgent : Option (List Char)
  durationMs : ℤ

/-- `s[:n]` -/
def sliceTo (n : ℤ) (s : Str) : Str :=
  if 0 ≤ n then s.take n.toNat else s.take (s.length + n).toNat

/-- `"application/json" in content_type.lower()` -/
def isJson (lower : Str → Str) (request : Request) : Bool :=
  let contentType := (request.header "content-type".toList).getD []
  decide (str "application/json" <:+: lower (contentType.map Char.toNat))

/-- `_safe_body` -/
def safeBody (lower : Str → Str) (stack : Stack) (settings : BackendSettings) (request : Request) :
    Except Json.Error (Option Value) :=
  if request.body = [] ∨ isJson lower request = false then .ok none
  else if settings.apiHistoryBodyMaxBytes < request.body.length then .ok none
  else
    match loads stack.containers request.body with
    | .error .unicodeDecodeError => .ok none
    | .error .jsonDecodeError => .ok none
    | .error e => .error e
    | .ok (.obj members) => (maskIn lower stack.frames (.obj members)).map some
    | .ok _ => .ok none

/-- `value if isinstance(value, str) else None`, of the value at a key. -/
def textAt (members : List (Str × Value)) (key : Str) : Option Str :=
  match members.lookup key with
  | some (.str s) => some s
  | _ => none

/-- `_error_fields` -/
def errorFields (stack : Stack) (statusCode : ℤ) :
    Option (List UInt8) → Except Json.Error (Option Str × Option Str)
  | none => .ok (none, none)
  | some body =>
    if statusCode < 400 then .ok (none, none)
    else
      match loads stack.containers body with
      | .error .unicodeDecodeError => .ok (none, none)
      | .error .jsonDecodeError => .ok (none, none)
      | .error e => .error e
      | .ok (.obj decoded) =>
        match decoded.lookup (str "error") with
        | some (.obj error) => .ok (textAt error (str "code"), textAt error (str "message"))
        | _ => .ok (none, none)
      | .ok _ => .ok (none, none)

/-- `chunk.encode() if isinstance(chunk, str) else chunk` -/
def Chunk.encode : Chunk → List UInt8
  | .bytes b => b
  | .text s => s.flatMap String.utf8EncodeChar

/-- `_read_response_body`: the octets, and the response with its chunks to be replayed. -/
def readResponseBody (response : Response E) : Except E (Option (List UInt8) × Response E) :=
  match response.content with
  | .body b => .ok (some b, response)
  | .other _ => .ok (none, response)
  | .iterator _ (some e) => .error e
  | .iterator chunks none =>
    let chunks := chunks.map Chunk.encode
    .ok (some chunks.flatten,
      { response with content := .iterator (chunks.map .bytes) none })

/-! ### The middleware -/

/-- What the middleware meets besides the request and the application. -/
structure Context where
  lower : Str → Str
  stack : Stack
  settings : BackendSettings
  requestId : List Char
  /-- `int((time.perf_counter() - started) * 1000)` -/
  elapsedMs : ℤ

/-- The `ApiHistoryCreateInput` of the `finally` block. -/
def createInput (context : Context) (request : Request) (routePath : Option (List Char))
    (currentUser : Option ℕ) (response : Option (Response E)) (responseBody : Option (List UInt8)) :
    Except Json.Error ApiHistoryCreateInput := do
  let statusCode := (response.map Response.statusCode).getD 500
  let (errorCode, errorDetail) ← match response with
    | some response => errorFields context.stack response.statusCode responseBody
    | none => pure (some (str "INTERNAL_ERROR"), none)
  let errorCode := if 400 ≤ statusCode ∧ errorCode = none ∧ errorDetail = none then
      some (str "HTTP_ERROR")
    else errorCode
  let errorDetail :=
    sliceTo context.settings.apiHistoryErrorDetailMaxLength (errorDetail.getD [])
  let body ← safeBody context.lower context.stack context.settings request
  return {
    requestId := context.requestId
    method := request.method
    path := routePath.getD request.urlPath
    status := if 400 ≤ statusCode then .error else .success
    statusCode
    errorCode
    errorDetail := if errorDetail = [] then none else some errorDetail
    body
    userId := currentUser
    ipAddress := (ClientIp.resolveClientIp request.toRequest
      context.settings.trustedProxyCidrs).clientIp
    userAgent := request.header "user-agent".toList
    durationMs := max 0 context.elapsedMs }

/-- What happens to the record: `_save_history` catches an `Exception`, but not that its task is
cancelled. -/
inductive Saving : Type where
  | stored
  | failed
  | cancelled
deriving DecidableEq, Repr

/-- What the middleware raises: the exception of the application below, or one of its own. -/
inductive Failure (E : Type) : Type where
  | below (e : E)
  | record (e : Json.Error)
  | cancelled

/-- The `finally` block; an exception in it takes the place of what it follows. -/
def recordHistory (context : Context) (saving : Saving) (request : Request)
    (callNext : CallNext E) (response : Option (Response E)) (responseBody : Option (List UInt8)) :
    Except (Failure E) Unit × Option ApiHistoryCreateInput :=
  match createInput context request callNext.routePath callNext.currentUser response
      responseBody with
  | .error e => (.error (.record e), none)
  | .ok data =>
    match saving with
    | .stored => (.ok (), some data)
    | .failed => (.ok (), none)
    | .cancelled => (.error .cancelled, none)

/-- `request.url.path.startswith("/api")` -/
def isApi (request : Request) : Bool := "/api".toList.isPrefixOf request.urlPath

/-- `history_middleware`: its result, and the record that is stored. -/
def historyMiddleware (context : Context) (saving : Saving) (request : Request)
    (callNext : CallNext E) :
    Except (Failure E) (Response E) × Option ApiHistoryCreateInput :=
  if isApi request = false then (callNext.result.mapError .below, none)
  else
    match callNext.result with
    | .error e =>
      let (done, stored) := recordHistory context saving request callNext none none
      (do done; throw (.below e), stored)
    | .ok response =>
      match readResponseBody response with
      | .error e =>
        let (done, stored) := recordHistory context saving request callNext (some response) none
        (do done; throw (.below e), stored)
      | .ok (responseBody, response) =>
        let (done, stored) :=
          recordHistory context saving request callNext (some response) responseBody
        let headers := setDefault response.headers "x-request-id".toList context.requestId
        (do done; return { response with headers }, stored)

end History
