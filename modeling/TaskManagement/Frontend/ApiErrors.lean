import TaskManagement.Core.Errors

/-!
# Error responses in the frontend

The readers of an error response: `toApiError` of the axios client, and of the clients on `fetch`
`requestJson`, `request` of `authApi.ts` and `readErrorCode`.

The parts of a response are JSON values, and `none` is `undefined`.  `JSON.parse` is Python's reader
of a `str` here, on a stack with room for `depth` containers: they agree on the texts of JSON but
for numbers beyond the precision of a `Number`.
-/

namespace ApiErrors

open Json (Str Value str dumpInt loadsStr decodeUtf8 number isDigit)

/-- A response as `fetch` and axios have it. -/
structure Response where
  status : ℤ
  /-- `headers.get("retry-after")` -/
  retryAfter : Option Str
  /-- `headers.get("x-request-id")` -/
  requestId : Option Str
  body : List UInt8

section Values

/-- `response.json()`; `none` is a rejection. -/
def json (depth : ℕ) (body : List UInt8) : Option Value := do
  let text ← decodeUtf8 (body.map UInt8.toNat)
  (loadsStr depth text).toOption

/-- `value?.name` -/
def member (value : Option Value) (name : String) : Option Value :=
  match value with
  | some (.obj members) => members.lookup (str name)
  | _ => none

/-- `a ?? b` -/
def coalesce (a b : Option Value) : Option Value :=
  match a with
  | none | some .null => b
  | some v => some v

/-- `typeof value === "string"` -/
def isString : Option Value → Bool
  | some (.str _) => true
  | _ => false

/-- `value === null || value === undefined` -/
def isNullish : Option Value → Bool
  | none | some .null => true
  | _ => false

/-- `isRecord` -/
def isRecord : Option Value → Bool
  | some (.obj _) => true
  | _ => false

end Values

/-! ### `errors.ts` -/

/-- `ApiError`; `status` is `null` without a response. -/
structure ApiError where
  code : Option Value
  message : Option Value
  status : Option ℤ
  details : Option Value
  requestId : Option Value

/-- The constructor of `ApiError`: `params.details ?? null` and `params.requestId ?? null`. -/
def apiError (code message : Option Value) (status : Option ℤ) (details requestId : Option Value) :
    ApiError :=
  ⟨code, message, status, coalesce details (some .null), coalesce requestId (some .null)⟩

/-- `isDetails` -/
def isDetails (value : Option Value) : Bool :=
  if isNullish value then true
  else
    match value with
    | some (.arr items) => items.all fun item =>
        isRecord (some item) && isString (member (some item) "field") &&
          isString (member (some item) "message")
    | value => isRecord value

/-- `isApiErrorResponseBody` -/
def isApiErrorResponseBody (data : Option Value) : Bool :=
  if !isRecord data || !isRecord (member data "error") then false
  else
    let error := member data "error"
    isString (member error "code") && isString (member error "message") &&
      (isNullish (member error "request_id") || isString (member error "request_id")) &&
      isDetails (member error "details")

/-- `getHeaderRequestId` -/
def getHeaderRequestId (response : Response) : Option Value :=
  some ((response.requestId.map Value.str).getD .null)

/-- `toApiError`, of an `AxiosError` with a response; `errorMessage` is axios's message, and the
text of a body that is no JSON is no record. -/
def toApiError (depth : ℕ) (errorMessage : Str) (response : Response) : ApiError :=
  let data := json depth response.body
  if isApiErrorResponseBody data then
    let body := member data "error"
    apiError (member body "code") (member body "message") (some response.status)
      (member body "details") (coalesce (member body "request_id") (getHeaderRequestId response))
  else
    apiError (some (.str (str "UNKNOWN_ERROR"))) (some (.str errorMessage)) (some response.status)
      none (getHeaderRequestId response)

/-! ### `http.ts` -/

/-- What `requestJson` throws for a response that is not `ok`; `none` is a `TypeError`, for the body
`null`. -/
def requestJson (depth : ℕ) (response : Response) : Option ApiError :=
  let body := (json depth response.body).getD (.obj [])
  match body with
  | .null => none
  | body =>
    let error := member (some body) "error"
    let failed := str "API request failed: " ++ dumpInt response.status
    some (apiError
      (coalesce (member error "code") (coalesce (member (some body) "code")
        (some (.str (str "UNKNOWN_ERROR")))))
      (coalesce (member error "message") (coalesce (member (some body) "message")
        (some (.str failed))))
      (some response.status)
      (coalesce (member error "details") (member (some body) "details"))
      (coalesce (member error "request_id") (coalesce (member (some body) "request_id")
        (getHeaderRequestId response))))

/-! ### `authApi.ts` and `oauthCallbackApi.ts` -/

structure AuthApiError where
  status : ℤ
  code : Option Value
  message : Option Value
  details : Option Value
  retryAfterSeconds : Option ℤ

/-- `Number` of the digits of an integer. -/
def parseInteger : Str → Option ℤ
  | [] => none
  | 45 :: s => if s ≠ [] ∧ s.all isDigit then some (-(number s : ℤ)) else none
  | s => if s.all isDigit then some (number s) else none

/-- `parseRetryAfterSeconds` -/
def parseRetryAfterSeconds (response : Response) : Option ℤ := response.retryAfter.bind parseInteger

/-- What `request` of `authApi.ts` throws for a response that is not `ok`; `none` is a `TypeError`,
for the body `null`. -/
def authRequest (depth : ℕ) (response : Response) : Option AuthApiError :=
  let body := (json depth response.body).getD (.obj [])
  match body with
  | .null => none
  | body =>
    let error := member (some body) "error"
    some ⟨response.status, member error "code", member error "message",
      coalesce (member error "details") (some .null), parseRetryAfterSeconds response⟩

/-- `readErrorCode` -/
def readErrorCode (depth : ℕ) (response : Response) : Option Value :=
  member (member (json depth response.body) "error") "code"

end ApiErrors
