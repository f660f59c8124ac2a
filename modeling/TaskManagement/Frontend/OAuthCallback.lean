import TaskManagement.FormUrlencoded

/-!
# The callback page of the login through OAuth

`runCallback` reads the fragment of its URL, exchanges the code in the mode `jwt` or checks the
target in the mode `session` (`isSafeRelativePath`), asks for the user and navigates.
-/

namespace OAuthCallback

/-! ### The fragment -/

/-- `new URLSearchParams(init)` -/
def urlSearchParams (init : List Char) : List (List Char × List Char) :=
  match init with
  | '?' :: query => FormUrlencoded.parse query
  | query => FormUrlencoded.parse query

/-- `params.get(name)` -/
def getParam (params : List (List Char × List Char)) (name : String) : Option String :=
  (params.find? fun p => p.1 == name.toList).map fun p => String.ofList p.2

structure HashParams where
  code : Option String
  redirectTo : Option String
deriving DecidableEq, Repr

def parseHash (hash : String) : HashParams :=
  let params := urlSearchParams (match hash.toList with
    | '#' :: rest => rest
    | rest => rest)
  { code := getParam params "code", redirectTo := getParam params "redirect_to" }

/-- `isSafeRelativePath` -/
def isSafeRelativePath : Option String → Bool
  | none => false
  | some path =>
    match path.toList with
    | [] => false
    | c :: rest =>
      if c ≠ '/' ∨ rest.head? = some '/' ∨ rest.head? = some '\\' then false
      else if ':' ∈ path.toList then false
      else true

/-! ### The page -/

/-- `ROUTES.DASHBOARD` -/
def dashboard : String := "/dashboard"

/-- `ROUTES.SETTINGS` -/
def settings : String := "/settings"

inductive Mode : Type where
  | session
  | jwt
deriving DecidableEq, Repr

inductive Role : Type where
  | member
  | admin
deriving DecidableEq, Repr

structure AuthUser where
  id : String
  role : Role
deriving DecidableEq, Repr

structure AuthMeResult where
  id : String
  role : Role
  profileCompleted : Bool
deriving DecidableEq, Repr

/-- What the page is told: the mode, the limit of `oauthExchangeSchema`, the answer to the exchange
of a code, an error with the code of an `OAuthCallbackApiError`, and to `fetchMe`. -/
structure Answers where
  mode : Mode
  authTokenMaxLength : ℕ
  exchange : String → Except (Option String) String
  me : Option AuthMeResult

/-- `ERROR_MESSAGES` -/
inductive Message : Type where
  | oauthHandoffInvalid
  | userInactive
  | sessionConfirmFailed
  | invalidAccess
  | generic
deriving DecidableEq, Repr

inductive Outcome : Type where
  | failed (message : Message)
  /-- `setAuthenticated(user)` and `navigate(target, { replace: true })`. -/
  | navigated (user : AuthUser) (target : String)
deriving DecidableEq, Repr

/-- The message for an error of the exchange. -/
def exchangeMessage (code : Option String) : Message :=
  if code = some "USER_INACTIVE" then .userInactive
  else if code = some "OAUTH_HANDOFF_INVALID" then .oauthHandoffInvalid
  else .generic

/-- The target before the user is known. -/
def chooseTarget (answers : Answers) (params : HashParams) : Except Message (Option String) :=
  match answers.mode with
  | .jwt =>
    match params.code with
    | none => .error .invalidAccess
    | some code =>
      if code = "" ∨ answers.authTokenMaxLength < code.length then .error .invalidAccess
      else
        match answers.exchange code with
        | .error e => .error (exchangeMessage e)
        | .ok redirectTo => .ok (some redirectTo)
  | .session =>
    if isSafeRelativePath params.redirectTo then .ok params.redirectTo else .ok (some dashboard)

def runCallback (answers : Answers) (hash : String) : Outcome :=
  match chooseTarget answers (parseHash hash) with
  | .error message => .failed message
  | .ok redirectTo =>
    match answers.me with
    | none => .failed .sessionConfirmFailed
    | some me =>
      .navigated { id := me.id, role := me.role }
        (if me.profileCompleted = false then settings ++ "?complete_profile=1"
        else redirectTo.getD dashboard)

end OAuthCallback
