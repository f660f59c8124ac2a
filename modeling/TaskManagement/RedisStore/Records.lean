import TaskManagement.Gregorian
import TaskManagement.Json.Dumps
import TaskManagement.RedisStore.EmailVerify
import TaskManagement.RedisStore.PasswordReset
import TaskManagement.RedisStore.SessionLifetime
import TaskManagement.Service.OAuthFlow

/-!
# The texts in Redis

The values that the stores keep are JSON objects (`dump`, `parse_json`), and their keys are names
and parts that are joined by colons (`key`).  This module has the texts behind the values and keys
of the other models, for the functions that write and read them.

`UUID` and `datetime.fromisoformat` read more texts than `str(UUID)` and `datetime.isoformat` write;
here they read what is written, and nothing else is stored.
-/

namespace Records

open Json (Str Value str dumps loadsStr hexChar hexDigit)

/-! ### Numbers of a fixed width -/

/-- The last `k` digits of a number in the base `b`. -/
def fixed (b : ℕ) : ℕ → ℕ → Str
  | 0, _ => []
  | k + 1, n => fixed b k (n / b) ++ [hexChar (n % b)]

def readNumber (b : ℕ) (s : Str) : Option ℕ :=
  s.foldlM (fun n c => (hexDigit c).bind fun d => if d < b then some (b * n + d) else none) 0

/-! ### `UUID` -/

abbrev Uuid : Type := Fin (2 ^ 128)

/-- `str(UUID)` -/
def uuidText (u : Uuid) : Str :=
  let hex := fixed 16 32 u
  hex.take 8 ++ 45 :: ((hex.drop 8).take 4 ++ 45 :: ((hex.drop 12).take 4 ++
    45 :: ((hex.drop 16).take 4 ++ 45 :: hex.drop 20)))

/-- `str.replace(sub, '')`; the first argument counts the characters of a match that are left. -/
def removeAll (sub : Str) : ℕ → Str → Str
  | _, [] => []
  | k + 1, _ :: s => removeAll sub k s
  | 0, c :: s =>
    if sub.isPrefixOf (c :: s) then removeAll sub (sub.length - 1) s else c :: removeAll sub 0 s

/-- `str.strip('\x7b\x7d')` -/
def stripBraces (s : Str) : Str :=
  let brace := fun c => decide (c = 123 ∨ c = 125)
  ((s.dropWhile brace).reverse.dropWhile brace).reverse

/-- `UUID(hex)` -/
def parseUuid (s : Str) : Option Uuid :=
  let hex := removeAll (str "uuid:") 0 (removeAll (str "urn:") 0 s)
  let hex := (stripBraces hex).filter fun c => decide (c ≠ 45)
  if hex.length ≠ 32 then none
  else (readNumber 16 hex).bind fun n => if h : n < 2 ^ 128 then some ⟨n, h⟩ else none

/-! ### `datetime` -/

/-- A time in UTC. -/
@[ext]
structure DateTime where
  year : ℕ
  month : ℕ
  day : ℕ
  hour : ℕ
  minute : ℕ
  second : ℕ
  microsecond : ℕ
  valid : (1 ≤ year ∧ year ≤ 9999) ∧ (1 ≤ month ∧ month ≤ 12) ∧
    (1 ≤ day ∧ (day : ℤ) ≤ Gregorian.daysInMonth year month) ∧ hour < 24 ∧ minute < 60 ∧
    second < 60 ∧ microsecond < 1000000
deriving DecidableEq

/-- `datetime.isoformat` -/
def isoformat (d : DateTime) : Str :=
  fixed 10 4 d.year ++ 45 :: (fixed 10 2 d.month ++ 45 :: (fixed 10 2 d.day ++
    84 :: (fixed 10 2 d.hour ++ 58 :: (fixed 10 2 d.minute ++ 58 :: (fixed 10 2 d.second ++
      ((if d.microsecond = 0 then [] else 46 :: fixed 10 6 d.microsecond) ++ str "+00:00"))))))

/-- A number of `k` digits. -/
def readField (k : ℕ) (s : Str) : Option (ℕ × Str) :=
  if s.length < k then none else (readNumber 10 (s.take k)).map fun n => (n, s.drop k)

def expect (c : ℕ) : Str → Option Str
  | d :: s => if d = c then some s else none
  | [] => none

/-- The fraction of a second. -/
def readFraction : Str → Option (ℕ × Str)
  | 46 :: s => readField 6 s
  | s => some (0, s)

/-- `parse_datetime`; a time without an offset is in UTC. -/
def parseDatetime (s : Str) : Option DateTime := do
  let (year, s) ← readField 4 s
  let s ← expect 45 s
  let (month, s) ← readField 2 s
  let s ← expect 45 s
  let (day, s) ← readField 2 s
  let s ← expect 84 s
  let (hour, s) ← readField 2 s
  let s ← expect 58 s
  let (minute, s) ← readField 2 s
  let s ← expect 58 s
  let (second, s) ← readField 2 s
  let (microsecond, s) ← readFraction s
  if s ≠ str "+00:00" ∧ s ≠ [] then none
  else if h : (1 ≤ year ∧ year ≤ 9999) ∧ (1 ≤ month ∧ month ≤ 12) ∧
      (1 ≤ day ∧ (day : ℤ) ≤ Gregorian.daysInMonth year month) ∧ hour < 24 ∧ minute < 60 ∧
      second < 60 ∧ microsecond < 1000000 then
    some ⟨year, month, day, hour, minute, second, microsecond, h⟩
  else none

/-! ### Values -/

inductive ReadError : Type where
  | json (e : Json.Error)
  | keyError
  | attributeError
  | typeError
  | valueError
deriving DecidableEq, Repr

/-- `dump`; `default=str` makes texts of a `UUID` and of a `datetime`. -/
def dump (members : List (String × Value)) : Str :=
  dumps ⟨true, false⟩ (.obj (members.map fun m => (str m.1, m.2)))

/-- `parse_json`, on a stack with room for `depth` containers; `null` is a `None` as well. -/
def parseJson (depth : ℕ) : Option Str → Except ReadError (Option Value)
  | none => .ok none
  | some s => ((loadsStr depth s).mapError .json).map fun v =>
      match v with
      | .null => none
      | v => some v

/-- `data[name]` -/
def getItem (data : Value) (name : String) : Except ReadError Value :=
  match data with
  | .obj members => (members.lookup (str name)).elim (.error .keyError) .ok
  | _ => .error .typeError

/-- `data.get(name)` -/
def get (data : Value) (name : String) : Except ReadError Value :=
  match data with
  | .obj members => .ok ((members.lookup (str name)).getD .null)
  | _ => .error .attributeError

/-- `bool(value)`; a number that is too small for a `float` does not count as zero. -/
def truthy : Value → Bool
  | .null => false
  | .bool b => b
  | .int n => n ≠ 0
  | .float literal => (literal.takeWhile fun c => c ≠ 69 ∧ c ≠ 101).any fun c => 49 ≤ c
  | .str s => !s.isEmpty
  | .arr items => !items.isEmpty
  | .obj members => !members.isEmpty

/-- `str(value)` of a `str`. -/
def text : Value → Except ReadError Str
  | .str s => .ok s
  | _ => .error .typeError

/-- `str(data[name])` -/
def getText (data : Value) (name : String) : Except ReadError Str := do text (← getItem data name)

/-- `UUID(str(data[name]))` -/
def getUuid (data : Value) (name : String) : Except ReadError Uuid := do
  (parseUuid (← getText data name)).elim (.error .valueError) .ok

/-- `parse_datetime(data[name])` -/
def getDatetime (data : Value) (name : String) : Except ReadError DateTime := do
  (parseDatetime (← getText data name)).elim (.error .valueError) .ok

/-- A `str | None`. -/
def optional : Option String → Value
  | none => .null
  | some s => .str (str s)

structure SessionData where
  userId : Uuid
  createdAt : DateTime
  ip : Value

structure RefreshData where
  userId : Uuid
  issuedAt : DateTime
  familyId : Str

structure OAuthStateData where
  redirectTo : Str
  codeVerifier : Str
  nonce : Str
  createdAt : DateTime

structure OAuthHandoffData where
  userId : Uuid
  redirectTo : Str
  createdAt : DateTime

/-- The value that `create_session` writes. -/
def sessionText (userId : Uuid) (createdAt : DateTime) (ip : Option String) : Str :=
  dump [("user_id", .str (uuidText userId)), ("created_at", .str (isoformat createdAt)),
    ("ip", optional ip)]

/-- The value of the CSRF token. -/
def csrfText (token : String) : Str := dump [("token", .str (str token))]

/-- The value that `store_refresh_token` writes. -/
def refreshText (userId : Uuid) (issuedAt : DateTime) (familyId : String) : Str :=
  dump [("user_id", .str (uuidText userId)), ("issued_at", .str (isoformat issuedAt)),
    ("family_id", .str (str familyId))]

/-- The value that `save_oauth_state` writes. -/
def oauthStateText (redirectTo codeVerifier nonce : String) (createdAt : DateTime) : Str :=
  dump [("redirect_to", .str (str redirectTo)), ("code_verifier", .str (str codeVerifier)),
    ("nonce", .str (str nonce)), ("created_at", .str (isoformat createdAt))]

/-- The value that `save_oauth_handoff` writes. -/
def oauthHandoffText (userId : Uuid) (redirectTo : String) (createdAt : DateTime) : Str :=
  dump [("user_id", .str (uuidText userId)), ("redirect_to", .str (str redirectTo)),
    ("created_at", .str (isoformat createdAt))]

/-- The value that `replace_email_verify_token` writes. -/
def emailVerifyText (userId : Uuid) (requestedAt : DateTime) : Str :=
  dump [("user_id", .str (uuidText userId)), ("requested_at", .str (isoformat requestedAt))]

section Readers

variable (depth : ℕ)

/-- A reader of the value of a key that may be missing. -/
def readValue {α : Type} (read : Value → Except ReadError α) (value : Option Str) :
    Except ReadError (Option α) := do
  match ← parseJson depth value with
  | none => return none
  | some data => return some (← read data)

/-- A reader with `if data`. -/
def readTruthy {α : Type} (read : Value → Except ReadError α) (value : Option Str) :
    Except ReadError (Option α) := do
  match ← parseJson depth value with
  | none => return none
  | some data => if truthy data then return some (← read data) else return none

/-- `get_session` -/
def getSession : Option Str → Except ReadError (Option SessionData) :=
  readValue depth fun data => do
    return ⟨← getUuid data "user_id", ← getDatetime data "created_at", ← get data "ip"⟩

/-- `get_csrf_token` -/
def getCsrfToken : Option Str → Except ReadError (Option Value) :=
  readTruthy depth fun data => get data "token"

/-- `get_refresh_token` -/
def getRefreshToken : Option Str → Except ReadError (Option RefreshData) :=
  readValue depth fun data => do
    return ⟨← getUuid data "user_id", ← getDatetime data "issued_at", ← getText data "family_id"⟩

/-- `consume_oauth_state`, of what `GETDEL` has answered. -/
def consumeOauthState : Option Str → Except ReadError (Option OAuthStateData) :=
  readValue depth fun data => do
    return ⟨← getText data "redirect_to", ← getText data "code_verifier", ← getText data "nonce",
      ← getDatetime data "created_at"⟩

/-- `consume_oauth_handoff`, of what `GETDEL` has answered. -/
def consumeOauthHandoff : Option Str → Except ReadError (Option OAuthHandoffData) :=
  readValue depth fun data => do
    return ⟨← getUuid data "user_id", ← getText data "redirect_to",
      ← getDatetime data "created_at"⟩

/-- `consume_email_verify_token`, of what `GETDEL` has answered. -/
def consumeEmailVerifyToken : Option Str → Except ReadError (Option Uuid) :=
  readTruthy depth fun data => getUuid data "user_id"

end Readers

/-! ### Keys -/

/-- A SHA-256 digest. -/
abbrev Digest : Type := Fin (2 ^ 256)

/-- `hexdigest` -/
def digestText (d : Digest) : Str := fixed 16 64 d

/-- `":".join` -/
def joinColons : List Str → Str
  | [] => []
  | [s] => s
  | s :: t => s ++ 58 :: joinColons t

/-- `key` -/
def key (name : String) (pre : Str) (parts : List Str) : Str :=
  pre ++ joinColons (str name :: parts)

/-- The keys of all stores: those of the other models, and the ones that only count or mark. -/
inductive StoreKey : Type where
  | sessions (k : SessionLifetime.Key Uuid String)
  | refreshTokens (k : RefreshToken.Key Digest Uuid String)
  | userRefresh (u : Uuid)
  | passwordReset (k : PasswordReset.Key Digest Uuid)
  | emailVerify (k : EmailVerify.Key Digest Uuid)
  | emailVerifySent (u : Uuid)
  | oauth (k : OAuthFlow.Key)
  | loginFail (d : Digest)
  | rateLimit (scope : String) (d : Digest)

def StoreKey.name : StoreKey → String
  | .sessions (.session _) => "session"
  | .sessions (.csrf _) => "csrf"
  | .sessions (.userSessions _) => "user_sessions"
  | .refreshTokens (.refresh _) => "refresh"
  | .refreshTokens (.refreshUsed _) => "refresh_used"
  | .refreshTokens (.refreshFamilyRevoked _ _) => "refresh_family_revoked"
  | .userRefresh _ => "user_refresh"
  | .passwordReset (.pwreset _) => "pwreset"
  | .passwordReset (.pwresetCurrent _) => "pwreset_current"
  | .passwordReset (.pwresetConsumed _) => "pwreset_consumed"
  | .emailVerify (.emailverify _) => "emailverify"
  | .emailVerify (.emailverifyCurrent _) => "emailverify_current"
  | .emailVerifySent _ => "emailverify_sent"
  | .oauth (.state _) => "oauth_state"
  | .oauth (.handoff _) => "oauth_handoff"
  | .loginFail _ => "login_fail"
  | .rateLimit _ _ => "rate_limit"

def StoreKey.parts : StoreKey → List Str
  | .sessions (.session sid) | .sessions (.csrf sid) => [str sid]
  | .sessions (.userSessions u) | .userRefresh u | .passwordReset (.pwresetCurrent u)
  | .passwordReset (.pwresetConsumed u) | .emailVerify (.emailverifyCurrent u)
  | .emailVerifySent u => [uuidText u]
  | .refreshTokens (.refresh h) | .refreshTokens (.refreshUsed h) | .passwordReset (.pwreset h)
  | .emailVerify (.emailverify h) | .loginFail h => [digestText h]
  | .refreshTokens (.refreshFamilyRevoked u f) => [uuidText u, str f]
  | .oauth (.state s) | .oauth (.handoff s) => [str s]
  | .rateLimit scope d => [str scope, digestText d]

/-- The text of a key. -/
def StoreKey.text (pre : Str) (k : StoreKey) : Str := key k.name pre k.parts

/-! ### Keys of the scripts -/

/-- `prefix .. name .. part`, where the literal `name` ends with a colon. -/
def scriptKey (pre : Str) (name : String) (part : Str) : Str := pre ++ (str name ++ part)

/-- The key of a revoked family in `rotate_refresh_token.lua`. -/
def scriptFamilyKey (pre userId familyId : Str) : Str :=
  pre ++ (str "refresh_family_revoked:" ++ (userId ++ (str ":" ++ familyId)))

end Records
