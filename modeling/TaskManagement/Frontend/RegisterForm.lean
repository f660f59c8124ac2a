import TaskManagement.Frontend.DateTime
import TaskManagement.Users.Directory
import Mathlib.Algebra.Ring.Nat

/-!
# The registration form

`registerSchema` and `createZodResolver` of `features/auth/validation.ts` with `toSubmitPayload` of
`RegisterForm.tsx`, and what `RegisterRequest` reads from the body that the form sends.

* A text is its characters; JavaScript counts the code units of UTF-16 (`utf16Length`).
* The parts of the birth date come from the pulldowns of `BirthDateSelect`: a number, or `none` for
  the empty option.
* `z.string().email()` of zod is a parameter, and a message that zod supplies itself is `none`.  zod
  runs every check of a text, and `superRefine` also when a check has failed.
* The clock of the browser is its local time zone and the time of `Date.now()`.
-/

namespace RegisterForm

open DateTime (TimeValue timeClip takeDigits takeChar)
open Gregorian
open UserDirectory (Matches usernamePattern kanaPattern passwordCategories RegisterRequest)

/-! ### Texts of JavaScript -/

/-- The number of code units of a character. -/
def codeUnits (c : Char) : ℕ := if c.toNat < 0x10000 then 1 else 2

/-- `length` -/
def utf16Length (s : String) : ℕ := (s.toList.map codeUnits).sum

/-- `countCodePoints` -/
def countCodePoints (s : String) : ℕ := s.toList.length

/-- `WhiteSpace` and `LineTerminator` of ECMAScript. -/
def isWhiteSpace (c : Char) : Bool :=
  c.toNat ∈ [0x9, 0xA, 0xB, 0xC, 0xD, 0x20, 0xA0, 0x1680, 0x2000, 0x2001, 0x2002, 0x2003, 0x2004,
    0x2005, 0x2006, 0x2007, 0x2008, 0x2009, 0x200A, 0x2028, 0x2029, 0x202F, 0x205F, 0x3000, 0xFEFF]

/-- `trim` -/
def trim (s : String) : String :=
  String.ofList ((s.toList.dropWhile isWhiteSpace).reverse.dropWhile isWhiteSpace).reverse

/-- `padStart(n, "0")` -/
def padStart (n : ℕ) (s : String) : String :=
  String.ofList (List.replicate (n - s.toList.length) '0' ++ s.toList)

/-! ### The form -/

/-- `AuthValidationConfig`, as far as the form reads it. -/
structure AuthValidationConfig where
  userNameMaxLength : ℕ
  passwordMinLength : ℕ
  passwordMaxLength : ℕ

structure RegisterFormValues where
  lastName : String
  firstName : String
  lastNameKana : String
  firstNameKana : String
  birthYear : Option ℕ
  birthMonth : Option ℕ
  birthDay : Option ℕ
  email : String
  username : String
  password : String
  passwordConfirm : String
deriving DecidableEq

/-- The local time zone, in milliseconds, and `Date.now()`. -/
structure Browser where
  zone : TimeZone.History
  now : ℤ

/-- `new Date(year, monthIndex, day)`; `none` is an invalid date. -/
def newDate (browser : Browser) (year monthIndex day : ℤ) : Option TimeValue :=
  timeClip (browser.zone.readLocal (makeTime
    { year := if 0 ≤ year ∧ year ≤ 99 then 1900 + year else year
      month := monthIndex + 1
      day := day
      hour := 0
      minute := 0 }))

/-- `getFullYear`, `getMonth() + 1` and `getDate`. -/
def localFields (browser : Browser) (date : TimeValue) : Fields :=
  fieldsOf (browser.zone.localTime date.time)

/-- `Number` of a part of the birth date. -/
def number (part : Option ℕ) : ℤ := part.getD 0

def isValidBirthDate (browser : Browser) (year month day : Option ℕ) : Bool :=
  let y := number year
  let m := number month
  let d := number day
  match newDate browser y (m - 1) d with
  | none => false
  | some date =>
    let fields := localFields browser date
    let isRealDate := fields.year = y ∧ fields.month - 1 = m - 1 ∧ fields.day = d
    isRealDate ∧ date.time ≤ browser.now

/-- An issue of zod, for the field at its path. -/
structure Issue where
  field : String
  message : Option String
deriving DecidableEq, Repr

/-- The issues of one check. -/
def check (ok : Prop) [Decidable ok] (field : String) (message : Option String) : List Issue :=
  if ok then [] else [⟨field, message⟩]

def nameField (config : AuthValidationConfig) (field value : String) : List Issue :=
  check (1 ≤ utf16Length value) field (some "入力してください") ++
    check (utf16Length value ≤ config.userNameMaxLength) field
      (some (toString config.userNameMaxLength ++ "文字以内で入力してください"))

def kanaField (config : AuthValidationConfig) (field value : String) : List Issue :=
  nameField config field value ++
    check (Matches kanaPattern value) field (some "ひらがな・カタカナ・数字で入力してください")

/-- `z.string().min(1, …)` of a pulldown -/
def selectField (field : String) (value : Option ℕ) : List Issue :=
  check (value ≠ none) field (some "正しい生年月日を選択してください")

def emailSchema (isEmail : String → Bool) (value : String) : List Issue :=
  check (utf16Length value ≤ 254) "email" none ++ check (isEmail value = true) "email" none

def usernameField (value : String) : List Issue :=
  let message := some "3〜50文字の英数字・ハイフン・アンダースコアで入力してください"
  check (3 ≤ utf16Length value) "username" message ++
    check (utf16Length value ≤ 50) "username" message ++
    check (Matches usernamePattern value) "username" message

/-- `countCharacterTypes`, which counts the categories that the backend counts. -/
def countCharacterTypes (value : String) : ℕ := passwordCategories value

/-- The check of the greatest length of a password. -/
def passwordMaxCheck (config : AuthValidationConfig) (field value : String) : List Issue :=
  check (countCodePoints value ≤ config.passwordMaxLength) field
    (some (toString config.passwordMaxLength ++ "文字以内で入力してください"))

def passwordField (config : AuthValidationConfig) (value : String) : List Issue :=
  check (config.passwordMinLength ≤ countCodePoints value ∧ 2 ≤ countCharacterTypes value)
      "password" (some (toString config.passwordMinLength ++
        "文字以上で、英大文字/英小文字/数字/記号のうち2種類以上を含めてください")) ++
    passwordMaxCheck config "password" value

/-- The `superRefine` of the schema. -/
def superRefine (browser : Browser) (v : RegisterFormValues) : List Issue :=
  check (v.passwordConfirm = v.password) "password_confirm" (some "パスワードが一致しません") ++
    check (isValidBirthDate browser v.birthYear v.birthMonth v.birthDay = true) "birth_day"
      (some "正しい生年月日を選択してください")

/-- What the schema makes of the values: `trim` is part of the names. -/
def trimmed (v : RegisterFormValues) : RegisterFormValues :=
  { v with
    lastName := trim v.lastName
    firstName := trim v.firstName
    lastNameKana := trim v.lastNameKana
    firstNameKana := trim v.firstNameKana }

/-- The issues of the values that `trim` has left. -/
def schemaIssues (config : AuthValidationConfig) (isEmail : String → Bool) (browser : Browser)
    (v : RegisterFormValues) : List Issue :=
  nameField config "last_name" v.lastName ++
    nameField config "first_name" v.firstName ++
    kanaField config "last_name_kana" v.lastNameKana ++
    kanaField config "first_name_kana" v.firstNameKana ++
    selectField "birth_year" v.birthYear ++
    selectField "birth_month" v.birthMonth ++
    selectField "birth_day" v.birthDay ++
    emailSchema isEmail v.email ++
    usernameField v.username ++
    passwordField config v.password ++
    passwordMaxCheck config "password_confirm" v.passwordConfirm ++
    superRefine browser v

/-- The first issue of each field: `!(field in errors)`. -/
def firstIssues (issues : List Issue) : List Issue :=
  issues.foldl (fun errors issue =>
    if errors.any (fun e => e.field = issue.field) then errors else errors ++ [issue]) []

/-- `createZodResolver(registerSchema())`: the values that are submitted, or the errors. -/
def registerResolver (config : AuthValidationConfig) (isEmail : String → Bool) (browser : Browser)
    (values : RegisterFormValues) : Except (List Issue) RegisterFormValues :=
  match schemaIssues config isEmail browser (trimmed values) with
  | [] => .ok (trimmed values)
  | issues => .error (firstIssues issues)

/-! ### The request -/

structure RegisterSubmitPayload where
  lastName : String
  firstName : String
  lastNameKana : String
  firstNameKana : String
  email : String
  username : String
  password : String
  passwordConfirm : String
  birthDate : String
deriving DecidableEq

/-- The value of an option of a pulldown. -/
def optionText (part : Option ℕ) : String := part.elim "" toString

def toSubmitPayload (v : RegisterFormValues) : RegisterSubmitPayload where
  lastName := v.lastName
  firstName := v.firstName
  lastNameKana := v.lastNameKana
  firstNameKana := v.firstNameKana
  email := v.email
  username := v.username
  password := v.password
  passwordConfirm := v.passwordConfirm
  birthDate := optionText v.birthYear ++ "-" ++ padStart 2 (optionText v.birthMonth) ++ "-" ++
    padStart 2 (optionText v.birthDay)

/-- A `date` of Pydantic from a text `YYYY-MM-DD`, as the number of its day. -/
def parseDate (value : String) : Option ℤ := do
  let (year, cs) ← takeDigits 4 value.toList
  let cs ← takeChar '-' cs
  let (month, cs) ← takeDigits 2 cs
  let cs ← takeChar '-' cs
  let (day, cs) ← takeDigits 2 cs
  if cs.isEmpty ∧ 1 ≤ year ∧ 1 ≤ month ∧ month ≤ 12 ∧ 1 ≤ day ∧ day ≤ daysInMonth year month then
    some (makeDay year month day)
  else none

/-- The fields of `RegisterRequest` before its validators run. -/
def parseRequest (payload : RegisterSubmitPayload) : Option RegisterRequest := do
  let birthDate ← parseDate payload.birthDate
  return {
    username := payload.username
    email := payload.email
    password := payload.password
    passwordConfirm := payload.passwordConfirm
    lastName := payload.lastName
    firstName := payload.firstName
    lastNameKana := payload.lastNameKana
    firstNameKana := payload.firstNameKana
    birthDate := birthDate }

end RegisterForm
