import TaskManagement.ReadCommitted.Alone
import TaskManagement.Service.Patches

/-!
# The period of a project, from the payload to the row

`create_project` and `update_project` with the validators of `ProjectCreateRequest` and
`ProjectUpdateRequest` before them, on datetimes as the payload gives them, with or without an
offset from UTC.

What runs before the database is a function of the payload and of the stored project; it raises a
`Fault`, or gives the program of the transaction.  The driver turns a `datetime` into a `TIMESTAMPTZ`
by `astimezone`, which reads a naive one in the time zone of the process (`Driver`).
-/

namespace Periods

open ReadCommitted TaskDb

/-! ### Datetimes -/

/-- A `datetime`: its clock in microseconds from `datetime.min`, and its offset if it is aware. -/
structure PyDatetime where
  clock : ℤ
  utcoffset : Option ℤ
deriving DecidableEq, Repr

/-- The instant of an aware `datetime`. -/
def PyDatetime.instant (d : PyDatetime) (offset : ℤ) : ℤ := d.clock - offset

/-- The length of the range of `datetime`, in microseconds. -/
def datetimeEnd : ℤ := 315537897600000000

inductive Fault : Type where
  /-- A `ValueError` in a validator, or a `ValidationError`. -/
  | validation (message : String)
  /-- `can't compare offset-naive and offset-aware datetimes` -/
  | typeError
  /-- A `DBAPIError` for an argument that cannot be sent to the database. -/
  | argument
  /-- The transaction is rolled back. -/
  | database (error : Error)
deriving DecidableEq, Repr

/-- `a < b` -/
def PyDatetime.lt (a b : PyDatetime) : Except Fault Bool :=
  match a.utcoffset, b.utcoffset with
  | none, none => .ok (decide (a.clock < b.clock))
  | some o, some o' => .ok (decide (a.instant o < b.instant o'))
  | _, _ => .error .typeError

/-- `start_at is not None and end_at is not None and end_at < start_at` -/
def endsBeforeStart : Option PyDatetime → Option PyDatetime → Except Fault Bool
  | some startAt, some endAt => endAt.lt startAt
  | _, _ => .ok false

/-- A `TIMESTAMPTZ` that is read from the database. -/
def fromStored (t : Timestamp) : PyDatetime where
  clock := t
  utcoffset := some 0

/-! ### The driver -/

/-- What the driver makes of its arguments depends on the time zone of the process, in which it reads
naive datetimes. -/
structure Driver where
  localInstant : ℤ → Option Timestamp

/-- `value.astimezone(utc)`: an instant out of the range of `datetime` is an error. -/
def Driver.encodeDatetime (driver : Driver) (d : PyDatetime) : Option Timestamp :=
  match d.utcoffset with
  | none => driver.localInstant d.clock
  | some offset =>
    if 0 ≤ d.instant offset ∧ d.instant offset < datetimeEnd then some (d.instant offset) else none

/-- A `TEXT` holds no NUL. -/
def encodeText (s : String) : Option String := if s.toList.contains '\x00' then none else some s

/-- A value that may be `NULL`. -/
def encodeNullable {α β : Type} (encode : α → Option β) : Option α → Option (Option β)
  | none => some none
  | some a => (encode a).map some

/-- The arguments of `sp_create_project` and `sp_update_project`. -/
structure Arguments where
  name : String
  description : Option String
  startAt : Option PyDatetime
  endAt : Option PyDatetime
deriving DecidableEq, Repr

def Driver.encode (driver : Driver) (a : Arguments) : Option ProjectFields := do
  let startAt ← encodeNullable driver.encodeDatetime a.startAt
  let endAt ← encodeNullable driver.encodeDatetime a.endAt
  let name ← encodeText a.name
  let description ← encodeNullable encodeText a.description
  return { name, description, startAt, endAt }

/-- The program of a transaction that begins with a `CALL`. -/
def Driver.call {α : Type} (driver : Driver) (a : Arguments) (program : ProjectFields → TaskProc α) :
    Except Fault (TaskProc α) :=
  match driver.encode a with
  | none => .error .argument
  | some f => .ok (program f)

/-! ### `create_project` -/

/-- The fields of `ProjectCreateRequest`; an omitted one is `None`. -/
abbrev ProjectCreateRequest : Type := Arguments

def validatePeriod (payload : ProjectCreateRequest) : Except Fault Unit := do
  if ← endsBeforeStart payload.startAt payload.endAt then
    throw (.validation "end_at must be greater than or equal to start_at")

/-- The transaction of `create_project`. -/
def insertProject (ownerId : Uuid) (f : ProjectFields) : TaskProc Uuid := do
  let projectId ← spCreateProject
    { ownerId, name := f.name, description := f.description, startAt := f.startAt, endAt := f.endAt }
  let project ← fnGetProject projectId
  Proc.raiseIf (project = none) .notFound
  return projectId

def createProject (driver : Driver) (userId : Uuid) (payload : ProjectCreateRequest) :
    Except Fault (TaskProc Uuid) := do
  validatePeriod payload
  driver.call payload (insertProject userId)

/-! ### `update_project` -/

/-- The fields of a payload for `ProjectUpdateRequest`: an omitted one is `none`, and `some none` is
a `null`. -/
structure ProjectPatch where
  name : Option (Option String) := none
  description : Option (Option String) := none
  startAt : Option (Option PyDatetime) := none
  endAt : Option (Option PyDatetime) := none
  isActive : Option (Option Bool) := none
deriving DecidableEq, Repr

def validateNonNullableFields (payload : ProjectPatch) : Except Fault Unit := do
  if payload.name = some none then throw (.validation "name must not be null")
  if payload.isActive = some none then throw (.validation "is_active must not be null")

def validateAtLeastOneField (payload : ProjectPatch) : Except Fault Unit :=
  if payload = {} then throw (.validation "at least one field must be specified") else return ()

/-- The values that `update_project` writes: an omitted field is filled with the stored value. -/
def ProjectPatch.arguments (payload : ProjectPatch) (project : Project) : Arguments where
  name := (payload.name.getD none).getD project.name
  description := payload.description.getD project.description
  startAt := payload.startAt.getD (project.startAt.map fromStored)
  endAt := payload.endAt.getD (project.endAt.map fromStored)

/-- The transaction of `update_project`. -/
def storeProject (projectId : Uuid) (isActive : Option Bool) (f : ProjectFields) :
    TaskProc Unit := do
  spUpdateProject projectId f
  setProjectActive projectId isActive
  let updated ← fnGetProject projectId
  Proc.raiseIf (updated = none) .notFound

def updateProject (driver : Driver) (projectId : Uuid) (project : Project) (payload : ProjectPatch) :
    Except Fault (TaskProc Unit) := do
  validateNonNullableFields payload
  validateAtLeastOneField payload
  let a := payload.arguments project
  if ← endsBeforeStart a.startAt a.endAt then
    throw (.validation "終了日時は開始日時以降である必要があります")
  driver.call a (storeProject projectId (payload.isActive.getD none))

/-! ### The end of a request -/

/-- The request, run alone on the rows `db`, ends with `r` and leaves the rows `db'`. -/
def Ends {α : Type} (request : Except Fault (TaskProc α)) (db : Db) (r : Except Fault α)
    (db' : Db) : Prop :=
  match request with
  | .error e => r = .error e ∧ db' = db
  | .ok p => ∃ r', EndsAlone schema p db r' db' ∧ r = r'.mapError .database

/-- A UTC+9 process. -/
def tokyo : Driver where
  localInstant t :=
    if 0 ≤ t - 32400000000 ∧ t - 32400000000 < datetimeEnd then some (t - 32400000000) else none

end Periods
