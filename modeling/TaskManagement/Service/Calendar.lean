import TaskManagement.Service.TaskReads
import TaskManagement.TimeZone

/-!
# The days of the application

`_app_day_bounds_utc` of the task repository, `CalendarTaskQuery` and `list_calendar_tasks`, in a
time zone given by its history and on dates and times that end, as those of `datetime` do.  Dates
are numbered from `date.min`, and times count the microseconds from `datetime.min`.
-/

namespace Calendar

open TaskDb (Uuid Timestamp Date)
open Listing (Db User JoinedTask CalendarTaskItem)

/-- The microseconds of a day. -/
def dayLength : ℤ := 86400000000

/-- `date.max` -/
def dateMax : Date := 3652058

/-- A `date`. -/
abbrev PyDate : Type := {d : Date // 0 ≤ d ∧ d ≤ dateMax}

/-- An aware `datetime`, as its instant. -/
abbrev PyDatetime : Type := {t : Timestamp // 0 ≤ t ∧ t < (dateMax + 1) * dayLength}

/-- A `ZoneInfo`: no offset is a day long. -/
structure ZoneInfo extends TimeZone.History where
  bounded : toHistory.Bounded dayLength

/-- What the functions below raise. -/
inductive Error : Type where
  | notFound
  | overflow
deriving DecidableEq, Repr

/-- A time that must lie within the range of `datetime`. -/
def datetime (t : ℤ) : Except Error ℤ :=
  if 0 ≤ t ∧ t < (dateMax + 1) * dayLength then .ok t else .error .overflow

/-- `value.astimezone(zone)` of an instant: the local time. -/
def astimezone (zone : ZoneInfo) (u : Timestamp) : Except Error ℤ := datetime (zone.localTime u)

/-- `value.date()` -/
def date (t : ℤ) : Date := t / dayLength

/-- `d + timedelta(days=1)` -/
def nextDate (d : Date) : Except Error Date :=
  if d + 1 ≤ dateMax then .ok (d + 1) else .error .overflow

/-- `datetime.combine(d, time.min, tzinfo=zone).astimezone(UTC)` -/
def midnightUtc (zone : ZoneInfo) (d : Date) : Except Error Timestamp :=
  datetime (zone.readLocal (d * dayLength))

/-- `_app_day_bounds_utc` -/
def appDayBoundsUtc (zone : ZoneInfo) (now : Timestamp) : Except Error (Timestamp × Timestamp) := do
  let localNow ← astimezone zone now
  let localDate := date localNow
  let endDate ← nextDate localDate
  let startUtc ← midnightUtc zone localDate
  let endUtc ← midnightUtc zone endDate
  return (startUtc, endUtc)

/-! ### The calendar -/

/-- The texts of `CalendarScope`. -/
inductive ScopeText : Type where
  | me
  | project
deriving DecidableEq, Repr

/-- The parameters of a request for the calendar. -/
structure CalendarParams where
  fromDate : PyDate
  toDate : PyDate
  scope : ScopeText
  projectId : Option Uuid

/-- `validate_range_and_scope` of `CalendarTaskQuery`; `none` is a `ValueError`. -/
def validateRangeAndScope (q : CalendarParams) : Option Listing.CalendarTaskQuery :=
  if q.toDate.1 < q.fromDate.1 ∨ 62 < q.toDate.1 - q.fromDate.1 then none
  else
    match q.scope, q.projectId with
    | .project, none => none
    | .me, some _ => none
    | .me, none => some ⟨q.fromDate, q.toDate, .me⟩
    | .project, some p => some ⟨q.fromDate, q.toDate, .project p⟩

/-- `list_calendar_tasks` -/
def listCalendarTasks (zone : ZoneInfo) (db : Db) (user : User) (username : String)
    (query : Listing.CalendarTaskQuery) : Except Error (List CalendarTaskItem) :=
  if Listing.requireCalendarAccess db query.scope user then do
    let fromUtc ← midnightUtc zone query.fromDate
    let endDate ← nextDate query.toDate
    let toUtc ← midnightUtc zone endDate
    let items := Listing.fnListCalendarTasks db user.id fromUtc toUtc query.scope
    let dueItems := items.filterMap fun item => item.task.dueAt.map fun due => (item, due)
    dueItems.mapM fun item => do
      let localDue ← astimezone zone item.2
      return ⟨Listing.response item.1 user username, date localDue⟩
  else throw .notFound

end Calendar
