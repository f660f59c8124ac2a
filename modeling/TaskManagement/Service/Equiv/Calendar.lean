import TaskManagement.Service.Calendar
import Mathlib.Algebra.Order.Ring.Int

/-!
# The days of the application, over every time zone

`local_days`: the bounds of `_app_day_bounds_utc` are those of the local day of the instant, and
`list_calendar_tasks` answers with the tasks that are due on the local dates of a query, if no
transition of the zone jumps over the first or the last midnight, or back behind it, and the days
can be represented (`DaysFit`).  In a zone whose transitions skip or repeat at most a day each, and no
local time twice, only then.  `not_local_days`: a calendar up to `date.max` overflows, and a clock
that goes back from 00:01 passes midnight twice.

* `midnightUtc_eq_ok`, `bounds_eq_ok`: when midnights can be converted;
* `DaysFit.reads`, `not_crosses_of_reads`: the instants of the days, from the library of time zones;
* `listCalendarTasks_eq_ok`: what the calendar answers.
-/

namespace Calendar

open TaskDb (Uuid Timestamp Date)
open Listing (Db User JoinedTask CalendarTaskItem CalendarScope)

variable {zone : ZoneInfo}

/-! ### Dates and times -/

theorem bind_eq_ok {α β : Type} {x : Except Error α} {f : α → Except Error β} {b : β} :
    (x >>= f) = .ok b ↔ ∃ a, x = .ok a ∧ f a = .ok b := by
  cases x with
  | error e =>
    refine ⟨fun h => (by cases h), ?_⟩
    rintro ⟨a, h, -⟩
    cases h
  | ok a =>
    refine ⟨fun h => ⟨a, rfl, h⟩, ?_⟩
    rintro ⟨a', h, h'⟩
    obtain rfl := Except.ok.inj h
    exact h'

theorem dayLength_pos : 0 < dayLength := by decide

/-- The dates of the times between two midnights. -/
theorem le_date_iff {d : Date} {t : ℤ} : d ≤ date t ↔ d * dayLength ≤ t :=
  Int.le_ediv_iff_mul_le dayLength_pos

theorem date_le_iff {d : Date} {t : ℤ} : date t ≤ d ↔ t < (d + 1) * dayLength := by
  rw [← not_lt, ← Int.add_one_le_iff, le_date_iff, not_le]

theorem datetime_eq_ok {t t' : ℤ} :
    datetime t = .ok t' ↔ t' = t ∧ 0 ≤ t ∧ t < (dateMax + 1) * dayLength := by
  rw [datetime]
  split
  · rename_i h
    exact ⟨fun h' => ⟨(Except.ok.inj h').symm, h⟩, fun h' => by rw [h'.1]⟩
  · rename_i h
    exact ⟨fun h' => (by cases h'), fun h' => absurd h'.2 h⟩

/-- Midnight of a date can be converted, except that of `date.min` east of UTC. -/
theorem midnightUtc_eq_ok {d t : ℤ} (h₀ : 0 ≤ d) (h₁ : d ≤ dateMax) :
    midnightUtc zone d = .ok t ↔ t = zone.readLocal (d * dayLength) ∧
      (d = 0 → zone.localOffset 0 ≤ 0) := by
  have hb := zone.localOffset_bounded zone.bounded (d * dayLength)
  rw [midnightUtc, datetime_eq_ok, TimeZone.History.readLocal, and_congr_right_iff]
  rintro -
  simp only [dateMax, dayLength] at *
  constructor
  · rintro ⟨h, -⟩ rfl
    simpa using h
  · intro h
    refine ⟨?_, by omega⟩
    rcases h₀.eq_or_lt with rfl | hpos
    · simpa using h rfl
    · omega

theorem nextDate_eq_ok {d d' : Date} : nextDate d = .ok d' ↔ d' = d + 1 ∧ d < dateMax := by
  rw [nextDate]
  split
  · rename_i h
    exact ⟨fun h' => ⟨(Except.ok.inj h').symm, h⟩, fun h' => by rw [h'.1]⟩
  · rename_i h
    exact ⟨fun h' => (by cases h'), fun h' => absurd h'.2 h⟩

/-- The days `fromDate` to `toDate` begin and end at instants that the readings of their midnights
give. -/
structure DaysFit (zone : ZoneInfo) (fromDate toDate : Date) : Prop where
  before_max : toDate < dateMax
  first : fromDate = 0 → zone.localOffset 0 ≤ 0
  fromMidnight : ¬zone.Crosses (fromDate * dayLength)
  toMidnight : ¬zone.Crosses ((toDate + 1) * dayLength)

/-- The instants of the days `fromDate` to `toDate`. -/
theorem DaysFit.reads {fromDate toDate : Date} (h : DaysFit zone fromDate toDate) (u : Timestamp) :
    zone.readLocal (fromDate * dayLength) ≤ u ∧ u < zone.readLocal ((toDate + 1) * dayLength) ↔
      fromDate ≤ date (zone.localTime u) ∧ date (zone.localTime u) ≤ toDate := by
  rw [zone.reads_of_not_crosses h.fromMidnight h.toMidnight, le_date_iff, date_le_iff]

/-- In a regular zone the readings of the midnights give the instants of the days only if no
transition crosses them. -/
theorem not_crosses_of_reads (hr : zone.Regular dayLength) {fromDate toDate : Date}
    (hle : fromDate ≤ toDate) (h : ∀ u, zone.readLocal (fromDate * dayLength) ≤ u ∧
      u < zone.readLocal ((toDate + 1) * dayLength) ↔
        fromDate ≤ date (zone.localTime u) ∧ date (zone.localTime u) ≤ toDate) :
    ¬zone.Crosses (fromDate * dayLength) ∧ ¬zone.Crosses ((toDate + 1) * dayLength) := by
  refine (zone.reads_iff dayLength_pos hr ?_).mp fun u => ?_
  · rw [add_mul, one_mul]
    exact add_le_add_left (mul_le_mul_of_nonneg_right hle dayLength_pos.le) dayLength
  · rw [h u, le_date_iff, date_le_iff]

/-! ### The day of an instant -/

/-- The bounds contain the instant, and are those of the instants with its local date. -/
def DayBounds (zone : ZoneInfo) (now : Timestamp) (r : Except Error (Timestamp × Timestamp)) :
    Prop :=
  ∃ startUtc endUtc, r = .ok (startUtc, endUtc) ∧ (startUtc ≤ now ∧ now < endUtc) ∧
    ∀ u, startUtc ≤ u ∧ u < endUtc ↔ date (zone.localTime u) = date (zone.localTime now)

/-- The bounds that two dates give, the first not after the second. -/
theorem bounds_eq_ok {fromDate toDate fromUtc toUtc : ℤ} (h₀ : 0 ≤ fromDate)
    (hle : fromDate ≤ toDate) :
    (midnightUtc zone fromDate = .ok fromUtc ∧
        ∃ d, nextDate toDate = .ok d ∧ midnightUtc zone d = .ok toUtc) ↔
      toDate < dateMax ∧ (fromDate = 0 → zone.localOffset 0 ≤ 0) ∧
        fromUtc = zone.readLocal (fromDate * dayLength) ∧
          toUtc = zone.readLocal ((toDate + 1) * dayLength) := by
  constructor
  · rintro ⟨hfrom, d, hd, hto⟩
    obtain ⟨rfl, hmax⟩ := nextDate_eq_ok.mp hd
    obtain ⟨hfromUtc, hfirst⟩ := (midnightUtc_eq_ok h₀ (hle.trans hmax.le)).mp hfrom
    have hto' := (midnightUtc_eq_ok (by omega) (Int.add_one_le_iff.mpr hmax)).mp hto
    exact ⟨hmax, hfirst, hfromUtc, hto'.1⟩
  · rintro ⟨hmax, hfirst, hfromUtc, htoUtc⟩
    refine ⟨(midnightUtc_eq_ok h₀ (hle.trans hmax.le)).mpr ⟨hfromUtc, hfirst⟩, _,
      nextDate_eq_ok.mpr ⟨rfl, hmax⟩,
      (midnightUtc_eq_ok (by omega) (Int.add_one_le_iff.mpr hmax)).mpr ⟨htoUtc, by omega⟩⟩

theorem appDayBoundsUtc_eq_ok {now s e : Timestamp} :
    appDayBoundsUtc zone now = .ok (s, e) ↔
      0 ≤ date (zone.localTime now) ∧ date (zone.localTime now) < dateMax ∧
      (date (zone.localTime now) = 0 → zone.localOffset 0 ≤ 0) ∧
      s = zone.readLocal (date (zone.localTime now) * dayLength) ∧
      e = zone.readLocal ((date (zone.localTime now) + 1) * dayLength) := by
  simp only [appDayBoundsUtc, bind_eq_ok, astimezone, datetime_eq_ok]
  constructor
  · rintro ⟨t, ⟨rfl, h₀, -⟩, d, hd, s', hs, e', he, h⟩
    obtain ⟨rfl, rfl⟩ := Prod.mk.inj (Except.ok.inj h)
    have hdate := le_date_iff.mpr ((zero_mul dayLength).le.trans h₀)
    exact ⟨hdate, (bounds_eq_ok hdate le_rfl).mp ⟨hs, d, hd, he⟩⟩
  · rintro ⟨h₀, hrest⟩
    obtain ⟨hs, d, hd, he⟩ := (bounds_eq_ok h₀ le_rfl).mpr hrest
    refine ⟨_, ⟨rfl, (zero_mul dayLength).ge.trans (le_date_iff.mp h₀), ?_⟩, d, hd, s, hs, e, he,
      rfl⟩
    exact date_le_iff.mp hrest.1.le

theorem dayBounds_of_daysFit {now : Timestamp} (h₀ : 0 ≤ date (zone.localTime now))
    (hfit : DaysFit zone (date (zone.localTime now)) (date (zone.localTime now))) :
    DayBounds zone now (appDayBoundsUtc zone now) := by
  refine ⟨_, _, appDayBoundsUtc_eq_ok.mpr ⟨h₀, hfit.before_max, hfit.first, rfl, rfl⟩, ?_, ?_⟩
  · exact (hfit.reads now).mpr ⟨le_rfl, le_rfl⟩
  · exact fun u => (hfit.reads u).trans
      ⟨fun h => le_antisymm h.2 h.1, fun h => ⟨h.ge, h.le⟩⟩

theorem daysFit_of_dayBounds (hr : zone.Regular dayLength) {now : Timestamp}
    (h : DayBounds zone now (appDayBoundsUtc zone now)) : 0 ≤ date (zone.localTime now) ∧
      DaysFit zone (date (zone.localTime now)) (date (zone.localTime now)) := by
  obtain ⟨s, e, hok, -, hdate⟩ := h
  obtain ⟨h₀, hmax, hfirst, rfl, rfl⟩ := appDayBoundsUtc_eq_ok.mp hok
  obtain ⟨hc, hc'⟩ := not_crosses_of_reads hr le_rfl fun u => (hdate u).trans
    ⟨fun h => ⟨h.ge, h.le⟩, fun h => le_antisymm h.2 h.1⟩
  exact ⟨h₀, hmax, hfirst, hc, hc'⟩

/-! ### The calendar -/

/-- A function that succeeds on the elements with `P`. -/
theorem mapM_eq_ok {α β : Type} {f : α → Except Error β} {g : α → β} {P : α → Prop}
    (hf : ∀ a b, f a = .ok b ↔ b = g a ∧ P a) {l : List α} {l' : List β} :
    l.mapM f = .ok l' ↔ l' = l.map g ∧ ∀ a ∈ l, P a := by
  induction l generalizing l' with
  | nil =>
    rw [List.mapM_nil, List.map_nil]
    exact ⟨fun h => ⟨(Except.ok.inj h).symm, fun a ha => absurd ha List.not_mem_nil⟩,
      fun h => by rw [h.1]; rfl⟩
  | cons a l ih =>
    simp only [List.mapM_cons, bind_eq_ok, hf, ih, List.map_cons, List.forall_mem_cons]
    constructor
    · rintro ⟨b, ⟨rfl, ha⟩, bs, ⟨rfl, hl⟩, h⟩
      exact ⟨(Except.ok.inj h).symm, ha, hl⟩
    · rintro ⟨rfl, ha, hl⟩
      exact ⟨_, ⟨rfl, ha⟩, _, ⟨rfl, hl⟩, rfl⟩

section List

variable {db : Db} {user : User} {username : String} {query : Listing.CalendarTaskQuery}

/-- The task is in the scope of the calendar. -/
def InScope (userId : Uuid) (scope : CalendarScope) (t : Listing.Task) : Prop :=
  match scope with
  | .me => (t.projectId = none ∧ t.createdBy = userId) ∨ t.assigneeId = some userId
  | .project p => t.projectId = some p

/-- The task is active, in the scope, and due on a local date of the query. -/
def IsDue (zone : ZoneInfo) (user : User) (query : Listing.CalendarTaskQuery)
    (t : Listing.Task) : Prop :=
  t.isActive = true ∧ InScope user.id query.scope t ∧ ∃ due, t.dueAt = some due ∧
    query.fromDate ≤ date (zone.localTime due) ∧ date (zone.localTime due) ≤ query.toDate

/-- The items are those of the tasks that are due, each once and with its local date. -/
structure Lists (zone : ZoneInfo) (db : Db) (user : User) (query : Listing.CalendarTaskQuery)
    (items : List CalendarTaskItem) : Prop where
  nodup : (items.map fun item => item.id).Nodup
  mem : ∀ t ∈ db.tasks.rows, t.id ∈ items.map (fun item => item.id) ↔ IsDue zone user query t
  item : ∀ item ∈ items, ∃ t ∈ db.tasks.rows, t.id = item.id ∧
    ∃ due, t.dueAt = some due ∧ item.dueDate = date (zone.localTime due)

/-- The calendar is complete: it is answered, with the tasks that are due. -/
def Complete (zone : ZoneInfo) (db : Db) (user : User) (query : Listing.CalendarTaskQuery)
    (r : Except Error (List CalendarTaskItem)) : Prop :=
  ∃ items, r = .ok items ∧ Lists zone db user query items

theorem calendarSelected_iff {userId : Uuid} {fromUtc toUtc : Timestamp} {scope : CalendarScope}
    {t : Listing.Task} : Listing.calendarSelected userId fromUtc toUtc scope t = true ↔
      t.isActive = true ∧ InScope userId scope t ∧
        ∃ due, t.dueAt = some due ∧ fromUtc ≤ due ∧ due < toUtc := by
  have hdue : t.dueAt.any (fun due => fromUtc ≤ due && due < toUtc) = true ↔
      ∃ due, t.dueAt = some due ∧ fromUtc ≤ due ∧ due < toUtc := by
    simp [Option.any_eq_true]
  unfold Listing.calendarSelected
  rw [Bool.and_eq_true, Bool.and_eq_true, hdue]
  cases scope <;> simp [InScope] <;> tauto

/-- The selected tasks with the moments at which they are due. -/
def dueItems (db : Db) (userId : Uuid) (fromUtc toUtc : Timestamp) (scope : CalendarScope) :
    List (JoinedTask × Timestamp) :=
  (Listing.fnListCalendarTasks db userId fromUtc toUtc scope).filterMap fun item =>
    item.task.dueAt.map fun due => (item, due)

theorem mem_dueItems {userId : Uuid} {fromUtc toUtc : Timestamp} {scope : CalendarScope}
    {x : JoinedTask × Timestamp} : x ∈ dueItems db userId fromUtc toUtc scope ↔
      ∃ t ∈ db.tasks.rows, Listing.calendarSelected userId fromUtc toUtc scope t = true ∧
        x.1 = Listing.joinTask db t ∧ t.dueAt = some x.2 := by
  simp only [dueItems, Listing.fnListCalendarTasks, List.mem_filterMap, List.mem_map,
    List.mem_mergeSort, List.mem_filter, Option.map_eq_some_iff]
  constructor
  · rintro ⟨row, ⟨t, ⟨ht, hsel⟩, rfl⟩, due, hdue, rfl⟩
    exact ⟨t, ht, hsel, rfl, hdue⟩
  · rintro ⟨t, ht, hsel, hx, hdue⟩
    exact ⟨_, ⟨t, ⟨ht, hsel⟩, rfl⟩, x.2, hdue, by rw [← hx]⟩

theorem dueItems_nodup (db : Db) (userId : Uuid) (fromUtc toUtc : Timestamp)
    (scope : CalendarScope) :
    ((dueItems db userId fromUtc toUtc scope).map fun x => x.1.task.id).Nodup := by
  have hsub : ∀ rows : List JoinedTask, ((rows.filterMap fun item =>
      item.task.dueAt.map fun due => (item, due)).map Prod.fst).Sublist rows := by
    intro rows
    induction rows with
    | nil => exact List.Sublist.refl _
    | cons row rows ih =>
      rw [List.filterMap_cons]
      split
      · exact ih.cons row
      · rename_i x hx
        obtain ⟨due, -, rfl⟩ := Option.map_eq_some_iff.mp hx
        exact ih.cons_cons row
  have hids := ((hsub (Listing.fnListCalendarTasks db userId fromUtc toUtc scope)).map
    fun row => row.task.id)
  rw [List.map_map] at hids
  refine hids.nodup ?_
  rw [Listing.fnListCalendarTasks, List.map_map]
  have hperm := List.mergeSort_perm
    (db.tasks.rows.filter (Listing.calendarSelected userId fromUtc toUtc scope))
    Listing.calendarOrder
  exact (hperm.map _).nodup_iff.mpr
    ((List.filter_sublist.map Listing.Task.id).nodup db.tasks.id_nodup)

/-- The item of a task that is due at a moment. -/
def calendarItem (zone : ZoneInfo) (user : User) (username : String)
    (x : JoinedTask × Timestamp) : CalendarTaskItem :=
  ⟨Listing.response x.1 user username, date (zone.localTime x.2)⟩

theorem listCalendarTasks_eq_ok {items : List CalendarTaskItem}
    (haccess : Listing.requireCalendarAccess db query.scope user = true)
    (h₀ : 0 ≤ query.fromDate) (hle : query.fromDate ≤ query.toDate) :
    listCalendarTasks zone db user username query = .ok items ↔
      query.toDate < dateMax ∧ (query.fromDate = 0 → zone.localOffset 0 ≤ 0) ∧
      items = (dueItems db user.id (zone.readLocal (query.fromDate * dayLength))
        (zone.readLocal ((query.toDate + 1) * dayLength)) query.scope).map
          (calendarItem zone user username) ∧
      ∀ x ∈ dueItems db user.id (zone.readLocal (query.fromDate * dayLength))
        (zone.readLocal ((query.toDate + 1) * dayLength)) query.scope,
          0 ≤ zone.localTime x.2 ∧ zone.localTime x.2 < (dateMax + 1) * dayLength := by
  have hitem : ∀ (x : JoinedTask × Timestamp) (item : CalendarTaskItem),
      (do
        let localDue ← astimezone zone x.2
        return ⟨Listing.response x.1 user username, date localDue⟩ :
          Except Error CalendarTaskItem) = .ok item ↔
      item = calendarItem zone user username x ∧
        0 ≤ zone.localTime x.2 ∧ zone.localTime x.2 < (dateMax + 1) * dayLength := by
    intro x item
    simp only [bind_eq_ok, astimezone, datetime_eq_ok]
    constructor
    · rintro ⟨t, ⟨rfl, ht⟩, h⟩
      exact ⟨(Except.ok.inj h).symm, ht⟩
    · rintro ⟨rfl, ht⟩
      exact ⟨_, ⟨rfl, ht⟩, rfl⟩
  rw [listCalendarTasks, if_pos haccess]
  simp only [bind_eq_ok, mapM_eq_ok hitem]
  constructor
  · rintro ⟨s, hs, d, hd, e, he, rfl, hrange⟩
    obtain ⟨hmax, hfirst, rfl, rfl⟩ := (bounds_eq_ok h₀ hle).mp ⟨hs, d, hd, he⟩
    exact ⟨hmax, hfirst, rfl, hrange⟩
  · rintro ⟨hmax, hfirst, rfl, hrange⟩
    obtain ⟨hs, d, hd, he⟩ := (bounds_eq_ok h₀ hle).mpr ⟨hmax, hfirst, rfl, rfl⟩
    exact ⟨_, hs, d, hd, _, he, rfl, hrange⟩

/-- Which tasks are answered. -/
theorem mem_ids {userId : Uuid} {fromUtc toUtc : Timestamp} {scope : CalendarScope}
    {t : Listing.Task} (ht : t ∈ db.tasks.rows) :
    t.id ∈ ((dueItems db userId fromUtc toUtc scope).map (calendarItem zone user username)).map
        (fun item => item.id) ↔
      Listing.calendarSelected userId fromUtc toUtc scope t = true := by
  rw [List.map_map, List.mem_map]
  constructor
  · rintro ⟨x, hx, hid⟩
    obtain ⟨t', ht', hsel, hjoin, -⟩ := mem_dueItems.mp hx
    have hid' : t'.id = t.id := by
      rw [← hid]
      show t'.id = x.1.task.id
      rw [hjoin]
      rfl
    rwa [← List.inj_on_of_nodup_map db.tasks.id_nodup ht' ht hid']
  · intro hsel
    obtain ⟨-, -, due, hdue, -⟩ := calendarSelected_iff.mp hsel
    exact ⟨(Listing.joinTask db t, due), mem_dueItems.mpr ⟨t, ht, hsel, rfl, hdue⟩, rfl⟩

theorem complete_of_daysFit (haccess : Listing.requireCalendarAccess db query.scope user = true)
    (h₀ : 0 ≤ query.fromDate) (hle : query.fromDate ≤ query.toDate)
    (hfit : DaysFit zone query.fromDate query.toDate) :
    Complete zone db user query (listCalendarTasks zone db user username query) := by
  have hdue : ∀ t : Listing.Task, Listing.calendarSelected user.id
      (zone.readLocal (query.fromDate * dayLength))
      (zone.readLocal ((query.toDate + 1) * dayLength)) query.scope t = true ↔
        IsDue zone user query t := by
    intro t
    rw [calendarSelected_iff, IsDue]
    simp only [hfit.reads]
  refine ⟨_, (listCalendarTasks_eq_ok haccess h₀ hle).mpr ⟨hfit.before_max, hfit.first, rfl,
    fun x hx => ?_⟩, ?_, fun t ht => (mem_ids ht).trans (hdue t), fun item hitem => ?_⟩
  · obtain ⟨t, -, hsel, -, hx₂⟩ := mem_dueItems.mp hx
    obtain ⟨-, -, due, hdue', hfrom, hto⟩ := (hdue t).mp hsel
    obtain rfl := Option.some.inj (hx₂.symm.trans hdue')
    refine ⟨?_, ?_⟩
    · exact (mul_nonneg h₀ dayLength_pos.le).trans (le_date_iff.mp hfrom)
    · refine (date_le_iff.mp hto).trans_le ?_
      exact mul_le_mul_of_nonneg_right (Int.add_le_add_right hfit.before_max.le 1)
        dayLength_pos.le
  · rw [List.map_map]
    exact dueItems_nodup db user.id _ _ query.scope
  · obtain ⟨x, hx, rfl⟩ := List.mem_map.mp hitem
    obtain ⟨t, ht, -, hjoin, hdue'⟩ := mem_dueItems.mp hx
    refine ⟨t, ht, ?_, x.2, hdue', rfl⟩
    show t.id = x.1.task.id
    rw [hjoin]
    rfl

/-- A task of the user 1 in the scope, due at `u`. -/
def probe (scope : CalendarScope) (u : Timestamp) : Listing.Task where
  id := 3
  projectId :=
    match scope with
    | .me => none
    | .project p => some p
  title := "probe"
  description := none
  status := .todo
  assigneeId := none
  createdBy := 1
  position := 0
  version := 1
  dueAt := some u
  isActive := true
  createdAt := 0
  updatedAt := 0

def probeDb (scope : CalendarScope) (u : Timestamp) : Db where
  users := ⟨[⟨1, .admin, true⟩], List.nodup_singleton _⟩
  projects := ⟨[], List.nodup_nil⟩
  projectMembers := []
  tasks := ⟨[probe scope u], List.nodup_singleton _⟩
  taskComments := []
  notifications := ⟨[], List.nodup_nil⟩

theorem probe_inScope (scope : CalendarScope) (u : Timestamp) :
    InScope 1 scope (probe scope u) := by
  cases scope with
  | me => exact Or.inl ⟨rfl, rfl⟩
  | project p => rfl

theorem daysFit_of_complete (hr : zone.Regular dayLength) (h₀ : 0 ≤ query.fromDate)
    (hle : query.fromDate ≤ query.toDate)
    (h : ∀ (db : Db) (user : User) (username : String),
      Listing.requireCalendarAccess db query.scope user = true →
        Complete zone db user query (listCalendarTasks zone db user username query)) :
    DaysFit zone query.fromDate query.toDate := by
  have haccess : ∀ db : Db,
      Listing.requireCalendarAccess db query.scope ⟨1, .admin, true⟩ = true := by
    intro db
    cases query.scope <;> rfl
  have hprobe : ∀ u, query.toDate < dateMax ∧ (query.fromDate = 0 → zone.localOffset 0 ≤ 0) ∧
      (zone.readLocal (query.fromDate * dayLength) ≤ u ∧
        u < zone.readLocal ((query.toDate + 1) * dayLength) ↔
          query.fromDate ≤ date (zone.localTime u) ∧ date (zone.localTime u) ≤ query.toDate) := by
    intro u
    obtain ⟨items, hok, hlists⟩ := h (probeDb query.scope u) ⟨1, .admin, true⟩ "" (haccess _)
    obtain ⟨hmax, hfirst, rfl, -⟩ := (listCalendarTasks_eq_ok (haccess _) h₀ hle).mp hok
    have ht : probe query.scope u ∈ (probeDb query.scope u).tasks.rows :=
      List.mem_singleton_self _
    have hiff := (mem_ids ht).symm.trans (hlists.mem _ ht)
    rw [calendarSelected_iff, IsDue] at hiff
    refine ⟨hmax, hfirst, fun hin => ?_, fun hin => ?_⟩
    · obtain ⟨-, -, due, hdue, hdate⟩ := hiff.mp ⟨rfl, probe_inScope _ u, u, rfl, hin⟩
      obtain rfl := Option.some.inj hdue
      exact hdate
    · obtain ⟨-, -, due, hdue, hbetween⟩ := hiff.mpr ⟨rfl, probe_inScope _ u, u, rfl, hin⟩
      obtain rfl := Option.some.inj hdue
      exact hbetween
  obtain ⟨hc, hc'⟩ := not_crosses_of_reads hr hle fun u => (hprobe u).2.2
  exact ⟨(hprobe 0).1, (hprobe 0).2.1, hc, hc'⟩

end List

/-- The dates of a query that was accepted. -/
theorem validateRangeAndScope_le {q : CalendarParams} {query : Listing.CalendarTaskQuery}
    (h : validateRangeAndScope q = some query) :
    0 ≤ query.fromDate ∧ query.fromDate ≤ query.toDate := by
  rw [validateRangeAndScope] at h
  split at h
  · cases h
  · rename_i hrange
    have hle : q.fromDate.1 ≤ q.toDate.1 := not_lt.mp fun hlt => hrange (Or.inl hlt)
    cases hs : q.scope <;> cases hp : q.projectId <;> rw [hs, hp] at h <;> cases h <;>
      exact ⟨q.fromDate.2.1, hle⟩

/-- The bounds of a day and the tasks of a calendar are right while no transition crosses the first or
last midnight and all of it can be represented; in a regular zone only then. -/
theorem local_days (zone : ZoneInfo) :
    (∀ now : PyDatetime,
      let localDate := date (zone.localTime now)
      (0 ≤ localDate ∧ DaysFit zone localDate localDate →
        DayBounds zone now (appDayBoundsUtc zone now)) ∧
      (zone.Regular dayLength → DayBounds zone now (appDayBoundsUtc zone now) →
        0 ≤ localDate ∧ DaysFit zone localDate localDate)) ∧
    ∀ (q : CalendarParams) (query : Listing.CalendarTaskQuery),
      validateRangeAndScope q = some query →
      (DaysFit zone query.fromDate query.toDate → ∀ (db : Db) (user : User) (username : String),
        Listing.requireCalendarAccess db query.scope user = true →
          Complete zone db user query (listCalendarTasks zone db user username query)) ∧
      (zone.Regular dayLength → (∀ (db : Db) (user : User) (username : String),
        Listing.requireCalendarAccess db query.scope user = true →
          Complete zone db user query (listCalendarTasks zone db user username query)) →
        DaysFit zone query.fromDate query.toDate) := by
  refine ⟨fun now => ⟨fun h => dayBounds_of_daysFit h.1 h.2,
    fun hr h => daysFit_of_dayBounds hr h⟩, ?_⟩
  intro q query hq
  obtain ⟨h₀, hle⟩ := validateRangeAndScope_le hq
  exact ⟨fun hfit _ _ _ haccess => complete_of_daysFit haccess h₀ hle hfit,
    fun hr h => daysFit_of_complete hr h₀ hle h⟩

/-! ### Three zones -/

/-- An hour. -/
def hour : ℤ := 3600000000

/-- `Asia/Tokyo` -/
def tokyo : ZoneInfo where
  initial := 9 * hour
  transitions := []
  sorted := .nil
  bounded := ⟨by decide, by simp⟩

/-- `America/St_Johns` around 2010-11-07, when the clock went from 00:01 back to 23:01 of the day
before. -/
def stJohns : ZoneInfo where
  initial := -5 * hour / 2
  transitions := [⟨734082 * dayLength + 151 * hour / 60, -7 * hour / 2⟩]
  sorted := List.pairwise_singleton _ _
  bounded := ⟨by decide, by decide⟩

/-- `America/New_York` in 2026: the clock goes from 02:00 to 03:00 on March 8, and from 02:00 back to
01:00 on November 1. -/
def newYork : ZoneInfo where
  initial := -5 * hour
  transitions := [⟨739682 * dayLength + 7 * hour, -4 * hour⟩,
    ⟨739920 * dayLength + 6 * hour, -5 * hour⟩]
  sorted := List.pairwise_pair.mpr (by decide)
  bounded := ⟨by decide, by decide⟩

/-- March 2026, and in it the day of the transition. -/
theorem daysFit_newYork : DaysFit newYork 739675 739705 ∧ DaysFit newYork 739682 739682 := by
  have hc : ∀ v ∈ [739675, 739682, 739683, 739706], ¬newYork.Crosses (v * dayLength) := by
    intro v hv
    simp only [TimeZone.History.Crosses, newYork, TimeZone.CrossesFrom]
    revert v
    decide
  exact ⟨⟨by decide, fun h => (by cases h), hc _ (by decide), hc _ (by decide)⟩,
    ⟨by decide, fun h => (by cases h), hc _ (by decide), hc _ (by decide)⟩⟩

theorem local_days_newYork :
    DayBounds newYork (739682 * dayLength + 12 * hour)
        (appDayBoundsUtc newYork (739682 * dayLength + 12 * hour)) ∧
      Complete newYork (probeDb .me (739706 * dayLength)) ⟨1, .admin, true⟩ ⟨739675, 739705, .me⟩
        (listCalendarTasks newYork (probeDb .me (739706 * dayLength)) ⟨1, .admin, true⟩ "taro"
          ⟨739675, 739705, .me⟩) := by
  obtain ⟨hmonth, hday⟩ := daysFit_newYork
  refine ⟨((local_days newYork).1 ⟨739682 * dayLength + 12 * hour, by decide, by decide⟩).1
    ⟨by decide, hday⟩, ?_⟩
  exact ((local_days newYork).2
    ⟨⟨739675, by decide, by decide⟩, ⟨739705, by decide, by decide⟩, .me, none⟩ _ rfl).1
    hmonth _ _ _ rfl

/-- A calendar up to `date.max` overflows; and at noon of the day on which the clock of St John's
went back over midnight, the bounds of the day are not those of its instants. -/
theorem not_local_days :
    ¬Complete tokyo (probeDb .me 0) ⟨1, .admin, true⟩ ⟨dateMax, dateMax, .me⟩
        (listCalendarTasks tokyo (probeDb .me 0) ⟨1, .admin, true⟩ "taro" ⟨dateMax, dateMax, .me⟩) ∧
      ¬DayBounds stJohns (734082 * dayLength + 12 * hour)
        (appDayBoundsUtc stJohns (734082 * dayLength + 12 * hour)) := by
  refine ⟨?_, fun h => ?_⟩
  · rintro ⟨items, hok, -⟩
    have hmax := ((listCalendarTasks_eq_ok rfl (by decide) le_rfl).mp hok).1
    exact absurd hmax (by decide)
  · have hr : stJohns.Regular dayLength := ⟨by decide, fun _ ht => (by cases ht), trivial⟩
    refine (daysFit_of_dayBounds hr h).2.fromMidnight (Or.inl ⟨?_, ?_⟩) <;> decide

end Calendar
