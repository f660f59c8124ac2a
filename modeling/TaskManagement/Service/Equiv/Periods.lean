import TaskManagement.Service.Equiv.Patches
import TaskManagement.Service.Periods

/-!
# When the validation of periods is total

A request to create or to change a project ends by storing a project that does not end before it
starts, or with a validation error that leaves every row as it is, exactly if its period is `Sound`
(`period_validation`): no naive datetime is compared with an aware one, and a period that is not
rejected by the comparison can be sent to the database and is still in order there.
-/

namespace Periods

open ReadCommitted TaskDb

/-! ### The condition -/

/-- Both datetimes are naive, or both are aware. -/
def Comparable (startAt endAt : Option PyDatetime) : Prop :=
  ∀ s ∈ startAt, ∀ e ∈ endAt, s.utcoffset.isSome = e.utcoffset.isSome

/-- The end is before the start, by the instants of aware datetimes and by the clocks of naive
ones. -/
def EndsBefore (startAt endAt : Option PyDatetime) : Prop :=
  ∃ s ∈ startAt, ∃ e ∈ endAt, e.instant (e.utcoffset.getD 0) < s.instant (s.utcoffset.getD 0)

/-- The values can be sent to the database, where the end is not before the start. -/
def Sendable (driver : Driver) (a : Arguments) : Prop :=
  ∃ f, driver.encode a = some f ∧ ¬EndBeforeStart f.startAt f.endAt

def Sound (driver : Driver) (a : Arguments) : Prop :=
  Comparable a.startAt a.endAt ∧ (EndsBefore a.startAt a.endAt ∨ Sendable driver a)

/-- The payload names no field, or sets one to `null` that may not be. -/
def ProjectPatch.Malformed (payload : ProjectPatch) : Prop :=
  payload.name = some none ∨ payload.isActive = some none ∨ payload = {}

/-! ### The comparison -/

theorem PyDatetime.lt_eq_ok {a b : PyDatetime} (h : a.utcoffset.isSome = b.utcoffset.isSome) :
    a.lt b = .ok (decide (a.instant (a.utcoffset.getD 0) < b.instant (b.utcoffset.getD 0))) := by
  unfold PyDatetime.lt
  cases ha : a.utcoffset with
  | none =>
    cases hb : b.utcoffset with
    | none => simp [PyDatetime.instant]
    | some o => simp [ha, hb] at h
  | some o =>
    cases hb : b.utcoffset with
    | none => simp [ha, hb] at h
    | some o' => rfl

theorem PyDatetime.lt_eq_error {a b : PyDatetime} (h : a.utcoffset.isSome ≠ b.utcoffset.isSome) :
    a.lt b = .error .typeError := by
  unfold PyDatetime.lt
  cases ha : a.utcoffset <;> cases hb : b.utcoffset <;> simp [ha, hb] at h ⊢

/-- What the comparison of the validators comes to. -/
theorem endsBeforeStart_cases (startAt endAt : Option PyDatetime) :
    (¬Comparable startAt endAt ∧ endsBeforeStart startAt endAt = .error .typeError) ∨
    (Comparable startAt endAt ∧ EndsBefore startAt endAt ∧
      endsBeforeStart startAt endAt = .ok true) ∨
    (Comparable startAt endAt ∧ ¬EndsBefore startAt endAt ∧
      endsBeforeStart startAt endAt = .ok false) := by
  cases startAt with
  | none =>
    refine .inr (.inr ⟨?_, ?_, rfl⟩)
    · rintro _ ⟨⟩
    · rintro ⟨_, ⟨⟩, -⟩
  | some s =>
    cases endAt with
    | none =>
      refine .inr (.inr ⟨?_, ?_, rfl⟩)
      · rintro _ - _ ⟨⟩
      · rintro ⟨_, -, _, ⟨⟩, -⟩
    | some e =>
      have hcomp : Comparable (some s) (some e) ↔ s.utcoffset.isSome = e.utcoffset.isSome := by
        simp [Comparable]
      have hbefore : EndsBefore (some s) (some e) ↔
          e.instant (e.utcoffset.getD 0) < s.instant (s.utcoffset.getD 0) := by
        simp [EndsBefore]
      rw [hcomp, hbefore]
      by_cases hc : s.utcoffset.isSome = e.utcoffset.isSome
      · right
        rw [endsBeforeStart, PyDatetime.lt_eq_ok hc.symm]
        by_cases hlt : e.instant (e.utcoffset.getD 0) < s.instant (s.utcoffset.getD 0)
        · exact .inl ⟨hc, hlt, by rw [decide_eq_true hlt]⟩
        · exact .inr ⟨hc, hlt, by rw [decide_eq_false hlt]⟩
      · exact .inl ⟨hc, PyDatetime.lt_eq_error (Ne.symm hc)⟩

/-! ### Requests -/

section

variable {α : Type} {db db' : Db}

/-- The request has stored the project `id a`, which does not end before it starts, or it was
rejected and has left every row as it is. -/
def Fine (id : α → Uuid) (db : Db) (r : Except Fault α) (db' : Db) : Prop :=
  (∃ a row, r = .ok a ∧ db'.row (.project (id a)) = some row ∧
    ∀ s ∈ row.startAt, ∀ e ∈ row.endAt, s ≤ e) ∨
  ∃ message, r = .error (.validation message) ∧ db' = db

/-- The request ends, and every end of it is fine. -/
def Total (id : α → Uuid) (request : Except Fault (TaskProc α)) (db : Db) : Prop :=
  (∃ r db', Ends request db r db') ∧ ∀ r db', Ends request db r db' → Fine id db r db'

theorem total_of_rejected {id : α → Uuid} {request : Except Fault (TaskProc α)} {message : String}
    (h : request = .error (.validation message)) : Total id request db := by
  subst h
  refine ⟨⟨_, db, rfl, rfl⟩, ?_⟩
  rintro r db' ⟨rfl, rfl⟩
  exact .inr ⟨message, rfl, rfl⟩

theorem not_total_of_error {id : α → Uuid} {request : Except Fault (TaskProc α)} {e : Fault}
    (h : request = .error e) (he : ∀ message, e ≠ .validation message) : ¬Total id request db := by
  subst h
  rintro ⟨-, hfine⟩
  rcases hfine (.error e) db ⟨rfl, rfl⟩ with ⟨a, row, hr, -⟩ | ⟨message, hr, -⟩
  · cases hr
  · exact he message (Except.error.inj hr)

/-- The programs of the two services: they store what is in order, and the procedure raises
otherwise. -/
structure Stores (id : α → Uuid) (program : ProjectFields → TaskProc α) (db : Db) : Prop where
  supplied : ∀ f, (program f).Supplied
  stores : ∀ f, ¬EndBeforeStart f.startAt f.endAt →
    Solo schema (fun _ => False) (program f) db fun a db' =>
      (∃ row, db'.row (.project (id a)) = some row ∧ row.startAt = f.startAt ∧
        row.endAt = f.endAt) ∧ ∀ t, db'.row (.task t) = db.row (.task t)
  raises : ∀ f, EndBeforeStart f.startAt f.endAt →
    Solo schema (· = .endBeforeStart) (program f) db fun _ _ => False

/-- The check of the service before the transaction of a request. -/
theorem total_checked_iff {id : α → Uuid} {program : ProjectFields → TaskProc α} {driver : Driver}
    {a : Arguments} (message : String) (hdb : schema.deferred db = none)
    (hprogram : Stores id program db) :
    Total id (do
      if ← endsBeforeStart a.startAt a.endAt then throw (.validation message)
      driver.call a program) db ↔ Sound driver a := by
  rcases endsBeforeStart_cases a.startAt a.endAt with
    ⟨hcomp, heq⟩ | ⟨hcomp, hbefore, heq⟩ | ⟨hcomp, hbefore, heq⟩
  · simp only [heq]
    -- the comparison raises
    refine iff_of_false (not_total_of_error rfl ?_) fun h => hcomp h.1
    intro message h
    cases h
  · simp only [heq]
    -- the service rejects the period
    exact iff_of_true (total_of_rejected rfl) ⟨hcomp, .inl hbefore⟩
  · simp only [heq]
    show Total id (driver.call a program) db ↔ _
    have hsound : Sound driver a ↔ Sendable driver a :=
      ⟨fun h => h.2.resolve_left hbefore, fun h => ⟨hcomp, .inr h⟩⟩
    rw [hsound, Driver.call]
    -- the driver encodes it and the procedure runs, or the driver raises
    cases hf : driver.encode a with
    | none =>
      refine iff_of_false (not_total_of_error rfl ?_) ?_
      · intro message h
        cases h
      · rintro ⟨f, hf', -⟩
        rw [hf] at hf'
        cases hf'
    | some f =>
      obtain ⟨r₀, db₀, hend⟩ := exists_endsAlone schema (hprogram.supplied f) db
      -- the procedure checks the period that it receives
      by_cases hdis : EndBeforeStart f.startAt f.endAt
      · refine iff_of_false ?_ ?_
        · rintro ⟨-, hfine⟩
          obtain ⟨e, rfl, rfl, rfl⟩ := hend.raises (hprogram.raises f hdis)
          rcases hfine _ db₀ ⟨_, hend, rfl⟩ with ⟨a, row, hr, -⟩ | ⟨message, hr, -⟩
          · cases hr
          · cases hr
        · rintro ⟨f', hf', hord⟩
          obtain rfl := Option.some.inj (hf.symm.trans hf')
          exact hord hdis
      · refine iff_of_true ⟨⟨_, db₀, r₀, hend, rfl⟩, ?_⟩ ⟨f, hf, hdis⟩
        rintro r db' ⟨r', hend', rfl⟩
        obtain ⟨a, rfl, ⟨row, hrow, hstart, hendAt⟩, -⟩ := hend'.commits (hprogram.stores f hdis)
          fun a s h => deferred_of_slot_eq hdb fun t => slot_congr (h.2 t)
        refine .inl ⟨a, row, rfl, hrow, ?_⟩
        rw [hstart, hendAt]
        exact not_endBeforeStart_iff.mp hdis

/-! ### The transactions -/

variable {userId projectId : Uuid}

theorem stores_insertProject
    (hmembers : ∀ p u, db.row (.member p u) ≠ none → db.row (.project p) ≠ none) :
    Stores id (insertProject userId) db where
  supplied f := by
    refine Proc.Supplied.bind ?_ fun v => ?_
    · refine Proc.supplied_raiseIf.bind fun _ => ?_
      refine (Proc.supplied_generate fun a b h => RowId.project.inj h).bind fun v => ?_
      exact Proc.supplied_insertOrRaise.bind fun _ => Proc.supplied_insertOrRaise.bind fun _ =>
        trivial
    · exact Proc.supplied_select.bind fun _ => Proc.supplied_raiseIf.bind fun _ => trivial
  stores f hf := by
    refine Solo.bind (Solo.bind (Solo.raiseIf (fun h => hf h) fun _ => ?_))
    refine Solo.bind (Solo.generate fun v hv => ?_)
    refine Solo.bind (Solo.insertOrRaise (fun h => h hv) (fun _ h => by cases h) fun _ => ?_)
    have hne : RowId.member v userId ≠ .project v := by
      intro h
      cases h
    refine Solo.bind (Solo.insertOrRaise (fun h => ?_) (fun _ h => by cases h) fun _ => ?_)
    · -- a membership refers to a project, and there is no project of the new identifier
      rw [Store.set_row_of_ne _ _ hne] at h
      exact hmembers v userId h hv
    · refine Solo.ret (Solo.bind (Solo.select (Solo.bind (Solo.raiseIf (fun h => ?_) fun _ => ?_))))
      · rw [Store.set_row_of_ne _ _ hne.symm, Store.set_row_self] at h
        cases h
      · refine Solo.ret ⟨⟨_, (Store.set_row_of_ne _ _ hne.symm).trans (Store.set_row_self _ _ _),
          rfl, rfl⟩, fun t => ?_⟩
        rw [Store.set_row_of_ne _ _ (by intro h; cases h),
          Store.set_row_of_ne _ _ (by intro h; cases h)]
  raises f hf := by
    refine Solo.bind (Solo.bind (Solo.raiseIf (fun _ => rfl) fun h => absurd hf h))

/-- An `UPDATE` of a project. -/
theorem solo_setProject {set : Project → Project} {old : Project} {Q : ℕ → Db → Prop}
    (hrow : db.row (.project projectId) = some old)
    (h : ∀ n db', db'.row (.project projectId) = some (set old) →
      (∀ i, i ≠ .project projectId → db'.row i = db.row i) → Q n db') :
    Solo schema (fun _ => False) (Proc.update (setProject projectId set) : TaskProc ℕ) db Q := by
  have hsets := setProject_sets projectId set
  refine Solo.update (fun i r r' e _ hu he => ?_) fun db' hup _ => h _ db' ?_ fun i hi => ?_
  · by_cases hi : i = .project projectId
    · subst hi
      cases he
    · rw [hsets.other i r hi] at hu
      cases hu
  · rw [hup, hrow, Option.bind_some, hsets.self]
    rfl
  · rw [hup]
    cases hr : db.row i with
    | none => rfl
    | some r =>
      rw [Option.bind_some, hsets.other i r hi]
      rfl

theorem stores_storeProject {isActive : Option Bool} {old : Project}
    (hrow : db.row (.project projectId) = some old) :
    Stores (fun _ => projectId) (storeProject projectId isActive) db where
  supplied f := by
    refine Proc.Supplied.bind ?_ fun _ => Proc.Supplied.bind ?_ fun _ => ?_
    · exact Proc.supplied_raiseIf.bind fun _ => Proc.supplied_update.bind fun _ => trivial
    · cases isActive with
      | none => trivial
      | some b => exact Proc.supplied_update.bind fun _ => trivial
    · exact Proc.supplied_select.bind fun _ => Proc.supplied_raiseIf
  stores f hf := by
    refine Solo.bind (Solo.bind (Solo.raiseIf (fun h => hf h) fun _ => ?_))
    refine Solo.bind (solo_setProject hrow fun n db₁ hself hother => Solo.ret (Solo.bind ?_))
    have hactive : Solo schema (fun _ => False) (setProjectActive projectId isActive) db₁
        fun _ db₂ => (∃ row, db₂.row (.project projectId) = some row ∧ row.startAt = f.startAt ∧
          row.endAt = f.endAt) ∧ ∀ i, i ≠ .project projectId → db₂.row i = db₁.row i := by
      cases isActive with
      | none => exact Solo.ret ⟨⟨_, hself, rfl, rfl⟩, fun i _ => rfl⟩
      | some b =>
        exact Solo.bind (solo_setProject hself fun n db₂ hself₂ hother₂ =>
          Solo.ret ⟨⟨_, hself₂, rfl, rfl⟩, hother₂⟩)
    refine hactive.mono ?_
    rintro _ db₂ ⟨⟨row, hrow₂, hperiod⟩, hother₂⟩
    refine Solo.bind (Solo.select (Solo.raiseIf (fun h => ?_) fun _ => ?_))
    · rw [hrow₂] at h
      cases h
    · refine ⟨⟨row, hrow₂, hperiod⟩, fun t => ?_⟩
      have hne : RowId.task t ≠ .project projectId := by
        intro h
        cases h
      rw [hother₂ _ hne, hother _ hne]
  raises f hf := by
    refine Solo.bind (Solo.bind (Solo.raiseIf (fun _ => rfl) fun h => absurd hf h))

/-! ### The requests -/

variable {driver : Driver}

theorem total_createProject_iff {payload : ProjectCreateRequest}
    (hdb : schema.deferred db = none)
    (hmembers : ∀ p u, db.row (.member p u) ≠ none → db.row (.project p) ≠ none) :
    Total id (createProject driver userId payload) db ↔ Sound driver payload := by
  rw [← total_checked_iff "end_at must be greater than or equal to start_at" hdb
    (stores_insertProject hmembers)]
  have heq : createProject driver userId payload = (do
      if ← endsBeforeStart payload.startAt payload.endAt then
        throw (.validation "end_at must be greater than or equal to start_at")
      driver.call payload (insertProject userId)) := by
    unfold createProject validatePeriod
    cases endsBeforeStart payload.startAt payload.endAt with
    | error e => rfl
    | ok b => cases b <;> rfl
  rw [heq]

theorem total_updateProject_iff {payload : ProjectPatch} {project : Project}
    (hdb : schema.deferred db = none) (hrow : db.row (.project projectId) = some project) :
    Total (fun _ => projectId) (updateProject driver projectId project payload) db ↔
      payload.Malformed ∨ Sound driver (payload.arguments project) := by
  unfold updateProject validateNonNullableFields validateAtLeastOneField
  by_cases hname : payload.name = some none
  · rw [if_pos hname]
    exact iff_of_true (total_of_rejected rfl) (.inl (.inl hname))
  by_cases hactive : payload.isActive = some none
  · rw [if_neg hname, if_pos hactive]
    exact iff_of_true (total_of_rejected rfl) (.inl (.inr (.inl hactive)))
  by_cases hfields : payload = {}
  · rw [if_neg hname, if_neg hactive, if_pos hfields]
    exact iff_of_true (total_of_rejected rfl) (.inl (.inr (.inr hfields)))
  · rw [if_neg hname, if_neg hactive, if_neg hfields]
    have hm : ¬payload.Malformed := by
      rintro (h | h | h)
      · exact hname h
      · exact hactive h
      · exact hfields h
    rw [or_iff_right hm]
    exact total_checked_iff _ hdb (stores_storeProject hrow)

end

/-- When the requests are total. -/
theorem period_validation (driver : Driver) (db : Db) (hdb : schema.deferred db = none)
    (hmembers : ∀ p u, db.row (.member p u) ≠ none → db.row (.project p) ≠ none) :
    (∀ userId payload, Total id (createProject driver userId payload) db ↔ Sound driver payload) ∧
    ∀ projectId project payload, db.row (.project projectId) = some project →
      (Total (fun _ => projectId) (updateProject driver projectId project payload) db ↔
        payload.Malformed ∨ Sound driver (payload.arguments project)) :=
  ⟨fun _ _ => total_createProject_iff hdb hmembers,
    fun _ _ _ hrow => total_updateProject_iff hdb hrow⟩

/-- A project that starts on 2026-09-01 (UTC). -/
def started : Project where
  ownerId := 1
  name := "Cerberus"
  description := none
  startAt := some 63923817600000000
  endAt := none
  isActive := true

def oneProject : Db := Store.empty.set (.project 1) (some started)

theorem deferred_oneProject : schema.deferred oneProject = none :=
  deferred_of_distinct fun t _ _ h => by
    obtain ⟨r, hr, -⟩ := slot_eq_some.mp h
    rw [oneProject, Store.set_row_of_ne _ _ (by intro h; cases h)] at hr
    cases hr

theorem members_oneProject (p u : Uuid) (h : oneProject.row (.member p u) ≠ none) :
    oneProject.row (.project p) ≠ none := by
  rw [oneProject, Store.set_row_of_ne _ _ (by intro h; cases h)] at h
  exact absurd rfl h

/-- A day in September 2026, with the offset of Tokyo. -/
def september (day : ℤ) : PyDatetime where
  clock := 63923817600000000 + (day - 1) * 86400000000
  utcoffset := some 32400000000

theorem period_validation_aware :
    Total id (createProject tokyo 1 ⟨"Cerberus", none, some (september 2), some (september 3)⟩)
      oneProject ∧
    Total (fun _ => 1) (updateProject tokyo 1 started { endAt := some (some (september 3)) })
      oneProject := by
  have h := period_validation tokyo oneProject deferred_oneProject members_oneProject
  refine ⟨(h.1 1 _).mpr ⟨?_, .inr ⟨⟨"Cerberus", none, some 63923871600000000,
    some 63923958000000000⟩, by decide, by decide⟩⟩, (h.2 1 started _ rfl).mpr (.inr ⟨?_, .inr
      ⟨⟨"Cerberus", none, some 63923817600000000, some 63923958000000000⟩, by decide,
        by decide⟩⟩)⟩
  · rintro _ ⟨⟩ _ ⟨⟩
    rfl
  · rintro _ ⟨⟩ _ ⟨⟩
    rfl

/-- A naive end is compared with the aware start that is stored. -/
theorem period_validation_mixed :
    ¬∀ (driver : Driver) (db : Db), schema.deferred db = none →
      (∀ p u, db.row (.member p u) ≠ none → db.row (.project p) ≠ none) →
      ∀ projectId project payload, db.row (.project projectId) = some project →
        Total (fun _ => projectId) (updateProject driver projectId project payload) db := by
  intro h
  obtain ⟨-, hfine⟩ := h tokyo oneProject deferred_oneProject members_oneProject 1 started
    { endAt := some (some ⟨63923817600000000, none⟩) } rfl
  rcases hfine (.error .typeError) oneProject ⟨rfl, rfl⟩ with ⟨a, row, hr, -⟩ | ⟨message, hr, -⟩
  · cases hr
  · cases hr

end Periods
