import TaskManagement.ReadCommitted.Rewrite
import TaskManagement.Service.Equiv.Checks
import TaskManagement.Service.Patches

/-!
# What a `PATCH` of a project or a profile changes

`update_project` and `update_profile` fill the fields that a payload omits with what they read
before they lock the row, and write all of them.  In every run of such calls a committed project
ends no earlier than it starts, and a successful call has the effect that its payload asks for
exactly when, on the fields that it omits, the row that it replaces is still as the call has read it
(`patch_frame_iff`).  Otherwise it undoes the concurrent `PATCH` of another field
(`patch_undoes_patch`).
-/

namespace TaskDb

open ReadCommitted

/-! ### The condition -/

/-- Filling an omitted field from `a` or from `b` comes to the same when these are equal. -/
theorem getD_eq_getD_iff {α : Type} {x : Option α} {a b : α} :
    x.getD a = x.getD b ↔ (x = none → a = b) := by
  cases x with
  | none => exact ⟨fun h _ => h, fun h => h rfl⟩
  | some v => exact ⟨fun _ => nofun, fun _ => rfl⟩

/-- On the fields that the payload omits, `read` agrees with `old`. -/
def ProjectUpdateRequest.Agrees (payload : ProjectUpdateRequest) (read old : Project) : Prop :=
  (payload.name = none → read.name = old.name) ∧
  (payload.description = none → read.description = old.description) ∧
  (payload.startAt = none → read.startAt = old.startAt) ∧
  (payload.endAt = none → read.endAt = old.endAt)

theorem ProjectUpdateRequest.fields_eq_iff (payload : ProjectUpdateRequest) {read old : Project} :
    payload.fields read = payload.fields old ↔ payload.Agrees read old := by
  simp only [fields, Agrees, ProjectFields.mk.injEq, getD_eq_getD_iff]

/-- On the fields that the payload omits, `read` agrees with `old`. -/
def UserProfileUpdateRequest.Agrees (payload : UserProfileUpdateRequest) (read old : User) : Prop :=
  (payload.lastName = none → read.lastName = old.lastName) ∧
  (payload.firstName = none → read.firstName = old.firstName) ∧
  (payload.lastNameKana = none → read.lastNameKana = old.lastNameKana) ∧
  (payload.firstNameKana = none → read.firstNameKana = old.firstNameKana) ∧
  (payload.birthDate = none → read.birthDate = old.birthDate)

theorem UserProfileUpdateRequest.fields_eq_iff (payload : UserProfileUpdateRequest)
    {read old : User} : payload.fields read = payload.fields old ↔ payload.Agrees read old := by
  simp only [fields, Agrees, ProfileFields.mk.injEq, getD_eq_getD_iff]

namespace Call

/-- On the fields that the payload of the call omits, `read` agrees with `old`. -/
def Agrees : (c : Call) → Row c.target → Row c.target → Prop
  | .updateProject _ _ payload, read, old => payload.Agrees read old
  | .updateProfile _ payload, read, old => payload.Agrees read old

/-- What a call writes to the row `old` when it has read `read`. -/
def written : (c : Call) → Row c.target → Row c.target → Row c.target
  | .updateProject _ _ payload, read, old =>
    { (payload.fields read).apply old with isActive := payload.isActive.getD old.isActive }
  | .updateProfile _ payload, read, old => (payload.fields read).apply old

/-- What is written is what the payload asks for when the read agrees with the row on the omitted
fields. -/
theorem written_eq_patch_iff (c : Call) {read old : Row c.target} :
    c.written read old = c.patch old ↔ c.Agrees read old := by
  cases c with
  | updateProject userId projectId payload =>
    refine Iff.trans ⟨fun h => ?_, fun h => ?_⟩ payload.fields_eq_iff
    · obtain ⟨-, hname, hdesc, hstart, hend, -⟩ := Project.mk.inj h
      exact ProjectFields.mk.injEq .. ▸ ⟨hname, hdesc, hstart, hend⟩
    · show ({ (payload.fields read).apply old with isActive := _ } : Project) = _
      rw [h]
      rfl
  | updateProfile userId payload =>
    refine Iff.trans ⟨fun h => ?_, fun h => ?_⟩ payload.fields_eq_iff
    · obtain ⟨-, -, hlast, hfirst, hlastKana, hfirstKana, hbirth⟩ := User.mk.inj h
      exact ProfileFields.mk.injEq .. ▸ ⟨hlast, hfirst, hlastKana, hfirstKana, hbirth⟩
    · show (payload.fields read).apply old = _
      rw [h]
      rfl

/-- From `db` to `db'`, the row of the call changes as its payload asks, and nothing else. -/
structure Frame (c : Call) (db db' : Db) : Prop where
  row : db'.row c.target = (db.row c.target).map c.patch
  other : ∀ i, i ≠ c.target → db'.row i = db.row i

/-- The row in `db` agrees with what the call read, in its second statement, on the fields that its
payload omits. -/
def ReadCurrent (c : Call) (σ : TaskSession) (db : Db) : Prop :=
  ∀ read ∈ (σ.snapshot 1).bind (·.row c.target), ∀ old ∈ db.row c.target, c.Agrees read old

end Call

/-- The end of a project is not before its start when both are set. -/
def RowPeriod : (i : RowId) → Row i → Prop
  | .project _, r => ∀ s ∈ r.startAt, ∀ e ∈ r.endAt, s ≤ e
  | _, _ => True

/-- Every project ends no earlier than it starts, as `ck_projects_period` says. -/
def PeriodsValid (db : Db) : Prop :=
  ∀ p r, db.row (.project p) = some r → ∀ s ∈ r.startAt, ∀ e ∈ r.endAt, s ≤ e

theorem not_endBeforeStart_iff {startAt endAt : Option Timestamp} :
    ¬EndBeforeStart startAt endAt ↔ ∀ s ∈ startAt, ∀ e ∈ endAt, s ≤ e := by
  unfold EndBeforeStart
  constructor
  · intro h s hs e he
    exact not_lt.mp fun hlt => h ⟨s, hs, e, he, hlt⟩
  · rintro h ⟨s, hs, e, he, hlt⟩
    exact absurd hlt (not_lt.mpr (h s hs e he))

/-! ### The statements -/

theorem setProject_sets (p : Uuid) (set : Project → Project) :
    (setProject p set).Sets (.project p) set where
  self _ := if_pos rfl
  other j r hj := by
    cases j with
    | project p' => exact if_neg fun h => hj (by rw [h])
    | _ => rfl

theorem setUser_sets (u : Uuid) (set : User → User) : (setUser u set).Sets (.user u) set where
  self _ := if_pos rfl
  other j r hj := by
    cases j with
    | user u' => exact if_neg fun h => hj (by rw [h])
    | _ => rfl

/-- The protocol of the calls from `db₀`: no row appears or disappears, and the periods are valid. -/
def callProtocol (db₀ : Db) : Protocol Unit Row LockKey Error :=
  rowProtocol (fun db => (∀ i, (db.row i).isSome = (db₀.row i).isSome) ∧ PeriodsValid db)
    fun _ _ _ _ => True

section Spec

variable {db₀ : Db} {σ : TaskSession} {db s : Db} {c : Call}

/-- A call has replaced its row by what it writes for the row of its second snapshot. -/
def CallDone (c : Call) (σ : TaskSession) (db : Db) : Prop :=
  ∃ s read old, σ.snapshot 1 = some s ∧ s.row c.target = some read ∧
    RowPeriod c.target (c.written read old) ∧ Rewrites c.target old (c.written read old) σ db

theorem periodsValid_view {i : RowId} {old new : Row i} (h : Rewrites i old new σ db)
    (hnew : RowPeriod i new) (hdb : PeriodsValid db) : PeriodsValid (σ.view db) := by
  intro p r hr
  by_cases hp : RowId.project p = i
  · subst hp
    obtain rfl := Option.some.inj (h.pending.symm.trans hr)
    exact hnew
  · rw [h.frame _ hp] at hr
    exact hdb p r hr

theorem CallDone.inv (h : CallDone c σ db) (hi : (callProtocol db₀).inv db) :
    (callProtocol db₀).inv (σ.view db) := by
  obtain ⟨s, read, old, -, -, hnew, h⟩ := h
  exact ⟨fun i => (h.isSome_row i).trans (hi.1 i), periodsValid_view h hnew hi.2⟩

/-- What a call has done is within the frame of its payload when its read was current. -/
theorem CallDone.frame_iff (h : CallDone c σ db) :
    c.Frame db (σ.view db) ↔ c.ReadCurrent σ db := by
  obtain ⟨s, read, old, hs, hread, -, h⟩ := h
  have hiff : c.ReadCurrent σ db ↔ c.Agrees read old := by
    unfold Call.ReadCurrent
    rw [hs, Option.bind_some, hread, h.committed]
    constructor
    · exact fun h => h read rfl old rfl
    · rintro h _ ⟨⟩ _ ⟨⟩
      exact h
  rw [hiff, ← c.written_eq_patch_iff]
  constructor
  · intro hf
    have hrow := hf.row
    rw [h.pending, h.committed] at hrow
    exact Option.some.inj hrow
  · intro hw
    refine ⟨?_, h.frame⟩
    rw [h.pending, h.committed, hw]
    rfl

/-- A row that was there when it was read stays. -/
theorem present_of_read {i : RowId} {r : Row i} (hi : (db.row i).isSome = (db₀.row i).isSome)
    (hr : db.row i = some r) : (db₀.row i).isSome = true := by
  rw [← hi, hr]
  rfl

theorem wp_requireProjectOwner {projectId : Uuid} {user : CurrentUser} {l : List Db}
    (hi : (callProtocol db₀).inv db) (h : Reading l σ db) :
    wp schema (callProtocol db₀) () (requireProjectOwner projectId user)
      (fun project σ db => ∃ s s', s.row (.project projectId) = some project ∧
        (db₀.row (.project projectId)).isSome = true ∧ Reading (s' :: s :: l) σ db) σ db := by
  refine wp_bind (wp_mono (wp_select_reading_inv h) ?_) hi
  rintro _ σ₁ db₁ hi₁ ⟨σ₀, db₀', h₀, -, hi₀, rfl, h₁⟩
  cases hrow : (σ₀.view db₀').row (.project projectId) with
  | none => trivial
  | some project =>
    refine wp_bind (wp_mono (wp_select_reading h₁) ?_) hi₁
    rintro member σ₂ db₂ hi₂ ⟨σ', db', -, -, -, h₂⟩
    refine wp_bind (wp_mono (wp_raiseIf_reading h₂) ?_) hi₂
    rintro _ σ₃ db₃ hi₃ ⟨-, h₃⟩
    refine wp_bind (wp_mono (wp_raiseIf_reading h₃) ?_) hi₃
    rintro _ σ₄ db₄ hi₄ ⟨-, h₄⟩
    have hpresent := present_of_read (hi₀.1 _) ((h₀.view_row _).symm.trans hrow)
    exact wp_ret fun db₅ hr₅ hi₅ => ⟨_, _, hrow, hpresent, h₄.rely hr₅ hi₅⟩

/-- `spUpdateProject` rewrites the project. -/
theorem wp_spUpdateProject {projectId : Uuid} {f : ProjectFields}
    (hpresent : (db₀.row (.project projectId)).isSome = true)
    (h : Effect.unchanged.Holds σ db) (hs : σ.snapshot 1 = some s)
    (hi : (callProtocol db₀).inv db) :
    wp schema (callProtocol db₀) () (spUpdateProject projectId f)
      (fun _ σ db => (∃ old, Rewrites (.project projectId) old (f.apply old) σ db) ∧
        σ.snapshot 1 = some s) σ db := by
  refine wp_bind (wp_mono (wp_raiseIf_stable (Effect.unchanged.stable.and
    (persistent_snapshot 1 s).toStable) (fun _ => trivial) ⟨h, hs⟩) ?_) hi
  rintro _ σ₁ db₁ hi₁ ⟨-, h₁, hs₁⟩
  refine wp_bind (wp_mono (wp_update_first (setProject_sets projectId f.apply)
    (persistent_snapshot 1 s) (fun db hi => (hi.1 _).trans hpresent) h₁ hs₁) ?_) hi₁
  rintro _ σ₂ db₂ hi₂ ⟨⟨old, h₂⟩, hs₂⟩
  exact wp_ret fun db₃ hr₃ hi₃ => ⟨⟨old, h₂.rely hr₃⟩, hs₂⟩

theorem wp_setProjectActive {projectId : Uuid} {isActive : Option Bool} {old new : Project}
    (h : Rewrites (.project projectId) old new σ db) (hs : σ.snapshot 1 = some s)
    (hi : (callProtocol db₀).inv db) :
    wp schema (callProtocol db₀) () (setProjectActive projectId isActive)
      (fun _ σ db => Rewrites (.project projectId) old
        { new with isActive := isActive.getD new.isActive } σ db ∧ σ.snapshot 1 = some s) σ db := by
  cases isActive with
  | none => exact wp_ret fun db' hr _ => ⟨h.rely hr, hs⟩
  | some b =>
    refine wp_bind (wp_mono (wp_update_again (setProject_sets projectId _)
      (persistent_snapshot 1 s) h hs) ?_) hi
    rintro _ σ₁ db₁ hi₁ ⟨h₁, hs₁⟩
    exact wp_ret fun db' hr _ => ⟨h₁.rely hr, hs₁⟩

theorem wp_updateProject {userId projectId : Uuid} {payload : ProjectUpdateRequest}
    (hi : (callProtocol db₀).inv db) :
    wp schema (callProtocol db₀) () (Call.updateProject userId projectId payload).proc
      (fun _ => CallDone (.updateProject userId projectId payload)) .start db := by
  refine wp_bind (wp_mono (wp_getCurrentUser hi reading_start) ?_) hi
  rintro user σ₁ db₁ hi₁ ⟨s₀, -, -, -, -, h₁⟩
  refine wp_bind (wp_mono (wp_requireProjectOwner hi₁ h₁) ?_) hi₁
  rintro project σ₂ db₂ hi₂ ⟨s, s', hread, hpresent, h₂⟩
  have hs₂ : σ₂.snapshot 1 = some s := by
    show σ₂.reads.reverse[1]? = some s
    rw [h₂.reads]
    rfl
  set f := payload.fields project with hf
  refine wp_bind (wp_mono (wp_raiseIf_stable (Effect.unchanged.stable.and
    (persistent_snapshot 1 s).toStable) (fun _ => trivial) ⟨h₂.unchanged, hs₂⟩) ?_) hi₂
  rintro _ σ₃ db₃ hi₃ ⟨hperiod, h₃, hs₃⟩
  refine wp_bind (wp_mono (wp_spUpdateProject hpresent h₃ hs₃ hi₃) ?_) hi₃
  rintro _ σ₄ db₄ hi₄ ⟨⟨old, h₄⟩, hs₄⟩
  refine wp_bind (wp_mono (wp_setProjectActive h₄ hs₄ hi₄) ?_) hi₄
  rintro _ σ₅ db₅ hi₅ ⟨h₅, hs₅⟩
  have hstable : (callProtocol db₀).Stable fun σ db => Rewrites (.project projectId) old
      { f.apply old with isActive := payload.isActive.getD old.isActive } σ db ∧
        σ.snapshot 1 = some s :=
    (rewrites_stable _ _ _).and (persistent_snapshot 1 s).toStable
  refine wp_bind (wp_mono (wp_select_stable hstable (fun _ => trivial) ⟨h₅, hs₅⟩) ?_) hi₅
  rintro _ σ₆ db₆ hi₆ ⟨h₆, -⟩
  refine wp_mono (wp_raiseIf_stable hstable (fun _ => trivial) h₆) ?_
  rintro _ σ₇ db₇ - ⟨-, h₇, hs₇⟩
  exact ⟨s, project, old, hs₇, hread, not_endBeforeStart_iff.mp hperiod, h₇⟩

theorem wp_requireNotNull {α : Type} {field : String} {value : Option (Option α)} {l : List Db}
    (h : Reading l σ db) :
    wp schema (callProtocol db₀) () (requireNotNull field value) (fun _ => Reading l) σ db :=
  wp_mono (wp_raiseIf_reading h) fun _ _ _ _ h' => h'.2

theorem wp_updateProfile {userId : Uuid} {payload : UserProfileUpdateRequest}
    (hi : (callProtocol db₀).inv db) :
    wp schema (callProtocol db₀) () (Call.updateProfile userId payload).proc
      (fun _ => CallDone (.updateProfile userId payload)) .start db := by
  refine wp_bind (wp_mono (wp_getCurrentUser hi reading_start) ?_) hi
  rintro _ σ₁ db₁ hi₁ ⟨s₀, u, -, -, rfl, h₁⟩
  refine wp_bind (wp_mono (wp_select_reading_inv h₁) ?_) hi₁
  rintro _ σ₂ db₂ hi₂ ⟨σ', db', h', -, hi', rfl, h₂⟩
  cases hrow : (σ'.view db').row (.user userId) with
  | none => trivial
  | some user =>
    have hpresent := present_of_read (hi'.1 _) ((h'.view_row _).symm.trans hrow)
    refine wp_bind (wp_mono (wp_requireNotNull h₂) fun _ σ₃ db₃ hi₃ h₃ => ?_) hi₂
    refine wp_bind (wp_mono (wp_requireNotNull h₃) fun _ σ₄ db₄ hi₄ h₄ => ?_) hi₃
    refine wp_bind (wp_mono (wp_requireNotNull h₄) fun _ σ₅ db₅ hi₅ h₅ => ?_) hi₄
    refine wp_bind (wp_mono (wp_requireNotNull h₅) fun _ σ₆ db₆ hi₆ h₆ => ?_) hi₅
    refine wp_bind (wp_mono (wp_requireNotNull h₆) fun _ σ₇ db₇ hi₇ h₇ => ?_) hi₆
    refine wp_bind (wp_mono (wp_update_first (setUser_sets userId _)
      (persistent_snapshot 1 (σ'.view db')) (fun db hi => (hi.1 _).trans hpresent) h₇.unchanged
      h₇.snapshot_length) ?_) hi₇
    rintro _ σ₈ db₈ hi₈ ⟨⟨old, h₈⟩, hs₈⟩
    exact wp_ret fun db₉ hr₉ hi₉ => ⟨_, user, old, hs₈, hrow, trivial, h₈.rely hr₉⟩

theorem wp_call (c : Call) (hi : (callProtocol db₀).inv db) :
    wp schema (callProtocol db₀) () c.proc (fun _ => CallDone c) .start db := by
  cases c with
  | updateProject userId projectId payload => exact wp_updateProject hi
  | updateProfile userId payload => exact wp_updateProfile hi

end Spec

/-! ### Runs -/

section Run

variable {τ : Type} [DecidableEq τ] [Fintype τ]

/-- In every run of `PATCH` calls, the periods of the projects are valid, and a call that commits
has changed its row as the payload asks, and nothing else, exactly when the row agrees with what
the call has read on the fields that the payload omits. -/
theorem patch_frame_iff {db₀ : Db} (hdb₀ : PeriodsValid db₀) {calls : τ → Call}
    {c : Config τ Row LockKey Uuid Error Unit}
    (hrun : Reachable schema (.init db₀ fun t => (calls t).proc) c) :
    PeriodsValid c.db ∧ ∀ t ch c' p σ, c.step schema t ch = some c' → c'.tx t = .done (.ok ()) →
      c.tx t = .active p σ → ((calls t).Frame c.db c'.db ↔ (calls t).ReadCurrent σ c.db) := by
  have hi : (callProtocol db₀).inv db₀ := ⟨fun _ => rfl, hdb₀⟩
  have hinit : Sound schema (callProtocol db₀) (fun _ => ()) (fun t _ => CallDone (calls t))
      (.init db₀ fun t => (calls t).proc) := sound_init hi fun t => wp_call (calls t) hi
  have hsound := hinit.run
    (fun _ _ _ _ hi h _ => rowProtocol_commits fun _ => CallDone.inv h hi)
    (hrun.mono fun _ _ _ _ _ _ _ _ _ => trivial)
  refine ⟨hsound.inv.2, fun t ch c' p σ hstep hdone htx => ?_⟩
  obtain ⟨σ', htx', hdb, hcall⟩ := hsound.of_commit hstep hdone
  obtain ⟨-, rfl⟩ := Tx.active.inj (htx.symm.trans htx')
  rw [hdb]
  exact hcall.frame_iff

end Run

/-! ### Two `PATCH`es of one project -/

/-- Project 5 of user 7, without a description. -/
def ownedProject : Db :=
  (Store.empty : Db).overlay
    [⟨.member 5 7, some { invitedBy := none }⟩,
      ⟨.project 5, some
        { ownerId := 7, name := "old", description := none, startAt := none, endAt := none,
          isActive := true }⟩,
      ⟨.user 7, some { role := .member, isActive := true }⟩]

/-- One `PATCH` names the name, the other the description. -/
def renameAndDescribe : Fin 2 → Call
  | 0 => .updateProject 7 5 { name := some "new" }
  | 1 => .updateProject 7 5 { description := some (some "text") }

theorem periodsValid_ownedProject : PeriodsValid ownedProject := by
  intro p r hr s hs
  by_cases hp : p = 5
  · subst hp
    obtain rfl := Option.some.inj hr
    cases hs
  · -- there is no other project
    have hnone : ownedProject.row (.project p) = none := by
      refine Store.overlay_row_of_forall_ne _ fun w hw => ?_
      simp only [List.mem_cons, List.not_mem_nil, or_false] at hw
      rcases hw with rfl | rfl | rfl
      · intro h
        cases h
      · exact fun h => hp (RowId.project.inj h).symm
      · intro h
        cases h
    rw [hnone] at hr
    cases hr

/-- The first has made its three reads when the second runs from its start to its commit; then it
writes. -/
def overlappingSteps : List (Fin 2 × Choice RowId Uuid) :=
  [(0, .go), (0, .go), (0, .go), (1, .go), (1, .go), (1, .go), (1, .go), (1, .pick (.project 5)),
    (1, .go), (1, .go), (1, .go), (0, .go), (0, .pick (.project 5)), (0, .go), (0, .go)]

/-- The state in which the first `PATCH` is about to commit. -/
def overlappingRun : Config (Fin 2) Row LockKey Uuid Error Unit :=
  (Config.init ownedProject fun t => (renameAndDescribe t).proc).execTo schema
    (fun _ _ _ => True) overlappingSteps (by decide)

/-- The `PATCH` of the name takes the description back. -/
theorem patch_undoes_patch :
    Reachable schema (.init ownedProject fun t => (renameAndDescribe t).proc) overlappingRun ∧
      ∃ c', overlappingRun.step schema 0 .go = some c' ∧ c'.tx 0 = .done (.ok ()) ∧
        (overlappingRun.db.row (.project 5)).map (·.description) = some (some "text") ∧
        (c'.db.row (.project 5)).map (·.description) = some none ∧
        ¬(renameAndDescribe 0).Frame overlappingRun.db c'.db := by
  refine ⟨run_execTo _, _, rfl, rfl, rfl, rfl, fun h => ?_⟩
  cases congrArg (Option.map Project.description) h.row

/-- The second runs from its start to its commit before the first begins. -/
def serialSteps : List (Fin 2 × Choice RowId Uuid) :=
  [(1, .go), (1, .go), (1, .go), (1, .go), (1, .pick (.project 5)), (1, .go), (1, .go), (1, .go),
    (0, .go), (0, .go), (0, .go), (0, .go), (0, .pick (.project 5)), (0, .go), (0, .go)]

def serialRun : Config (Fin 2) Row LockKey Uuid Error Unit :=
  (Config.init ownedProject fun t => (renameAndDescribe t).proc).execTo schema
    (fun _ _ _ => True) serialSteps (by decide)

/-- One after the other, both take effect. -/
theorem patch_frame_iff_serialRun :
    ∃ c', serialRun.step schema 0 .go = some c' ∧
      (c'.db.row (.project 5)).map (·.name) = some "new" ∧
      (c'.db.row (.project 5)).map (·.description) = some (some "text") ∧
      (renameAndDescribe 0).Frame serialRun.db c'.db := by
  have hstep : (serialRun.step schema 0 .go).isSome = true := rfl
  refine ⟨(serialRun.step schema 0 .go).get hstep, (Option.some_get hstep).symm, rfl, rfl, ?_⟩
  refine ((patch_frame_iff periodsValid_ownedProject (run_execTo _)).2 0 .go _ _ _
    (Option.some_get hstep).symm rfl rfl).mpr ?_
  rintro _ ⟨⟩ _ ⟨⟩
  exact ⟨nofun, fun _ => rfl, fun _ => rfl, fun _ => rfl⟩

end TaskDb
