import TaskManagement.Service.Listing

/-!
# Do the pages partition the list?

`pagination_iff`: for tasks and for notifications the pages are the selected rows, each once, and
the total is the same on every page that is asked for, exactly when every such page has an offset
that fits in an `INTEGER` and no rows with equal `created_at` are on two sides of a page boundary.
For projects no page beyond the last may be asked for besides, unless no project is selected, since
its total is 0 (`respondProjects_eq`).

* `Paginates` is what a list endpoint promises;
* `paginates_iff` is the result for an endpoint, with the total that it answers on each page.
-/

namespace Listing

open TaskDb (Uuid Timestamp Status Role)
open Pages

/-! ### Endpoints -/

/-- What the promise is about: the rows of a response, its total and its number of pages. -/
structure Listed (ρ : Type) where
  rows : List ρ
  total : ℕ
  totalPages : ℕ

/-- The pages that are asked for: the first one, those that `total_pages` counts, and the ones in
`requested`. -/
def Wanted (requested : Set ℕ) (totalPages p : ℕ) : Prop :=
  1 ≤ p ∧ (p = 1 ∨ p ≤ totalPages ∨ p ∈ requested)

/-- Whatever the order `q p` that the query of page `p` has, if the list is not refused with a
`NotFoundError`, then the pages that are asked for are answered, the pages `1, …, total_pages` are
the selected rows, each once, and the total is the same on every page.  A list that is refused has
no rows. -/
def Paginates {ρ Q : Type} (selected : List ρ) (respond : Q → ℕ → Except ListError (Listed ρ))
    (requested : Set ℕ) : Prop :=
  ∀ q : ℕ → Q, ((∀ p, respond (q p) p = .error .notFound) ∧ selected = []) ∨ ∃ r : ℕ → Listed ρ,
    (∀ p, Wanted requested (r 1).totalPages p → respond (q p) p = .ok (r p)) ∧
    ((List.range (r 1).totalPages).flatMap fun i => (r (i + 1)).rows).Perm selected ∧
    ∀ p, Wanted requested (r 1).totalPages p → (r p).total = (r 1).total

/-- `total_pages` -/
def totalPages (perPage total : ℕ) : ℕ := (total + perPage - 1) / perPage

/-- The queries of the pages that are asked for are sent. -/
def WindowsFit (perPage total : ℕ) (requested : Set ℕ) : Prop :=
  ∀ p, Wanted requested (totalPages perPage total) p → WindowFits perPage ((p - 1) * perPage)

/-- The number of pages is enough for the rows. -/
theorem length_le_totalPages {n : ℕ} (hn : 1 ≤ n) (total : ℕ) : total ≤ totalPages n total * n := by
  unfold totalPages
  have hmod := Nat.mod_lt (total + n - 1) (Nat.lt_of_lt_of_le Nat.zero_lt_one hn)
  have hdiv := Nat.div_add_mod (total + n - 1) n
  rw [Nat.mul_comm] at hdiv
  omega

/-- The pages up to `total_pages` are those that have rows. -/
theorem le_totalPages_iff {n p total : ℕ} (hn : 1 ≤ n) (hp : 1 ≤ p) :
    p ≤ totalPages n total ↔ (p - 1) * n < total := by
  have hmul : p * n = (p - 1) * n + n := by
    rw [← Nat.succ_mul, Nat.succ_eq_add_one, Nat.sub_add_cancel hp]
  rw [totalPages, Nat.le_div_iff_mul_le hn, hmul]
  omega

section

variable {ρ Q : Type} {key : ρ → Timestamp} {selected : List ρ} {n : ℕ} {requested : Set ℕ}

/-- An endpoint that answers a page of the selected rows, in the order of its query, with the total
`total p`, paginates exactly when its queries are sent, no rows with equal keys are on two pages and
every page has the total of the first. -/
theorem paginates_iff {respond : Q → ℕ → Except ListError (Listed ρ)} (hn : 1 ≤ n)
    (hnd : selected.Nodup) (order : Q → OrderBy key) (horder : ∀ o, ∃ q, order q = o)
    (rows : Q → ℕ → List ρ)
    (hrows : ∀ q p, (rows q p).Perm (page n ((p - 1) * n) ((order q).sort selected)))
    (total : ℕ → ℕ) (htotal : total 1 = selected.length)
    (hrespond : ∀ q p, respond q p = if WindowFits n ((p - 1) * n) then
      .ok ⟨rows q p, total p, totalPages n (total p)⟩ else .error .dbapi) :
    Paginates selected respond requested ↔ WindowsFit n selected.length requested ∧
      NoTieAcross key selected n ∧
      ∀ p, Wanted requested (totalPages n selected.length) p → total p = selected.length := by
  have hpages (q : ℕ → Q) (m : ℕ) : ((List.range m).flatMap fun i => rows (q (i + 1)) (i + 1)).Perm
      (pages (fun i => (order (q (i + 1))).sort selected) n m) := by
    refine List.Perm.flatMap_left _ fun i _ => ?_
    have h := hrows (q (i + 1)) (i + 1)
    rwa [Nat.add_sub_cancel] at h
  rw [← pages_perm_iff hn hnd (length_le_totalPages hn selected.length)]
  constructor
  · intro hall
    -- what the pages are, in any choice of orders
    have hkey (q : ℕ → Q) : WindowsFit n selected.length requested ∧
        (pages (fun i => (order (q (i + 1))).sort selected) n
          (totalPages n selected.length)).Perm selected ∧
        ∀ p, Wanted requested (totalPages n selected.length) p → total p = selected.length := by
      rcases hall q with ⟨hno, -⟩ | ⟨r, hanswer, hperm, hsame⟩
      · have h := hno 1
        rw [hrespond] at h
        split_ifs at h
        cases h
      · have hr (p : ℕ) (hp : Wanted requested (r 1).totalPages p) :
            WindowFits n ((p - 1) * n) ∧ r p = ⟨rows (q p) p, total p, totalPages n (total p)⟩ := by
          have h := hanswer p hp
          rw [hrespond] at h
          split_ifs at h with hfits
          exact ⟨hfits, (Except.ok.inj h).symm⟩
        have hfirst := (hr 1 ⟨le_rfl, Or.inl rfl⟩).2
        have hlast : (r 1).totalPages = totalPages n selected.length := by rw [hfirst, htotal]
        rw [hlast] at hr hperm hsame
        refine ⟨fun p hp => (hr p hp).1, ?_, fun p hp => ?_⟩
        · refine (hpages q _).symm.trans (List.Perm.trans (List.Perm.of_eq ?_) hperm)
          refine List.flatMap_congr fun i hi => ?_
          have hwanted : Wanted requested (totalPages n selected.length) (i + 1) :=
            ⟨Nat.le_add_left 1 i, Or.inr (Or.inl (List.mem_range.mp hi))⟩
          rw [(hr (i + 1) hwanted).2]
        · have h := hsame p hp
          rwa [(hr p hp).2, hfirst, htotal] at h
    obtain ⟨q, hq⟩ := horder (OrderBy.mergeSort key)
    refine ⟨(hkey fun _ => q).1, fun ord => ?_, (hkey fun _ => q).2.2⟩
    choose q hq using fun p => horder (ord (p - 1))
    have h := (hkey q).2.1
    simpa only [hq, Nat.add_sub_cancel] using h
  · rintro ⟨hfits, hperm, hsame⟩ q
    refine Or.inr ⟨fun p => ⟨rows (q p) p, total p, totalPages n (total p)⟩, ?_⟩
    dsimp only
    rw [htotal]
    refine ⟨fun p hp => ?_, ?_, fun p hp => hsame p hp⟩
    · rw [hrespond, if_pos (hfits p hp)]
    · exact (hpages q _).trans (hperm fun i => order (q (i + 1)))

end

/-! ### Tasks -/

/-- The tasks that the filter of `list_tasks` selects. -/
def selectedTasks (db : Db) (user : User) (filter : ProjectIdFilter) (status : Option Status)
    (includeInactive : Bool) : List Task :=
  db.tasks.rows.filter
    (taskSelected db user.id filter.projectId status includeInactive filter.isUnassigned)

def ListResponse.listed {ρ σ : Type} (row : ρ → σ) (r : ListResponse ρ) : Listed σ :=
  ⟨r.items.map row, r.listMeta.total, r.listMeta.totalPages⟩

/-- `list_tasks` with the tasks of its items. -/
def respondTasks (db : Db) (user : User) (filter : ProjectIdFilter) (status : Option Status)
    (includeInactive : Bool) (perPage : ℕ) (o : OrderBy Task.createdAt) (p : ℕ) :
    Except ListError (Listed Task) :=
  (listTasks o db user filter status includeInactive p perPage).map
    (ListResponse.listed TaskListRow.task)

theorem Table.filter_nodup {ρ : Type} {id : ρ → Uuid} (t : Table ρ id) (f : ρ → Bool) :
    (t.rows.filter f).Nodup :=
  t.id_nodup.of_map.filter f

/-- The total of a list query is the number of the selected tasks, on an empty page too. -/
theorem listForUserWithTotal_eq (o : OrderBy Task.createdAt) (db : Db) (userId : Uuid)
    (projectId : Option Uuid) (status : Option Status) (includeInactive : Bool)
    (limit offset : ℕ) (unassigned : Bool) :
    listForUserWithTotal o db userId projectId status includeInactive limit offset unassigned =
      if WindowFits limit offset then
        .ok (fnListTasks o db userId projectId status includeInactive limit offset unassigned,
          (db.tasks.rows.filter
            (taskSelected db userId projectId status includeInactive unassigned)).length)
      else .error .dbapi := by
  unfold listForUserWithTotal
  rw [sendWindow_bind]
  congr 1
  cases h : fnListTasks o db userId projectId status includeInactive limit offset unassigned with
  | nil =>
    show Except.ok ([], fnCountTasks db userId projectId status includeInactive unassigned) = _
    rw [fnCountTasks, List.countP_eq_length_filter]
  | cons row rows =>
    have hrow : row ∈ fnListTasks o db userId projectId status includeInactive limit offset
        unassigned := by
      rw [h]
      exact List.mem_cons_self
    obtain ⟨t, -, rfl⟩ := List.mem_map.mp hrow
    rfl

/-- The tasks of the rows are a page of the selected ones, as the query sorts them. -/
theorem map_task_fnListTasks (o : OrderBy Task.createdAt) (db : Db) (user : User)
    (filter : ProjectIdFilter) (status : Option Status) (includeInactive : Bool)
    (limit offset : ℕ) :
    (fnListTasks o db user.id filter.projectId status includeInactive limit offset
        filter.isUnassigned).map TaskListRow.task =
      page limit offset (o.sort (selectedTasks db user filter status includeInactive)) := by
  rw [fnListTasks, List.map_map]
  exact List.map_id _

/-- Where `list_tasks` answers `NotFoundError`, its filter selects no task. -/
theorem selectedTasks_eq_nil {db : Db} {user : User} {filter : ProjectIdFilter}
    {status : Option Status} {includeInactive : Bool} (huser : user ∈ db.users.rows)
    (hactive : user.isActive) (hrefuses : refusesList db user filter = true) :
    selectedTasks db user filter status includeInactive = [] := by
  obtain ⟨hrole, hmember⟩ := Bool.and_eq_true_iff.mp hrefuses
  have hrole : user.role ≠ .admin := bne_iff_ne.mp hrole
  cases filter with
  | all => cases hmember
  | unassigned => cases hmember
  | project p =>
    have hno : isMember db p user.id = false := by
      simp only [ProjectIdFilter.projectId, Option.any_some, Bool.not_eq_true', fnIsProjectMember,
        List.any_eq_false, Bool.and_eq_true, not_and, Bool.or_eq_true, not_or, beq_iff_eq]
        at hmember
      simpa using (hmember user huser ⟨rfl, hactive⟩).2
    have hadmin : isAdmin db user.id = false := by
      simp only [isAdmin, List.any_eq_false, Bool.and_eq_true, beq_iff_eq, not_and]
      intro u hu hid
      rwa [List.inj_on_of_nodup_map db.users.id_nodup hu huser hid]
    refine List.filter_eq_nil_iff.mpr fun t _ => ?_
    simp [taskSelected, ProjectIdFilter.projectId, hno, hadmin]

/-- `list_tasks` for a user whom it does not refuse. -/
theorem respondTasks_eq {db : Db} {user : User} {filter : ProjectIdFilter}
    (status : Option Status) (includeInactive : Bool) (perPage : ℕ)
    (hrefuses : ¬refusesList db user filter = true) (o : OrderBy Task.createdAt) (p : ℕ) :
    respondTasks db user filter status includeInactive perPage o p =
      if WindowFits perPage ((p - 1) * perPage) then
        .ok ⟨page perPage ((p - 1) * perPage)
            (o.sort (selectedTasks db user filter status includeInactive)),
          (selectedTasks db user filter status includeInactive).length,
          totalPages perPage (selectedTasks db user filter status includeInactive).length⟩
      else .error .dbapi := by
  rw [respondTasks, listTasks, if_neg hrefuses, listForUserWithTotal_eq]
  split_ifs
  · rw [← map_task_fnListTasks]
    rfl
  · rfl

theorem tasks_paginate_iff (db : Db) (user : User) (filter : ProjectIdFilter)
    (status : Option Status) (includeInactive : Bool) {perPage : ℕ} (hn : 1 ≤ perPage)
    (requested : Set ℕ) (huser : user ∈ db.users.rows) (hactive : user.isActive) :
    Paginates (selectedTasks db user filter status includeInactive)
        (respondTasks db user filter status includeInactive perPage) requested ↔
      refusesList db user filter = true ∨
        WindowsFit perPage (selectedTasks db user filter status includeInactive).length requested ∧
          NoTieAcross Task.createdAt (selectedTasks db user filter status includeInactive)
            perPage := by
  by_cases hrefuses : refusesList db user filter = true
  · refine iff_of_true (fun q => Or.inl ⟨fun p => ?_, ?_⟩) (Or.inl hrefuses)
    · rw [respondTasks, listTasks, if_pos hrefuses]
      rfl
    · exact selectedTasks_eq_nil huser hactive hrefuses
  · rw [or_iff_right hrefuses]
    refine (paginates_iff hn (db.tasks.filter_nodup _) id (fun o => ⟨o, rfl⟩) _
      (fun _ _ => List.Perm.refl _) (fun _ => _) rfl
      (respondTasks_eq status includeInactive perPage hrefuses)).trans ?_
    exact and_congr_right fun _ => and_iff_left fun _ _ => rfl

/-! ### Notifications -/

/-- The notifications that the filter of `list_notifications` selects. -/
def selectedNotifications (db : Db) (user : User) (unreadOnly : Bool) : List Notification :=
  db.notifications.rows.filter (notificationSelected user.id unreadOnly)

/-- `list_notifications` with the notifications of its items, for the two sorts of its query. -/
def respondNotifications (db : Db) (user : User) (unreadOnly : Bool) (perPage : ℕ)
    (o : OrderBy Notification.createdAt × OrderBy Notification.createdAt) (p : ℕ) :
    Except ListError (Listed Notification) :=
  (listNotifications o.1 o.2 db user p perPage unreadOnly).map fun r =>
    r.listed NotificationListItem.notification

/-- The total is counted over the selection, on a page without rows by a query of its own. -/
theorem respondNotifications_eq (db : Db) (user : User) (unreadOnly : Bool) (perPage : ℕ)
    (o : OrderBy Notification.createdAt × OrderBy Notification.createdAt) (p : ℕ) :
    respondNotifications db user unreadOnly perPage o p =
      if WindowFits perPage ((p - 1) * perPage) then
        .ok ⟨o.2.sort (page perPage ((p - 1) * perPage)
            (o.1.sort (selectedNotifications db user unreadOnly))),
          (selectedNotifications db user unreadOnly).length,
          totalPages perPage (selectedNotifications db user unreadOnly).length⟩
      else .error .dbapi := by
  unfold respondNotifications listNotifications
  rw [sendWindow_bind]
  by_cases hfits : WindowFits perPage ((p - 1) * perPage)
  · rw [if_pos hfits, if_pos hfits]
    have hitems : (fnListNotifications o.1 o.2 db user.id unreadOnly perPage
        ((p - 1) * perPage)).map NotificationListItem.notification =
          o.2.sort (page perPage ((p - 1) * perPage)
            (o.1.sort (selectedNotifications db user unreadOnly))) := by
      rw [fnListNotifications, List.map_map]
      exact List.map_id _
    rw [← hitems]
    dsimp only
    cases h : fnListNotifications o.1 o.2 db user.id unreadOnly perPage ((p - 1) * perPage) with
    | nil =>
      show Except.ok (ListResponse.listed _ ⟨[], listMeta p perPage
        (fnCountNotifications db user.id unreadOnly)⟩) = _
      rw [fnCountNotifications, List.countP_eq_length_filter]
      rfl
    | cons row rows =>
      have hrow : row ∈ fnListNotifications o.1 o.2 db user.id unreadOnly perPage
          ((p - 1) * perPage) := by
        rw [h]
        exact List.mem_cons_self
      obtain ⟨n, -, rfl⟩ := List.mem_map.mp hrow
      rfl
  · rw [if_neg hfits, if_neg hfits]
    rfl

theorem notifications_paginate_iff (db : Db) (user : User) (unreadOnly : Bool) {perPage : ℕ}
    (hn : 1 ≤ perPage) (requested : Set ℕ) :
    Paginates (selectedNotifications db user unreadOnly)
        (respondNotifications db user unreadOnly perPage) requested ↔
      WindowsFit perPage (selectedNotifications db user unreadOnly).length requested ∧
        NoTieAcross Notification.createdAt (selectedNotifications db user unreadOnly) perPage := by
  refine (paginates_iff hn (db.notifications.filter_nodup _) Prod.fst (fun o => ⟨(o, o), rfl⟩) _
    (fun o p => o.2.perm _) (fun _ => _) rfl
    (respondNotifications_eq db user unreadOnly perPage)).trans ?_
  exact and_congr_right fun _ => and_iff_left fun _ _ => rfl

/-! ### Projects -/

/-- The projects that the filter of `list_projects` selects. -/
def selectedProjects (db : Db) (user : User) (includeInactive : Bool) : List Project :=
  db.projects.rows.filter (projectSelected db user.id includeInactive)

/-- `list_projects` with the projects of its items, for the two sorts of its query. -/
def respondProjects (db : Db) (user : User) (includeInactive : Bool) (perPage : ℕ)
    (o : OrderBy Project.createdAt × OrderBy Project.createdAt) (p : ℕ) :
    Except ListError (Listed Project) :=
  (listProjects o.1 o.2 db user p perPage includeInactive).map
    (ListResponse.listed ProjectListItem.project)

/-- The total of the projects is 0 on an empty page. -/
def projectsTotal (db : Db) (user : User) (includeInactive : Bool) (perPage p : ℕ) : ℕ :=
  if (selectedProjects db user includeInactive).length ≤ (p - 1) * perPage then 0
  else (selectedProjects db user includeInactive).length

theorem respondProjects_eq (db : Db) (user : User) (includeInactive : Bool) {perPage : ℕ}
    (hn : 1 ≤ perPage) (o : OrderBy Project.createdAt × OrderBy Project.createdAt) (p : ℕ) :
    respondProjects db user includeInactive perPage o p =
      if WindowFits perPage ((p - 1) * perPage) then
        .ok ⟨o.2.sort (page perPage ((p - 1) * perPage)
            (o.1.sort (selectedProjects db user includeInactive))),
          projectsTotal db user includeInactive perPage p,
          totalPages perPage (projectsTotal db user includeInactive perPage p)⟩
      else .error .dbapi := by
  unfold respondProjects listProjects
  rw [sendWindow_bind]
  split_ifs
  · have hperm := o.2.perm (page perPage ((p - 1) * perPage)
      (o.1.sort (selectedProjects db user includeInactive)))
    have hlen := (o.1.perm (selectedProjects db user includeInactive)).length_eq
    have hitems : (fnListProjects o.1 o.2 db user.id includeInactive perPage
        ((p - 1) * perPage)).map ProjectListItem.project =
          o.2.sort (page perPage ((p - 1) * perPage)
            (o.1.sort (selectedProjects db user includeInactive))) := by
      rw [fnListProjects, List.map_map]
      exact List.map_id _
    rw [← hitems] at hperm ⊢
    dsimp only
    cases h : fnListProjects o.1 o.2 db user.id includeInactive perPage ((p - 1) * perPage) with
    | nil =>
      rw [h, List.map_nil, List.nil_perm, page_eq_nil_iff hn, hlen] at hperm
      rw [projectsTotal, if_pos hperm]
      rfl
    | cons item items =>
      have hitem : item ∈ fnListProjects o.1 o.2 db user.id includeInactive perPage
          ((p - 1) * perPage) := by
        rw [h]
        exact List.mem_cons_self
      obtain ⟨x, hx, rfl⟩ := List.mem_map.mp hitem
      have hbeyond : ¬(selectedProjects db user includeInactive).length ≤ (p - 1) * perPage := by
        rw [← hlen, ← page_eq_nil_iff hn]
        intro hnil
        rw [hnil, h] at hperm
        cases hperm.eq_nil
      rw [projectsTotal, if_neg hbeyond]
      rfl
  · rfl

/-- Beyond the last page the total of the projects is lost. -/
theorem projectsTotal_eq_iff (db : Db) (user : User) (includeInactive : Bool) {perPage : ℕ}
    (hn : 1 ≤ perPage) (requested : Set ℕ) :
    (∀ p, Wanted requested (totalPages perPage (selectedProjects db user includeInactive).length) p →
        projectsTotal db user includeInactive perPage p =
          (selectedProjects db user includeInactive).length) ↔
      selectedProjects db user includeInactive = [] ∨ ∀ p ∈ requested,
        p ≤ totalPages perPage (selectedProjects db user includeInactive).length := by
  by_cases hnil : selectedProjects db user includeInactive = []
  · refine iff_of_true (fun p _ => ?_) (Or.inl hnil)
    rw [projectsTotal, hnil, List.length_nil, ite_self]
  · have hpos := List.length_pos_iff.mpr hnil
    rw [or_iff_right hnil]
    -- a page has the total exactly if it is one of `total_pages`
    have htotal (p : ℕ) (hp : 1 ≤ p) : projectsTotal db user includeInactive perPage p =
        (selectedProjects db user includeInactive).length ↔
          p ≤ totalPages perPage (selectedProjects db user includeInactive).length := by
      rw [le_totalPages_iff hn hp, projectsTotal]
      split_ifs <;> omega
    have hfirst : 1 ≤ totalPages perPage (selectedProjects db user includeInactive).length := by
      rw [le_totalPages_iff hn le_rfl]
      omega
    constructor
    · intro h p hp
      rcases Nat.eq_zero_or_pos p with rfl | hp₀
      · exact Nat.zero_le _
      · exact (htotal p hp₀).mp (h p ⟨hp₀, Or.inr (Or.inr hp)⟩)
    · rintro h p ⟨hp₀, rfl | hp | hp⟩
      · exact (htotal 1 hp₀).mpr hfirst
      · exact (htotal p hp₀).mpr hp
      · exact (htotal p hp₀).mpr (h p hp)

theorem projects_paginate_iff (db : Db) (user : User) (includeInactive : Bool) {perPage : ℕ}
    (hn : 1 ≤ perPage) (requested : Set ℕ) :
    Paginates (selectedProjects db user includeInactive)
        (respondProjects db user includeInactive perPage) requested ↔
      WindowsFit perPage (selectedProjects db user includeInactive).length requested ∧
        NoTieAcross Project.createdAt (selectedProjects db user includeInactive) perPage ∧
        (selectedProjects db user includeInactive = [] ∨ ∀ p ∈ requested,
          p ≤ totalPages perPage (selectedProjects db user includeInactive).length) := by
  have hfirst : projectsTotal db user includeInactive perPage 1 =
      (selectedProjects db user includeInactive).length := by
    rw [projectsTotal]
    split_ifs <;> omega
  rw [← projectsTotal_eq_iff db user includeInactive hn]
  exact paginates_iff hn (db.projects.filter_nodup _) Prod.fst (fun o => ⟨(o, o), rfl⟩) _
    (fun o p => o.2.perm _) _ hfirst (respondProjects_eq db user includeInactive hn)

/-- **When the pages partition the list.** -/
theorem pagination_iff (db : Db) (user : User) (filter : ProjectIdFilter) (status : Option Status)
    (includeInactive unreadOnly : Bool) {perPage : ℕ} (hn : 1 ≤ perPage) (requested : Set ℕ)
    (huser : user ∈ db.users.rows) (hactive : user.isActive) :
    (Paginates (selectedTasks db user filter status includeInactive)
        (respondTasks db user filter status includeInactive perPage) requested ↔
      refusesList db user filter = true ∨
        WindowsFit perPage (selectedTasks db user filter status includeInactive).length requested ∧
          NoTieAcross Task.createdAt (selectedTasks db user filter status includeInactive)
            perPage) ∧
    (Paginates (selectedNotifications db user unreadOnly)
        (respondNotifications db user unreadOnly perPage) requested ↔
      WindowsFit perPage (selectedNotifications db user unreadOnly).length requested ∧
        NoTieAcross Notification.createdAt (selectedNotifications db user unreadOnly) perPage) ∧
    (Paginates (selectedProjects db user includeInactive)
        (respondProjects db user includeInactive perPage) requested ↔
      WindowsFit perPage (selectedProjects db user includeInactive).length requested ∧
        NoTieAcross Project.createdAt (selectedProjects db user includeInactive) perPage ∧
        (selectedProjects db user includeInactive = [] ∨ ∀ p ∈ requested,
          p ≤ totalPages perPage (selectedProjects db user includeInactive).length)) :=
  ⟨tasks_paginate_iff db user filter status includeInactive hn requested huser hactive,
    notifications_paginate_iff db user unreadOnly hn requested,
    projects_paginate_iff db user includeInactive hn requested⟩

/-- A task of the project 2, of the moment 0. -/
def sameMomentTask (id : Uuid) (title : String) (position : ℤ) : Task where
  id := id
  projectId := some 2
  title := title
  description := none
  status := .todo
  assigneeId := none
  createdBy := 1
  position := position
  version := 1
  dueAt := none
  isActive := true
  createdAt := 0
  updatedAt := 0

/-- An administrator, a project, and two tasks and two notifications of the same moment. -/
def sameMomentDb : Db where
  users := ⟨[⟨1, .admin, true⟩], by decide⟩
  projects := ⟨[⟨2, 1, true, 0⟩], by decide⟩
  projectMembers := [⟨2, 1⟩]
  tasks := ⟨[sameMomentTask 3 "a" 0, sameMomentTask 4 "b" 1], by decide⟩
  taskComments := []
  notifications := ⟨[⟨5, 1, some 3, none, 0⟩, ⟨6, 1, some 4, none, 0⟩], by decide⟩

/-- The windows of a list with one page, and with the page after it. -/
theorem windowsFit_two {total : ℕ} (htotal : total ≤ 2) {requested : Set ℕ}
    (h : ∀ p ∈ requested, p ≤ 2) : WindowsFit 2 total requested := by
  rintro p ⟨-, hp⟩
  have hlast : totalPages 2 total ≤ 1 := by
    unfold totalPages
    omega
  have hle : p ≤ 2 := by
    rcases hp with rfl | hp | hp
    · omega
    · omega
    · exact h p hp
  exact ⟨by decide, by unfold TaskDb.maxInteger; omega⟩

/-- Two rows on a page of two rows are on no two sides of a boundary. -/
theorem noTieAcross_two {ρ : Type} {key : ρ → Timestamp} {rows : List ρ} (h : rows.length ≤ 2) :
    NoTieAcross key rows 2 := by
  rintro a - i ⟨hlow, hhigh⟩
  have hle : upTo key rows (key a) ≤ rows.length := upTo_le_length (key a)
  omega

theorem pagination_iff_sameMomentDb :
    Paginates (selectedTasks sameMomentDb ⟨1, .admin, true⟩ .all none false)
        (respondTasks sameMomentDb ⟨1, .admin, true⟩ .all none false 2) {2} ∧
      Paginates (selectedNotifications sameMomentDb ⟨1, .admin, true⟩ true)
        (respondNotifications sameMomentDb ⟨1, .admin, true⟩ true 2) {2} ∧
      ¬Paginates (selectedProjects sameMomentDb ⟨1, .admin, true⟩ false)
        (respondProjects sameMomentDb ⟨1, .admin, true⟩ false 2) {2} := by
  have hn : 1 ≤ 2 := by decide
  obtain ⟨htasks, hnotifications, hprojects⟩ := pagination_iff sameMomentDb ⟨1, .admin, true⟩ .all
    none false true hn {2} (by decide) rfl
  refine ⟨htasks.mpr (Or.inr ⟨windowsFit_two (by decide) fun p hp => hp.le, ?_⟩),
    hnotifications.mpr ⟨windowsFit_two (by decide) fun p hp => hp.le, ?_⟩, fun h => ?_⟩
  · exact noTieAcross_two (by decide)
  · exact noTieAcross_two (by decide)
  · rcases (hprojects.mp h).2.2 with hnil | hlast
    · exact absurd hnil (by decide)
    · exact absurd (hlast 2 rfl) (by decide)

/-- With one row on a page the two tasks of the same moment do not always both show, nor do the two
notifications; the total of the projects is lost on the page beyond the last; and a page whose
offset is no `INTEGER` is not answered. -/
theorem pagination_fails :
    ¬Paginates (selectedTasks sameMomentDb ⟨1, .admin, true⟩ .all none false)
        (respondTasks sameMomentDb ⟨1, .admin, true⟩ .all none false 1) ∅ ∧
      ¬Paginates (selectedNotifications sameMomentDb ⟨1, .admin, true⟩ false)
        (respondNotifications sameMomentDb ⟨1, .admin, true⟩ false 1) ∅ ∧
      ¬Paginates (selectedProjects sameMomentDb ⟨1, .admin, true⟩ false)
        (respondProjects sameMomentDb ⟨1, .admin, true⟩ false 1) {2} ∧
      ¬Paginates (selectedTasks sameMomentDb ⟨1, .admin, true⟩ .all none false)
        (respondTasks sameMomentDb ⟨1, .admin, true⟩ .all none false 2) {1073741825} := by
  refine ⟨fun hall => ?_, fun hall => ?_, fun hall => ?_, fun hall => ?_⟩
  · rcases (tasks_paginate_iff _ _ _ _ _ le_rfl ∅ (by decide) rfl).mp hall with hrefuses | ⟨-, hno⟩
    · cases hrefuses
    · exact hno (sameMomentTask 3 "a" 0) (by decide) 1 ⟨by decide, by decide⟩
  · obtain ⟨-, hno⟩ := (notifications_paginate_iff _ _ _ le_rfl ∅).mp hall
    exact hno ⟨5, 1, some 3, none, 0⟩ (by decide) 1 ⟨by decide, by decide⟩
  · rcases ((projects_paginate_iff _ _ _ le_rfl {2}).mp hall).2.2 with hnil | hlast
    · exact absurd hnil (by decide)
    · exact absurd (hlast 2 rfl) (by decide)
  · rcases (tasks_paginate_iff _ _ _ _ _ (by decide) {1073741825} (by decide) rfl).mp hall with
      hrefuses | ⟨hfits, -⟩
    · cases hrefuses
    · exact absurd (hfits 1073741825 ⟨by decide, Or.inr (Or.inr rfl)⟩).2 (by decide)

end Listing
