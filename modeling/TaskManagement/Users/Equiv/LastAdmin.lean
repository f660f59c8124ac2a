import TaskManagement.ReadCommitted.Soundness
import TaskManagement.Users.Procedures

/-!
# The last active admin

`last_admin_kept`: along every run of any number of `sp_admin_update_user_role` and
`sp_admin_update_user_status`, some user stays an active admin if one was at the beginning; a call
that raises changes nothing, and a call that succeeds leaves the row of its actor alone.

Both procedures count the other active admins and then write the target, which is another row than
those that were counted.  What makes the count valid until the commit is the advisory lock: a
session that holds it sees every later snapshot with the rows unchanged by others
(`adminProtocol`), and the count is taken in a statement after the lock.
-/

namespace UserDb

open ReadCommitted

/-- Some user is an active admin. -/
def HasActiveAdmin (db : Db) : Prop := ∃ u r, db.row (.user u) = some r ∧ r.isActiveAdmin = true

/-- The transactions of `change_role` and `change_status`. -/
inductive AdminCall : Type where
  | updateUserRole (actorId targetId : Uuid) (newRole : String)
  | updateUserStatus (actorId targetId : Uuid) (isActive : Bool)
deriving DecidableEq, Repr

def AdminCall.proc : AdminCall → UserProc Unit
  | .updateUserRole a t newRole => do
    let _ ← spAdminUpdateUserRole a t newRole
    return ()
  | .updateUserStatus a t isActive => do
    let _ ← spAdminUpdateUserStatus a t isActive
    return ()

def AdminCall.actorId : AdminCall → Uuid
  | .updateUserRole a _ _ => a
  | .updateUserStatus a _ _ => a

/-- Who holds the advisory lock is alone with the rows.  Under `kept`, some user is an active admin
in every committed database. -/
def adminProtocol (kept : Prop) : Protocol Unit Row LockKey Error where
  inv db := kept → HasActiveAdmin db
  rely σ db db' := LockKey.adminProtection ∈ σ.keys → db'.row = db.row
  assume _ _ _ _ := True
  require _ _ _ := True
  allowed _ := True
  rely_refl _ _ _ := rfl
  rely_trans _ _ _ _ h h' hk := (h' hk).trans (h hk)

/-- A user other than the target is an active admin. -/
def OtherActiveAdmin (db : Db) (target : Uuid) : Prop :=
  ∃ u r, u ≠ target ∧ db.row (.user u) = some r ∧ r.isActiveAdmin = true

variable {kept : Prop} {σ : UserSession} {db db' : Db} {actor target : Uuid} {old : User}

/-! ### The count -/

theorem countOtherActiveAdmins_ne_zero (h : countOtherActiveAdmins db target ≠ 0) :
    OtherActiveAdmin db target := by
  obtain ⟨u, -, hu⟩ := List.countP_pos_iff.mp (Nat.pos_of_ne_zero h)
  rw [Bool.and_eq_true, decide_eq_true_iff] at hu
  obtain ⟨r, hr, hadmin⟩ := (Option.any_eq_true _ _).mp hu.1
  exact ⟨u, r, hu.2, hr, hadmin⟩

/-! ### The procedures -/

/-- The session holds the advisory lock, has written nothing and sees the target as `old`. -/
structure Locked (target : Uuid) (old : User) (σ : UserSession) (db : Db) : Prop where
  key : LockKey.adminProtection ∈ σ.keys
  writes : σ.writes = []
  row : db.row (.user target) = some old

theorem Locked.view (h : Locked target old σ db) : σ.view db = db := by
  unfold Session.view
  rw [h.writes]
  rfl

theorem locked_stable : (adminProtocol kept).Stable (Locked target old) where
  rely h hr _ := ⟨h.key, h.writes, (congrFun (hr h.key) _).trans h.row⟩
  saw _ h := ⟨h.key, h.writes, h.row⟩

/-- What a call owes at its commit. -/
structure Settled (kept : Prop) (actor : Uuid) (σ : UserSession) (db : Db) : Prop where
  key : LockKey.adminProtection ∈ σ.keys
  actor : (σ.view db).row (.user actor) = db.row (.user actor)
  admin : kept → HasActiveAdmin (σ.view db)

theorem wp_lockTarget (hi : (adminProtocol kept).inv db) :
    wp schema (adminProtocol kept) () (lockTarget actor target)
      (fun old σ db => actor ≠ target ∧ Locked target old σ db) .start db := by
  refine wp_bind (wp_raiseIf (fun _ => trivial) fun hne db₁ _ hi₁ => ?_) hi
  refine wp_bind (wp_advisoryLock fun db₂ _ _ => ⟨trivial, fun _ db₃ _ hi₃ => ?_⟩) hi₁
  refine wp_bind (wp_selectForUpdate fun db₄ _ _ => ⟨trivial, fun _ db₅ hr₅ hi₅ => ?_⟩) hi₃
  rw [Session.lockKey_view, Session.start_view]
  cases hrow : db₄.row (.user target) with
  | none => trivial
  | some old =>
    have hstep : ((Session.start : UserSession).lockKey .adminProtection).lockStep db₄
        (.user target) = (Session.start.lockKey .adminProtection).lockRow (.user target) := by
      unfold Session.lockStep
      rw [Session.lockKey_view, Session.start_view, hrow]
    rw [hstep] at hr₅ ⊢
    have hkey : LockKey.adminProtection ∈ ((Session.start : UserSession).lockKey
        .adminProtection).keys := List.mem_cons_self
    refine wp_ret fun db₆ hr₆ hi₆ => ⟨hne, locked_stable.rely ⟨hkey, rfl, ?_⟩ hr₆ hi₆⟩
    exact (congrFun (hr₅ hkey) _).trans hrow

/-- After the check, the target stays an active admin or there is another one. -/
theorem wp_requireOtherActiveAdmin {stays : Prop} [Decidable stays]
    (hi : (adminProtocol kept).inv db) (h : Locked target old σ db) :
    wp schema (adminProtocol kept) () (requireOtherActiveAdmin target old stays)
      (fun _ σ db => Locked target old σ db ∧
        (old.isActiveAdmin = true → ¬stays → OtherActiveAdmin db target)) σ db := by
  unfold requireOtherActiveAdmin
  split_ifs with hc
  · refine wp_bind (wp_select fun db₁ hr₁ hi₁ => ⟨trivial, fun _ db₂ hr₂ hi₂ => ?_⟩) hi
    have h₁ : Locked target old σ db₁ := locked_stable.rely h hr₁ hi₁
    have h₂ : Locked target old (σ.saw (σ.view db₁)) db₂ :=
      locked_stable.rely ⟨h₁.key, h₁.writes, h₁.row⟩ hr₂ hi₂
    rw [h₁.view] at h₂ ⊢
    refine wp_raiseIf (fun _ => trivial) fun hn db₃ hr₃ hi₃ => ⟨locked_stable.rely h₂ hr₃ hi₃, ?_⟩
    -- the rows are still those that were counted
    obtain ⟨u, r, hne, hr, hadmin⟩ := countOtherActiveAdmins_ne_zero hn
    have hsame : db₃.row = db₁.row := (hr₃ h₂.key).trans (hr₂ h₁.key)
    exact fun _ _ => ⟨u, r, hne, (congrFun hsame _).trans hr, hadmin⟩
  · refine wp_ret fun db₁ hr₁ hi₁ => ⟨locked_stable.rely h hr₁ hi₁, fun hadmin hstays => ?_⟩
    unfold User.isActiveAdmin at hadmin
    rw [Bool.and_eq_true, decide_eq_true_iff] at hadmin
    exact absurd ⟨hadmin.1, hadmin.2, hstays⟩ hc

/-- Writing the target keeps an active admin: another one, or the target itself. -/
theorem hasActiveAdmin_set {r : User} (h : HasActiveAdmin db)
    (hrow : db.row (.user target) = some old) (hset : old.isActiveAdmin = true →
      r.isActiveAdmin = true ∨ OtherActiveAdmin db target) :
    HasActiveAdmin (db.set (.user target) (some r)) := by
  have hother : OtherActiveAdmin db target → HasActiveAdmin (db.set (.user target) (some r)) := by
    rintro ⟨u, r', hne, hr', hadmin⟩
    exact ⟨u, r', (db.set_row_of_ne _ (by simpa using hne)).trans hr', hadmin⟩
  obtain ⟨u, r', hr', hadmin⟩ := h
  by_cases hu : u = target
  · subst hu
    obtain rfl := Option.some.inj (hrow.symm.trans hr')
    rcases hset hadmin with hself | hoth
    · exact ⟨u, r, db.set_row_self _ _, hself⟩
    · exact hother hoth
  · exact hother ⟨u, r', hu, hr', hadmin⟩

/-- The session may write the target with `set`. -/
structure Ready (target : Uuid) (old : User) (set : User → User) (σ : UserSession) (db : Db) : Prop
    extends Locked target old σ db where
  admin : old.isActiveAdmin = true → (set old).isActiveAdmin = true ∨ OtherActiveAdmin db target

theorem ready_stable {set : User → User} :
    (adminProtocol kept).Stable (Ready target old set) where
  rely h hr hi := by
    refine ⟨locked_stable.rely h.toLocked hr hi, fun hadmin => (h.admin hadmin).imp_right ?_⟩
    rintro ⟨u, r, hne, hrow, hr'⟩
    exact ⟨u, r, hne, (congrFun (hr h.key) _).trans hrow, hr'⟩
  saw _ h := ⟨⟨h.key, h.writes, h.row⟩, h.admin⟩

theorem setUser_of_ne {set : User → User} {i : RowId} (r : Row i) (hi : i ≠ .user target) :
    setUser target set i r = none := by
  cases i with
  | user u => exact if_neg fun h => hi (congrArg RowId.user h)
  | oauthAccount p u => rfl

theorem wp_setUser {set : User → User} (hne : actor ≠ target) (h : Ready target old set σ db) :
    wp schema (adminProtocol kept) () (Proc.update (setUser target set) : UserProc ℕ)
      (fun _ => Settled kept actor) σ db := by
  refine wp_update_single (i := .user target) (fun i r hi => setUser_of_ne r hi) ready_stable
    (fun _ => ⟨trivial, trivial⟩) h (fun {σ db} hi h => ?_) fun {σ db} hi h _ => ?_
  · refine ⟨h.key, by rw [h.view], fun hk => ?_⟩
    rw [h.view]
    exact hi hk
  · refine ⟨fun _ _ => trivial, fun n σ' hst db' hr hi' => ?_⟩
    have hset : setUser target set (.user target) old = some (some (set old)) := if_pos rfl
    have hrow : (σ.view db).row (.user target) = some old := by
      rw [h.view]
      exact h.row
    obtain ⟨-, -, rfl⟩ := Session.rowStep_ok_of_write hrow hset hst
    have hsame : db'.row = db.row := hr h.key
    have hview : (σ.write (.user target) (some (set old))).view db' =
        db'.set (.user target) (some (set old)) := by
      rw [Session.write_view, Session.view, h.writes, Store.overlay_nil]
    refine ⟨h.key, ?_, fun hk => ?_⟩
    · rw [hview, db'.set_row_of_ne _ (by simpa using hne)]
    · rw [hview]
      have h' := ready_stable.rely h hr hi'
      exact hasActiveAdmin_set (hi' hk) h'.row h'.admin

theorem Settled.rely (h : Settled kept actor σ db) (hr : (adminProtocol kept).rely σ db db') :
    Settled kept actor σ db' := by
  have hrow : db'.row = db.row := hr h.key
  have hview : ∀ i, (σ.view db').row i = (σ.view db).row i := fun i =>
    σ.view_row_congr (congrFun hrow i)
  refine ⟨h.key, ?_, fun hk => ?_⟩
  · rw [hview, hrow]
    exact h.actor
  · obtain ⟨u, r, hr', hadmin⟩ := h.admin hk
    exact ⟨u, r, (hview _).trans hr', hadmin⟩

/-- What both procedures do after the row lock. -/
theorem wp_protectedUpdate {stays : Prop} [Decidable stays] {set : User → User} {α : Type} {a : α}
    (hset : stays → old.isActiveAdmin = true → (set old).isActiveAdmin = true)
    (hi : (adminProtocol kept).inv db) (hne : actor ≠ target) (h : Locked target old σ db)
    (hother : old.isActiveAdmin = true → ¬stays → OtherActiveAdmin db target) :
    wp schema (adminProtocol kept) () ((Proc.update (setUser target set)).bind fun _ =>
      (.ret a : UserProc α)) (fun _ => Settled kept actor) σ db := by
  have hready : Ready target old set σ db := by
    refine ⟨h, fun hadmin => ?_⟩
    by_cases hs : stays
    · exact Or.inl (hset hs hadmin)
    · exact Or.inr (hother hadmin hs)
  refine wp_bind (wp_mono (wp_setUser hne hready) fun _ σ₁ db₁ _ hs => ?_) hi
  exact wp_ret fun db₂ hr₂ _ => hs.rely hr₂

theorem wp_spAdminUpdateUserRole {newRole : String} (hi : (adminProtocol kept).inv db) :
    wp schema (adminProtocol kept) () (spAdminUpdateUserRole actor target newRole)
      (fun _ => Settled kept actor) .start db := by
  refine wp_bind (wp_mono (wp_lockTarget hi) ?_) hi
  rintro old σ₁ db₁ hi₁ ⟨hne, h₁⟩
  refine wp_bind (wp_mono (wp_requireOtherActiveAdmin hi₁ h₁) ?_) hi₁
  rintro _ σ₂ db₂ hi₂ ⟨h₂, hother⟩
  cases hrole : Role.ofText newRole with
  | none => trivial
  | some role =>
    refine wp_protectedUpdate (fun hs hadmin => ?_) hi₂ hne h₂ hother
    subst hs
    obtain rfl : Role.admin = role := Option.some.inj hrole
    unfold User.isActiveAdmin at hadmin ⊢
    rw [Bool.and_eq_true] at hadmin ⊢
    exact ⟨rfl, hadmin.2⟩

theorem wp_spAdminUpdateUserStatus {isActive : Bool} (hi : (adminProtocol kept).inv db) :
    wp schema (adminProtocol kept) () (spAdminUpdateUserStatus actor target isActive)
      (fun _ => Settled kept actor) .start db := by
  refine wp_bind (wp_mono (wp_lockTarget hi) ?_) hi
  rintro old σ₁ db₁ hi₁ ⟨hne, h₁⟩
  refine wp_bind (wp_mono (wp_requireOtherActiveAdmin hi₁ h₁) ?_) hi₁
  rintro _ σ₂ db₂ hi₂ ⟨h₂, hother⟩
  refine wp_protectedUpdate (fun hs hadmin => ?_) hi₂ hne h₂ hother
  subst hs
  unfold User.isActiveAdmin at hadmin ⊢
  rw [Bool.and_eq_true] at hadmin ⊢
  exact ⟨hadmin.1, rfl⟩

theorem AdminCall.wp_proc (w : AdminCall) (hi : (adminProtocol kept).inv db) :
    wp schema (adminProtocol kept) () w.proc (fun _ => Settled kept w.actorId) .start db := by
  cases w with
  | updateUserRole a t newRole =>
    refine wp_bind (wp_mono (wp_spAdminUpdateUserRole hi) fun _ σ₁ db₁ _ hs => ?_) hi
    exact wp_ret fun db₂ hr₂ _ => hs.rely hr₂
  | updateUserStatus a t isActive =>
    refine wp_bind (wp_mono (wp_spAdminUpdateUserStatus hi) fun _ σ₁ db₁ _ hs => ?_) hi
    exact wp_ret fun db₂ hr₂ _ => hs.rely hr₂

/-! ### Runs -/

theorem Settled.commits (h : Settled kept actor σ db) :
    Commits schema (adminProtocol kept) σ db where
  deferred _ _ := trivial
  inv _ := h.admin
  rely _ _ hap hk := absurd hk (hap.keys _ h.key)

/-- **The last active admin.**  In every run of any calls by any actors, the committed database has
an active admin if the first one had; a call that raises leaves the database as it was, and a call
that succeeds does not change the row of its actor. -/
theorem last_admin_kept {τ : Type} [Fintype τ] [DecidableEq τ] (calls : τ → AdminCall) {db : Db}
    {c : Config τ Row LockKey Uuid Error Unit}
    (hrun : Reachable schema (Config.init db fun t => (calls t).proc) c) :
    (HasActiveAdmin db → HasActiveAdmin c.db) ∧
    ∀ t ch c', c.step schema t ch = some c' →
      (∀ e, c'.tx t = .done (.error e) → c'.db = c.db) ∧
      (∀ a, c'.tx t = .done (.ok a) →
        c'.db.row (.user (calls t).actorId) = c.db.row (.user (calls t).actorId)) := by
  have hsound : Sound schema (adminProtocol (HasActiveAdmin db)) (fun _ : τ => ())
      (fun t _ => Settled (HasActiveAdmin db) (calls t).actorId) c := by
    refine Sound.run (fun t a σ db _ h _ => h.commits) (sound_init id fun t => ?_)
      (hrun.mono fun _ _ _ _ _ _ _ _ _ => trivial)
    exact (calls t).wp_proc id
  refine ⟨hsound.inv, fun t ch c' hst => ⟨fun e he => ?_, fun a ha => ?_⟩⟩
  · exact Config.db_of_not_ok hst fun a h => by rw [he] at h; cases h
  · obtain ⟨σ, -, hdb, hs⟩ := hsound.of_commit hst ha
    rw [hdb]
    exact hs.actor

/-- The only admins, 1 and 2, each take the other one's role away at the same time. -/
def mutualCalls : Fin 2 → AdminCall
  | 0 => .updateUserRole 1 2 "member"
  | 1 => .updateUserRole 2 1 "member"

def admin (name : String) : User where
  username := name
  email := name ++ "@example.com"
  passwordHash := none
  role := .admin
  isActive := true
  emailVerifiedAt := none

def twoAdmins : Db :=
  (Store.empty : Db).overlay [⟨.user 1, some (admin "a")⟩, ⟨.user 2, some (admin "b")⟩]

/-- The second call takes the lock when the first one has committed. -/
def mutualRun : Config (Fin 2) Row LockKey Uuid Error Unit :=
  (Config.init twoAdmins fun t => (mutualCalls t).proc).execTo schema (fun _ _ _ => True)
    [(0, .go), (0, .go), (0, .go), (0, .go), (0, .pick (.user 2)), (0, .go), (0, .go), (1, .go),
      (1, .go), (1, .go), (1, .go)] (by decide)

theorem last_admin_kept_mutualRun : mutualRun.tx 0 = .done (.ok ()) ∧
    mutualRun.tx 1 = .done (.error .lastActiveAdmin) ∧ HasActiveAdmin mutualRun.db :=
  ⟨rfl, rfl, (last_admin_kept mutualCalls (run_execTo _)).1 ⟨1, admin "a", rfl, rfl⟩⟩

end UserDb
