import TaskManagement.Batch.Equiv.DueNotification
import TaskManagement.Lease

/-!
# The lock of the due-notification job

The lock of a day and a slot is a lease (`locks`): a runner is granted it for its time to live, and
gives it back only when an exception has ended its job.

* `one_runner`: in every run, the value of the key is the runner that was granted the lock, less
  than its time to live ago, and has not released it; of two runners of one day and slot that both
  execute the job, one has outlived the time to live of its lock;
* `acquire_iff`: a runner that asks for the lock goes on with the job exactly when no runner holds
  it, and is skipped for good exactly when another one does.

`LockAct` lists what a runner can do with the lock.
-/

namespace DueNotification

open TaskDb (Timestamp)
open Lease (Granted Held Tracks)
open Listing (Table)

variable {zone : Zone} {s s' : State} {c : RunnerCall} {u : Unit} {i j : ℕ} {r : Runner}
  {o : Outcome} {l : List Event}

/-! ### The lock as a lease -/

/-- `_validate_lock_arguments` raises nothing. -/
def Runner.ValidArguments (r : Runner) : Prop :=
  ¬(r.notificationSlot = "" ∨ r.settings.notifyDueLockTtlSeconds ≤ 0)

instance (r : Runner) : Decidable r.ValidArguments := inferInstanceAs (Decidable (¬_))

/-- The time to live of the lock. -/
def Runner.lockTtl (r : Runner) : Timestamp := r.settings.notifyDueLockTtlSeconds * 1000000

/-- The runner sends a `SET … NX` that puts the key. -/
def Runner.granted (s : State) (r : Runner) : RunnerCall → Bool
  | .acquire _ => r.phase = .started && r.ValidArguments && !s.redis.existsKey r.lockKey
  | _ => false

/-- The runner executes `_RELEASE_LOCK_SCRIPT`. -/
def Runner.released (r : Runner) : RunnerCall → Bool
  | .release => r.phase = .failing true
  | _ => false

/-- What the events of a run do to the locks. -/
def locks : Lease.Locks Event LockKey ℕ Timestamp where
  grant e :=
    match e.call with
    | .runner i c => (e.pre.runners[i]?.filter fun r => r.granted e.pre c).map fun r =>
      (r.lockKey, i, e.pre.redis.now + r.lockTtl)
    | _ => none
  release e :=
    match e.call with
    | .runner i c => (e.pre.runners[i]?.filter fun r => r.released c).map fun r => (r.lockKey, i)
    | _ => none

/-- The runner has the lock and has not released it. -/
def Phase.holding : Phase → Bool
  | .paging _ _ _ | .creating _ _ _ _ | .purged _ _ => true
  | .failing lockAcquired => lockAcquired
  | .started | .skipped | .returned _ | .crashed => false

/-- The runner has been skipped: it completes its history, or ends before that. -/
def Phase.isSkipped : Phase → Bool
  | .skipped | .failing false | .crashed => true
  | .returned result => result = ⟨0, 0, 1, false⟩ || result = ⟨0, 0, 0, false⟩
  | _ => false

/-! ### What a runner does with the lock -/

/-- What a runner that acts does with the lock. -/
inductive LockAct (s : State) (i : ℕ) (r : Runner) (c : RunnerCall) (o : Outcome) : Prop where
  | kept (hg : r.granted s c = false) (hr : r.released c = false) (ho : o.redis = s.redis)
      (hp : o.phase.holding → r.phase.holding)
  | granted (hg : r.granted s c) (hr : r.released c = false) (httl : 0 ≤ r.lockTtl)
      (hfree : s.redis.string r.lockKey = none)
      (ho : o.redis = s.redis.setEx r.lockKey i r.lockTtl)
  | released (hg : r.granted s c = false) (hr : r.released c)
      (ho : o.redis = releaseLock s.redis r.lockKey i) (hp : o.phase.holding = false)

theorem existsKey_eq_false_iff {redis : Locks} {k : LockKey} :
    redis.existsKey k = false ↔ redis.string k = none := by
  rw [Keyspace.existsKey, Option.isSome_eq_false_iff, Option.isNone_iff_eq_none]

section Acquire

variable {answered : Bool}

theorem started_of_acquire (h : r.act s i (.acquire answered) = some o) : r.phase = .started := by
  simp only [Runner.act] at h
  split at h
  · rename_i hp
    exact hp
  · cases h

theorem acquire_of_invalid (hp : r.phase = .started) (hv : ¬r.ValidArguments) :
    r.act s i (.acquire answered) = some (s.goto (.failing false)) := by
  simp only [Runner.act, hp]
  exact if_pos (not_not.mp hv)

theorem acquire_of_exists (hp : r.phase = .started) (hv : r.ValidArguments)
    (hl : s.redis.existsKey r.lockKey = true) : r.act s i (.acquire answered) =
      some ⟨s.redis, s.notifications,
        if answered then .skipped else .failing false⟩ := by
  simp only [Runner.act, hp, setNx, hl, if_true]
  exact if_neg hv

theorem acquire_of_free (hp : r.phase = .started) (hv : r.ValidArguments)
    (hl : s.redis.existsKey r.lockKey = false) : r.act s i (.acquire answered) =
      some ⟨s.redis.setEx r.lockKey i r.lockTtl, s.notifications,
        if answered then .paging 0 [] none else .failing false⟩ := by
  simp only [Runner.act, hp, setNx, hl, if_true, Bool.false_eq_true, if_false]
  exact if_neg hv

theorem lockTtl_pos (hv : r.ValidArguments) : 0 < r.lockTtl := by
  have hpos := not_le.mp fun h => hv (Or.inr h)
  exact Int.mul_pos hpos (by decide)

theorem lockAct_of_acquire (h : r.act s i (.acquire answered) = some o) :
    LockAct s i r (.acquire answered) o := by
  have hp := started_of_acquire h
  by_cases hv : r.ValidArguments
  · cases hl : s.redis.existsKey r.lockKey with
    | true =>
      rw [acquire_of_exists hp hv hl] at h
      obtain rfl := Option.some.inj h
      have hg : r.granted s (.acquire answered) = false := by simp [Runner.granted, hl]
      refine .kept hg rfl rfl fun hold => ?_
      cases answered <;> cases hold
    | false =>
      rw [acquire_of_free hp hv hl] at h
      obtain rfl := Option.some.inj h
      have hg : r.granted s (.acquire answered) = true := by simp [Runner.granted, hp, hv, hl]
      exact .granted hg rfl (lockTtl_pos hv).le (existsKey_eq_false_iff.mp hl) rfl
  · rw [acquire_of_invalid hp hv] at h
    obtain rfl := Option.some.inj h
    have hg : r.granted s (.acquire answered) = false := by simp [Runner.granted, hv]
    exact .kept hg rfl rfl fun hold => by cases hold

end Acquire

theorem lockAct_of_act (h : r.act s i c = some o) : LockAct s i r c o := by
  cases c with
  | acquire answered => exact lockAct_of_acquire h
  | page =>
    simp only [Runner.act] at h
    split at h
    · rename_i hp
      have hold : r.phase.holding := by rw [hp]; rfl
      split_ifs at h <;> obtain rfl := Option.some.inj h <;> exact .kept rfl rfl rfl fun _ => hold
    · cases h
  | createChunk answered =>
    simp only [Runner.act] at h
    split at h
    · rename_i hp
      have hold : r.phase.holding := by rw [hp]; rfl
      obtain rfl := Option.some.inj h
      exact .kept rfl rfl rfl fun _ => hold
    · cases h
  | purge answered =>
    simp only [Runner.act] at h
    split at h
    · rename_i hp
      have hold : r.phase.holding := by rw [hp]; rfl
      split_ifs at h <;> obtain rfl := Option.some.inj h <;> exact .kept rfl rfl rfl fun _ => hold
    · cases h
  | raise =>
    obtain ⟨phase, hphase, rfl⟩ := Option.map_eq_some_iff.mp h
    refine .kept rfl rfl rfl fun hold => ?_
    cases hp : r.phase <;> rw [hp] at hphase <;> cases hphase <;> exact hold
  | crash =>
    simp only [Runner.act] at h
    split_ifs at h
    obtain rfl := Option.some.inj h
    exact .kept rfl rfl rfl fun hold => by cases hold
  | complete | skip | releaseRaises =>
    simp only [Runner.act] at h
    split at h
    · obtain rfl := Option.some.inj h
      exact .kept rfl rfl rfl fun hold => by cases hold
    · cases h
  | release =>
    simp only [Runner.act] at h
    split at h
    · rename_i lockAcquired hp
      obtain rfl := Option.some.inj h
      cases lockAcquired with
      | false =>
        have hr : r.released .release = false := by simp [Runner.released, hp]
        exact .kept rfl hr rfl fun hold => by cases hold
      | true => exact .released rfl (by simp [Runner.released, hp]) rfl rfl
    · cases h

/-! ### What a run does with the locks -/

theorem grant_runner (hr : s.runners[i]? = some r) :
    locks.grant ⟨s, .runner i c, u⟩ =
      if r.granted s c then some (r.lockKey, i, s.redis.now + r.lockTtl) else none := by
  show ((s.runners[i]?).filter _).map _ = _
  rw [hr, Option.filter_some]
  split_ifs <;> rfl

theorem release_runner (hr : s.runners[i]? = some r) :
    locks.release ⟨s, .runner i c, u⟩ = if r.released c then some (r.lockKey, i) else none := by
  show ((s.runners[i]?).filter _).map _ = _
  rw [hr, Option.filter_some]
  split_ifs <;> rfl

/-- What the release script leaves at the key. -/
theorem releaseLock_string_self {redis : Locks} {k : LockKey} {a : Entry Timestamp ℕ} :
    (releaseLock redis k i).string k = some a ↔ redis.string k = some a ∧ a.value ≠ i := by
  unfold releaseLock
  split_ifs with hk
  · rw [Keyspace.del_string_self]
    refine ⟨nofun, fun ⟨ha, hne⟩ => absurd ?_ hne⟩
    rw [Keyspace.get, ha] at hk
    exact Option.some.inj hk
  · refine ⟨fun ha => ⟨ha, fun hv => hk ?_⟩, And.left⟩
    rw [Keyspace.get, ha, Option.map_some, hv]

theorem releaseLock_string_of_ne {redis : Locks} {k k' : LockKey} (hk : k' ≠ k) :
    (releaseLock redis k i).string k' = redis.string k' := by
  unfold releaseLock
  split_ifs
  · exact Keyspace.del_string_of_ne _ hk
  · rfl

theorem releaseLock_now {redis : Locks} {k : LockKey} :
    (releaseLock redis k i).now = redis.now := by
  unfold releaseLock
  split_ifs <;> rfl

/-- The entries of the keyspace are the locks that are held. -/
abbrev TracksLocks (l : List Event) (s : State) : Prop := Tracks locks s.redis.string s.redis.now l

theorem TracksLocks.runner (h : TracksLocks l s) (hr : s.runners[i]? = some r)
    (ho : r.act s i c = some o) : TracksLocks (l ++ [⟨s, .runner i c, u⟩]) (s.leave i r o) := by
  have hgrant := grant_runner (c := c) (u := u) hr
  have hrelease := release_runner (c := c) (u := u) hr
  show Tracks locks o.redis.string o.redis.now _
  cases lockAct_of_act ho with
  | kept hg hr' hredis =>
    rw [hredis]
    rw [hg, if_neg Bool.false_ne_true] at hgrant
    rw [hr', if_neg Bool.false_ne_true] at hrelease
    exact h.other hgrant hrelease
  | granted hg hr' httl hfree hredis =>
    rw [hredis]
    rw [hg, if_pos rfl] at hgrant
    rw [hr', if_neg Bool.false_ne_true] at hrelease
    exact h.granted hgrant hrelease (le_add_of_nonneg_right httl) hfree
      (Keyspace.setEx_string_self _ _ httl) fun k hk => Keyspace.setEx_string_of_ne _ _ _ hk
  | released hg hr' hredis =>
    rw [hredis, releaseLock_now]
    rw [hg, if_neg Bool.false_ne_true] at hgrant
    rw [hr', if_pos rfl] at hrelease
    exact h.released hgrant hrelease (fun a => releaseLock_string_self)
      fun k hk => releaseLock_string_of_ne hk

theorem TracksLocks.step {c : Call} (h : TracksLocks l s)
    (hs : (machine zone).step s c = some (u, s')) : TracksLocks (l ++ [⟨s, c, u⟩]) s' := by
  cases c with
  | start slot settings =>
    simp only [machine] at hs
    split_ifs at hs
    obtain ⟨-, rfl⟩ := Prod.mk.inj (Option.some.inj hs)
    exact h.other rfl rfl
  | commit tasks created =>
    simp only [machine] at hs
    split_ifs at hs
    obtain ⟨-, rfl⟩ := Prod.mk.inj (Option.some.inj hs)
    exact h.other rfl rfl
  | tick d =>
    simp only [machine] at hs
    split_ifs at hs with hd
    obtain ⟨-, rfl⟩ := Prod.mk.inj (Option.some.inj hs)
    exact h.later rfl rfl (le_add_of_nonneg_right hd) fun k => rfl
  | runner i c =>
    obtain ⟨r, hr, hs⟩ := Option.bind_eq_some_iff.mp hs
    obtain ⟨o, ho, hs⟩ := Option.map_eq_some_iff.mp hs
    obtain ⟨-, rfl⟩ := Prod.mk.inj hs
    exact h.runner hr ho

theorem tracksLocks_of_run {now : Timestamp} {tasks : Table Task Task.id}
    (h : (machine zone).Run (init now tasks) l s) : TracksLocks l s :=
  h.induction TracksLocks Lease.tracks_nil fun _ _ _ _ _ _ hi hs => hi.step hs

/-- A runner that has the lock was granted it, and has not released it. -/
def HoldersGranted (l : List Event) (s : State) : Prop :=
  ∀ i r, s.runners[i]? = some r → r.phase.holding → ∃ x, Granted locks l r.lockKey i x

theorem HoldersGranted.kept {e : Event} (h : HoldersGranted l s) (he : locks.release e = none)
    (hr : s.runners[i]? = some r) (hp : r.phase.holding) :
    ∃ x, Granted locks (l ++ [e]) r.lockKey i x := by
  obtain ⟨x, hx⟩ := h i r hr hp
  refine ⟨x, hx.snoc ?_⟩
  rw [he]
  exact nofun

theorem HoldersGranted.runner (h : HoldersGranted l s) (hr : s.runners[i]? = some r)
    (ho : r.act s i c = some o) : HoldersGranted (l ++ [⟨s, .runner i c, u⟩]) (s.leave i r o) := by
  intro j r' hr' hp'
  have hlt := (List.getElem?_eq_some_iff.mp hr).1
  by_cases hj : j = i
  · subst hj
    obtain rfl := Option.some.inj ((List.getElem?_set_self hlt).symm.trans hr')
    show ∃ x, Granted locks _ r.lockKey j x
    have hgrant := grant_runner (c := c) (u := u) hr
    have hrelease := release_runner (c := c) (u := u) hr
    cases lockAct_of_act ho with
    | kept hg hr' hredis hp =>
      obtain ⟨x, hx⟩ := h j r hr (hp hp')
      rw [hr', if_neg Bool.false_ne_true] at hrelease
      exact ⟨x, hx.snoc (by rw [hrelease]; exact nofun)⟩
    | granted hg =>
      rw [hg, if_pos rfl] at hgrant
      exact ⟨_, Lease.granted_snoc.mpr (Or.inr hgrant)⟩
    | released hg hr' hredis hp =>
      rw [hp] at hp'
      cases hp'
  · rw [State.leave, List.getElem?_set_ne (Ne.symm hj)] at hr'
    obtain ⟨x, hx⟩ := h j r' hr' hp'
    refine ⟨x, hx.snoc ?_⟩
    rw [release_runner hr]
    split_ifs
    · intro hi
      exact hj (Prod.mk.inj (Option.some.inj hi)).2.symm
    · exact nofun

theorem HoldersGranted.step {c : Call} (h : HoldersGranted l s)
    (hs : (machine zone).step s c = some (u, s')) : HoldersGranted (l ++ [⟨s, c, u⟩]) s' := by
  cases c with
  | start slot settings =>
    simp only [machine] at hs
    split_ifs at hs
    obtain ⟨-, rfl⟩ := Prod.mk.inj (Option.some.inj hs)
    intro i r hr hp
    rw [List.getElem?_append] at hr
    split_ifs at hr with hi
    · exact h.kept rfl hr hp
    · obtain rfl := List.mem_singleton.mp (List.mem_of_getElem? hr)
      cases hp
  | commit tasks created =>
    simp only [machine] at hs
    split_ifs at hs
    obtain ⟨-, rfl⟩ := Prod.mk.inj (Option.some.inj hs)
    exact fun i r hr hp => h.kept rfl hr hp
  | tick d =>
    simp only [machine] at hs
    split_ifs at hs
    obtain ⟨-, rfl⟩ := Prod.mk.inj (Option.some.inj hs)
    exact fun i r hr hp => h.kept rfl hr hp
  | runner i c =>
    obtain ⟨r, hr, hs⟩ := Option.bind_eq_some_iff.mp hs
    obtain ⟨o, ho, hs⟩ := Option.map_eq_some_iff.mp hs
    obtain ⟨-, rfl⟩ := Prod.mk.inj hs
    exact h.runner hr ho

theorem holdersGranted_of_run {now : Timestamp} {tasks : Table Task Task.id}
    (h : (machine zone).Run (init now tasks) l s) : HoldersGranted l s := by
  refine h.induction HoldersGranted (fun i r hr => ?_) fun _ _ _ _ _ _ hi hs => hi.step hs
  cases hr

/-- A runner that was granted a lock has asked for it. -/
def GrantedAsked (l : List Event) (s : State) : Prop :=
  ∀ i k x, Granted locks l k i x → ∃ r, s.runners[i]? = some r ∧ r.phase ≠ .started

theorem ne_started_of_act (h : r.act s i c = some o) : o.phase ≠ .started := by
  cases phaseStep_of_act h with
  | ended ho =>
    intro hp
    rw [hp] at ho
    cases ho
  | skipped ho | acquired ho =>
    rw [ho]
    exact nofun
  | page _ _ ho =>
    rw [ho]
    unfold afterPage
    split_ifs <;> exact nofun
  | chunk _ _ ho =>
    rw [ho]
    exact nofun
  | purged _ ho =>
    rw [ho]
    exact nofun

theorem GrantedAsked.step {c : Call} (h : GrantedAsked l s)
    (hs : (machine zone).step s c = some (u, s')) : GrantedAsked (l ++ [⟨s, c, u⟩]) s' := by
  intro i k x hg
  -- the runner that was there before, or has just been granted the lock
  have hold : ∃ r, s.runners[i]? = some r ∧ (r.phase ≠ .started ∨ ∃ c', c = .runner i c') := by
    rcases Lease.granted_snoc.mp hg with ⟨hg, -⟩ | hg
    · obtain ⟨r, hr, hp⟩ := h i k x hg
      exact ⟨r, hr, Or.inl hp⟩
    · cases c with
      | start | commit | tick => cases hg
      | runner j c' =>
        obtain ⟨r, hr, hri⟩ := Option.map_eq_some_iff.mp hg
        obtain ⟨-, hji⟩ := Prod.mk.inj hri
        obtain rfl := (Prod.mk.inj hji).1
        exact ⟨r, (Option.filter_eq_some_iff.mp hr).1, Or.inr ⟨c', rfl⟩⟩
  obtain ⟨r, hr, hp⟩ := hold
  have hlt := (List.getElem?_eq_some_iff.mp hr).1
  rcases hp with hp | ⟨c', rfl⟩
  · rcases runner_of_step hr hs with hr' | ⟨c', o, ho, rfl⟩
    · exact ⟨r, hr', hp⟩
    · exact ⟨_, List.getElem?_set_self hlt, ne_started_of_act ho⟩
  · obtain ⟨r', hr', hs⟩ := Option.bind_eq_some_iff.mp hs
    obtain ⟨o, ho, hs⟩ := Option.map_eq_some_iff.mp hs
    obtain ⟨-, rfl⟩ := Prod.mk.inj hs
    exact ⟨_, List.getElem?_set_self hlt, ne_started_of_act ho⟩

theorem grantedAsked_of_run {now : Timestamp} {tasks : Table Task Task.id}
    (h : (machine zone).Run (init now tasks) l s) : GrantedAsked l s := by
  refine h.induction GrantedAsked (fun i k x hg => ?_) fun _ _ _ _ _ _ hi hs => hi.step hs
  exact absurd hg Lease.not_granted_nil

/-! ### Runners that are skipped -/

theorem isSkipped_of_act (h : r.act s i c = some o) (hp : r.phase.isSkipped) :
    o.phase.isSkipped := by
  cases hphase : r.phase with
  | skipped =>
    cases c <;> simp only [Runner.act, hphase, Phase.raised, Phase.running] at h <;>
      cases h <;> rfl
  | failing lockAcquired =>
    rw [hphase] at hp
    cases lockAcquired with
    | true => cases hp
    | false =>
      cases c <;> simp only [Runner.act, hphase, Phase.raised, Phase.running] at h <;>
        cases h <;> rfl
  | returned result =>
    cases c <;> simp only [Runner.act, hphase, Phase.raised, Phase.running] at h <;> cases h
  | crashed =>
    cases c <;> simp only [Runner.act, hphase, Phase.raised, Phase.running] at h <;> cases h
  | started | paging _ _ _ | creating _ _ _ _ | purged _ _ =>
    rw [hphase] at hp
    cases hp

/-- A runner that is skipped stays so. -/
theorem isSkipped_of_run (h : (machine zone).Run s l s') (hr : s.runners[i]? = some r)
    (hp : r.phase.isSkipped) : ∃ r', s'.runners[i]? = some r' ∧ r'.phase.isSkipped := by
  refine h.induction (fun _ s => ∃ r', s.runners[i]? = some r' ∧ r'.phase.isSkipped)
    ⟨r, hr, hp⟩ fun _ _ _ _ _ _ ⟨r', hr', hp'⟩ hs => ?_
  rcases runner_of_step hr' hs with hkept | ⟨c', o, ho, rfl⟩
  · exact ⟨r', hkept, hp'⟩
  · have hlt := (List.getElem?_eq_some_iff.mp hr').1
    exact ⟨_, List.getElem?_set_self hlt, isSkipped_of_act ho hp'⟩

/-! ### The lock of a run -/

/-- **One runner of a day and a slot.**  The key names the runner that was granted the lock, less
than its time to live ago, and has not released it.  Of two runners that have one lock, one was
granted it longer ago than its time to live. -/
theorem one_runner {now : Timestamp} {tasks : Table Task Task.id}
    (h : (machine zone).Run (init now tasks) l s) :
    (∀ k i, s.redis.get k = some i ↔ Held locks l s.redis.now k i) ∧
      ∀ i j r r', i ≠ j → s.runners[i]? = some r → s.runners[j]? = some r' →
        r.lockKey = r'.lockKey → r.phase.holding → r'.phase.holding →
        ∃ x x', Granted locks l r.lockKey i x ∧ Granted locks l r.lockKey j x' ∧
          (x < s.redis.now ∨ x' < s.redis.now) := by
  have htracks := tracksLocks_of_run h
  have hholders := holdersGranted_of_run h
  refine ⟨fun k i => htracks.held_iff, fun i j r r' hne hr hr' hk hp hp' => ?_⟩
  obtain ⟨x, hx⟩ := hholders i r hr hp
  obtain ⟨x', hx'⟩ := hholders j r' hr' hp'
  rw [← hk] at hx'
  exact ⟨x, x', hx, hx', htracks.expired hne hx hx'⟩

/-- The runner 0 has the lock when its time to live passes, and the runner 1 is about to ask. -/
def outlivedRun : List Event × State :=
  (machine utc).runOf (init 0 (twoTasks .todo))
    [.start "10" chunkOfOne, .runner 0 (.acquire true), .tick 82800000001,
      .start "10" chunkOfOne] (by decide)

/-- The runner 1 has the lock as well. -/
def sharedRun : List Event × State :=
  (machine utc).runOf (init 0 (twoTasks .todo))
    [.start "10" chunkOfOne, .runner 0 (.acquire true), .tick 82800000001,
      .start "10" chunkOfOne, .runner 1 (.acquire true)] (by decide)

theorem one_runner_sharedRun :
    (∀ k i, sharedRun.2.redis.get k = some i ↔
      Held locks sharedRun.1 sharedRun.2.redis.now k i) ∧
    ∃ x x', Granted locks sharedRun.1 ⟨"", 0, "10"⟩ 0 x ∧
      Granted locks sharedRun.1 ⟨"", 0, "10"⟩ 1 x' ∧
      (x < sharedRun.2.redis.now ∨ x' < sharedRun.2.redis.now) := by
  have h := one_runner (Machine.run_runOf (machine utc) (init 0 (twoTasks .todo)) _ _ :
    (machine utc).Run (init 0 (twoTasks .todo)) sharedRun.1 sharedRun.2)
  exact ⟨h.1, h.2 0 1 ⟨0, 122400000000, "10", chunkOfOne, .paging 0 [] none⟩
    ⟨0, 122400000000, "10", chunkOfOne, .paging 0 [] none⟩ (by decide) rfl rfl rfl rfl rfl⟩

/-- **Who is granted the lock.**  A runner whose arguments are valid goes on with the job exactly
when nobody holds the lock, and is skipped exactly when another runner does: then it completes its
history, and does nothing else in any run. -/
theorem acquire_iff {now : Timestamp} {tasks : Table Task Task.id}
    (h : (machine zone).Run (init now tasks) l s)
    (hs : (machine zone).step s (.runner i (.acquire true)) = some (u, s'))
    (hr : s.runners[i]? = some r) (hv : r.ValidArguments) :
    (s'.runners[i]? = some { r with phase := .paging 0 [] none } ↔
        ∀ j, ¬Held locks l s.redis.now r.lockKey j) ∧
      (s'.runners[i]? = some { r with phase := .skipped } ↔
        ∃ j, j ≠ i ∧ Held locks l s.redis.now r.lockKey j) ∧
      (s'.runners[i]? = some { r with phase := .skipped } → ∀ l' s'',
        (machine zone).Run s' l' s'' →
          ∃ r'', s''.runners[i]? = some r'' ∧ r''.phase.isSkipped) := by
  refine and_assoc.mp ⟨?_, fun hr' l' s'' hrun => isSkipped_of_run hrun hr' rfl⟩
  have htracks := tracksLocks_of_run h
  obtain ⟨r', hr', hs⟩ := Option.bind_eq_some_iff.mp hs
  obtain rfl := Option.some.inj (hr.symm.trans hr')
  obtain ⟨o, ho, hs⟩ := Option.map_eq_some_iff.mp hs
  obtain ⟨-, rfl⟩ := Prod.mk.inj hs
  have hp := started_of_acquire ho
  -- the runner itself does not hold the lock
  have hother (j : ℕ) (hj : Held locks l s.redis.now r.lockKey j) : j ≠ i := by
    rintro rfl
    obtain ⟨x, hx, -⟩ := hj
    obtain ⟨r', hr', hasked⟩ := grantedAsked_of_run h j r.lockKey x hx
    obtain rfl := Option.some.inj (hr.symm.trans hr')
    exact hasked hp
  have hphase (phase : Phase) : (s.leave i r o).runners[i]? = some { r with phase := phase } ↔
      o.phase = phase := by
    have hlt := (List.getElem?_eq_some_iff.mp hr).1
    rw [State.leave, List.getElem?_set_self hlt, Option.some_inj]
    exact ⟨fun hph => congrArg Runner.phase hph, fun hph => by rw [hph]⟩
  rw [hphase, hphase]
  cases hl : s.redis.existsKey r.lockKey with
  | true =>
    rw [acquire_of_exists hp hv hl] at ho
    obtain rfl := Option.some.inj ho
    obtain ⟨j, hj⟩ := htracks.isSome_iff.mp hl
    refine ⟨⟨nofun, fun hno => absurd hj (hno j)⟩, fun _ => ⟨j, hother j hj, hj⟩, fun _ => rfl⟩
  | false =>
    rw [acquire_of_free hp hv hl] at ho
    obtain rfl := Option.some.inj ho
    have hno (j : ℕ) : ¬Held locks l s.redis.now r.lockKey j := by
      intro hj
      have hsome := htracks.isSome_iff.mpr ⟨j, hj⟩
      rw [existsKey_eq_false_iff.mp hl] at hsome
      cases hsome
    exact ⟨⟨fun _ => hno, fun _ => rfl⟩, nofun, fun ⟨j, _, hj⟩ => absurd hj (hno j)⟩

/-- The runner 1 asks while the runner 0 has the lock. -/
def askedRun : List Event × State :=
  (machine utc).runOf (init 0 (twoTasks .todo))
    [.start "10" chunkOfOne, .runner 0 (.acquire true), .start "10" chunkOfOne] (by decide)

def refusedRun : List Event × State :=
  (machine utc).runOf (init 0 (twoTasks .todo))
    [.start "10" chunkOfOne, .runner 0 (.acquire true), .start "10" chunkOfOne,
      .runner 1 (.acquire true)] (by decide)

theorem acquire_iff_twoRuns :
    (∀ j, ¬Held locks outlivedRun.1 outlivedRun.2.redis.now ⟨"", 0, "10"⟩ j) ∧
      (∃ j, j ≠ 1 ∧ Held locks askedRun.1 askedRun.2.redis.now ⟨"", 0, "10"⟩ j) ∧
      ∀ l' s'', (machine utc).Run refusedRun.2 l' s'' →
        ∃ r'', s''.runners[1]? = some r'' ∧ r''.phase.isSkipped := by
  have h := acquire_iff (Machine.run_runOf (machine utc) (init 0 (twoTasks .todo)) _ _ :
    (machine utc).Run (init 0 (twoTasks .todo)) outlivedRun.1 outlivedRun.2)
    (rfl : (machine utc).step outlivedRun.2 (.runner 1 (.acquire true)) = some ((), sharedRun.2))
    (rfl : outlivedRun.2.runners[1]? = some ⟨0, 122400000000, "10", chunkOfOne, .started⟩)
    (by decide)
  have h' := acquire_iff (Machine.run_runOf (machine utc) (init 0 (twoTasks .todo)) _ _ :
    (machine utc).Run (init 0 (twoTasks .todo)) askedRun.1 askedRun.2)
    (rfl : (machine utc).step askedRun.2 (.runner 1 (.acquire true)) = some ((), refusedRun.2))
    (rfl : askedRun.2.runners[1]? = some ⟨0, 122400000000, "10", chunkOfOne, .started⟩)
    (by decide)
  exact ⟨h.1.mp rfl, h'.2.1.mp rfl, h'.2.2 rfl⟩

end DueNotification
