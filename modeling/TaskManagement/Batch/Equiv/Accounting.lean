import TaskManagement.Batch.Accounting
import TaskManagement.Batch.Equiv.DueNotification

/-!
# The counts of the batch history

A row that ends in `complete` has the exact counts: the tasks that its run selected, the
notifications that it inserted and committed, and every chunk was committed.  A row that ends in
`error` has counts of zero, whatever the run has selected and committed (`accounting`).
`accounting_not_exact` is a run that fails behind a committed chunk.

Every call of a job keeps `Accounted`, which says for each phase what the counters of the job are.
-/

namespace DueNotification

open TaskDb (Uuid Timestamp Status)
open Listing (Table)

variable {zone : Zone} {b b' : Batch} {i : ℕ} {j j' : Job} {row : BatchHistory} {u : Update}

/-! ### The invariant -/

def BatchHistory.NoCounts (row : BatchHistory) : Prop :=
  row.targetCount = 0 ∧ row.successCount = 0 ∧ row.skippedCount = 0

/-- The counts of the row are those of the job, and every chunk of it is committed. -/
def BatchHistory.Counts (j : Job) (row : BatchHistory) : Prop :=
  row.targetCount = j.selected.length ∧ row.successCount = j.inserted.length ∧
    j.notified = j.selected

/-- What the row says in each of its states. -/
def BatchHistory.Fits (j : Job) (row : BatchHistory) : Prop :=
  match row.status with
  | .complete => row.Counts j
  | _ => row.NoCounts

/-- What the counters in a phase are. -/
def Job.Progress (j : Job) : Prop :=
  match j.phase with
  | .started | .skipped => j.selected = [] ∧ j.notified = [] ∧ j.inserted = []
  | .paging _ rows _ => j.selected = rows ∧ j.notified = [] ∧ j.inserted = []
  | .creating targetCount rest createdCount _ =>
    targetCount = j.selected.length ∧ j.notified ++ rest = j.selected ∧
      createdCount = j.inserted.length
  | .purged targetCount createdCount =>
    targetCount = j.selected.length ∧ j.notified = j.selected ∧ createdCount = j.inserted.length
  | _ => True

/-- The row has the counts of a result. -/
def BatchHistory.HasResult (result : JobResult) (row : BatchHistory) : Prop :=
  row.status = .complete ∧ row.targetCount = result.targetCount ∧
    row.successCount = result.successCount ∧ row.skippedCount = result.skippedCount

structure Accounted (j : Job) : Prop where
  fits : ∀ row, j.history = some row → row.Fits j
  inprogress : j.phase.isOver = false → ∀ row, j.history = some row → row.status = .inprogress
  progress : j.Progress
  returned : ∀ result, j.phase = .returned result → j.stage ≠ .recorded →
    ∀ row, j.history = some row → row.HasResult result

theorem BatchHistory.Fits.of_inprogress (h : row.Fits j) (hrow : row.status = .inprogress) :
    row.Fits j' := by
  rw [BatchHistory.Fits, hrow] at h ⊢
  exact h

/-! ### Phases -/

theorem Accounted.of_started (h : Accounted j) (hphase : j.phase = .started) :
    j.selected = [] ∧ j.notified = [] ∧ j.inserted = [] := by
  have hprogress := h.progress
  rw [Job.Progress, hphase] at hprogress
  exact hprogress

theorem Accounted.of_skipped (h : Accounted j) (hphase : j.phase = .skipped) :
    j.selected = [] ∧ j.notified = [] ∧ j.inserted = [] := by
  have hprogress := h.progress
  rw [Job.Progress, hphase] at hprogress
  exact hprogress

theorem Accounted.of_paging (h : Accounted j) {offset : ℕ} {rows : List DueTask}
    {txn : Option Timestamp} (hphase : j.phase = .paging offset rows txn) :
    j.selected = rows ∧ j.notified = [] ∧ j.inserted = [] := by
  have hprogress := h.progress
  rw [Job.Progress, hphase] at hprogress
  exact hprogress

theorem Accounted.of_creating (h : Accounted j) {targetCount createdCount : ℕ}
    {rest : List DueTask} {txn : Option Timestamp}
    (hphase : j.phase = .creating targetCount rest createdCount txn) :
    targetCount = j.selected.length ∧ j.notified ++ rest = j.selected ∧
      createdCount = j.inserted.length := by
  have hprogress := h.progress
  rw [Job.Progress, hphase] at hprogress
  exact hprogress

theorem Accounted.of_purged (h : Accounted j) {targetCount createdCount : ℕ}
    (hphase : j.phase = .purged targetCount createdCount) :
    targetCount = j.selected.length ∧ j.notified = j.selected ∧
      createdCount = j.inserted.length := by
  have hprogress := h.progress
  rw [Job.Progress, hphase] at hprogress
  exact hprogress

/-- A row in progress does not change when its job goes on to a phase that is not over. -/
theorem Accounted.advance (h : Accounted j) (hover : j.phase.isOver = false)
    (hhistory : j'.history = j.history) (hover' : j'.phase.isOver = false) (hp : j'.Progress) :
    Accounted j' where
  fits row hrow := by
    rw [hhistory] at hrow
    exact (h.fits row hrow).of_inprogress (h.inprogress hover row hrow)
  inprogress _ row hrow := by
    rw [hhistory] at hrow
    exact h.inprogress hover row hrow
  progress := hp
  returned result hresult := by
    rw [hresult] at hover'
    cases hover'

/-- A phase that is over, with a row that fits. -/
theorem Accounted.of_over (hover : j.phase.isOver = true)
    (hfits : ∀ row, j.history = some row → row.Fits j)
    (hreturned : ∀ result, j.phase = .returned result → j.stage ≠ .recorded →
      ∀ row, j.history = some row → row.HasResult result) : Accounted j where
  fits := hfits
  inprogress h := by
    rw [hover] at h
    cases h
  progress := by
    rw [Job.Progress]
    cases hphase : j.phase with
    | started | skipped | paging _ _ _ | creating _ _ _ _ | purged _ _ =>
      rw [hphase] at hover
      cases hover
    | failing _ | returned _ | crashed => trivial
  returned := hreturned

/-- An exception or the end of the process, behind an unchanged row. -/
theorem Accounted.stop (h : Accounted j) (hover : j.phase.isOver = false)
    (hhistory : j'.history = j.history) (hover' : j'.phase.isOver = true)
    (hreturned : ∀ result, j'.phase ≠ .returned result) : Accounted j' := by
  apply Accounted.of_over hover'
  · intro row hrow
    rw [hhistory] at hrow
    exact (h.fits row hrow).of_inprogress (h.inprogress hover row hrow)
  · intro result hresult
    exact absurd hresult (hreturned result)

/-- The end of a phase that is over already, or of one with a row that fits. -/
theorem Accounted.close (h : Accounted j) {phase : Phase} (hover : phase.isOver = true)
    (hreturned : ∀ result, phase = .returned result → j.stage = .recorded) :
    Accounted { j with phase } := by
  apply Accounted.of_over hover
  · exact h.fits
  · intro result hresult hstage
    exact absurd (hreturned result hresult) hstage

/-! ### The calls of the runner -/

variable {o : Outcome}

theorem Accounted.acquire (h : Accounted j) {answered : Bool}
    (hact : j.toRunner.act b.base i (.acquire answered) = some o) :
    Accounted (j.after b o (.acquire answered)) := by
  simp only [Runner.act] at hact
  split at hact
  case h_2 => cases hact
  case h_1 hphase =>
  have hover : j.phase.isOver = false := by rw [hphase]; rfl
  show Accounted { j with phase := o.phase }
  split at hact
  · obtain rfl := Option.some.inj hact
    exact h.stop hover rfl rfl (by intro result hr; cases hr)
  · obtain rfl := Option.some.inj hact
    cases answered with
    | false => exact h.stop hover rfl rfl (by intro result hr; cases hr)
    | true =>
      dsimp only
      rw [if_pos rfl]
      split
      · exact h.advance hover rfl rfl (h.of_started hphase)
      · exact h.advance hover rfl rfl (h.of_started hphase)

theorem Accounted.page (h : Accounted j) (hact : j.toRunner.act b.base i .page = some o) :
    Accounted (j.after b o .page) := by
  simp only [Runner.act] at hact
  split at hact
  case h_2 => cases hact
  case h_1 offset yielded txn hphase =>
  have hover : j.phase.isOver = false := by rw [hphase]; rfl
  obtain ⟨hselected, hnotified, hinserted⟩ := h.of_paging hphase
  rw [Job.after, hphase]
  split at hact
  · obtain rfl := Option.some.inj hact
    exact h.stop hover rfl rfl (by intro result hr; cases hr)
  · obtain rfl := Option.some.inj hact
    dsimp only [State.goto, afterPage]
    split
    · refine h.advance hover ?_ ?_ ⟨?_, ?_, ?_⟩
      · rfl
      · rfl
      · rw [hselected]
        rfl
      · rw [hnotified, hselected]
        rfl
      · rw [hinserted]
        rfl
    · refine h.advance hover ?_ ?_ ⟨?_, hnotified, hinserted⟩
      · rfl
      · rfl
      · rw [hselected]
        rfl

theorem Accounted.createChunk (h : Accounted j) {answered : Bool}
    (hact : j.toRunner.act b.base i (.createChunk answered) = some o) :
    Accounted (j.after b o (.createChunk answered)) := by
  simp only [Runner.act] at hact
  split at hact
  case h_2 => cases hact
  case h_1 targetCount task rest createdCount txn hphase =>
  have hover : j.phase.isOver = false := by rw [hphase]; rfl
  obtain ⟨htarget, hchunks, hcreated⟩ := h.of_creating hphase
  rw [Job.after, hphase]
  obtain rfl := Option.some.inj hact
  cases answered with
  | false => exact h.stop hover rfl rfl (by intro result hr; cases hr)
  | true =>
    refine h.advance hover ?_ ?_ ⟨htarget, ?_, ?_⟩
    · rfl
    · rfl
    · dsimp only
      rw [List.append_assoc, List.take_append_drop]
      exact hchunks
    · dsimp only
      rw [List.length_append, List.length_drop, hcreated]
      rfl

theorem Accounted.purge (h : Accounted j) {answered : Bool}
    (hact : j.toRunner.act b.base i (.purge answered) = some o) :
    Accounted (j.after b o (.purge answered)) := by
  simp only [Runner.act] at hact
  split at hact
  case h_2 => cases hact
  case h_1 targetCount createdCount txn hphase =>
  have hover : j.phase.isOver = false := by rw [hphase]; rfl
  obtain ⟨htarget, hchunks, hcreated⟩ := h.of_creating hphase
  rw [List.append_nil] at hchunks
  show Accounted { j with phase := o.phase }
  split at hact
  · obtain rfl := Option.some.inj hact
    exact h.stop hover rfl rfl (by intro result hr; cases hr)
  · obtain rfl := Option.some.inj hact
    cases answered with
    | false => exact h.stop hover rfl rfl (by intro result hr; cases hr)
    | true => exact h.advance hover rfl rfl ⟨htarget, hchunks, hcreated⟩

theorem Accounted.run (h : Accounted j) {c : RunnerCall} (hallowed : c.allowed j.stage = true)
    (hact : j.toRunner.act b.base i c = some o) : Accounted (j.after b o c) := by
  cases c with
  | acquire answered => exact h.acquire hact
  | page => exact h.page hact
  | createChunk answered => exact h.createChunk hact
  | purge answered => exact h.purge hact
  | complete | skip => cases hallowed
  | raise =>
    obtain ⟨phase, hphase, rfl⟩ := Option.map_eq_some_iff.mp hact
    have hfailing : ∃ lockAcquired, phase = .failing lockAcquired := by
      cases hp : j.phase <;> rw [hp] at hphase <;> cases hphase <;> exact ⟨_, rfl⟩
    obtain ⟨lockAcquired, rfl⟩ := hfailing
    exact h.close rfl (by intro result hr; cases hr)
  | release | releaseRaises =>
    simp only [Runner.act] at hact
    split at hact
    · obtain rfl := Option.some.inj hact
      exact h.close rfl fun result hr => of_decide_eq_true hallowed
    · cases hact
  | crash =>
    simp only [Runner.act] at hact
    split_ifs at hact
    obtain rfl := Option.some.inj hact
    exact h.close rfl (by intro result hr; cases hr)

/-! ### The updates of the row -/

theorem Update.apply_eq_some {f : BatchHistory → BatchHistory} {history : Option BatchHistory}
    (h : u.apply f history = some row) :
    (u = .raised ∧ history = some row) ∨
      (u ≠ .raised ∧ ∃ row₀, history = some row₀ ∧ f row₀ = row) := by
  rw [Update.apply] at h
  split at h
  · next hu => exact Or.inl ⟨hu, h⟩
  · next hu => exact Or.inr ⟨hu, Option.map_eq_some_iff.1 h⟩

/-- A row that is completed with the counts of its job. -/
theorem Accounted.completed (h : Accounted j) {targetCount successCount skippedCount : ℕ}
    {now : Timestamp} {stage : Stage} {lockAcquired lockAcquired' : Bool}
    (htarget : targetCount = j.selected.length) (hsuccess : successCount = j.inserted.length)
    (hchunks : j.notified = j.selected) :
    Accounted { j with
      history := u.apply (.complete now targetCount successCount skippedCount) j.history
      stage
      phase := if u = .done then .returned ⟨targetCount, successCount, skippedCount, lockAcquired⟩
        else .failing lockAcquired' } := by
  apply Accounted.of_over
  · dsimp only
    split
    · rfl
    · rfl
  · intro row hrow
    obtain ⟨-, hrow⟩ | ⟨-, row₀, hrow₀, rfl⟩ := Update.apply_eq_some hrow
    · exact h.fits row hrow
    · exact ⟨htarget, hsuccess, hchunks⟩
  · intro result hresult _ row hrow
    dsimp only at hresult
    split at hresult
    · next hu =>
      cases hresult
      obtain ⟨hraised, -⟩ | ⟨-, row₀, hrow₀, rfl⟩ := Update.apply_eq_some hrow
      · rw [hu] at hraised
        cases hraised
      · exact ⟨rfl, rfl, rfl, rfl⟩
    · cases hresult

/-- A row that is failed has no counts. -/
theorem Accounted.failed (h : Accounted j) {now : Timestamp} {errorCode errorDetail : String}
    {lockAcquired : Bool} :
    Accounted { j with
      history := u.apply (.fail now errorCode errorDetail 0 0 0) j.history
      stage := .recorded
      phase := .failing lockAcquired } := by
  apply Accounted.of_over rfl
  · intro row hrow
    obtain ⟨-, hrow⟩ | ⟨-, row₀, hrow₀, rfl⟩ := Update.apply_eq_some hrow
    · exact h.fits row hrow
    · exact ⟨rfl, rfl, rfl⟩
  · intro result hresult
    cases hresult

/-! ### The calls of a job -/

theorem Accounted.act (h : Accounted j) {c : JobCall} {o : JobOutcome}
    (hact : j.act b i c = some o) : Accounted o.job := by
  cases c with
  | run c =>
    rw [Job.act] at hact
    split at hact
    · next hallowed =>
      obtain ⟨o', ho', rfl⟩ := Option.map_eq_some_iff.1 hact
      exact h.run hallowed ho'
    · cases hact
  | complete u =>
    rw [Job.act] at hact
    split at hact
    · next targetCount createdCount hphase hstage =>
      obtain rfl := Option.some.inj hact
      -- every chunk is done
      obtain ⟨htarget, hchunks, hcreated⟩ := h.of_purged hphase
      exact h.completed htarget hcreated hchunks
    · cases hact
  | skip u =>
    rw [Job.act] at hact
    split at hact
    · next hphase hstage =>
      obtain rfl := Option.some.inj hact
      -- a skipped job has done nothing
      obtain ⟨hselected, hnotified, hinserted⟩ := h.of_skipped hphase
      apply h.completed
      · rw [hselected]
        rfl
      · rw [hinserted]
        rfl
      · rw [hselected, hnotified]
    · cases hact
  | fail errorDetail u =>
    rw [Job.act] at hact
    split at hact
    · obtain rfl := Option.some.inj hact
      exact h.failed
    · cases hact

/-- A purge leaves the row as it is, or no row. -/
theorem Accounted.purgeHistory (h : Accounted j) (retained : Option Timestamp) :
    Accounted (j.purgeHistory retained) := by
  have hhistory : ∀ row, (j.purgeHistory retained).history = some row → j.history = some row :=
    fun row hrow => (Option.filter_eq_some_iff.1 hrow).1
  constructor
  · exact fun row hrow => h.fits row (hhistory row hrow)
  · exact fun hover row hrow => h.inprogress hover row (hhistory row hrow)
  · exact h.progress
  · exact fun result hresult hstage row hrow =>
      h.returned result hresult hstage row (hhistory row hrow)

/-! ### Runs -/

/-- A row that has just been started. -/
theorem accounted_start (r : Runner) (answered : Bool) (now : Timestamp) (slot : String) :
    Accounted
      { r with
        phase := if answered then .started else .failing false
        history := some (.start now "due_notification" "scheduled" slot)
        stage := .working
        selected := []
        notified := []
        inserted := [] } := by
  constructor
  · intro row hrow
    cases hrow
    exact ⟨rfl, rfl, rfl⟩
  · intro _ row hrow
    cases hrow
    rfl
  · cases answered with
    | false => trivial
    | true => exact ⟨rfl, rfl, rfl⟩
  · intro result hresult
    cases answered <;> cases hresult

theorem accounted_step {c : BatchCall} {a : Unit} (h : ∀ j ∈ b.jobs, Accounted j)
    (hs : (batch zone).step b c = some (a, b')) : ∀ j ∈ b'.jobs, Accounted j := by
  cases c with
  | start slot settings answered =>
    simp only [batch] at hs
    split at hs
    · obtain ⟨-, rfl⟩ := Prod.mk.inj (Option.some.inj hs)
      intro j hj
      obtain hj | hj := List.mem_append.1 hj
      · exact h j hj
      · obtain rfl := List.mem_singleton.1 hj
        exact accounted_start ⟨_, _, slot, settings, .started⟩ answered _ slot
    · cases hs
  | job i c =>
    simp only [batch] at hs
    obtain ⟨j, hj, hs⟩ := Option.bind_eq_some_iff.1 hs
    obtain ⟨o, ho, hs⟩ := Option.map_eq_some_iff.1 hs
    obtain ⟨-, rfl⟩ := Prod.mk.inj hs
    intro j' hj'
    obtain ⟨j'', hj'', rfl⟩ := List.mem_map.1 hj'
    apply Accounted.purgeHistory
    obtain hj'' | rfl := List.mem_or_eq_of_mem_set hj''
    · exact h j'' hj''
    · exact (h j (List.mem_of_getElem? hj)).act ho
  | commit tasks created =>
    simp only [batch] at hs
    split_ifs at hs
    obtain ⟨-, rfl⟩ := Prod.mk.inj (Option.some.inj hs)
    exact h
  | tick d =>
    simp only [batch] at hs
    split_ifs at hs
    obtain ⟨-, rfl⟩ := Prod.mk.inj (Option.some.inj hs)
    exact h

/-- Every job of every run is accounted for. -/
theorem accounted_of_run {b₀ : Batch} {l : List (Machine.Event Batch BatchCall Unit)}
    (hjobs : b₀.jobs = []) (h : (batch zone).Run b₀ l b) : ∀ j ∈ b.jobs, Accounted j := by
  apply h.induction fun _ b => ∀ j ∈ b.jobs, Accounted j
  · intro j hj
    rw [hjobs] at hj
    exact absurd hj List.not_mem_nil
  · intro l b c a b' _ hall hs
    exact accounted_step hall hs

/-! ### Main theorem -/

/-- **The accounting of the batch.**  In every run, a completed row has the counts of its job, all
of whose chunks are committed, a failed row has counts of zero, and a job that returns without a
failure leaves its row completed, with the counts of its result. -/
theorem accounting {b₀ : Batch} {l : List (Machine.Event Batch BatchCall Unit)}
    (hjobs : b₀.jobs = []) (h : (batch zone).Run b₀ l b) :
    ∀ j ∈ b.jobs, ∀ row, j.history = some row →
      (row.status = .complete → row.Counts j) ∧
      (row.status = .error → row.NoCounts) ∧
      (∀ result, j.phase = .returned result → j.stage ≠ .recorded → row.HasResult result) := by
  intro j hj row hrow
  have haccounted := accounted_of_run hjobs h j hj
  have hfits := haccounted.fits row hrow
  refine ⟨?_, ?_, fun result hresult hstage => haccounted.returned result hresult hstage row hrow⟩
  · intro hstatus
    rw [BatchHistory.Fits, hstatus] at hfits
    exact hfits
  · intro hstatus
    rw [BatchHistory.Fits, hstatus] at hfits
    exact hfits

/-- A batch with the tasks 1 and 2. -/
def twoDue : Batch := ⟨.empty 0, twoTasks .todo, [], []⟩

/-- A run that ends in success. -/
def successfulRun : List (Machine.Event Batch BatchCall Unit) × Batch :=
  (batch utc).runOf twoDue
    [.start "10" chunkOfOne true, .job 0 (.run (.acquire true)), .job 0 (.run .page),
      .job 0 (.run .page), .job 0 (.run .page), .job 0 (.run (.createChunk true)),
      .job 0 (.run (.createChunk true)), .job 0 (.run (.purge true)), .job 0 (.complete .done)]
    (by decide)

theorem accounting_successfulRun :
    ∃ j ∈ successfulRun.2.jobs, ∃ row, j.history = some row ∧ row.status = .complete ∧
      row.successCount = 2 ∧ row.Counts j := by
  have hjob : ∃ j row, successfulRun.2.jobs = [j] ∧ j.history = some row ∧
      row.status = .complete ∧ row.successCount = 2 := ⟨_, _, rfl, rfl, rfl, rfl⟩
  obtain ⟨j, row, hj, hrow, hstatus, hsuccess⟩ := hjob
  have hmem : j ∈ successfulRun.2.jobs := by
    rw [hj]
    exact List.mem_singleton_self j
  have h := accounting (rfl : twoDue.jobs = []) (Machine.run_runOf (batch utc) twoDue _ _ :
    (batch utc).Run twoDue successfulRun.1 successfulRun.2)
  exact ⟨j, hmem, row, hrow, hstatus, hsuccess, (h j hmem row hrow).1 hstatus⟩

/-- A run whose second chunk fails. -/
def failedRun : List (Machine.Event Batch BatchCall Unit) × Batch :=
  (batch utc).runOf twoDue
    [.start "10" chunkOfOne true, .job 0 (.run (.acquire true)), .job 0 (.run .page),
      .job 0 (.run .page), .job 0 (.run .page), .job 0 (.run (.createChunk true)),
      .job 0 (.run .raise), .job 0 (.fail "notification insert failed" .done),
      .job 0 (.run .release)]
    (by decide)

/-- The row of a run that fails behind a committed chunk counts neither its tasks nor its
notifications. -/
theorem accounting_not_exact :
    ¬∀ (zone : Zone) (b₀ b : Batch) (l : List (Machine.Event Batch BatchCall Unit)),
      b₀.jobs = [] → (batch zone).Run b₀ l b → ∀ j ∈ b.jobs, ∀ row, j.history = some row →
        row.status ≠ .inprogress →
        row.successCount = j.inserted.length ∧ row.targetCount = j.selected.length ∧
          (row.status = .complete → j.notified = j.selected) := by
  intro hall
  have hrun : (batch utc).Run twoDue failedRun.1 failedRun.2 := Machine.run_runOf _ _ _ _
  have hall' := hall utc twoDue failedRun.2 failedRun.1 rfl hrun
  have hfailed : ∃ j row, failedRun.2.jobs = [j] ∧ j.history = some row ∧ row.status = .error ∧
      row.successCount = 0 ∧ j.inserted.length = 1 := ⟨_, _, rfl, rfl, rfl, rfl, rfl⟩
  obtain ⟨j, row, hj, hrow, hstatus, hsuccess, hinserted⟩ := hfailed
  have hmem : j ∈ failedRun.2.jobs := by
    rw [hj]
    exact List.mem_singleton_self j
  obtain ⟨hcount, -⟩ := hall' j hmem row hrow (by rw [hstatus]; decide)
  rw [hsuccess, hinserted] at hcount
  cases hcount

end DueNotification
