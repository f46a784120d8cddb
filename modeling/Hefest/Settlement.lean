import Hefest.DrainRuns

set_option autoImplicit false

/-!
# Every job is settled

Drain after drain, by whatever workers, a pending job goes through its claims one after the other
until one of them decides it. Which claim that is only the outcomes of its sends say, and once it
has been due in as many drains as it may have claims it is there.
-/
namespace Hefest
open Transition

section Fate
variable (settings : Settings) (outcomes : Outcomes) (id : UUID)

def Retries (n : ℕ) : Prop :=
  (∃ message, outcomes id n = .transientError message) ∧ (n : ℤ) < settings.workerMaxAttempts

/-- The claims after the first `first` have all given the job back, up to the one with `last`. -/
def GivenBack (first last : ℕ) : Prop := ∀ n, first < n → n ≤ last → Retries settings outcomes id n

structure Decides (first last : ℕ) : Prop where
  later : first < last
  before : ∀ n, first < n → n < last → Retries settings outcomes id n
  stops : ¬ Retries settings outcomes id last

end Fate

theorem Decides.unique {settings : Settings} {outcomes : Outcomes} {id : UUID} {first m n : ℕ}
    (hm : Decides settings outcomes id first m) (hn : Decides settings outcomes id first n) :
    m = n := by
  rcases Nat.lt_trichotomy m n with hlt | rfl | hlt
  · exact absurd (hn.before m hm.later hlt) hm.stops
  · rfl
  · exact absurd (hm.before n hn.later hlt) hn.stops

def SendOutcome.Leaves (job : NotificationJob) : SendOutcome → Prop
  | .succeeds => job.status = .completed
  | .permanentError message | .transientError message =>
    job.status = .failed ∧ job.lastError = some message

theorem SendOutcome.Leaves.not_open {job : NotificationJob} {o : SendOutcome} (h : o.Leaves job) :
    job.status ≠ .pending ∧ job.status ≠ .processing := by
  cases o with
  | succeeds =>
    rw [show job.status = .completed from h]
    decide
  | permanentError message =>
    rw [h.1]
    decide
  | transientError message =>
    rw [h.1]
    decide

/-- A job between two drains that had `first` attempts at the start: every claim so far has given
    it back, or one has decided it. -/
inductive Rested (settings : Settings) (outcomes : Outcomes) (first : ℕ) (job : NotificationJob) :
    Prop
  | waiting (status : job.status = .pending)
      (path : GivenBack settings outcomes job.id first job.attempts) (more : first ≤ job.attempts)
  | settled (decides : Decides settings outcomes job.id first job.attempts)
      (leaves : (outcomes job.id job.attempts).Leaves job)

/-- The job inside a drain, where the last claim may be on its way. -/
inductive Fated (settings : Settings) (w : WorkerId) (outcomes : Outcomes) (first : ℕ) (x : Worker)
    (job : NotificationJob) : Prop
  | rested (rest : Rested settings outcomes first job)
  | held (fenced : job.fenced job.id w = true) (task : ∃ task ∈ x.tasks, task.jobId = job.id)
      (path : ∀ n, first < n → n < job.attempts → Retries settings outcomes job.id n)
      (more : first < job.attempts)

theorem SendOutcome.Leaves.alike {job job' : NotificationJob} {o : SendOutcome} (h : o.Leaves job)
    (h' : o.Leaves job') :
    job.status = job'.status ∧ (job.status = .failed → job.lastError = job'.lastError) := by
  cases o with
  | succeeds =>
    have hcompleted : job.status = .completed := h
    refine ⟨hcompleted.trans h'.symm, fun hfailed => ?_⟩
    cases hcompleted.symm.trans hfailed
  | permanentError message => exact ⟨h.1.trans h'.1.symm, fun _ => h.2.trans h'.2.symm⟩
  | transientError message => exact ⟨h.1.trans h'.1.symm, fun _ => h.2.trans h'.2.symm⟩

section Row
variable {settings : Settings} {w : WorkerId} {outcomes : Outcomes} {D D' : Drain} {id : UUID}
  {job : NotificationJob} {a : DrainAction} {os : List (UUID × DrainEvent)}

inductive RowMove (settings : Settings) (w : WorkerId) (outcomes : Outcomes) (x x' : Worker)
    (job : NotificationJob) : NotificationJob → Prop
  | kept {job' : NotificationJob} (same : job'.result = job.result)
      (due : job'.nextAttemptAt = job.nextAttemptAt)
      (tasks : job.fenced job.id w = true → (∃ task ∈ x.tasks, task.jobId = job.id) →
        ∃ task ∈ x'.tasks, task.jobId = job.id) : RowMove settings w outcomes x x' job job'
  | reaped {now : Time} (status : job.status = .processing) (idle : x.tasks = []) :
      RowMove settings w outcomes x x' job (job.reap now)
  | claimed {now : Time} (status : job.status = .pending)
      (task : ∃ task ∈ x'.tasks, task.jobId = job.id) :
      RowMove settings w outcomes x x' job (job.claim w now)
  | finalized {now : Time} {claimed : ClaimedJob} (fenced : job.fenced job.id w = true)
      (latest : claimed.attempts = job.attempts) :
      RowMove settings w outcomes x x' job
        (((outcomes job.id job.attempts).finalizer settings claimed).set now job)

theorem Drain.Ok.rowMove_run (hD : D.Ok settings w outcomes)
    (hjob : Table.lookup NotificationJob.id id D.jobs = some job) {task : Task} {f : Finalizer}
    {k : ℕ} (found : D.worker.task? task.jobId = some task) (state : task.state = .finalizing f k)
    {x : Worker} (now : Time)
    (hothers : ∀ other ∈ D.worker.tasks, other.jobId ≠ task.jobId →
      ∃ kept ∈ x.tasks, kept.jobId = other.jobId) :
    ∃ job', Table.lookup NotificationJob.id id (f.run task.jobId w now D.jobs).1 = some job' ∧
      RowMove settings w outcomes D.worker x job job' := by
  have hmem := Table.lookup_mem found
  have htowards := hD.towards task hmem
  rw [state] at htowards
  obtain ⟨rfl, -⟩ := htowards
  rw [finalizer_lookup, hjob]
  cases hfenced : job.fenced task.jobId w with
  | true =>
    have hid : job.id = task.jobId := (of_decide_eq_true hfenced).1
    have hattempts := hD.latest task hmem job (Table.lookup_mem hjob) hfenced
    refine ⟨_, rfl, ?_⟩
    simp only [hfenced, if_true]
    rw [← hid, ← hattempts]
    exact .finalized (hid ▸ hfenced) hattempts.symm
  | false =>
    refine ⟨job, by simp [hfenced], .kept rfl rfl ?_⟩
    rintro hheld ⟨other, hother, hid⟩
    have hne : other.jobId ≠ task.jobId := by
      intro hsame
      rw [← hid, hsame, hfenced] at hheld
      cases hheld
    obtain ⟨kept, hkept, hsame⟩ := hothers other hother hne
    exact ⟨kept, hkept, hsame.trans hid⟩

theorem setTask_keeps {x : Worker} {task other : Task} (s : TaskState) (hother : other ∈ x.tasks) :
    ∃ kept ∈ (x.setTask task.jobId s).tasks, kept.jobId = other.jobId := by
  have hjobIds : (x.setTask task.jobId s).tasks.map Task.jobId = x.tasks.map Task.jobId :=
    Table.map_update Task.jobId fun _ => rfl
  rw [← List.mem_map, hjobIds]
  exact List.mem_map_of_mem hother

/-- A statement that has picked rows changes the row, or has not picked it. -/
theorem picked_row {jobs rows : List NotificationJob}
    (change : NotificationJob → NotificationJob) (hunique : Table.KeyUnique NotificationJob.id jobs)
    (hrows : ∀ j ∈ rows, j ∈ jobs) (hpicked : Table.KeyUnique NotificationJob.id rows)
    (hid : ∀ j, (change j).id = j.id)
    (hjob : Table.lookup NotificationJob.id id jobs = some job) :
    (job ∈ rows ∧ Table.lookup NotificationJob.id id
        (Table.updateWhere (fun j => j.id ∈ rows.map NotificationJob.id) change jobs) =
          some (change job)) ∨
      Table.lookup NotificationJob.id id
        (Table.updateWhere (fun j => j.id ∈ rows.map NotificationJob.id) change jobs) =
          some job := by
  rw [lookup_updatePicked hunique hrows hpicked hid]
  have hfound := lookup_picked hunique hrows hpicked hjob
  split_ifs at hfound with hmem
  · left
    rw [hfound]
    exact ⟨Table.lookup_mem hfound, rfl⟩
  · right
    rw [hfound]
    exact hjob

theorem DrainStep.row (h : DrainStep settings w outcomes D a os D') (hD : D.Ok settings w outcomes)
    (hjob : Table.lookup NotificationJob.id id D.jobs = some job) :
    ∃ job', Table.lookup NotificationJob.id id D'.jobs = some job' ∧
      RowMove settings w outcomes D.worker D'.worker job job' := by
  have hidle : D.worker.isProcessing = false → ∀ x' : Worker,
      job.fenced job.id w = true → (∃ task ∈ D.worker.tasks, task.jobId = job.id) →
        ∃ task ∈ x'.tasks, task.jobId = job.id := by
    intro hbetween x' _ htask
    rw [hD.idle hbetween] at htask
    obtain ⟨task, htask, -⟩ := htask
    cases htask
  cases h with
  | @reap now skip phase =>
    have hbetween : D.worker.isProcessing = false := by
      unfold Worker.isProcessing
      rw [phase]
    rcases picked_row (.reap now) hD.unique (fun j hj => (mem_reapable hj).1)
        (reapable_unique hD.unique) (fun _ => rfl) hjob with ⟨hpicked, hreaped⟩ | hkept
    · exact ⟨_, hreaped, .reaped (mem_reapable hpicked).2 (hD.idle hbetween)⟩
    · exact ⟨job, hkept, .kept rfl rfl (hidle hbetween _)⟩
  | check phase => exact ⟨job, hjob, .kept rfl rfl fun _ htask => htask⟩
  | @claim now rows jobs phase batch =>
    obtain ⟨rfl, rfl⟩ := Prod.mk.inj batch
    have hbetween : D.worker.isProcessing = false := by
      unfold Worker.isProcessing
      rw [phase]
    rcases picked_row (.claim w now) hD.unique (fun j hj => (mem_claimable hj).1)
        (claimable_unique hD.unique) (fun _ => rfl) hjob with ⟨hpicked, hclaimed⟩ | hkept
    · refine ⟨_, hclaimed, .claimed (mem_claimable hpicked).2 ?_⟩
      refine ⟨⟨(job.claim w now).claimed, .queued⟩, ?_, rfl⟩
      exact List.mem_map_of_mem (List.mem_map_of_mem hpicked)
    · exact ⟨job, hkept, .kept rfl rfl (hidle hbetween _)⟩
  | join phase done => exact ⟨job, hjob, .kept rfl rfl fun _ htask => htask⟩
  | @renewHeartbeat now =>
    have hrow : Table.lookup NotificationJob.id id (Hefest.renewHeartbeat w now D.jobs) =
        some (if decide (job.lockedBy = some w ∧ job.status = .processing) then
          { job with heartbeatAt := some now, updatedAt := now } else job) := by
      unfold Hefest.renewHeartbeat
      rw [Table.lookup_updateWhere (by intro _; rfl), hjob]
      rfl
    refine ⟨_, hrow, ?_⟩
    split_ifs
    · exact .kept rfl rfl fun _ htask => htask
    · exact .kept rfl rfl fun _ htask => htask
  | @advance _ task s other batch found slot move =>
    refine ⟨job, hjob, .kept rfl rfl ?_⟩
    rintro - ⟨held, hheld, hsame⟩
    obtain ⟨kept, hkept, hkeptId⟩ := setTask_keeps s hheld
    exact ⟨kept, hkept, hkeptId.trans hsame⟩
  | @finalize now task f k found state =>
    refine hD.rowMove_run hjob found state now fun other hother hne => ⟨other, ?_, rfl⟩
    exact List.mem_filter.mpr ⟨hother, by simpa using hne⟩
  | @finalizeAgain now committed task f k found state left =>
    cases committed with
    | true =>
      exact hD.rowMove_run hjob found state now fun other hother _ => setTask_keeps _ hother
    | false =>
      refine ⟨job, hjob, .kept rfl rfl ?_⟩
      rintro - ⟨held, hheld, hsame⟩
      obtain ⟨kept, hkept, hkeptId⟩ := setTask_keeps (.finalizing f (k + 1)) hheld
      exact ⟨kept, hkept, hkeptId.trans hsame⟩

theorem SendOutcome.finalizer_transient {claimed : ClaimedJob} {message : String} :
    (SendOutcome.transientError message).finalizer settings claimed =
      if settings.workerMaxAttempts ≤ claimed.attempts then .markFailed message
      else
        .markRetry message (backoffDelay claimed.attempts settings.workerBackoffBaseSeconds) := by
  unfold SendOutcome.finalizer
  simp only [SendOutcome.failure?, Option.bind_some, onFailure]
  split_ifs <;> rfl

/-- A claim that is finalized decides the job or gives it back. -/
theorem Rested.finalized {first : ℕ} {now : Time} {claimed : ClaimedJob}
    (latest : claimed.attempts = job.attempts)
    (path : ∀ n, first < n → n < job.attempts → Retries settings outcomes job.id n)
    (more : first < job.attempts) :
    Rested settings outcomes first
      (((outcomes job.id job.attempts).finalizer settings claimed).set now job) := by
  cases houtcome : outcomes job.id job.attempts with
  | succeeds =>
    refine .settled ⟨more, path, ?_⟩ ?_
    · rintro ⟨⟨message, hmessage⟩, -⟩
      cases houtcome.symm.trans hmessage
    · change (outcomes job.id job.attempts).Leaves _
      rw [houtcome]
      rfl
  | permanentError message =>
    refine .settled ⟨more, path, ?_⟩ ?_
    · rintro ⟨⟨other, hother⟩, -⟩
      cases houtcome.symm.trans hother
    · change (outcomes job.id job.attempts).Leaves _
      rw [houtcome]
      exact ⟨rfl, rfl⟩
  | transientError message =>
    rw [SendOutcome.finalizer_transient, latest]
    split_ifs with hlast
    · refine .settled ⟨more, path, fun hretries => ?_⟩ ?_
      · exact absurd hlast (not_le.mpr hretries.2)
      · change (outcomes job.id job.attempts).Leaves _
        rw [houtcome]
        exact ⟨rfl, rfl⟩
    · refine .waiting rfl (fun n hfirst hn => ?_) more.le
      have hn : n ≤ job.attempts := hn
      rcases Nat.lt_or_eq_of_le hn with hlt | rfl
      · exact path n hfirst hlt
      · exact ⟨⟨message, houtcome⟩, not_le.mp hlast⟩

theorem same_result {job' : NotificationJob} (same : job'.result = job.result) :
    job'.id = job.id ∧ job'.status = job.status ∧ job'.attempts = job.attempts ∧
      job'.lockedBy = job.lockedBy ∧ job'.lastError = job.lastError :=
  ⟨congrArg JobResult.id same, congrArg JobResult.status same, congrArg JobResult.attempts same,
    congrArg JobResult.lockedBy same, congrArg JobResult.lastError same⟩

theorem Rested.same {first : ℕ} {job' : NotificationJob} (h : Rested settings outcomes first job)
    (same : job'.result = job.result) : Rested settings outcomes first job' := by
  obtain ⟨hid, hstatus, hattempts, -, herror⟩ := same_result same
  cases h with
  | waiting status path more =>
    refine .waiting (hstatus.trans status) ?_ (hattempts ▸ more)
    rw [hid, hattempts]
    exact path
  | settled decides leaves =>
    refine .settled ?_ ?_
    · rw [hid, hattempts]
      exact decides
    · rw [hid, hattempts]
      revert leaves
      cases outcomes job.id job.attempts with
      | succeeds => exact fun leaves => hstatus.trans leaves
      | _ => exact fun leaves => ⟨hstatus.trans leaves.1, herror.trans leaves.2⟩

/-- A claim that has decided the job is the last: a job given back later was waiting before. -/
theorem Rested.waiting_before {first : ℕ} {job' : NotificationJob}
    (h : Rested settings outcomes first job) (h' : Rested settings outcomes first job')
    (hid : job'.id = job.id) (hmore : job.attempts ≤ job'.attempts)
    (hpending : job'.status = .pending) : job.status = .pending := by
  cases h' with
  | settled _ leaves => exact absurd hpending leaves.not_open.1
  | waiting _ path =>
    cases h with
    | waiting status => exact status
    | settled decides =>
      rw [hid] at path
      exact absurd (path job.attempts decides.later hmore) decides.stops

theorem Rested.not_processing {first : ℕ} (h : Rested settings outcomes first job) :
    job.status ≠ .processing := by
  cases h with
  | waiting status =>
    rw [status]
    decide
  | settled decides leaves => exact leaves.not_open.2

theorem Fated.move {x x' : Worker} {first : ℕ} {job' : NotificationJob}
    (h : Fated settings w outcomes first x job)
    (hmove : RowMove settings w outcomes x x' job job') :
    Fated settings w outcomes first x' job' := by
  have hprocessing : job.fenced job.id w = true → job.status = .processing := fun hfenced =>
    (of_decide_eq_true hfenced).2.2
  cases hmove with
  | kept same due tasks =>
    obtain ⟨hid, hstatus, hattempts, hlocked, -⟩ := same_result same
    cases h with
    | rested rest => exact .rested (rest.same same)
    | held fenced task path more =>
      refine .held ?_ ?_ ?_ (hattempts ▸ more)
      · rw [NotificationJob.fenced, hid, hlocked, hstatus]
        exact fenced
      · rw [hid]
        exact tasks fenced task
      · rw [hid, hattempts]
        exact path
  | reaped status idle =>
    cases h with
    | rested rest => exact absurd status rest.not_processing
    | held fenced task =>
      obtain ⟨task, htask, -⟩ := task
      rw [idle] at htask
      cases htask
  | @claimed now status task =>
    cases h with
    | rested rest =>
      cases rest with
      | waiting pending path more =>
        refine .held ?_ task (fun n hfirst hn => path n hfirst (Nat.lt_succ_iff.mp hn))
          (Nat.lt_succ_of_le more)
        exact decide_eq_true ⟨rfl, rfl, rfl⟩
      | settled decides leaves => exact absurd status leaves.not_open.1
    | held fenced => cases status.symm.trans (hprocessing fenced)
  | finalized fenced latest =>
    cases h with
    | rested rest => exact absurd (hprocessing fenced) rest.not_processing
    | held _ _ path more => exact .rested (.finalized latest path more)

end Row

/-- Since the start of the drain the job has been claimed, or nothing has happened to it. -/
def NotificationJob.Moved (before job : NotificationJob) : Prop :=
  before.attempts < job.attempts ∨ (job.status = .pending ∧ job.attempts = before.attempts ∧
    job.nextAttemptAt = before.nextAttemptAt)

section OneDrain
variable {settings : Settings} {w : WorkerId} {outcomes : Outcomes} {D : Drain} {id : UUID}
  {jobs : List NotificationJob} {job before : NotificationJob} {as : List DrainAction}
  {tr : List (UUID × DrainEvent)} {first : ℕ}

theorem NotificationJob.Moved.move {x x' : Worker} {job' : NotificationJob} (h : before.Moved job)
    (hmove : RowMove settings w outcomes x x' job job') : before.Moved job' := by
  have hpending : job.status = .pending → job.fenced job.id w = false := by
    intro hstatus
    simp [NotificationJob.fenced, hstatus]
  cases hmove with
  | kept same due tasks =>
    obtain ⟨-, hstatus, hattempts, -, -⟩ := same_result same
    rw [NotificationJob.Moved, hstatus, hattempts, due]
    exact h
  | reaped status idle =>
    rcases h with hclaimed | ⟨pending, -⟩
    · exact .inl hclaimed
    · cases pending.symm.trans status
  | claimed status task =>
    rcases h with hclaimed | ⟨-, hsame, -⟩
    · exact .inl (Nat.lt_succ_of_lt hclaimed)
    · exact .inl (Nat.lt_succ_of_le hsame.ge)
  | @finalized now claimed fenced latest =>
    rcases h with hclaimed | ⟨pending, -⟩
    · left
      rw [Finalizer.set_attempts]
      exact hclaimed
    · rw [hpending pending] at fenced
      cases fenced

theorem drain_row {P : Worker → NotificationJob → Prop}
    (hP : ∀ {x x' job job'}, P x job → RowMove settings w outcomes x x' job job' → P x' job')
    (hjobs : Table.KeyUnique NotificationJob.id jobs)
    (h : execute (drainStep settings w outcomes) (.start jobs) as = some (D, tr))
    (hjob : Table.lookup NotificationJob.id id jobs = some before)
    (hbefore : P (Drain.start jobs).worker before) :
    D.Ok settings w outcomes ∧
      ∃ job, Table.lookup NotificationJob.id id D.jobs = some job ∧ P D.worker job := by
  apply (execute_run h).invariant (fun _ D => D.Ok settings w outcomes ∧
    ∃ job, Table.lookup NotificationJob.id id D.jobs = some job ∧ P D.worker job)
  · exact ⟨.start hjobs, before, hjob, hbefore⟩
  · rintro tr D a D' os ⟨hD, job, hfound, hold⟩ hs
    have hstep := drainStep_cases hs
    obtain ⟨job', hfound', hmove⟩ := hstep.row hD hfound
    exact ⟨hD.step hstep, job', hfound', hP hold hmove⟩

theorem claimed_counted {n : ℕ} (hjobs : Table.KeyUnique NotificationJob.id jobs)
    (h : execute (drainStep settings w outcomes) (.start jobs) as = some (D, tr))
    (hclaimed : (id, .claimed n) ∈ tr) : D.HasReached id n := by
  have htally : D.Ok settings w outcomes ∧ D.Tally id n tr := by
    apply (execute_run h).invariant (fun tr D => D.Ok settings w outcomes ∧ D.Tally id n tr)
    · exact ⟨.start hjobs, .start jobs⟩
    · intro tr E a E' os hE hs
      exact ⟨hE.1.step (drainStep_cases hs), hE.2.step hE.1 (drainStep_cases hs)⟩
  exact htally.2.counted ((Table.mem_eventsOf id).mpr hclaimed)

theorem reached_run {E : Drain} {n : ℕ}
    (h : execute (drainStep settings w outcomes) E as = some (D, tr)) (hn : E.HasReached id n) :
    D.HasReached id n :=
  (execute_run h).invariant (fun _ D => D.HasReached id n) hn
    fun _ _ _ _ _ hreached hs => (drainStep_cases hs).reached hreached

theorem Drain.HasReached.row {n : ℕ} (hn : D.HasReached id n) (hD : D.Ok settings w outcomes)
    (hjob : Table.lookup NotificationJob.id id D.jobs = some job) : n ≤ job.attempts := by
  obtain ⟨row, hrow, hid, hle⟩ := hn
  have hsame : row = job :=
    hD.unique.eq_of_key hrow (Table.lookup_mem hjob) (hid.trans (Table.lookup_key hjob).symm)
  rw [← hsame]
  exact hle

/-- A drain that returns leaves a job at rest that it found at rest, with no claim forgotten. -/
theorem Rested.drain (hrest : Rested settings outcomes first before)
    (hjobs : Table.KeyUnique NotificationJob.id jobs)
    (h : execute (drainStep settings w outcomes) (.start jobs) as = some (D, tr))
    (hjob : Table.lookup NotificationJob.id id jobs = some before)
    (hreturned : D.returned = true) :
    D.Ok settings w outcomes ∧ ∃ job, Table.lookup NotificationJob.id id D.jobs = some job ∧
      Rested settings outcomes first job ∧ before.attempts ≤ job.attempts := by
  obtain ⟨hD, job, hfound, hfated⟩ := drain_row (P := Fated settings w outcomes first)
    Fated.move hjobs h hjob (.rested hrest)
  have hreached : D.HasReached id before.attempts :=
    reached_run h ⟨before, Table.lookup_mem hjob, Table.lookup_key hjob, le_rfl⟩
  refine ⟨hD, job, hfound, ?_, hreached.row hD hfound⟩
  cases hfated with
  | rested rest => exact rest
  | held _ task =>
    -- a drain that has returned has no tasks
    have hidle : D.worker.isProcessing = false := by
      unfold Worker.isProcessing
      rw [beq_iff_eq.mp hreturned]
    obtain ⟨task, htask, -⟩ := task
    rw [hD.idle hidle] at htask
    cases htask

/-- The row of the job is due whenever the drain claims. -/
def DueIn (id : UUID) (jobs : List NotificationJob) (as : List DrainAction) : Prop :=
  ∀ job ∈ jobs, job.id = id → ∀ now, DrainAction.claim now ∈ as → job.nextAttemptAt ≤ now

theorem due_claimed (hclaim : 0 < settings.workerClaimBatchSize)
    (hjobs : Table.KeyUnique NotificationJob.id jobs)
    (h : execute (drainStep settings w outcomes) (.start jobs) as = some (D, tr))
    (hjob : Table.lookup NotificationJob.id id jobs = some before)
    (hpending : before.status = .pending) (hreturned : D.returned = true)
    (hdue : DueIn id jobs as) : D.HasReached id (before.attempts + 1) := by
  obtain ⟨-, hall⟩ := claimedAllDue hclaim hjobs h
  have hclosing : D.closing settings = true := by
    unfold Drain.closing
    rw [beq_iff_eq.mp hreturned]
  obtain ⟨earlier, now, rest, E, tr', rfl, -, hearlier, htaken⟩ := hall hclosing
  obtain ⟨-, row, hrow, hmoved⟩ := drain_row (P := fun _ => before.Moved)
    NotificationJob.Moved.move hjobs hearlier hjob (.inr ⟨hpending, rfl, rfl⟩)
  have hmem : row ∈ E.jobs := Table.lookup_mem hrow
  have hid : row.id = id := Table.lookup_key hrow
  -- before its last claim the drain has claimed the job, or that claim takes it
  rcases hmoved with hclaimed | ⟨pending, hsame, hnext⟩
  · obtain ⟨E', trace, trace', hE', hlater, -⟩ := execute_append h
    rw [hearlier] at hE'
    cases hE'
    exact reached_run hlater ⟨row, hmem, hid, hclaimed⟩
  · have hrowDue : row.due now = true := by
      refine decide_eq_true ⟨pending, ?_⟩
      rw [hnext]
      exact hdue before (Table.lookup_mem hjob) (Table.lookup_key hjob) now (by simp)
    have hevent := htaken row hmem hrowDue
    rw [hid, hsame] at hevent
    exact claimed_counted hjobs h hevent

end OneDrain

/-- Drains by any workers, each when the one before has returned, and new jobs in between. Of these
    drains the job is due in `n`, or in more. -/
inductive Rounds (settings : Settings) (outcomes : Outcomes) (id : UUID)
    (jobs : List NotificationJob) : ℕ → List NotificationJob → Prop
  | start : Rounds settings outcomes id jobs 0 jobs
  | enqueue {n : ℕ} {now new : List NotificationJob} (tail : Rounds settings outcomes id jobs n now)
      (accepted : jobsViolation now new = none) :
      Rounds settings outcomes id jobs n (now ++ new)
  | early {n : ℕ} {now : List NotificationJob} {w : WorkerId} {as : List DrainAction} {D : Drain}
      {tr : List (UUID × DrainEvent)} (tail : Rounds settings outcomes id jobs n now)
      (h : execute (drainStep settings w outcomes) (.start now) as = some (D, tr))
      (returned : D.returned = true) : Rounds settings outcomes id jobs n D.jobs
  | due {n : ℕ} {now : List NotificationJob} {w : WorkerId} {as : List DrainAction} {D : Drain}
      {tr : List (UUID × DrainEvent)} (tail : Rounds settings outcomes id jobs n now)
      (h : execute (drainStep settings w outcomes) (.start now) as = some (D, tr))
      (returned : D.returned = true) (due : DueIn id now as) :
      Rounds settings outcomes id jobs (n + 1) D.jobs

section Settlement
variable {settings : Settings} {outcomes : Outcomes} {id : UUID} {first n : ℕ}
  {jobs now : List NotificationJob} {job : NotificationJob}

structure Progress (settings : Settings) (outcomes : Outcomes) (id : UUID) (first n : ℕ)
    (jobs : List NotificationJob) : Prop where
  unique : Table.KeyUnique NotificationJob.id jobs
  row : ∃ job, Table.lookup NotificationJob.id id jobs = some job ∧
    Rested settings outcomes first job ∧ (job.status = .pending → first + n ≤ job.attempts)

theorem Progress.drain {w : WorkerId} {as : List DrainAction} {D : Drain}
    {tr : List (UUID × DrainEvent)} {m : ℕ} (hnow : Progress settings outcomes id first n now)
    (h : execute (drainStep settings w outcomes) (.start now) as = some (D, tr))
    (hreturned : D.returned = true)
    (hcount : ∀ before, Table.lookup NotificationJob.id id now = some before →
      before.status = .pending → D.HasReached id (before.attempts + m)) :
    Progress settings outcomes id first (n + m) D.jobs := by
  obtain ⟨before, hbefore, hrest, hreached⟩ := hnow.row
  obtain ⟨hD, job, hfound, hrest', hmore⟩ := hrest.drain hnow.unique h hbefore hreturned
  refine ⟨hD.unique, job, hfound, hrest', fun hpending => ?_⟩
  have hid : job.id = before.id := (Table.lookup_key hfound).trans (Table.lookup_key hbefore).symm
  have hwaiting : before.status = .pending := hrest.waiting_before hrest' hid hmore hpending
  have hclaims := (hcount before hbefore hwaiting).row hD hfound
  have hdue := hreached hwaiting
  omega

theorem Rounds.progress (hclaim : 0 < settings.workerClaimBatchSize)
    (rounds : Rounds settings outcomes id jobs n now)
    (hstart : Progress settings outcomes id first 0 jobs) :
    Progress settings outcomes id first n now := by
  induction rounds with
  | start => exact hstart
  | enqueue tail accepted ih =>
    obtain ⟨job, hfound, hrow⟩ := ih.row
    exact ⟨keyUnique_insertJobs ih.unique accepted, job,
      Table.lookup_append_of_some hfound, hrow⟩
  | early tail h returned ih =>
    refine ih.drain (m := 0) h returned fun before hbefore _ => ?_
    exact reached_run h ⟨before, Table.lookup_mem hbefore, Table.lookup_key hbefore, le_rfl⟩
  | due tail h returned due ih =>
    refine ih.drain h returned fun before hbefore hpending => ?_
    exact due_claimed hclaim ih.unique h hbefore hpending returned due

theorem Progress.start (hjobs : Table.KeyUnique NotificationJob.id jobs) (hjob : job ∈ jobs)
    (hpending : job.status = .pending) :
    Progress settings outcomes job.id job.attempts 0 jobs := by
  refine ⟨hjobs, job, hjobs.lookup_self hjob, .waiting hpending ?_ le_rfl, fun _ => le_rfl⟩
  intro k hfirst hk
  omega

theorem Progress.decided (h : Progress settings outcomes id first n now) (hjob : job ∈ now)
    (hid : job.id = id) (hended : job.status ≠ .pending) :
    Decides settings outcomes id first job.attempts ∧ (outcomes id job.attempts).Leaves job := by
  subst hid
  obtain ⟨row, hfound, hrest, -⟩ := h.row
  have hsame : row = job :=
    h.unique.eq_of_key (Table.lookup_mem hfound) hjob (Table.lookup_key hfound)
  subst hsame
  cases hrest with
  | waiting status => exact absurd status hended
  | settled decides leaves => exact ⟨decides, leaves⟩

theorem dueIn_single {as : List DrainAction}
    (h : ∀ time, DrainAction.claim time ∈ as → job.nextAttemptAt ≤ time) : DueIn id [job] as := by
  intro other hother _ time htime
  rw [List.mem_singleton.mp hother]
  exact h time htime

/-- What a drain of one job is evaluated to is a round. -/
theorem Rounds.evaluated {w : WorkerId} {as : List DrainAction} {job' : NotificationJob}
    (tail : Rounds settings outcomes id jobs n [job])
    (hrun : (execute (drainStep settings w outcomes) (.start [job]) as).map
      (fun r => (r.1.returned, r.1.jobs)) = some (true, [job']))
    (hdue : ∀ time, DrainAction.claim time ∈ as → job.nextAttemptAt ≤ time) :
    Rounds settings outcomes id jobs (n + 1) [job'] := by
  obtain ⟨⟨D, tr⟩, h, heq⟩ := Option.map_eq_some_iff.mp hrun
  obtain ⟨hreturned, hjobs⟩ := Prod.mk.inj heq
  have hround := tail.due h hreturned (dueIn_single hdue)
  rw [hjobs] at hround
  exact hround

end Settlement

/-- Whatever workers drain the outbox, one after the other and each to the end of its drain, and
    whatever is enqueued in between, a pending job is where the outcomes of its sends put it: pending
    after claims that have all given it back, at least one for every drain it was due in, or as the
    first claim leaves it that did not. Due in as many drains as it may have claims, it is there. -/
theorem jobs_settle (settings : Settings) (outcomes : Outcomes)
    (hclaim : 0 < settings.workerClaimBatchSize) (jobs : List NotificationJob)
    (hjobs : Table.KeyUnique NotificationJob.id jobs) (job : NotificationJob) (hjob : job ∈ jobs)
    (hpending : job.status = .pending) (n : ℕ) (now : List NotificationJob)
    (rounds : Rounds settings outcomes job.id jobs n now) :
    ∃ row ∈ now, row.id = job.id ∧
      ((row.status = .pending ∧ job.attempts + n ≤ row.attempts ∧
          GivenBack settings outcomes job.id job.attempts row.attempts) ∨
        (Decides settings outcomes job.id job.attempts row.attempts ∧
          (outcomes job.id row.attempts).Leaves row)) ∧
      (0 < n → settings.workerMaxAttempts ≤ job.attempts + n → row.status ≠ .pending) := by
  obtain ⟨-, row, hfound, hrest, hcount⟩ :=
    rounds.progress hclaim (.start hjobs hjob hpending)
  have hid : row.id = job.id := Table.lookup_key hfound
  refine ⟨row, Table.lookup_mem hfound, hid, ?_, ?_⟩
  · cases hrest with
    | waiting status path more =>
      rw [hid] at path
      exact .inl ⟨status, hcount status, path⟩
    | settled decides leaves =>
      rw [hid] at decides leaves
      exact .inr ⟨decides, leaves⟩
  · intro hn hmax hwaiting
    have hclaims := hcount hwaiting
    cases hrest with
    | waiting status path more =>
      have hlast : (row.attempts : ℤ) < settings.workerMaxAttempts :=
        (path row.attempts (by omega) le_rfl).2
      omega
    | settled decides leaves => exact leaves.not_open.1 hwaiting

def twoClaims : Settings := { workerClaimBatchSize := 1, workerMaxAttempts := 2 }

def firstDrain : List DrainAction :=
  [.reap (seconds 10) (fun _ => false), .check, .claim (seconds 10), .start 500, .load 500 false,
    .send 500, .finalize 500 (seconds 20), .join, .check, .claim (seconds 21)]

def secondDrain : List DrainAction :=
  [.reap (seconds 90) (fun _ => false), .check, .claim (seconds 100), .start 500, .load 500 false,
    .send 500, .push 500, .finalize 500 (seconds 103), .join, .check, .claim (seconds 104)]

def greylistedJob : NotificationJob :=
  (Finalizer.markRetry "greylisted" 30).set (seconds 20) (verifyJob.claim "host:1" (seconds 10))

def secondTried : NotificationJob :=
  Finalizer.markCompleted.set (seconds 103) (greylistedJob.claim "host:2" (seconds 100))

theorem twoDrains_rounds :
    Rounds twoClaims greylisted verifyJob.id [verifyJob] 2 [secondTried] := by
  have hfirst : (execute (drainStep twoClaims "host:1" greylisted) (.start [verifyJob])
      firstDrain).map (fun r => (r.1.returned, r.1.jobs)) = some (true, [greylistedJob]) := by
    decide +kernel
  have hsecond : (execute (drainStep twoClaims "host:2" greylisted) (.start [greylistedJob])
      secondDrain).map (fun r => (r.1.returned, r.1.jobs)) = some (true, [secondTried]) := by
    decide +kernel
  refine .evaluated (.evaluated .start hfirst ?_) hsecond ?_
  · intro now hnow
    have hclaims : now = seconds 10 ∨ now = seconds 21 := by simpa [firstDrain] using hnow
    rcases hclaims with rfl | rfl <;> decide
  · intro now hnow
    have hclaims : now = seconds 100 ∨ now = seconds 104 := by simpa [secondDrain] using hnow
    rcases hclaims with rfl | rfl <;> decide

theorem jobs_settle_greylisted :
    ∃ row ∈ [secondTried], row.id = verifyJob.id ∧
      ((row.status = .pending ∧ 0 + 2 ≤ row.attempts ∧
          GivenBack twoClaims greylisted verifyJob.id 0 row.attempts) ∨
        (Decides twoClaims greylisted verifyJob.id 0 row.attempts ∧
          (greylisted verifyJob.id row.attempts).Leaves row)) ∧
      row.status ≠ .pending := by
  obtain ⟨row, hrow, hid, hplace, hended⟩ := jobs_settle twoClaims greylisted (by decide)
    [verifyJob] (List.nodup_singleton _) verifyJob (by simp) rfl 2 [secondTried] twoDrains_rounds
  exact ⟨row, hrow, hid, hplace, hended (by decide) (by decide)⟩

/-- Given the outcome of each claim, what becomes of a job does not depend on the workers, on how
    their drains divide its claims among them, or on the orders their tasks go in. -/
theorem settled_alike (settings : Settings) (outcomes : Outcomes)
    (hclaim : 0 < settings.workerClaimBatchSize) (jobs : List NotificationJob)
    (hjobs : Table.KeyUnique NotificationJob.id jobs) (job : NotificationJob) (hjob : job ∈ jobs)
    (hpending : job.status = .pending) (n m : ℕ) (here there : List NotificationJob)
    (hhere : Rounds settings outcomes job.id jobs n here)
    (hthere : Rounds settings outcomes job.id jobs m there) (row row' : NotificationJob)
    (hrow : row ∈ here) (hrow' : row' ∈ there) (hid : row.id = job.id) (hid' : row'.id = job.id)
    (hended : row.status ≠ .pending) (hended' : row'.status ≠ .pending) :
    row.status = row'.status ∧ row.attempts = row'.attempts ∧
      (row.status = .failed → row.lastError = row'.lastError) := by
  obtain ⟨hdecides, hleaves⟩ :=
    (hhere.progress hclaim (.start hjobs hjob hpending)).decided hrow hid hended
  obtain ⟨hdecides', hleaves'⟩ :=
    (hthere.progress hclaim (.start hjobs hjob hpending)).decided hrow' hid' hended'
  have hattempts : row.attempts = row'.attempts := hdecides.unique hdecides'
  rw [← hattempts] at hleaves'
  obtain ⟨hstatus, herror⟩ := hleaves.alike hleaves'
  exact ⟨hstatus, hattempts, herror⟩

def triedAgain : NotificationJob :=
  Finalizer.markCompleted.set (seconds 102)
    { greylistedJob.claim "host:1" (seconds 100) with heartbeatAt := some (seconds 101) }

theorem drainAgain_rounds :
    Rounds twoClaims greylisted verifyJob.id [verifyJob] 1 [triedAgain] := by
  have hrun : (execute (drainStep twoClaims "host:1" greylisted) (.start [verifyJob])
      drainAgain).map (fun r => (r.1.returned, r.1.jobs)) = some (true, [triedAgain]) := by
    decide +kernel
  refine .evaluated .start hrun fun now hnow => ?_
  have hclaims : now = seconds 10 ∨ now = seconds 100 ∨ now = seconds 104 := by
    simpa [drainAgain] using hnow
  rcases hclaims with rfl | rfl | rfl <;> decide

theorem settled_alike_greylisted :
    secondTried ≠ triedAgain ∧ secondTried.status = triedAgain.status ∧
      secondTried.attempts = triedAgain.attempts := by
  obtain ⟨hstatus, hattempts, -⟩ := settled_alike twoClaims greylisted (by decide) [verifyJob]
    (List.nodup_singleton _) verifyJob (by simp) rfl 2 1 [secondTried] [triedAgain]
    twoDrains_rounds drainAgain_rounds secondTried triedAgain (by simp) (by simp) rfl rfl
    (by decide) (by decide)
  exact ⟨by decide, hstatus, hattempts⟩

end Hefest
