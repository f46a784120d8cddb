import Hefest.Delivery

set_option autoImplicit false

/-!
# One call of `_drain`

A single worker over a table that nobody else writes. Neither `stop` nor `lease_lost` is set, a send
succeeds or raises one of the two errors `_process_one` handles, and a finalizer commits before its
attempts are used up. The clock may read anything.
-/
namespace Hefest
open Transition

inductive SendOutcome
  | succeeds
  | permanentError (message : String)
  | transientError (message : String)

def SendOutcome.failure? : SendOutcome → Option Failure
  | .succeeds => none
  | .permanentError message => some (.permanentError message)
  | .transientError message => some (.transientError message)

structure Drain where
  worker : Worker
  jobs : List NotificationJob

def Drain.start (jobs : List NotificationJob) : Drain := ⟨{ phase := .reaping }, jobs⟩

def Drain.returned (D : Drain) : Bool := D.worker.phase == .waiting

inductive DrainAction
  /-- `skip` are the rows that a renewal of the leases has locked. -/
  | reap (now : Time) (skip : UUID → Bool)
  | check
  | claim (now : Time)
  | start (jobId : UUID)
  /-- A job that fails may do so before its send. -/
  | load (jobId : UUID) (raises : Bool)
  | send (jobId : UUID)
  | push (jobId : UUID)
  | finalize (jobId : UUID) (now : Time)
  /-- A transient error of the database, before or after the commit. -/
  | finalizeAgain (jobId : UUID) (now : Time) (committed : Bool)
  | join
  /-- The task of the heartbeat. -/
  | renewHeartbeat (now : Time)

def DrainAction.own : DrainAction → Bool
  | .renewHeartbeat _ => false
  | _ => true

def DrainAction.claims : DrainAction → Bool
  | .claim _ => true
  | _ => false

def DrainAction.joins : DrainAction → Bool
  | .join => true
  | _ => false

inductive DrainEvent
  | claimed (attempts : ℕ)
  /-- `_process_one` is called for the claim. -/
  | processed (attempts : ℕ)
  /-- `_finalize` has returned. -/
  | finalized (attempts : ℕ)
deriving DecidableEq

/-- The outcome of each claim: of the job, at its number of attempts. -/
abbrev Outcomes := UUID → ℕ → SendOutcome

def DrainAction.events (before after : Worker) : DrainAction → List (UUID × DrainEvent)
  | .claim _ => after.tasks.map fun task => (task.jobId, .claimed task.job.attempts)
  | .start jobId =>
    (before.task? jobId).toList.map fun task => (task.jobId, .processed task.job.attempts)
  | .finalize jobId _ =>
    (before.task? jobId).toList.map fun task => (task.jobId, .finalized task.job.attempts)
  | _ => []

section Drain
variable (settings : Settings) (w : WorkerId) (outcomes : Outcomes)

def Worker.failure? (x : Worker) (jobId : UUID) : Option Failure :=
  (x.task? jobId).bind fun task => (outcomes jobId task.job.attempts).failure?

def DrainAction.action (x : Worker) : DrainAction → WorkerAction
  | .reap now skip => .reap now skip
  | .check => .check
  | .claim now => .claim now fun _ => false
  | .start jobId => .task jobId .start
  | .load jobId raises => .task jobId (.load (if raises then x.failure? outcomes jobId else none))
  | .send jobId => .task jobId (.send (x.failure? outcomes jobId))
  | .push jobId => .task jobId .push
  | .finalize jobId now => .task jobId (.finalize now true .returned)
  | .finalizeAgain jobId now committed => .task jobId (.finalize now committed .transientDbError)
  | .join => .join
  | .renewHeartbeat now => .renewHeartbeat now

/-- The step of the worker, unless its last attempt at a finalizer fails. -/
def drainStep (D : Drain) (a : DrainAction) : Option (Drain × List (UUID × DrainEvent)) :=
  match workerStep settings w D.worker D.jobs (a.action outcomes D.worker) with
  | none => none
  | some (x, jobs, _) =>
    if x.phase = .unwinding then none else some (⟨x, jobs⟩, a.events D.worker x)

def SendOutcome.finalizer (job : ClaimedJob) (o : SendOutcome) : Finalizer :=
  match o.failure?.bind (onFailure settings job) with
  | some (f, _) => f
  | none => .markCompleted

inductive TaskAdvance (job : ClaimedJob) (o : SendOutcome) : TaskState → TaskState → Prop
  | started : TaskAdvance job o .queued .loading
  | rendered : TaskAdvance job o .loading .sending
  | sent (success : o.failure? = none) : TaskAdvance job o .sending .pushing
  | failed {s : TaskState} (stage : s = .loading ∨ s = .sending) (failure : o.failure? ≠ none) :
      TaskAdvance job o s (.finalizing (o.finalizer settings job) 1)
  | pushed : TaskAdvance job o .pushing (.finalizing .markCompleted 1)

inductive DrainStep (D : Drain) : DrainAction → List (UUID × DrainEvent) → Drain → Prop
  | reap {now : Time} {skip : UUID → Bool} (phase : D.worker.phase = .reaping) :
      DrainStep D (.reap now skip) []
        ⟨{ D.worker with
            phase :=
              if (reapStale settings.workerReaperIdleSeconds settings.workerReapBatchSize now skip
                  D.jobs).2 < settings.workerReapBatchSize ∨ D.worker.halted then .checking
              else .reaping },
          (reapStale settings.workerReaperIdleSeconds settings.workerReapBatchSize now skip
            D.jobs).1⟩
  | check (phase : D.worker.phase = .checking) :
      DrainStep D .check []
        ⟨{ D.worker with phase := if D.worker.halted then .waiting else .claiming }, D.jobs⟩
  | claim {now : Time} {rows : List ClaimedJob} {jobs : List NotificationJob}
      (phase : D.worker.phase = .claiming)
      (batch : claimBatch w settings.workerClaimBatchSize now (fun _ => false) D.jobs =
        (jobs, rows)) :
      DrainStep D (.claim now) (rows.map fun job => (job.id, .claimed job.attempts))
        ⟨{ D.worker with
            phase := if rows = [] then .waiting else .processing rows.length
            tasks := rows.map fun job => ⟨job, .queued⟩ }, jobs⟩
  | join {claimed : ℕ} (phase : D.worker.phase = .processing claimed) (done : D.worker.tasks = []) :
      DrainStep D .join []
        ⟨{ D.worker with
            phase := if claimed < settings.workerClaimBatchSize then .waiting else .checking },
          D.jobs⟩
  | renewHeartbeat {now : Time} :
      DrainStep D (.renewHeartbeat now) [] ⟨D.worker, renewHeartbeat w now D.jobs⟩
  | advance {a : DrainAction} {task : Task} {s : TaskState} (other : a.claims = false)
      (batch : D.worker.isProcessing = true) (found : D.worker.task? task.jobId = some task)
      (slot : task.state = .queued → D.worker.tasks.countP (fun t => t.state.holdsSlot) <
        settings.workerSendConcurrency)
      (move : TaskAdvance settings task.job (outcomes task.jobId task.job.attempts) task.state s) :
      DrainStep D a
        (if task.state = .queued then [(task.jobId, .processed task.job.attempts)] else [])
        ⟨D.worker.setTask task.jobId s, D.jobs⟩
  | finalize {now : Time} {task : Task} {f : Finalizer} {k : ℕ}
      (found : D.worker.task? task.jobId = some task) (state : task.state = .finalizing f k) :
      DrainStep D (.finalize task.jobId now) [(task.jobId, .finalized task.job.attempts)]
        ⟨D.worker.endTask task.jobId, (f.run task.jobId w now D.jobs).1⟩
  | finalizeAgain {now : Time} {committed : Bool} {task : Task} {f : Finalizer} {k : ℕ}
      (found : D.worker.task? task.jobId = some task) (state : task.state = .finalizing f k)
      (left : k < finalizeMaxAttempts) :
      DrainStep D (.finalizeAgain task.jobId now committed) []
        ⟨D.worker.setTask task.jobId (.finalizing f (k + 1)),
          if committed then (f.run task.jobId w now D.jobs).1 else D.jobs⟩

end Drain

section Inversion
variable {settings : Settings} {w : WorkerId} {outcomes : Outcomes} {D D' : Drain}
  {a : DrainAction} {os : List (UUID × DrainEvent)}

theorem drainStep_some (h : drainStep settings w outcomes D a = some (D', os)) :
    ∃ es, workerStep settings w D.worker D.jobs (a.action outcomes D.worker) =
        some (D'.worker, D'.jobs, es) ∧
      D'.worker.phase ≠ .unwinding ∧ os = a.events D.worker D'.worker := by
  unfold drainStep at h
  split at h
  · cases h
  · rename_i x jobs es hstep
    split_ifs at h with hphase
    cases h
    exact ⟨es, hstep, hphase, rfl⟩

/-- The two errors have a finalizer: no task of the batch is cancelled. -/
theorem onFailure_some {job : ClaimedJob} {o : SendOutcome} {failure : Failure}
    (h : o.failure? = some failure) :
    ∃ note, onFailure settings job failure = some (o.finalizer settings job, note) := by
  unfold SendOutcome.finalizer
  rw [h, Option.bind_some]
  cases o with
  | succeeds => cases h
  | permanentError message =>
    cases h
    exact ⟨_, rfl⟩
  | transientError message =>
    cases h
    by_cases hlast : settings.workerMaxAttempts ≤ job.attempts
    · exact ⟨.transientError, by simp [onFailure, hlast]⟩
    · exact ⟨.transientError, by simp [onFailure, hlast]⟩

theorem failTask_some {x : Worker} {job : ClaimedJob} {o : SendOutcome} {failure : Failure}
    (h : o.failure? = some failure) :
    (failTask settings w x job failure).1 =
      x.setTask job.id (.finalizing (o.finalizer settings job) 1) := by
  have hsome : ∃ note, onFailure settings job failure = some (o.finalizer settings job, note) :=
    onFailure_some h
  obtain ⟨note, hhandled⟩ := hsome
  unfold failTask
  rw [hhandled]

/-- An allowed step of a task is a move towards its finalizer, or an attempt at it. -/
theorem drainStep_task {jobId : UUID} {ta : TaskAction}
    (haction : a.action outcomes D.worker = .task jobId ta)
    (h : drainStep settings w outcomes D a = some (D', os)) :
    ∃ task es, D.worker.task? jobId = some task ∧ task.jobId = jobId ∧
      taskStep settings w D.worker D.jobs task ta = some (D'.worker, D'.jobs, es) ∧
      D'.worker.phase ≠ .unwinding ∧ os = a.events D.worker D'.worker := by
  obtain ⟨es, hstep, hphase, hos⟩ := drainStep_some h
  rw [haction] at hstep
  simp only [workerStep] at hstep
  split at hstep
  · cases hstep
  · rename_i task htask
    exact ⟨task, es, htask, Table.lookup_key htask, hstep, hphase, hos⟩

theorem failure?_eq {x : Worker} {task : Task} (h : x.task? task.jobId = some task) :
    x.failure? outcomes task.jobId = (outcomes task.jobId task.job.attempts).failure? := by
  unfold Worker.failure?
  rw [h]
  rfl

theorem TaskAdvance.of_failure {job : ClaimedJob} {o : SendOutcome} {failure : Failure}
    {s : TaskState} (stage : s = .loading ∨ s = .sending) (hraised : o.failure? = some failure) :
    TaskAdvance settings job o s (.finalizing (o.finalizer settings job) 1) := by
  apply TaskAdvance.failed stage
  rw [hraised]
  exact Option.some_ne_none _

theorem DrainStep.proceed {task : Task} {s₀ s : TaskState} (other : a.claims = false)
    (batch : D.worker.isProcessing = true) (found : D.worker.task? task.jobId = some task)
    (hstate : task.state = s₀) (hstarted : s₀ ≠ .queued)
    (move : TaskAdvance settings task.job (outcomes task.jobId task.job.attempts) s₀ s) :
    DrainStep settings w outcomes D a [] ⟨D.worker.setTask task.jobId s, D.jobs⟩ := by
  have started : task.state ≠ .queued := by
    rw [hstate]
    exact hstarted
  rw [← hstate] at move
  have hstep : DrainStep settings w outcomes D a
      (if task.state = .queued then [(task.jobId, .processed task.job.attempts)] else [])
      ⟨D.worker.setTask task.jobId s, D.jobs⟩ :=
    .advance other batch found (fun hqueued => absurd hqueued started) move
  rwa [if_neg started] at hstep

theorem drainStep_reap {now : Time} {skip : UUID → Bool}
    (h : drainStep settings w outcomes D (.reap now skip) = some (D', os)) :
    DrainStep settings w outcomes D (.reap now skip) os D' := by
  obtain ⟨x, jobs⟩ := D'
  obtain ⟨es, hstep, _, rfl⟩ := drainStep_some h
  obtain ⟨hphase, heq⟩ := Option.ite_none_right_eq_some.mp hstep
  cases heq
  exact .reap hphase

theorem drainStep_check (h : drainStep settings w outcomes D .check = some (D', os)) :
    DrainStep settings w outcomes D .check os D' := by
  obtain ⟨x, jobs⟩ := D'
  obtain ⟨es, hstep, _, rfl⟩ := drainStep_some h
  obtain ⟨hphase, heq⟩ := Option.ite_none_right_eq_some.mp hstep
  cases heq
  exact .check hphase

theorem drainStep_claim {now : Time}
    (h : drainStep settings w outcomes D (.claim now) = some (D', os)) :
    DrainStep settings w outcomes D (.claim now) os D' := by
  obtain ⟨x, jobs⟩ := D'
  obtain ⟨es, hstep, _, hos⟩ := drainStep_some h
  obtain ⟨hphase, heq⟩ := Option.ite_none_right_eq_some.mp hstep
  generalize hbatch : claimBatch w settings.workerClaimBatchSize now (fun _ => false) D.jobs =
    result at heq
  obtain ⟨jobs', rows⟩ := result
  cases heq
  have hevents : os = rows.map fun job => (job.id, .claimed job.attempts) := by
    rw [hos]
    exact List.map_map
  rw [hevents]
  exact .claim hphase hbatch

theorem drainStep_join (h : drainStep settings w outcomes D .join = some (D', os)) :
    DrainStep settings w outcomes D .join os D' := by
  obtain ⟨x, jobs⟩ := D'
  obtain ⟨es, hstep, _, rfl⟩ := drainStep_some h
  simp only [DrainAction.action, workerStep] at hstep
  split at hstep
  · rename_i claimed hphase
    obtain ⟨hdone, heq⟩ := Option.ite_none_right_eq_some.mp hstep
    cases heq
    exact .join hphase hdone
  · cases hstep

theorem drainStep_renewHeartbeat {now : Time}
    (h : drainStep settings w outcomes D (.renewHeartbeat now) = some (D', os)) :
    DrainStep settings w outcomes D (.renewHeartbeat now) os D' := by
  obtain ⟨x, jobs⟩ := D'
  obtain ⟨es, hstep, _, rfl⟩ := drainStep_some h
  obtain ⟨_, heq⟩ := Option.ite_none_left_eq_some.mp hstep
  cases heq
  exact .renewHeartbeat

theorem drainStep_start {jobId : UUID}
    (h : drainStep settings w outcomes D (.start jobId) = some (D', os)) :
    DrainStep settings w outcomes D (.start jobId) os D' := by
  obtain ⟨x, jobs⟩ := D'
  obtain ⟨task, es, htask, rfl, hstep, _, hos⟩ := drainStep_task rfl h
  obtain ⟨⟨hbatch, hstate, hslot⟩, heq⟩ := Option.ite_none_right_eq_some.mp hstep
  cases heq
  have hevents : os =
      if task.state = .queued then [(task.jobId, .processed task.job.attempts)] else [] := by
    rw [hos, if_pos hstate]
    simp [DrainAction.events, htask]
  rw [hevents]
  apply DrainStep.advance rfl hbatch htask fun _ => hslot
  rw [hstate]
  exact .started

/-- A load or a send that raises routes its task to the finalizer of its outcome. -/
theorem DrainStep.fail {task : Task} {failure : Failure} {x : Worker}
    {jobs : List NotificationJob} {es : List Obs} (other : a.claims = false)
    (batch : D.worker.isProcessing = true) (found : D.worker.task? task.jobId = some task)
    (stage : task.state = .loading ∨ task.state = .sending)
    (raised : (outcomes task.jobId task.job.attempts).failure? = some failure)
    (heq : some ((failTask settings w D.worker task.job failure).1, D.jobs,
      (failTask settings w D.worker task.job failure).2) = some (x, jobs, es)) :
    DrainStep settings w outcomes D a [] ⟨x, jobs⟩ := by
  obtain ⟨hx, hrest⟩ := Prod.mk.inj (Option.some.inj heq)
  obtain ⟨rfl, _⟩ := Prod.mk.inj hrest
  obtain rfl := (failTask_some raised).symm.trans hx
  refine .proceed other batch found rfl ?_ (.of_failure stage raised)
  rcases stage with hstate | hstate
  · rw [hstate]
    exact TaskState.noConfusion
  · rw [hstate]
    exact TaskState.noConfusion

theorem drainStep_load {jobId : UUID} {raises : Bool}
    (h : drainStep settings w outcomes D (.load jobId raises) = some (D', os)) :
    DrainStep settings w outcomes D (.load jobId raises) os D' := by
  obtain ⟨x, jobs⟩ := D'
  obtain ⟨task, es, htask, rfl, hstep, _, hos⟩ := drainStep_task rfl h
  obtain ⟨⟨hbatch, hstate⟩, heq⟩ := Option.ite_none_right_eq_some.mp hstep
  obtain rfl : os = [] := hos
  rw [failure?_eq htask] at heq
  split at heq
  · cases heq
    exact .proceed rfl hbatch htask hstate TaskState.noConfusion .rendered
  · rename_i failure hfailure
    have hraised : (outcomes task.jobId task.job.attempts).failure? = some failure := by
      split_ifs at hfailure
      exact hfailure
    exact .fail rfl hbatch htask (.inl hstate) hraised heq

theorem drainStep_send {jobId : UUID}
    (h : drainStep settings w outcomes D (.send jobId) = some (D', os)) :
    DrainStep settings w outcomes D (.send jobId) os D' := by
  obtain ⟨x, jobs⟩ := D'
  obtain ⟨task, es, htask, rfl, hstep, _, hos⟩ := drainStep_task rfl h
  obtain ⟨⟨hbatch, hstate⟩, heq⟩ := Option.ite_none_right_eq_some.mp hstep
  obtain rfl : os = [] := hos
  rw [failure?_eq htask] at heq
  split at heq
  · rename_i hfailure
    cases heq
    exact .proceed rfl hbatch htask hstate TaskState.noConfusion (.sent hfailure)
  · rename_i failure hraised
    exact .fail rfl hbatch htask (.inr hstate) hraised heq

theorem drainStep_push {jobId : UUID}
    (h : drainStep settings w outcomes D (.push jobId) = some (D', os)) :
    DrainStep settings w outcomes D (.push jobId) os D' := by
  obtain ⟨x, jobs⟩ := D'
  obtain ⟨task, es, htask, rfl, hstep, _, hos⟩ := drainStep_task rfl h
  obtain ⟨⟨hbatch, hstate⟩, heq⟩ := Option.ite_none_right_eq_some.mp hstep
  cases heq
  obtain rfl : os = [] := hos
  exact .proceed rfl hbatch htask hstate TaskState.noConfusion .pushed

theorem drainStep_finalize {jobId : UUID} {now : Time}
    (h : drainStep settings w outcomes D (.finalize jobId now) = some (D', os)) :
    DrainStep settings w outcomes D (.finalize jobId now) os D' := by
  obtain ⟨x, jobs⟩ := D'
  obtain ⟨task, es, htask, rfl, hstep, _, hos⟩ := drainStep_task rfl h
  simp only [taskStep] at hstep
  split at hstep
  · rename_i f k hstate
    cases hstep
    have hevents : os = [(task.jobId, .finalized task.job.attempts)] := by
      rw [hos]
      simp [DrainAction.events, htask]
    rw [hevents]
    exact .finalize htask hstate
  · cases hstep

/-- The failure of the last attempt at a finalizer ends the batch, so it is no step of a drain. -/
theorem drainStep_finalizeAgain {jobId : UUID} {now : Time} {committed : Bool}
    (h : drainStep settings w outcomes D (.finalizeAgain jobId now committed) = some (D', os)) :
    DrainStep settings w outcomes D (.finalizeAgain jobId now committed) os D' := by
  obtain ⟨x, jobs⟩ := D'
  obtain ⟨task, es, htask, rfl, hstep, hphase, rfl⟩ := drainStep_task rfl h
  simp only [taskStep] at hstep
  split at hstep
  · rename_i f k hstate
    split at hstep
    · rename_i hleft
      obtain ⟨rfl, hwrite⟩ := Prod.mk.inj (Option.some.inj hstep)
      have hjobs : jobs = if committed then (f.run task.jobId w now D.jobs).1 else D.jobs := by
        cases committed with
        | false => exact (congrArg Prod.fst hwrite).symm
        | true => exact (congrArg Prod.fst hwrite).symm
      rw [hjobs]
      exact .finalizeAgain htask hstate hleft
    · obtain ⟨rfl, _⟩ := Prod.mk.inj (Option.some.inj hstep)
      exact absurd rfl hphase
  · cases hstep

theorem drainStep_cases (h : drainStep settings w outcomes D a = some (D', os)) :
    DrainStep settings w outcomes D a os D' := by
  cases a with
  | reap => exact drainStep_reap h
  | check => exact drainStep_check h
  | claim => exact drainStep_claim h
  | join => exact drainStep_join h
  | renewHeartbeat => exact drainStep_renewHeartbeat h
  | start => exact drainStep_start h
  | load => exact drainStep_load h
  | send => exact drainStep_send h
  | push => exact drainStep_push h
  | finalize => exact drainStep_finalize h
  | finalizeAgain => exact drainStep_finalizeAgain h

end Inversion

def TaskState.Towards (settings : Settings) (job : ClaimedJob) (o : SendOutcome) : TaskState → Prop
  | .queued | .loading | .sending => True
  | .pushing => o.failure? = none
  | .finalizing f k => f = o.finalizer settings job ∧ 1 ≤ k ∧ k ≤ finalizeMaxAttempts
  | .cancelled _ => False

structure Drain.Ok (settings : Settings) (w : WorkerId) (outcomes : Outcomes) (D : Drain) :
    Prop where
  active : D.worker.halted = false
  running : D.worker.phase ≠ .unwinding ∧ D.worker.phase ≠ .exited
  idle : D.worker.isProcessing = false → D.worker.tasks = []
  unique : Table.KeyUnique NotificationJob.id D.jobs
  tasks : Table.KeyUnique Task.jobId D.worker.tasks
  towards : ∀ task ∈ D.worker.tasks,
    task.state.Towards settings task.job (outcomes task.jobId task.job.attempts)
  /-- Whatever row a task still holds, it holds by its own claim. -/
  latest : ∀ task ∈ D.worker.tasks, ∀ job ∈ D.jobs,
    job.fenced task.jobId w = true → job.attempts = task.job.attempts

theorem Drain.Ok.start {settings : Settings} {w : WorkerId} {outcomes : Outcomes}
    {jobs : List NotificationJob} (h : Table.KeyUnique NotificationJob.id jobs) :
    (Drain.start jobs).Ok settings w outcomes where
  active := rfl
  running := by constructor <;> intro h <;> cases h
  idle _ := rfl
  unique := h
  tasks := List.nodup_nil
  towards _ h := absurd h List.not_mem_nil
  latest _ h := absurd h List.not_mem_nil

section Invariant
variable {settings : Settings} {w : WorkerId} {outcomes : Outcomes} {D D' : Drain} {x : Worker}
  {task other : Task} {s s' : TaskState} {a : DrainAction} {os : List (UUID × DrainEvent)}

theorem TaskAdvance.towards {job : ClaimedJob} {o : SendOutcome}
    (h : TaskAdvance settings job o s s') (hs : s.Towards settings job o) :
    s'.Towards settings job o := by
  cases h with
  | started => trivial
  | rendered => trivial
  | sent success => exact success
  | failed stage failure => exact ⟨rfl, by decide, by decide⟩
  | pushed =>
    have hsuccess : o.failure? = none := hs
    have hcompleted : o.finalizer settings job = .markCompleted := by
      unfold SendOutcome.finalizer
      rw [hsuccess]
      rfl
    exact ⟨hcompleted.symm, by decide, by decide⟩

theorem Worker.mem_setTask (hunique : Table.KeyUnique Task.jobId x.tasks)
    (found : x.task? task.jobId = some task) (h : other ∈ (x.setTask task.jobId s).tasks) :
    other ∈ x.tasks ∨ other = { task with state := s } := by
  rcases Table.mem_update.mp h with ⟨hother, _⟩ | ⟨old, hold, hid, rfl⟩
  · exact Or.inl hother
  · have hsame : old = task := hunique.eq_of_key hold (Table.lookup_mem found) hid
    rw [hsame]
    exact Or.inr rfl

theorem Worker.mem_endTask {jobId : UUID} (h : other ∈ (x.endTask jobId).tasks) :
    other ∈ x.tasks ∧ other.jobId ≠ jobId := by
  obtain ⟨hmem, hne⟩ := List.mem_filter.mp h
  exact ⟨hmem, by simpa using hne⟩

theorem Drain.Ok.setTask (hD : D.Ok settings w outcomes) (hbatch : D.worker.isProcessing = true)
    (found : D.worker.task? task.jobId = some task)
    (htowards : s.Towards settings task.job (outcomes task.jobId task.job.attempts)) :
    Drain.Ok settings w outcomes ⟨D.worker.setTask task.jobId s, D.jobs⟩ where
  active := hD.active
  running := hD.running
  idle hidle := absurd (hbatch.symm.trans hidle) (by decide)
  unique := hD.unique
  tasks := Table.keyUnique_update hD.tasks fun _ => rfl
  towards other hother := by
    rcases Worker.mem_setTask hD.tasks found hother with hold | rfl
    · exact hD.towards other hold
    · exact htowards
  latest other hother job hjob hfenced := by
    rcases Worker.mem_setTask hD.tasks found hother with hold | rfl
    · exact hD.latest other hold job hjob hfenced
    · exact hD.latest task (Table.lookup_mem found) job hjob hfenced

theorem Drain.Ok.endTask (hD : D.Ok settings w outcomes) {jobId : UUID} :
    Drain.Ok settings w outcomes ⟨D.worker.endTask jobId, D.jobs⟩ where
  active := hD.active
  running := hD.running
  idle hidle := by
    have hnone : D.worker.tasks = [] := hD.idle hidle
    unfold Worker.endTask Table.delete
    rw [hnone]
    rfl
  unique := hD.unique
  tasks := hD.tasks.filter _
  towards other hother := hD.towards other (Worker.mem_endTask hother).1
  latest other hother := hD.latest other (Worker.mem_endTask hother).1

theorem Drain.Ok.updateWhere (hD : D.Ok settings w outcomes) {p : NotificationJob → Bool}
    {f : NotificationJob → NotificationJob} (hid : ∀ job, (f job).id = job.id)
    (hheld : ∀ job id, (f job).fenced id w = true →
      job.fenced id w = true ∧ (f job).attempts = job.attempts) :
    Drain.Ok settings w outcomes ⟨D.worker, Table.updateWhere p f D.jobs⟩ where
  active := hD.active
  running := hD.running
  idle := hD.idle
  unique := Table.keyUnique_updateWhere hD.unique hid
  tasks := hD.tasks
  towards := hD.towards
  latest other hother job hjob hfenced := by
    rcases Table.mem_updateWhere.mp hjob with ⟨hold, _⟩ | ⟨old, hold, _, rfl⟩
    · exact hD.latest other hother job hold hfenced
    · obtain ⟨hfenced', hattempts⟩ := hheld old other.jobId hfenced
      exact hattempts.trans (hD.latest other hother old hold hfenced')

theorem Finalizer.set_attempts (f : Finalizer) (now : Time) (job : NotificationJob) :
    (f.set now job).attempts = job.attempts := by
  cases f <;> rfl

theorem Finalizer.set_fenced (f : Finalizer) (now : Time) (job : NotificationJob) (id : UUID) :
    (f.set now job).fenced id w = false := by
  cases f <;> simp [Finalizer.set, NotificationJob.fenced]

theorem Drain.Ok.run (hD : D.Ok settings w outcomes) (f : Finalizer) (id : UUID) (now : Time) :
    Drain.Ok settings w outcomes ⟨D.worker, (f.run id w now D.jobs).1⟩ := by
  apply hD.updateWhere (f.set_id now)
  intro job other hfenced
  rw [f.set_fenced] at hfenced
  cases hfenced

theorem Drain.Ok.between (hD : D.Ok settings w outcomes) (hnone : D.worker.tasks = [])
    {phase : Phase} (hphase : phase ≠ .unwinding ∧ phase ≠ .exited) {jobs : List NotificationJob}
    (hunique : Table.KeyUnique NotificationJob.id jobs) :
    Drain.Ok settings w outcomes ⟨{ D.worker with phase := phase }, jobs⟩ where
  active := hD.active
  running := hphase
  idle _ := hnone
  unique := hunique
  tasks := hD.tasks
  towards := hD.towards
  latest other hother := by
    change other ∈ D.worker.tasks at hother
    rw [hnone] at hother
    exact absurd hother List.not_mem_nil

theorem Drain.Ok.claim (hD : D.Ok settings w outcomes) {now : Time} {rows : List ClaimedJob}
    {jobs : List NotificationJob}
    (hbatch : claimBatch w settings.workerClaimBatchSize now (fun _ => false) D.jobs =
      (jobs, rows)) :
    Drain.Ok settings w outcomes
      ⟨{ D.worker with
          phase := if rows = [] then .waiting else .processing rows.length
          tasks := rows.map fun job => ⟨job, .queued⟩ }, jobs⟩ := by
  obtain ⟨rfl, rfl⟩ := Prod.mk.inj hbatch
  have hpicked : Table.KeyUnique NotificationJob.id
      (claimable settings.workerClaimBatchSize now (fun _ => false) D.jobs) :=
    claimable_unique hD.unique
  generalize hrows :
    claimable settings.workerClaimBatchSize now (fun _ => false) D.jobs = picked at *
  refine ⟨hD.active, ?_, ?_, Table.keyUnique_updateWhere hD.unique fun _ => rfl, ?_, ?_, ?_⟩
  · split_ifs <;> constructor <;> intro h <;> cases h
  · intro hidle
    cases picked with
    | nil => rfl
    | cons job picked => simp [Worker.isProcessing] at hidle
  · unfold Table.KeyUnique
    rw [List.map_map, List.map_map]
    exact hpicked
  · intro task htask
    obtain ⟨row, _, rfl⟩ := List.mem_map.mp htask
    trivial
  · intro task htask job hjob hfenced
    obtain ⟨row, hrow, rfl⟩ := List.mem_map.mp htask
    obtain ⟨old, hold, rfl⟩ := List.mem_map.mp hrow
    have hid : job.id = old.id := (of_decide_eq_true hfenced).1
    have hmem : old ∈ D.jobs := (mem_claimable (hrows ▸ hold)).1
    rcases Table.mem_updateWhere.mp hjob with ⟨hjob, hout⟩ | ⟨other, hother, _, rfl⟩
    · have hsame : job = old := hD.unique.eq_of_key hjob hmem hid
      subst hsame
      exact absurd (List.mem_map_of_mem hold) (of_decide_eq_false hout)
    · have hsame : other = old := hD.unique.eq_of_key hother hmem hid
      rw [hsame]
      rfl

theorem Worker.isProcessing_iff :
    x.isProcessing = true ↔ ∃ claimed, x.phase = .processing claimed := by
  unfold Worker.isProcessing
  cases x.phase <;> simp

theorem Drain.Ok.step (hD : D.Ok settings w outcomes)
    (h : DrainStep settings w outcomes D a os D') : D'.Ok settings w outcomes := by
  have hbetween : ∀ {phase : Phase}, D.worker.phase = phase → phase.betweenBatches = true →
      D.worker.tasks = [] := by
    intro phase hphase hidle
    apply hD.idle
    unfold Worker.isProcessing
    rw [hphase]
    cases phase <;> first | rfl | cases hidle
  cases h with
  | reap phase =>
    apply hD.between (hbetween phase rfl)
    · split_ifs <;> exact ⟨by decide, by decide⟩
    · exact Table.keyUnique_updateWhere hD.unique fun _ => rfl
  | check phase =>
    apply hD.between (hbetween phase rfl) _ hD.unique
    split_ifs <;> exact ⟨by decide, by decide⟩
  | claim phase batch => exact hD.claim batch
  | join phase done =>
    apply hD.between done _ hD.unique
    split_ifs <;> exact ⟨by decide, by decide⟩
  | renewHeartbeat =>
    apply hD.updateWhere
    · intro job
      rfl
    · intro job id hfenced
      exact ⟨hfenced, rfl⟩
  | advance other batch found _ move =>
    exact hD.setTask batch found (move.towards (hD.towards _ (Table.lookup_mem found)))
  | @finalize now task f k found state =>
    exact (hD.run f task.jobId now).endTask
  | @finalizeAgain now committed task f k found state left =>
    have hmem := Table.lookup_mem found
    have hbatch : D.worker.isProcessing = true := by
      by_contra hidle
      rw [hD.idle (by simpa using hidle)] at hmem
      cases hmem
    have htowards : TaskState.Towards settings task.job (outcomes task.jobId task.job.attempts)
        (.finalizing f (k + 1)) := by
      have hstate := hD.towards task hmem
      rw [state] at hstate
      exact ⟨hstate.1, by omega, by omega⟩
    cases committed with
    | false => exact hD.setTask hbatch found htowards
    | true => exact (hD.run f task.jobId now).setTask hbatch found htowards

end Invariant

end Hefest
