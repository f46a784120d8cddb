import Hefest.Lib.Transition
import Hefest.Lib.Lease
import Hefest.JobClaims

set_option autoImplicit false

/-!
# The consumer: worker processes over one outbox

Each worker runs the loop of `consumer.run`, one step per await point. `WorkerId` names a process,
not a host: a restarted worker has a new id. The environment decides which sends fail and how,
which commits are lost, when a signal arrives and when a process dies. A claim or a reap whose
acknowledgement is lost raises out of the loop: it is the claim or the reap, then `shutdown`.
-/
namespace Hefest

inductive TaskState
  /-- Created by the task group; waits for a slot of the semaphore. -/
  | queued
  /-- In `recipients.load` or `templates.render`. -/
  | loading
  /-- In `mailer.send`. -/
  | sending
  /-- In `_send_push`. -/
  | pushing
  /-- In the `attempt`-th transaction of `_commit_finalizer`. -/
  | finalizing (f : Finalizer) (attempt : ℕ)
  /-- Cancelled, or its process is gone; the server may still commit what was in flight. -/
  | cancelled (inFlight : Option Finalizer)
deriving DecidableEq

structure Task where
  job : ClaimedJob
  state : TaskState
deriving DecidableEq

def Task.jobId (task : Task) : UUID := task.job.id

def TaskState.holdsSlot : TaskState → Bool
  | .queued | .cancelled _ => false
  | _ => true

def TaskState.cancel : TaskState → TaskState
  | .finalizing f _ => .cancelled (some f)
  | .cancelled inFlight => .cancelled inFlight
  | _ => .cancelled none

/-- How loading, rendering or sending can raise; `other` is any exception that `_process_one`
    does not handle. -/
inductive Failure
  | permanentError (message : String)
  | transientError (message : String)
  | other

inductive Note
  | sendStarted | returned | permanentError | transientError
deriving DecidableEq

inductive Verdict
  | completed | failed
deriving DecidableEq

def Finalizer.verdict : Finalizer → Option Verdict
  | .markCompleted => some .completed
  | .markRetry .. => none
  | .markFailed _ => some .failed

/-- The two `except` branches of `_process_one`. -/
def onFailure (settings : Settings) (job : ClaimedJob) : Failure → Option (Finalizer × Note)
  | .permanentError message => some (.markFailed message, .permanentError)
  | .transientError message =>
    if settings.workerMaxAttempts ≤ job.attempts then some (.markFailed message, .transientError)
    else
      some (.markRetry message (backoffDelay job.attempts settings.workerBackoffBaseSeconds),
        .transientError)
  | .other => none

def finalizeMaxAttempts : ℕ := 3

inductive Phase
  /-- Between two drains, in `wait_for(wake.wait(), interval)`. -/
  | waiting
  | reaping
  /-- At the top of the claim loop, before the flags are read. -/
  | checking
  | claiming
  /-- In the task group of a batch of `claimed` jobs. -/
  | processing (claimed : ℕ)
  /-- The task group is aborted or the process shuts down: nothing new is started. -/
  | unwinding
  | exited
deriving DecidableEq

structure Worker where
  phase : Phase := .waiting
  stop : Bool := false
  leaseLost : Bool := false
  tasks : List Task := []
deriving DecidableEq

def Worker.halted (x : Worker) : Bool := x.stop || x.leaseLost

def Worker.isProcessing (x : Worker) : Bool :=
  match x.phase with
  | .processing _ => true
  | _ => false

def Worker.task? (x : Worker) (jobId : UUID) : Option Task := Table.lookup Task.jobId jobId x.tasks

def Worker.setTask (x : Worker) (jobId : UUID) (state : TaskState) : Worker :=
  { x with tasks := Table.update Task.jobId jobId (fun task => { task with state := state }) x.tasks }

def Worker.endTask (x : Worker) (jobId : UUID) : Worker :=
  { x with tasks := Table.delete Task.jobId jobId x.tasks }

/-- An exception leaves the task: the task group cancels the others. -/
def Worker.raiseTask (x : Worker) (jobId : UUID) : Worker :=
  { x.endTask jobId with phase := .unwinding }

inductive Reply
  | returned | transientDbError | otherError

inductive TaskAction
  | start
  | load (failure : Option Failure)
  | send (failure : Option Failure)
  | push
  | finalize (now : Time) (committed : Bool) (reply : Reply)
  | cancel
  /-- The transaction left in flight commits. -/
  | land (now : Time)

inductive WorkerAction
  | signal
  | loseLease
  | shutdown
  | crash
  | renewHeartbeat (now : Time)
  | wake
  | reap (now : Time) (skip : UUID → Bool)
  | check
  | claim (now : Time) (skip : UUID → Bool)
  | join
  | task (jobId : UUID) (a : TaskAction)

abbrev LeaseEvent := Lease.Event WorkerId Note Verdict

/-- What is observed, with the job it is about. -/
abbrev Obs := UUID × LeaseEvent

/-- The table after the transaction of a finalizer, and the row change if there was one. -/
def runFinalizer (f : Finalizer) (job : ClaimedJob) (workerId : WorkerId) (now : Time)
    (jobs : List NotificationJob) : List NotificationJob × List Obs :=
  let attempts := ((Table.lookup NotificationJob.id job.id jobs).map NotificationJob.attempts).getD 0
  let result := f.run job.id workerId now jobs
  (result.1, if result.2 then [(job.id, .landed workerId job.attempts attempts f.verdict)] else [])

section Steps
variable (settings : Settings) (workerId : WorkerId)

def failTask (x : Worker) (job : ClaimedJob) (failure : Failure) : Worker × List Obs :=
  match onFailure settings job failure with
  | some (f, note) => (x.setTask job.id (.finalizing f 1), [(job.id, .noted workerId job.attempts note)])
  | none => (x.raiseTask job.id, [])

def taskStep (x : Worker) (jobs : List NotificationJob) (task : Task) :
    TaskAction → Option (Worker × List NotificationJob × List Obs)
  | .start =>
    if x.isProcessing ∧ task.state = .queued ∧
        x.tasks.countP (fun t => t.state.holdsSlot) < settings.workerSendConcurrency then
      some (x.setTask task.jobId .loading, jobs, [])
    else none
  | .load failure? =>
    if x.isProcessing ∧ task.state = .loading then
      match failure? with
      | none => some (x.setTask task.jobId .sending, jobs,
          [(task.jobId, .noted workerId task.job.attempts .sendStarted)])
      | some failure =>
        let result := failTask settings workerId x task.job failure
        some (result.1, jobs, result.2)
    else none
  | .send failure? =>
    if x.isProcessing ∧ task.state = .sending then
      match failure? with
      | none => some (x.setTask task.jobId .pushing, jobs,
          [(task.jobId, .noted workerId task.job.attempts .returned)])
      | some failure =>
        let result := failTask settings workerId x task.job failure
        some (result.1, jobs, result.2)
    else none
  | .push =>
    if x.isProcessing ∧ task.state = .pushing then
      some (x.setTask task.jobId (.finalizing .markCompleted 1), jobs, [])
    else none
  | .finalize now committed reply =>
    match task.state with
    | .finalizing f attempt =>
      let result := if committed then runFinalizer f task.job workerId now jobs else (jobs, [])
      match reply with
      | .returned => if committed then some (x.endTask task.jobId, result) else none
      | .transientDbError =>
        if attempt < finalizeMaxAttempts then
          some (x.setTask task.jobId (.finalizing f (attempt + 1)), result)
        else some (x.raiseTask task.jobId, result)
      | .otherError => some (x.raiseTask task.jobId, result)
    | _ => none
  | .cancel =>
    if x.phase = .unwinding then some (x.setTask task.jobId task.state.cancel, jobs, []) else none
  | .land now =>
    match task.state with
    | .cancelled (some f) => some (x.endTask task.jobId, runFinalizer f task.job workerId now jobs)
    | _ => none

def workerStep (x : Worker) (jobs : List NotificationJob) :
    WorkerAction → Option (Worker × List NotificationJob × List Obs)
  | .signal => some ({ x with stop := true }, jobs, [])
  | .loseLease => some ({ x with leaseLost := true }, jobs, [])
  | .shutdown => if x.phase = .exited then none else some ({ x with phase := .unwinding }, jobs, [])
  | .crash =>
    some ({ x with
      phase := .exited
      tasks := x.tasks.map fun t => { t with state := t.state.cancel } }, jobs, [])
  | .renewHeartbeat now =>
    if x.phase = .exited then none else some (x, renewHeartbeat workerId now jobs, [])
  | .wake =>
    if x.phase = .waiting then
      some ({ x with phase := if x.halted then .exited else .reaping }, jobs, [])
    else none
  | .reap now skip =>
    if x.phase = .reaping then
      let rows := reapable settings.workerReaperIdleSeconds settings.workerReapBatchSize now skip jobs
      let result :=
        reapStale settings.workerReaperIdleSeconds settings.workerReapBatchSize now skip jobs
      some ({ x with
          phase := if result.2 < settings.workerReapBatchSize ∨ x.halted then .checking
            else .reaping },
        result.1, rows.map fun j => (j.id, .reclaimed j.attempts))
    else none
  | .check =>
    if x.phase = .checking then
      some ({ x with phase := if x.halted then .waiting else .claiming }, jobs, [])
    else none
  | .claim now skip =>
    if x.phase = .claiming then
      let result := claimBatch workerId settings.workerClaimBatchSize now skip jobs
      some ({ x with
          phase := if result.2 = [] then .waiting else .processing result.2.length
          tasks := result.2.map fun job => ⟨job, .queued⟩ },
        result.1, result.2.map fun job => (job.id, .claimed workerId job.attempts))
    else none
  | .join =>
    match x.phase with
    | .processing claimed =>
      if x.tasks = [] then
        some ({ x with
          phase := if claimed < settings.workerClaimBatchSize then .waiting else .checking },
          jobs, [])
      else none
    | _ => none
  | .task jobId a =>
    match x.task? jobId with
    | none => none
    | some task => taskStep settings workerId x jobs task a

end Steps

structure World where
  jobs : List NotificationJob := []
  worker : WorkerId → Worker := fun _ => {}

inductive Action
  /-- The API commits new outbox rows. -/
  | enqueue (jobs : List NotificationJob)
  | worker (workerId : WorkerId) (a : WorkerAction)

def NotificationJob.isNew (job : NotificationJob) : Bool :=
  job.status == .pending && job.attempts == 0 && job.lockedBy == none

def World.step (settings : Settings) (W : World) : Action → Option (World × List Obs)
  | .enqueue jobs =>
    if jobsViolation W.jobs jobs = none ∧ jobs.all NotificationJob.isNew then
      some ({ W with jobs := W.jobs ++ jobs }, jobs.map fun j => (j.id, .enqueued))
    else none
  | .worker workerId a =>
    match workerStep settings workerId (W.worker workerId) W.jobs a with
    | none => none
    | some (x, jobs, os) => some (⟨jobs, Function.update W.worker workerId x⟩, os)

/-- Runs of the system from an empty outbox and idle workers. -/
abbrev Delivers (settings : Settings) (tr : List Obs) (W : World) : Prop :=
  Transition.Run (World.step settings) {} tr W

end Hefest
