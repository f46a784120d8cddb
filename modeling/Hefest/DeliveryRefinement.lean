import Hefest.Consumer
import Hefest.Calls

set_option autoImplicit false

namespace Hefest

inductive Move (settings : Settings) (attempts : ℕ) : TaskState → Option Note → TaskState → Prop
  | start : Move settings attempts .queued none .loading
  | rendered : Move settings attempts .loading (some .sendStarted) .sending
  | sent : Move settings attempts .sending (some .returned) .pushing
  | failed {s : TaskState} {job : ClaimedJob} {failure : Failure} {f : Finalizer} {note : Note}
      (stage : s = .loading ∨ s = .sending) (latest : job.attempts = attempts)
      (handled : onFailure settings job failure = some (f, note)) :
      Move settings attempts s (some note) (.finalizing f 1)
  | pushed : Move settings attempts .pushing none (.finalizing .markCompleted 1)
  | again (f : Finalizer) (k : ℕ) :
      Move settings attempts (.finalizing f k) none (.finalizing f (k + 1))
  | cancel (s : TaskState) : Move settings attempts s none s.cancel

def TaskState.finish : TaskState → Option (Option Verdict)
  | .finalizing f _ => some f.verdict
  | .cancelled (some f) => some f.verdict
  | _ => none

def deliveryWork (settings : Settings) : Lease.Work TaskState Note Verdict where
  first := .queued
  move := Move settings
  finish := TaskState.finish
  settled := by
    intro n s s' x r hfinish hmove
    cases hmove with
    | failed stage =>
      rcases stage with rfl | rfl <;> cases hfinish
    | again => exact ⟨rfl, hfinish⟩
    | cancel =>
      refine ⟨rfl, ?_⟩
      cases s with
      | finalizing => exact hfinish
      | cancelled => exact hfinish
      | _ => cases hfinish
    | _ => cases hfinish

def JobStatus.lease : JobStatus → Lease.Status Verdict
  | .pending => .pending
  | .processing => .held
  | .completed => .closed .completed
  | .failed => .closed .failed

def NotificationJob.lease (job : NotificationJob) : Lease.Row WorkerId Verdict :=
  ⟨job.status.lease, job.lockedBy, job.attempts⟩

def Task.lease (task : Task) : ℕ × TaskState := (task.job.attempts, task.state)

def World.row (W : World) (id : UUID) : Option (Lease.Row WorkerId Verdict) :=
  (Table.lookup NotificationJob.id id W.jobs).map NotificationJob.lease

def World.lease (W : World) (id : UUID) : Lease.State WorkerId TaskState Verdict :=
  ⟨W.row id, fun w => ((W.worker w).task? id).map Task.lease⟩

def project (id : UUID) (os : List Obs) : List LeaseEvent :=
  os.filterMap fun o => if o.1 = id then some o.2 else none

section Project
variable (id : UUID)

@[simp] theorem project_append (os os' : List Obs) :
    project id (os ++ os') = project id os ++ project id os' := Table.eventsOf_append id os os'

theorem project_singleton (k : UUID) (e : LeaseEvent) :
    project id [(k, e)] = if k = id then [e] else [] := Table.eventsOf_singleton id k e

theorem mem_project {os : List Obs} {e : LeaseEvent} : e ∈ project id os ↔ (id, e) ∈ os :=
  Table.mem_eventsOf id

theorem project_rows {rows : List NotificationJob} (h : Table.KeyUnique NotificationJob.id rows)
    (g : NotificationJob → LeaseEvent) :
    project id (rows.map fun j => (j.id, g j)) =
      ((Table.lookup NotificationJob.id id rows).map g).toList := Table.eventsOf_rows id h g

end Project

def World.store (W : World) (jobs : List NotificationJob) : World := { W with jobs := jobs }

def World.put (W : World) (w : WorkerId) (x : Worker) : World :=
  { W with worker := Function.update W.worker w x }

def World.Follows (settings : Settings) (W : World) (os : List Obs) (W' : World) : Prop :=
  ∀ id, Lease.Runs (deliveryWork settings) (W.lease id) (project id os) (W'.lease id)

section Follows
variable {settings : Settings} {W : World}

theorem World.Follows.trans {W' W'' : World} {os os' : List Obs} (h : W.Follows settings os W')
    (h' : W'.Follows settings os' W'') : W.Follows settings (os ++ os') W'' := by
  intro id
  rw [project_append]
  exact (h id).trans (h' id)

theorem World.Follows.quiet {W' W'' : World} {os : List Obs} (h : W.Follows settings os W')
    (h' : W'.Follows settings [] W'') : W.Follows settings os W'' := by
  have hboth := h.trans h'
  rwa [List.append_nil] at hboth

theorem follows_same {W' : World} (h : ∀ id, W'.lease id = W.lease id) :
    W.Follows settings [] W' := by
  intro id
  rw [h id]
  exact .start

theorem lease_put (w : WorkerId) (x : Worker) (id : UUID) :
    (W.put w x).lease id =
      ⟨W.row id, Function.update (W.lease id).task w ((x.task? id).map Task.lease)⟩ := by
  unfold World.lease World.put
  congr 1
  funext v
  by_cases hv : v = w
  · subst hv
    simp
  · simp [hv]

theorem lease_put_same {w : WorkerId} {x : Worker} {id : UUID}
    (h : (x.task? id).map Task.lease = ((W.worker w).task? id).map Task.lease) :
    (W.put w x).lease id = W.lease id := by
  rw [lease_put, h]
  have hself : Function.update (W.lease id).task w ((W.lease id).task w) = (W.lease id).task :=
    Function.update_eq_self w _
  exact congrArg (Lease.State.mk (W.row id)) hself

theorem follows_tasks {w : WorkerId} {x : Worker} (h : x.tasks = (W.worker w).tasks) :
    W.Follows settings [] (W.put w x) := by
  apply follows_same
  intro id
  apply lease_put_same
  unfold Worker.task?
  rw [h]

theorem task?_setTask (x : Worker) (jobId : UUID) (s : TaskState) (id : UUID) :
    (x.setTask jobId s).task? id =
      (x.task? id).map fun task => if id = jobId then { task with state := s } else task := by
  have hid : ∀ task : Task, Task.jobId { task with state := s } = task.jobId := by
    intro task
    rfl
  exact Table.lookup_update hid id

theorem task?_endTask (x : Worker) (jobId id : UUID) :
    (x.endTask jobId).task? id = if id = jobId then none else x.task? id :=
  Table.lookup_delete id jobId x.tasks

theorem follows_move {w : WorkerId} {task : Task} {note : Option Note} {s : TaskState}
    (htask : (W.worker w).task? task.jobId = some task)
    (hmove : Move settings task.job.attempts task.state note s) :
    W.Follows settings (note.map fun y => (task.jobId, .noted w task.job.attempts y)).toList
      (W.put w ((W.worker w).setTask task.jobId s)) := by
  intro id
  by_cases hid : id = task.jobId
  · subst hid
    have hevents : project task.jobId
        (note.map fun y => (task.jobId, (.noted w task.job.attempts y : LeaseEvent))).toList =
        (note.map (Lease.Event.noted w task.job.attempts)).toList := by
      cases note with
      | none => rfl
      | some y => simp [project_singleton]
    have hlease : (W.lease task.jobId).task w = some (task.job.attempts, task.state) := by
      simp [World.lease, htask, Task.lease]
    have hstep := Lease.Runs.one (Lease.Step.work (M := deliveryWork settings) hlease hmove)
    rw [hevents, lease_put, task?_setTask, htask]
    simpa [Task.lease, World.lease] using hstep
  · have hevents : project id
        (note.map fun y => (task.jobId, (.noted w task.job.attempts y : LeaseEvent))).toList = [] := by
      cases note with
      | none => rfl
      | some y => simp [project_singleton, Ne.symm hid]
    rw [hevents, lease_put_same]
    · exact .start
    · rw [task?_setTask]
      simp [hid]

theorem follows_end {w : WorkerId} {jobId : UUID} {x : Worker}
    (htasks : x.tasks = ((W.worker w).endTask jobId).tasks) :
    W.Follows settings [] (W.put w x) := by
  intro id
  have htask : x.task? id = ((W.worker w).endTask jobId).task? id := by
    unfold Worker.task?
    rw [htasks]
  by_cases hid : id = jobId
  · subst hid
    have hstep := Lease.Runs.one (Lease.Step.drop (M := deliveryWork settings) (S := W.lease id) w)
    rw [lease_put, htask, task?_endTask, if_pos rfl]
    exact hstep
  · rw [lease_put_same]
    · exact .start
    · rw [htask, task?_endTask, if_neg hid]

theorem follows_crash (w : WorkerId) :
    W.Follows settings [] (W.put w { W.worker w with
      phase := .exited
      tasks := (W.worker w).tasks.map fun task => { task with state := task.state.cancel } }) := by
  intro id
  have hid : ∀ task : Task, Task.jobId { task with state := task.state.cancel } = task.jobId := by
    intro task
    rfl
  have hlookup := Table.lookup_map _ hid id (W.worker w).tasks
  cases htask : (W.worker w).task? id with
  | none =>
    rw [lease_put_same]
    · exact .start
    · unfold Worker.task? at htask ⊢
      rw [hlookup, htask]
      rfl
  | some task =>
    have hlease : (W.lease id).task w = some (task.job.attempts, task.state) := by
      simp [World.lease, htask, Task.lease]
    have hstep := Lease.Runs.one
      (Lease.Step.work (M := deliveryWork settings) hlease (.cancel task.state))
    have hlease' : ((Table.lookup Task.jobId id ((W.worker w).tasks.map
        fun task => { task with state := task.state.cancel })).map Task.lease) =
        some (task.job.attempts, task.state.cancel) := by
      unfold Worker.task? at htask
      rw [hlookup, htask]
      rfl
    rw [lease_put]
    unfold Worker.task?
    rw [hlease']
    exact hstep

theorem lease_store (jobs : List NotificationJob) (id : UUID) :
    (W.store jobs).lease id =
      ⟨(Table.lookup NotificationJob.id id jobs).map NotificationJob.lease, (W.lease id).task⟩ := rfl

theorem lease_store_same {jobs : List NotificationJob} {id : UUID}
    (h : (Table.lookup NotificationJob.id id jobs).map NotificationJob.lease = W.row id) :
    (W.store jobs).lease id = W.lease id := by
  rw [lease_store, h]
  rfl

theorem follows_renewHeartbeat (w : WorkerId) (now : Time) :
    W.Follows settings [] (W.store (renewHeartbeat w now W.jobs)) := by
  apply follows_same
  intro id
  apply lease_store_same
  have hid : ∀ job : NotificationJob,
      NotificationJob.id { job with heartbeatAt := some now, updatedAt := now } = job.id := by
    intro job
    rfl
  unfold renewHeartbeat
  rw [Table.lookup_updateWhere hid, Option.map_map]
  unfold World.row
  congr 1
  funext job
  by_cases hjob : job.lockedBy = some w ∧ job.status = .processing <;>
    simp [hjob, NotificationJob.lease]

/-- A write that the fence lets through. -/
theorem lease_set {job : NotificationJob} {jobId : UUID} {w : WorkerId} (f : Finalizer) (now : Time)
    (h : job.fenced jobId w = true) :
    job.lease = ⟨.held, some w, job.attempts⟩ ∧
      (f.set now job).lease = Lease.written w job.attempts f.verdict := by
  obtain ⟨_, hholder, hstatus⟩ := of_decide_eq_true h
  unfold NotificationJob.lease
  rw [hholder, hstatus]
  refine ⟨rfl, ?_⟩
  cases f with
  | markRetry => rfl
  | _ => exact congrArg (fun holder => Lease.Row.mk _ holder job.attempts) hholder

theorem runs_fenced (hunique : Table.KeyUnique NotificationJob.id W.jobs) {w : WorkerId}
    {task : Task} (htask : (W.worker w).task? task.jobId = some task) {f : Finalizer}
    (hfinish : task.state.finish = some f.verdict) (now : Time) {job : NotificationJob}
    (hjob : Table.lookup NotificationJob.id task.job.id W.jobs = some job)
    (hfenced : job.fenced task.job.id w = true) :
    Lease.Runs (deliveryWork settings) (W.lease task.job.id)
      (project task.job.id (runFinalizer f task.job w now W.jobs).2)
      ((W.store (runFinalizer f task.job w now W.jobs).1).lease task.job.id) := by
  obtain ⟨hrow, hset⟩ := lease_set f now hfenced
  have hlease : (W.lease task.job.id).task w = some (task.job.attempts, task.state) := by
    have htask' : (W.worker w).task? task.job.id = some task := htask
    simp [World.lease, htask', Task.lease]
  have hheld : (W.lease task.job.id).row = some ⟨.held, some w, job.attempts⟩ := by
    simp [World.lease, World.row, hjob, hrow]
  have hstep := Lease.Runs.one
    (Lease.Step.land (M := deliveryWork settings) hlease hfinish hheld)
  unfold runFinalizer
  dsimp only
  rw [finalizer_held hunique hjob, lease_store, finalizer_lookup, hjob]
  simp only [Option.map_some, hfenced, if_true, hset, Option.getD_some, project_singleton]
  exact hstep

/-- A row that the fence refuses stays as it is, and nothing is observed of it. -/
theorem lease_refused {w : WorkerId} {f : Finalizer} {jobId id : UUID} {now : Time}
    (hrefused : ∀ job, Table.lookup NotificationJob.id id W.jobs = some job →
      job.fenced jobId w = false) :
    (W.store (f.run jobId w now W.jobs).1).lease id = W.lease id := by
  apply lease_store_same
  rw [finalizer_lookup]
  unfold World.row
  cases hjob : Table.lookup NotificationJob.id id W.jobs with
  | none => rfl
  | some job => simp [hrefused job hjob]

theorem follows_runFinalizer (hunique : Table.KeyUnique NotificationJob.id W.jobs) {w : WorkerId}
    {task : Task} (htask : (W.worker w).task? task.jobId = some task) {f : Finalizer}
    (hfinish : task.state.finish = some f.verdict) (now : Time) :
    W.Follows settings (runFinalizer f task.job w now W.jobs).2
      (W.store (runFinalizer f task.job w now W.jobs).1) := by
  intro id
  by_cases hid : id = task.job.id
  · subst hid
    cases hjob : Table.lookup NotificationJob.id task.job.id W.jobs with
    | none =>
      unfold runFinalizer
      dsimp only
      rw [finalizer_absent hjob,
        lease_refused (fun job hsome => by rw [hjob] at hsome; cases hsome)]
      exact .start
    | some job =>
      cases hfenced : job.fenced task.job.id w with
      | false =>
        unfold runFinalizer
        dsimp only
        rw [finalizer_held hunique hjob, hfenced,
          lease_refused (fun j hsome => by rw [hjob] at hsome; cases hsome; exact hfenced)]
        exact .start
      | true => exact runs_fenced hunique htask hfinish now hjob hfenced
  · have hother : ∀ job, Table.lookup NotificationJob.id id W.jobs = some job →
        job.fenced task.job.id w = false := by
      intro job hjob
      apply fenced_other
      rw [Table.lookup_key hjob]
      exact hid
    unfold runFinalizer
    dsimp only
    rw [lease_refused hother]
    split_ifs
    · rw [project_singleton, if_neg (Ne.symm hid)]
      exact .start
    · exact .start

/-- A statement that picks rows, changes them and observes one event a row takes one lease step
    for each of them. -/
theorem runs_picked (hunique : Table.KeyUnique NotificationJob.id W.jobs)
    {rows : List NotificationJob} (hrows : ∀ j ∈ rows, j ∈ W.jobs)
    (hpicked : Table.KeyUnique NotificationJob.id rows) {change : NotificationJob → NotificationJob}
    (hid : ∀ j, (change j).id = j.id) (event : NotificationJob → LeaseEvent) (id : UUID)
    {task : WorkerId → Option (ℕ × TaskState)}
    (skipped : Table.lookup NotificationJob.id id rows = none → task = (W.lease id).task)
    (taken : ∀ job ∈ rows, Table.lookup NotificationJob.id id rows = some job →
      (W.lease id).row = some job.lease →
      Lease.Step (deliveryWork settings) (W.lease id) (some (event job))
        ⟨some (change job).lease, task⟩) :
    Lease.Runs (deliveryWork settings) (W.lease id)
      (project id (rows.map fun j => (j.id, event j)))
      ⟨(Table.lookup NotificationJob.id id
        (Table.updateWhere (fun j => j.id ∈ rows.map NotificationJob.id) change W.jobs)).map
          NotificationJob.lease, task⟩ := by
  rw [project_rows id hpicked event, lookup_updatePicked hunique hrows hpicked hid]
  cases hjob : Table.lookup NotificationJob.id id rows with
  | none =>
    rw [skipped hjob]
    exact .start
  | some job =>
    have hmem := Table.lookup_mem hjob
    have hold : Table.lookup NotificationJob.id id W.jobs = some job :=
      hunique.lookup_iff.mpr ⟨hrows job hmem, Table.lookup_key hjob⟩
    have hrow : (W.lease id).row = some job.lease := congrArg (Option.map NotificationJob.lease) hold
    exact Lease.Runs.one (taken job hmem hjob hrow)

theorem follows_reapStale (hunique : Table.KeyUnique NotificationJob.id W.jobs) (idleSeconds : ℤ)
    (batchSize : ℕ) (now : Time) (skip : UUID → Bool) :
    W.Follows settings
      ((reapable idleSeconds batchSize now skip W.jobs).map fun j => (j.id, .reclaimed j.attempts))
      (W.store (reapStale idleSeconds batchSize now skip W.jobs).1) := by
  intro id
  apply runs_picked hunique (fun j hj => (mem_reapable hj).1) (reapable_unique hunique)
    (by intro j; rfl) (fun j => .reclaimed j.attempts)
  · intro _
    rfl
  · intro job hjob _ hrow
    unfold NotificationJob.lease at hrow
    rw [(mem_reapable hjob).2] at hrow
    exact Lease.Step.reclaim hrow

theorem follows_claimBatch (hunique : Table.KeyUnique NotificationJob.id W.jobs) {w : WorkerId}
    (hidle : (W.worker w).tasks = []) (batchSize : ℕ) (now : Time) (skip : UUID → Bool) {x : Worker}
    (htasks : x.tasks =
      (claimBatch w batchSize now skip W.jobs).2.map fun job => ⟨job, .queued⟩) :
    W.Follows settings
      ((claimBatch w batchSize now skip W.jobs).2.map fun job => (job.id, .claimed w job.attempts))
      ((W.store (claimBatch w batchSize now skip W.jobs).1).put w x) := by
  intro id
  have hfree : (W.lease id).task w = none := by
    simp [World.lease, Worker.task?, hidle, Table.lookup]
  have htask : x.task? id =
      (Table.lookup NotificationJob.id id (claimable batchSize now skip W.jobs)).map fun j =>
        ⟨(j.claim w now).claimed, .queued⟩ := by
    unfold Worker.task?
    rw [htasks]
    unfold claimBatch
    rw [List.map_map]
    exact Table.lookup_map _ (by intro j; rfl) id _
  unfold claimBatch
  rw [List.map_map, lease_put, htask]
  apply runs_picked hunique (fun j hj => (mem_claimable hj).1) (claimable_unique hunique)
    (by intro j; rfl) (fun j => .claimed w (j.attempts + 1))
  · intro hnone
    rw [hnone]
    exact Function.update_eq_self_iff.mpr hfree.symm
  · intro job hjob hpicked hrow
    unfold NotificationJob.lease at hrow
    rw [(mem_claimable hjob).2] at hrow
    rw [hpicked]
    exact Lease.Step.claim hrow hfree

theorem follows_insertJobs (hunique : Table.KeyUnique NotificationJob.id W.jobs)
    {jobs : List NotificationJob} (h : jobsViolation W.jobs jobs = none)
    (hnew : jobs.all NotificationJob.isNew) :
    W.Follows settings (jobs.map fun j => (j.id, .enqueued)) (W.store (W.jobs ++ jobs)) := by
  intro id
  have hboth := keyUnique_insertJobs hunique h
  unfold Table.KeyUnique at hboth
  rw [List.map_append, List.nodup_append] at hboth
  obtain ⟨_, hjobs, hdisjoint⟩ := hboth
  rw [project_rows id hjobs (fun _ => .enqueued), lease_store]
  cases hold : Table.lookup NotificationJob.id id W.jobs with
  | some job =>
    have hnone : Table.lookup NotificationJob.id id jobs = none := by
      rw [Table.lookup_eq_none]
      intro j hj hid
      have hjob := List.mem_map_of_mem (f := NotificationJob.id) (Table.lookup_mem hold)
      exact hdisjoint _ hjob _ (List.mem_map_of_mem hj) ((Table.lookup_key hold).trans hid.symm)
    rw [hnone, Table.lookup_append_of_some hold, ← hold]
    exact .start
  | none =>
    rw [Table.lookup_append_of_none hold]
    have habsent : (W.lease id).row = none := by
      simp [World.lease, World.row, hold]
    cases hjob : Table.lookup NotificationJob.id id jobs with
    | none =>
      change Lease.Runs (deliveryWork settings) (W.lease id) [] ⟨none, (W.lease id).task⟩
      rw [← habsent]
      exact .start
    | some job =>
      have hisNew := List.all_eq_true.mp hnew job (Table.lookup_mem hjob)
      simp only [NotificationJob.isNew, Bool.and_eq_true, beq_iff_eq] at hisNew
      have hlease : job.lease = ⟨.pending, none, 0⟩ := by
        unfold NotificationJob.lease
        rw [hisNew.1.1, hisNew.1.2, hisNew.2]
        rfl
      change Lease.Runs (deliveryWork settings) (W.lease id) [.enqueued]
        ⟨some job.lease, (W.lease id).task⟩
      rw [hlease]
      exact Lease.Runs.one (Lease.Step.enqueue habsent)

end Follows

def Phase.betweenBatches : Phase → Bool
  | .waiting | .reaping | .checking | .claiming => true
  | _ => false

/-- A worker claims no new batch while a task of the last one is there. -/
structure World.Ok (W : World) : Prop where
  unique : Table.KeyUnique NotificationJob.id W.jobs
  idle : ∀ w, (W.worker w).phase.betweenBatches = true → (W.worker w).tasks = []

theorem World.Ok.start : World.Ok {} where
  unique := List.nodup_nil
  idle _ _ := rfl

theorem World.Ok.put {W : World} (h : W.Ok) {w : WorkerId} {x : Worker}
    (hidle : x.phase.betweenBatches = true → x.tasks = []) : (W.put w x).Ok where
  unique := h.unique
  idle v := by
    unfold World.put
    by_cases hv : v = w
    · subst hv
      simpa using hidle
    · simpa [hv] using h.idle v

theorem World.Ok.store {W : World} (h : W.Ok) {jobs : List NotificationJob}
    (hunique : Table.KeyUnique NotificationJob.id jobs) : (W.store jobs).Ok :=
  ⟨hunique, h.idle⟩

theorem World.Ok.updateWhere {W : World} (h : W.Ok) {p : NotificationJob → Bool}
    {f : NotificationJob → NotificationJob} (hid : ∀ j, (f j).id = j.id) :
    (W.store (Table.updateWhere p f W.jobs)).Ok :=
  h.store (Table.keyUnique_updateWhere h.unique hid)

inductive TaskOutcome (settings : Settings) (w : WorkerId) (x : Worker) (task : Task) :
    List Obs → Worker → Prop
  | moved {note : Option Note} {s : TaskState}
      (move : Move settings task.job.attempts task.state note s) :
      TaskOutcome settings w x task
        (note.map fun y => (task.jobId, .noted w task.job.attempts y)).toList
        (x.setTask task.jobId s)
  | ended : TaskOutcome settings w x task [] (x.endTask task.jobId)
  | raised : TaskOutcome settings w x task [] (x.raiseTask task.jobId)

section Steps
variable {settings : Settings} {W : World} {w : WorkerId} {task : Task} {x : Worker}
  {jobs jobs' : List NotificationJob} {os : List Obs}

theorem failTask_outcome {y : Worker} {failure : Failure}
    (hstage : task.state = .loading ∨ task.state = .sending)
    (h : failTask settings w x task.job failure = (y, os)) :
    TaskOutcome settings w x task os y := by
  unfold failTask at h
  split at h
  · rename_i f note hhandled
    cases h
    exact .moved (.failed hstage rfl hhandled)
  · cases h
    exact .raised

/-- However the transaction of a finalizer ends, only its write changes the jobs. -/
theorem finalize_outcome {y : Worker} {f : Finalizer} {k : ℕ} {now : Time} {committed : Bool}
    {reply : Reply} (hstate : task.state = .finalizing f k)
    (h : taskStep settings w x jobs task (.finalize now committed reply) = some (y, jobs', os)) :
    (if committed then runFinalizer f task.job w now jobs else (jobs, [])) = (jobs', os) ∧
      TaskOutcome settings w x task [] y := by
  simp only [taskStep, hstate] at h
  cases reply with
  | returned =>
    dsimp only at h
    split at h
    · rename_i hcommitted
      rw [Option.some.injEq, Prod.mk.injEq] at h
      obtain ⟨rfl, hwrite⟩ := h
      rw [if_pos hcommitted]
      exact ⟨hwrite, .ended⟩
    · cases h
  | transientDbError =>
    dsimp only at h
    split at h
    · rw [Option.some.injEq, Prod.mk.injEq] at h
      obtain ⟨rfl, hwrite⟩ := h
      have hmove : Move settings task.job.attempts task.state none (.finalizing f (k + 1)) := by
        rw [hstate]
        exact .again f k
      exact ⟨hwrite, .moved hmove⟩
    · rw [Option.some.injEq, Prod.mk.injEq] at h
      obtain ⟨rfl, hwrite⟩ := h
      exact ⟨hwrite, .raised⟩
  | otherError =>
    dsimp only at h
    rw [Option.some.injEq, Prod.mk.injEq] at h
    obtain ⟨rfl, hwrite⟩ := h
    exact ⟨hwrite, .raised⟩

/-- A step of a task may first write the task's result, and only the result of its last stage. -/
theorem taskStep_cases {y : Worker} {a : TaskAction}
    (h : taskStep settings w x jobs task a = some (y, jobs', os)) :
    (jobs' = jobs ∧ TaskOutcome settings w x task os y) ∨
      ∃ f now, task.state.finish = some f.verdict ∧
        runFinalizer f task.job w now jobs = (jobs', os) ∧ TaskOutcome settings w x task [] y := by
  cases a with
  | start =>
    simp only [taskStep] at h
    split_ifs at h with hguard
    cases h
    have hmove : Move settings task.job.attempts task.state none .loading := by
      rw [hguard.2.1]
      exact .start
    exact Or.inl ⟨rfl, .moved hmove⟩
  | load failure =>
    simp only [taskStep] at h
    split_ifs at h with hguard
    cases failure with
    | none =>
      cases h
      have hmove : Move settings task.job.attempts task.state (some .sendStarted) .sending := by
        rw [hguard.2]
        exact .rendered
      exact Or.inl ⟨rfl, .moved hmove⟩
    | some failure =>
      cases h
      exact Or.inl ⟨rfl, failTask_outcome (Or.inl hguard.2) rfl⟩
  | send failure =>
    simp only [taskStep] at h
    split_ifs at h with hguard
    cases failure with
    | none =>
      cases h
      have hmove : Move settings task.job.attempts task.state (some .returned) .pushing := by
        rw [hguard.2]
        exact .sent
      exact Or.inl ⟨rfl, .moved hmove⟩
    | some failure =>
      cases h
      exact Or.inl ⟨rfl, failTask_outcome (Or.inr hguard.2) rfl⟩
  | push =>
    simp only [taskStep] at h
    split_ifs at h with hguard
    cases h
    have hmove : Move settings task.job.attempts task.state none (.finalizing .markCompleted 1) := by
      rw [hguard.2]
      exact .pushed
    exact Or.inl ⟨rfl, .moved hmove⟩
  | finalize now committed reply =>
    cases hstate : task.state with
    | finalizing f k =>
      obtain ⟨hwrite, hout⟩ := finalize_outcome hstate h
      cases committed with
      | true => exact Or.inr ⟨f, now, rfl, hwrite, hout⟩
      | false =>
        cases hwrite
        exact Or.inl ⟨rfl, hout⟩
    | _ =>
      simp only [taskStep, hstate] at h
      cases h
  | cancel =>
    simp only [taskStep] at h
    split_ifs at h
    cases h
    have hmove : Move settings task.job.attempts task.state none task.state.cancel := .cancel _
    exact Or.inl ⟨rfl, .moved hmove⟩
  | land now =>
    simp only [taskStep] at h
    split at h
    · rename_i f hstate
      cases h
      exact Or.inr ⟨f, now, by rw [hstate]; rfl, rfl, .ended⟩
    · cases h

theorem TaskOutcome.phase {y : Worker} (h : TaskOutcome settings w x task os y) :
    y.phase = x.phase ∨ y.phase = .unwinding := by
  cases h with
  | moved => exact Or.inl rfl
  | ended => exact Or.inl rfl
  | raised => exact Or.inr rfl

theorem TaskOutcome.step {y : Worker} (h : TaskOutcome settings w (W.worker w) task os y)
    (hW : W.Ok) (htask : (W.worker w).task? task.jobId = some task) :
    (W.put w y).Ok ∧ W.Follows settings os (W.put w y) := by
  constructor
  · apply hW.put
    intro hidle
    have hbusy : (W.worker w).tasks ≠ [] := List.ne_nil_of_mem (Table.lookup_mem htask)
    rcases h.phase with hphase | hphase
    · rw [hphase] at hidle
      exact absurd (hW.idle w hidle) hbusy
    · rw [hphase] at hidle
      cases hidle
  · cases h with
    | moved move => exact follows_move htask move
    | ended => exact follows_end rfl
    | raised => exact follows_end rfl

theorem World.Ok.runFinalizer (h : W.Ok) (f : Finalizer) (job : ClaimedJob) (now : Time) :
    (W.store (runFinalizer f job w now W.jobs).1).Ok :=
  h.updateWhere (f.set_id now)

theorem task_step {y : Worker} {a : TaskAction} (hW : W.Ok)
    (htask : (W.worker w).task? task.jobId = some task)
    (h : taskStep settings w (W.worker w) W.jobs task a = some (y, jobs', os)) :
    ((W.store jobs').put w y).Ok ∧ W.Follows settings os ((W.store jobs').put w y) := by
  rcases taskStep_cases h with ⟨rfl, hout⟩ | ⟨f, now, hfinish, hwrite, hout⟩
  · exact hout.step hW htask
  · have hstored : (W.store (runFinalizer f task.job w now W.jobs).1).Ok :=
      hW.runFinalizer f task.job now
    have hwritten : W.Follows settings (runFinalizer f task.job w now W.jobs).2
        (W.store (runFinalizer f task.job w now W.jobs).1) :=
      follows_runFinalizer hW.unique htask hfinish now
    rw [hwrite] at hstored hwritten
    dsimp only at hstored hwritten
    obtain ⟨hok, hfollows⟩ := TaskOutcome.step (W := W.store jobs') hout hstored htask
    exact ⟨hok, hwritten.quiet hfollows⟩

theorem quiet_step {y : Worker} (hW : W.Ok) (htasks : y.tasks = (W.worker w).tasks)
    (hidle : y.phase.betweenBatches = true → y.tasks = []) :
    (W.put w y).Ok ∧ W.Follows settings [] (W.put w y) :=
  ⟨hW.put hidle, follows_tasks htasks⟩

theorem crash_step {y : Worker} (hW : W.Ok)
    (h : workerStep settings w (W.worker w) W.jobs .crash = some (y, jobs', os)) :
    ((W.store jobs').put w y).Ok ∧ W.Follows settings os ((W.store jobs').put w y) := by
  cases h
  refine ⟨?_, follows_crash w⟩
  apply hW.put
  intro hidle
  cases hidle

theorem renewHeartbeat_step {y : Worker} {now : Time} (hW : W.Ok)
    (h : workerStep settings w (W.worker w) W.jobs (.renewHeartbeat now) = some (y, jobs', os)) :
    ((W.store jobs').put w y).Ok ∧ W.Follows settings os ((W.store jobs').put w y) := by
  simp only [workerStep] at h
  split_ifs at h
  cases h
  have hstored : (W.store (renewHeartbeat w now W.jobs)).Ok := hW.updateWhere (by intro j; rfl)
  refine ⟨hstored.put (hW.idle w), ?_⟩
  exact (follows_renewHeartbeat w now).trans (follows_tasks rfl)

theorem reap_step {y : Worker} {now : Time} {skip : UUID → Bool} (hW : W.Ok)
    (h : workerStep settings w (W.worker w) W.jobs (.reap now skip) = some (y, jobs', os)) :
    ((W.store jobs').put w y).Ok ∧ W.Follows settings os ((W.store jobs').put w y) := by
  simp only [workerStep] at h
  obtain ⟨hphase, hnext⟩ := Option.ite_none_right_eq_some.mp h
  cases hnext
  have hstored : (W.store (reapStale settings.workerReaperIdleSeconds settings.workerReapBatchSize
      now skip W.jobs).1).Ok := hW.updateWhere (by intro j; rfl)
  constructor
  · apply hstored.put
    intro _
    exact hW.idle w (by rw [hphase]; rfl)
  · have hreaped : W.Follows settings _ _ := follows_reapStale hW.unique
      settings.workerReaperIdleSeconds settings.workerReapBatchSize now skip
    exact hreaped.quiet (follows_tasks rfl)

theorem claim_step {y : Worker} {now : Time} {skip : UUID → Bool} (hW : W.Ok)
    (h : workerStep settings w (W.worker w) W.jobs (.claim now skip) = some (y, jobs', os)) :
    ((W.store jobs').put w y).Ok ∧ W.Follows settings os ((W.store jobs').put w y) := by
  simp only [workerStep] at h
  obtain ⟨hphase, hnext⟩ := Option.ite_none_right_eq_some.mp h
  cases hnext
  have hempty : (W.worker w).tasks = [] := hW.idle w (by rw [hphase]; rfl)
  refine ⟨?_, follows_claimBatch hW.unique hempty _ now skip rfl⟩
  have hstored : (W.store (claimBatch w settings.workerClaimBatchSize now skip W.jobs).1).Ok :=
    hW.updateWhere (by intro j; rfl)
  apply hstored.put
  intro hidle
  by_cases hnone : (claimBatch w settings.workerClaimBatchSize now skip W.jobs).2 = []
  · simp [hnone]
  · simp [hnone, Phase.betweenBatches] at hidle

theorem join_step {y : Worker} (hW : W.Ok)
    (h : workerStep settings w (W.worker w) W.jobs .join = some (y, jobs', os)) :
    ((W.store jobs').put w y).Ok ∧ W.Follows settings os ((W.store jobs').put w y) := by
  simp only [workerStep] at h
  split at h
  · obtain ⟨hempty, hnext⟩ := Option.ite_none_right_eq_some.mp h
    cases hnext
    exact quiet_step hW rfl fun _ => hempty
  · cases h

theorem worker_step {y : Worker} {a : WorkerAction} (hW : W.Ok)
    (h : workerStep settings w (W.worker w) W.jobs a = some (y, jobs', os)) :
    ((W.store jobs').put w y).Ok ∧ W.Follows settings os ((W.store jobs').put w y) := by
  cases a with
  | signal =>
    cases h
    exact quiet_step hW rfl (hW.idle w)
  | loseLease =>
    cases h
    exact quiet_step hW rfl (hW.idle w)
  | shutdown =>
    simp only [workerStep] at h
    split_ifs at h
    cases h
    refine quiet_step hW rfl ?_
    intro hidle
    cases hidle
  | crash => exact crash_step hW h
  | renewHeartbeat now => exact renewHeartbeat_step hW h
  | wake =>
    simp only [workerStep] at h
    obtain ⟨hphase, hnext⟩ := Option.ite_none_right_eq_some.mp h
    cases hnext
    exact quiet_step hW rfl fun _ => hW.idle w (by rw [hphase]; rfl)
  | reap now skip => exact reap_step hW h
  | check =>
    simp only [workerStep] at h
    obtain ⟨hphase, hnext⟩ := Option.ite_none_right_eq_some.mp h
    cases hnext
    exact quiet_step hW rfl fun _ => hW.idle w (by rw [hphase]; rfl)
  | claim now skip => exact claim_step hW h
  | join => exact join_step hW h
  | task jobId a =>
    simp only [workerStep] at h
    cases htask : (W.worker w).task? jobId with
    | none =>
      rw [htask] at h
      cases h
    | some task =>
      rw [htask] at h
      have hid : task.jobId = jobId := Table.lookup_key htask
      subst hid
      exact task_step hW htask h

end Steps

theorem World.step_follows {settings : Settings} {W W' : World} {a : Action} {os : List Obs}
    (hW : W.Ok) (h : W.step settings a = some (W', os)) : W'.Ok ∧ W.Follows settings os W' := by
  cases a with
  | enqueue jobs =>
    simp only [World.step] at h
    split_ifs at h with hnew
    cases h
    exact ⟨hW.store (keyUnique_insertJobs hW.unique hnew.1),
      follows_insertJobs hW.unique hnew.1 hnew.2⟩
  | worker w a =>
    simp only [World.step] at h
    split at h
    · cases h
    · rename_i x jobs' os' hstep
      cases h
      exact worker_step hW hstep

theorem delivers_follows {settings : Settings} {W W' : World} {tr : List Obs} (hW : W.Ok)
    (h : Transition.Run (World.step settings) W tr W') : W'.Ok ∧ W.Follows settings tr W' := by
  refine h.invariant (fun tr W' => W'.Ok ∧ W.Follows settings tr W')
    ⟨hW, follows_same fun _ => rfl⟩ ?_
  intro tr T a U os hT hs
  obtain ⟨hok, hfollows⟩ := World.step_follows hT.1 hs
  exact ⟨hok, hT.2.trans hfollows⟩

/-- Every job goes through a run of the lease machine, from before its insertion. -/
theorem delivers_runs {settings : Settings} {W : World} {tr : List Obs} (h : Delivers settings tr W)
    (id : UUID) : Lease.Runs (deliveryWork settings) .empty (project id tr) (W.lease id) :=
  (delivers_follows .start h).2 id

theorem eventCancelledJobs_isNew (env : Env) (eventId : UUID) (regs : List Registration) :
    (eventCancelledJobs env eventId regs).all NotificationJob.isNew = true := by
  unfold eventCancelledJobs
  rw [List.all_map, List.all_eq_true]
  intro r _
  rfl

/-- What a call commits to the outbox is an insertion of new jobs. -/
theorem Change.enqueues {settings : Settings} {c : Call} {db db' : Database}
    (h : Change settings c db db') :
    ∃ jobs, db'.notificationJobs = db.notificationJobs ++ jobs ∧
      jobsViolation db.notificationJobs jobs = none ∧ jobs.all NotificationJob.isNew = true := by
  cases h with
  | cancelEvent _ _ _ _ fresh => exact ⟨_, rfl, fresh, eventCancelledJobs_isNew _ _ _⟩
  | registerStudent _ _ _ _ fresh => exact ⟨_, rfl, fresh, rfl⟩
  | cancelRegistration _ _ _ _ _ fresh =>
    refine ⟨_, rfl, fresh, ?_⟩
    unfold cancellationJobs
    rw [List.all_append, List.all_map]
    simp [waitlistPromotedJob, registrationCancelledJob, newJob, NotificationJob.isNew]
  | _ => exact ⟨[], (List.append_nil _).symm, rfl, rfl⟩

/-- The workers run along with the calls: after a call the system is still in a run. -/
theorem Delivers.call {settings settings' : Settings} {W : World} {tr : List Obs}
    (h : Delivers settings tr W) (c : Call) {db : Database} (hdb : db.notificationJobs = W.jobs) :
    ∃ os, Delivers settings (tr ++ os) (W.store (effect settings' c db).notificationJobs) := by
  obtain ⟨jobs, happend, hfresh, hnew⟩ := (change settings' c db).enqueues
  rw [hdb] at happend hfresh
  rw [happend]
  refine ⟨jobs.map fun j => (j.id, .enqueued), ?_⟩
  have hstep : W.step settings (.enqueue jobs) =
      some (W.store (W.jobs ++ jobs), jobs.map fun j => (j.id, .enqueued)) :=
    if_pos ⟨hfresh, hnew⟩
  exact .next h hstep

end Hefest
