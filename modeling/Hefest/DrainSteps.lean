import Mathlib.Algebra.Order.BigOperators.Group.List
import Mathlib.Algebra.Order.Ring.Nat
import Hefest.Drain

set_option autoImplicit false

namespace Hefest
open Transition

section Cost
variable (settings : Settings)

def NotificationJob.attemptsLeft (job : NotificationJob) : ℕ :=
  (settings.workerMaxAttempts - job.attempts).toNat

/-- Ten steps for every claim still to come: those of its task and those of its batch. A pending job
    is claimed once more even where it has no attempts left. -/
def NotificationJob.claimCost (job : NotificationJob) : ℕ :=
  match job.status with
  | .pending => 10 * max 1 (job.attemptsLeft settings)
  | .processing => 10 * job.attemptsLeft settings
  | .completed | .failed => 0

def NotificationJob.reapCost (job : NotificationJob) : ℕ :=
  match job.status with
  | .pending => 10 * max 1 (job.attemptsLeft settings)
  | .processing => 10 * max 1 (job.attemptsLeft settings) + 1
  | .completed | .failed => 0

def TaskState.cost : TaskState → ℕ
  | .queued => 7
  | .loading => 6
  | .sending => 5
  | .pushing => 4
  | .finalizing _ attempt => finalizeMaxAttempts + 1 - attempt
  | .cancelled _ => 0

def claimCosts (jobs : List NotificationJob) : ℕ :=
  (jobs.map (NotificationJob.claimCost settings)).sum

def reapCosts (jobs : List NotificationJob) : ℕ :=
  (jobs.map (NotificationJob.reapCost settings)).sum

def taskCosts (tasks : List Task) : ℕ := (tasks.map fun task => task.state.cost).sum

def Drain.cost (D : Drain) : ℕ :=
  match D.worker.phase with
  | .reaping => 4 + reapCosts settings D.jobs
  | .checking => 3 + claimCosts settings D.jobs
  | .claiming => 2 + claimCosts settings D.jobs
  | .processing _ => 4 + taskCosts D.worker.tasks + claimCosts settings D.jobs
  | .waiting | .unwinding | .exited => 0

end Cost

section Measure
variable {settings : Settings} {w : WorkerId} {outcomes : Outcomes} {D D' : Drain} {x : Worker}
  {task : Task} {s s' : TaskState} {a : DrainAction} {os : List (UUID × DrainEvent)}
  {job : NotificationJob}

theorem TaskAdvance.cost {claimed : ClaimedJob} {o : SendOutcome}
    (h : TaskAdvance settings claimed o s s') : s'.cost + 1 ≤ s.cost := by
  cases h with
  | failed stage =>
    rcases stage with rfl | rfl <;> simp [TaskState.cost, finalizeMaxAttempts]
  | _ => decide

theorem claimCost_le_reapCost : job.claimCost settings ≤ job.reapCost settings := by
  unfold NotificationJob.claimCost NotificationJob.reapCost
  cases job.status <;> dsimp only <;> omega

theorem reap_cost {now : Time} (h : job.status = .processing) :
    (job.reap now).reapCost settings + 1 ≤ job.reapCost settings := by
  simp only [NotificationJob.reapCost, NotificationJob.reap, NotificationJob.attemptsLeft, h]
  exact Nat.le_refl _

theorem claim_cost {now : Time} (h : job.status = .pending) :
    (job.claim w now).claimCost settings + 10 ≤ job.claimCost settings := by
  simp only [NotificationJob.claimCost, NotificationJob.claim, NotificationJob.attemptsLeft, h]
  omega

/-- Only a job with attempts left goes back to be claimed again. -/
theorem finalizer_retries {claimed : ClaimedJob} {o : SendOutcome} {lastError : String} {delay : ℤ}
    (h : o.finalizer settings claimed = .markRetry lastError delay) :
    (claimed.attempts : ℤ) < settings.workerMaxAttempts := by
  cases o with
  | succeeds => cases h
  | permanentError message => cases h
  | transientError message =>
    by_cases hlast : settings.workerMaxAttempts ≤ claimed.attempts
    · simp [SendOutcome.finalizer, SendOutcome.failure?, onFailure, hlast] at h
    · omega

theorem finalizer_cost {claimed : ClaimedJob} {o : SendOutcome} {now : Time} {id : UUID}
    (hfenced : job.fenced id w = true) (hlatest : job.attempts = claimed.attempts) :
    ((o.finalizer settings claimed).set now job).claimCost settings ≤ job.claimCost settings := by
  have hstatus : job.status = .processing := (of_decide_eq_true hfenced).2.2
  cases hf : o.finalizer settings claimed with
  | markCompleted => exact Nat.zero_le _
  | markFailed => exact Nat.zero_le _
  | markRetry lastError delay =>
    have hleft := finalizer_retries hf
    simp only [NotificationJob.claimCost, Finalizer.set, NotificationJob.attemptsLeft, hstatus]
    omega

theorem claimCosts_le_reapCosts (jobs : List NotificationJob) :
    claimCosts settings jobs ≤ reapCosts settings jobs :=
  List.sum_le_sum fun _ _ => claimCost_le_reapCost

theorem Drain.Ok.run_cost (hD : D.Ok settings w outcomes) (htask : task ∈ D.worker.tasks)
    {f : Finalizer} {k : ℕ} (hstate : task.state = .finalizing f k) (now : Time) :
    claimCosts settings (f.run task.jobId w now D.jobs).1 ≤ claimCosts settings D.jobs := by
  have htowards := hD.towards task htask
  rw [hstate] at htowards
  obtain ⟨rfl, _⟩ := htowards
  have hsum := Table.sum_updateWhere_le (p := NotificationJob.fenced task.jobId w)
    (f := Finalizer.set now ((outcomes task.jobId task.job.attempts).finalizer settings task.job))
    (t := D.jobs) (c := NotificationJob.claimCost settings) (d := 0)
    fun job hjob hfenced => finalizer_cost hfenced (hD.latest task htask job hjob hfenced)
  rw [Nat.zero_mul] at hsum
  exact hsum

theorem renew_claimCosts (now : Time) (jobs : List NotificationJob) :
    claimCosts settings (renewHeartbeat w now jobs) = claimCosts settings jobs :=
  congrArg List.sum (Table.map_updateWhere _ fun _ => rfl)

theorem renew_reapCosts (now : Time) (jobs : List NotificationJob) :
    reapCosts settings (renewHeartbeat w now jobs) = reapCosts settings jobs :=
  congrArg List.sum (Table.map_updateWhere _ fun _ => rfl)

theorem Drain.Ok.reap_cost (hD : D.Ok settings w outcomes) (now : Time) (skip : UUID → Bool)
    (idleSeconds : ℤ) (batchSize : ℕ) :
    reapCosts settings (reapStale idleSeconds batchSize now skip D.jobs).1 +
      (reapStale idleSeconds batchSize now skip D.jobs).2 ≤ reapCosts settings D.jobs := by
  have hpicked :
      Table.KeyUnique NotificationJob.id (reapable idleSeconds batchSize now skip D.jobs) :=
    reapable_unique hD.unique
  have hsum := hD.unique.sum_updatePicked_le hpicked (fun job hjob => (mem_reapable hjob).1)
    (f := NotificationJob.reap now) (c := NotificationJob.reapCost settings) (d := 1)
    fun job hjob => Hefest.reap_cost (mem_reapable hjob).2
  rw [Nat.one_mul] at hsum
  exact hsum

theorem Drain.Ok.claim_cost (hD : D.Ok settings w outcomes) {now : Time} {batchSize : ℕ}
    {skip : UUID → Bool} {rows : List ClaimedJob} {jobs : List NotificationJob}
    (hbatch : claimBatch w batchSize now skip D.jobs = (jobs, rows)) :
    claimCosts settings jobs + 10 * rows.length ≤ claimCosts settings D.jobs := by
  obtain ⟨rfl, rfl⟩ := Prod.mk.inj hbatch
  have hpicked : Table.KeyUnique NotificationJob.id (claimable batchSize now skip D.jobs) :=
    claimable_unique hD.unique
  have hsum := hD.unique.sum_updatePicked_le hpicked (fun job hjob => (mem_claimable hjob).1)
    (f := NotificationJob.claim w now) (c := NotificationJob.claimCost settings) (d := 10)
    fun job hjob => Hefest.claim_cost (mem_claimable hjob).2
  rw [List.length_map]
  exact hsum

theorem setTask_costs (hD : D.Ok settings w outcomes)
    (found : D.worker.task? task.jobId = some task) (s : TaskState) :
    taskCosts (D.worker.setTask task.jobId s).tasks + task.state.cost =
      taskCosts D.worker.tasks + s.cost :=
  hD.tasks.sum_update (Table.lookup_mem found) fun task => task.state.cost

theorem endTask_costs (hD : D.Ok settings w outcomes)
    (found : D.worker.task? task.jobId = some task) :
    taskCosts (D.worker.endTask task.jobId).tasks + task.state.cost = taskCosts D.worker.tasks :=
  hD.tasks.sum_delete (Table.lookup_mem found) fun task => task.state.cost

theorem taskCosts_queued (rows : List ClaimedJob) :
    taskCosts (rows.map fun job => ⟨job, .queued⟩) = 7 * rows.length := by
  induction rows with
  | nil => rfl
  | cons job rows ih =>
    simp only [taskCosts, List.map_cons, List.sum_cons, List.length_cons] at ih ⊢
    rw [ih]
    simp only [TaskState.cost]
    omega

theorem Drain.Ok.processing (hD : D.Ok settings w outcomes) (htask : task ∈ D.worker.tasks) :
    ∃ claimed, D.worker.phase = .processing claimed := by
  apply Worker.isProcessing_iff.mp
  by_contra hidle
  rw [hD.idle (by simpa using hidle)] at htask
  cases htask

/-- Every step of the drain itself takes from the bound. -/
theorem Drain.Ok.step_cost (hD : D.Ok settings w outcomes)
    (hreap : 0 < settings.workerReapBatchSize) (h : DrainStep settings w outcomes D a os D') :
    D'.cost settings + (if a.own then 1 else 0) ≤ D.cost settings := by
  have hone : (if a.own then 1 else 0) ≤ 1 := by split_ifs <;> omega
  cases h with
  | @reap now skip phase =>
    have hsum := hD.reap_cost now skip settings.workerReaperIdleSeconds settings.workerReapBatchSize
    generalize reapStale settings.workerReaperIdleSeconds settings.workerReapBatchSize now skip
      D.jobs = result at hsum ⊢
    have hle : claimCosts settings result.1 ≤ reapCosts settings result.1 :=
      claimCosts_le_reapCosts result.1
    by_cases hshort : result.2 < settings.workerReapBatchSize ∨ D.worker.halted = true
    · simp only [Drain.cost, phase, if_pos hshort]
      omega
    · simp only [Drain.cost, phase, if_neg hshort]
      omega
  | check phase =>
    simp only [Drain.cost, phase, hD.active, Bool.false_eq_true, if_false]
    omega
  | @claim now rows jobs phase batch =>
    have hsum := hD.claim_cost batch
    by_cases hempty : rows = []
    · simp only [Drain.cost, phase, if_pos hempty]
      omega
    · have hpos : 0 < rows.length := List.length_pos_iff.mpr hempty
      simp only [Drain.cost, phase, if_neg hempty, taskCosts_queued]
      omega
  | @join claimed phase done =>
    by_cases hshort : claimed < settings.workerClaimBatchSize
    · simp only [Drain.cost, phase, if_pos hshort]
      omega
    · simp only [Drain.cost, phase, if_neg hshort]
      omega
  | @renewHeartbeat now =>
    simp only [Drain.cost, renew_claimCosts, renew_reapCosts]
    exact Nat.le_refl _
  | @advance _ task s other batch found _ move =>
    obtain ⟨claimed, hphase⟩ := hD.processing (Table.lookup_mem found)
    have hstate := move.cost
    have htasks := setTask_costs hD found s
    have hphase' : (D.worker.setTask task.jobId s).phase = .processing claimed := hphase
    simp only [Drain.cost, hphase, hphase']
    omega
  | @finalize now task f k found state =>
    obtain ⟨claimed, hphase⟩ := hD.processing (Table.lookup_mem found)
    have hjobs := hD.run_cost (Table.lookup_mem found) state now
    have htasks := endTask_costs hD found
    have hstate := hD.towards task (Table.lookup_mem found)
    rw [state] at hstate htasks
    have hphase' : (D.worker.endTask task.jobId).phase = .processing claimed := hphase
    have hlast := hstate.2.2
    simp only [Drain.cost, hphase, hphase', TaskState.cost] at htasks ⊢
    omega
  | @finalizeAgain now committed task f k found state left =>
    obtain ⟨claimed, hphase⟩ := hD.processing (Table.lookup_mem found)
    have hjobs : claimCosts settings
        (if committed then (f.run task.jobId w now D.jobs).1 else D.jobs) ≤
          claimCosts settings D.jobs := by
      cases committed with
      | false => exact Nat.le_refl _
      | true => exact hD.run_cost (Table.lookup_mem found) state now
    have htasks := setTask_costs hD found (.finalizing f (k + 1))
    rw [state] at htasks
    have hphase' : (D.worker.setTask task.jobId (.finalizing f (k + 1))).phase =
        .processing claimed := hphase
    simp only [Drain.cost, hphase, hphase', TaskState.cost] at htasks ⊢
    omega

end Measure

section Progress
variable {settings : Settings} {w : WorkerId} {outcomes : Outcomes} {D : Drain} {task : Task}
  {a : DrainAction}

theorem drainStep_isSome {x : Worker} {jobs : List NotificationJob} {es : List Obs}
    (h : workerStep settings w D.worker D.jobs (a.action outcomes D.worker) = some (x, jobs, es))
    (hphase : x.phase ≠ .unwinding) : (drainStep settings w outcomes D a).isSome = true := by
  unfold drainStep
  simp only [h, if_neg hphase, Option.isSome_some]

theorem task_isSome {ta : TaskAction} {x : Worker} {jobs : List NotificationJob} {es : List Obs}
    (found : D.worker.task? task.jobId = some task)
    (haction : a.action outcomes D.worker = .task task.jobId ta)
    (h : taskStep settings w D.worker D.jobs task ta = some (x, jobs, es))
    (hphase : x.phase ≠ .unwinding) : (drainStep settings w outcomes D a).isSome = true := by
  apply drainStep_isSome _ hphase
  · exact jobs
  · exact es
  · rw [haction]
    simp only [workerStep, found]
    exact h

theorem Drain.Ok.task_progress (hD : D.Ok settings w outcomes) (htask : task ∈ D.worker.tasks)
    (hstate : task.state ≠ .queued) :
    ∃ a : DrainAction, a.own = true ∧ (drainStep settings w outcomes D a).isSome = true := by
  have found : D.worker.task? task.jobId = some task := hD.tasks.lookup_self htask
  have hbatch : D.worker.isProcessing = true := Worker.isProcessing_iff.mpr (hD.processing htask)
  cases hs : task.state with
  | queued => exact absurd hs hstate
  | loading =>
    refine ⟨.load task.jobId false, rfl, task_isSome found rfl (if_pos ⟨hbatch, hs⟩) hD.running.1⟩
  | sending =>
    have haction : (DrainAction.send task.jobId).action outcomes D.worker =
        .task task.jobId (.send (outcomes task.jobId task.job.attempts).failure?) := by
      simp only [DrainAction.action, failure?_eq found]
    cases hfailure : (outcomes task.jobId task.job.attempts).failure? with
    | none =>
      rw [hfailure] at haction
      exact ⟨.send task.jobId, rfl, task_isSome found haction (if_pos ⟨hbatch, hs⟩) hD.running.1⟩
    | some failure =>
      rw [hfailure] at haction
      refine ⟨.send task.jobId, rfl, task_isSome found haction (if_pos ⟨hbatch, hs⟩) ?_⟩
      have hraised : (failTask settings w D.worker task.job failure).1 =
          D.worker.setTask task.job.id
            (.finalizing ((outcomes task.jobId task.job.attempts).finalizer settings task.job) 1) :=
        failTask_some hfailure
      simp only [hraised]
      exact hD.running.1
  | pushing =>
    exact ⟨.push task.jobId, rfl, task_isSome found rfl (if_pos ⟨hbatch, hs⟩) hD.running.1⟩
  | finalizing f k =>
    have hstep : taskStep settings w D.worker D.jobs task (.finalize 0 true .returned) =
        some (D.worker.endTask task.jobId, runFinalizer f task.job w 0 D.jobs) := by
      simp only [taskStep, hs, if_true]
    exact ⟨.finalize task.jobId 0, rfl, task_isSome found rfl hstep hD.running.1⟩
  | cancelled inFlight =>
    have htowards := hD.towards task htask
    rw [hs] at htowards
    exact htowards.elim

/-- With a slot at least, a drain that has not returned can take a step of its own. -/
theorem Drain.Ok.progress (hD : D.Ok settings w outcomes)
    (hsend : 0 < settings.workerSendConcurrency) (hreturned : D.returned = false) :
    ∃ a : DrainAction, a.own = true ∧ (drainStep settings w outcomes D a).isSome = true := by
  cases hphase : D.worker.phase with
  | waiting => simp [Drain.returned, hphase] at hreturned
  | unwinding => exact absurd hphase hD.running.1
  | exited => exact absurd hphase hD.running.2
  | reaping =>
    refine ⟨.reap 0 fun _ => false, rfl, drainStep_isSome (if_pos hphase) ?_⟩
    split_ifs <;> intro h <;> cases h
  | checking =>
    refine ⟨.check, rfl, drainStep_isSome (if_pos hphase) ?_⟩
    split_ifs <;> intro h <;> cases h
  | claiming =>
    refine ⟨.claim 0, rfl, drainStep_isSome (if_pos hphase) ?_⟩
    split_ifs <;> intro h <;> cases h
  | processing claimed =>
    by_cases hdone : D.worker.tasks = []
    · have hstep : workerStep settings w D.worker D.jobs .join =
          some ({ D.worker with
            phase := if claimed < settings.workerClaimBatchSize then .waiting else .checking },
            D.jobs, []) := by
        simp only [workerStep, hphase, if_pos hdone]
      refine ⟨.join, rfl, drainStep_isSome hstep ?_⟩
      split_ifs <;> intro h <;> cases h
    · by_cases hstarted : ∃ task ∈ D.worker.tasks, task.state ≠ .queued
      · obtain ⟨task, htask, hstate⟩ := hstarted
        exact hD.task_progress htask hstate
      · have hqueued : ∀ task ∈ D.worker.tasks, task.state = .queued := by
          intro task htask
          by_contra hstate
          exact hstarted ⟨task, htask, hstate⟩
        obtain ⟨task, htask⟩ := List.exists_mem_of_ne_nil _ hdone
        have found : D.worker.task? task.jobId = some task := hD.tasks.lookup_self htask
        have hfree : D.worker.tasks.countP (fun t => t.state.holdsSlot) = 0 := by
          rw [List.countP_eq_zero]
          intro other hother
          rw [hqueued other hother]
          decide
        have hslot : D.worker.tasks.countP (fun t => t.state.holdsSlot) <
            settings.workerSendConcurrency := by omega
        have hbatch : D.worker.isProcessing = true := Worker.isProcessing_iff.mpr ⟨_, hphase⟩
        exact ⟨.start task.jobId, rfl, task_isSome found rfl
          (if_pos ⟨hbatch, hqueued task htask, hslot⟩) hD.running.1⟩

end Progress

end Hefest
