import Hefest.Consumer

set_option autoImplicit false

/-!
# The migration that made the outbox its own delivery record

Before it a job was `published` once the relay had passed it on, and `notification_log` said under
its key what had become of the delivery. The migration keeps the jobs and drops the log.
-/
namespace Hefest
open Transition

inductive LegacyJobStatus
  | pending | published
deriving DecidableEq

structure LegacyJob where
  id : UUID
  eventId : UUID
  eventType : EventType
  payload : Payload
  status : LegacyJobStatus
  idempotencyKey : IdempotencyKey
  createdAt : Time
  updatedAt : Time
deriving DecidableEq

inductive DeliveryStatus
  | processing | completed | failed
deriving DecidableEq

structure NotificationLog where
  id : UUID
  idempotencyKey : IdempotencyKey
  status : DeliveryStatus
  attempts : ℕ
  createdAt : Time
  updatedAt : Time
deriving DecidableEq

structure LegacyOutbox where
  notificationJobs : List LegacyJob
  notificationLog : List NotificationLog

/-- `UPDATE notification_jobs SET status = 'pending' WHERE status = 'published'`. -/
def LegacyJobStatus.rewrite : LegacyJobStatus → JobStatus
  | .pending => .pending
  | .published => .pending

/-- The row with the new columns at their defaults; `statementTime` is the default of
    `next_attempt_at` when the table is altered. -/
def LegacyJob.migrated (statementTime : Time) (job : LegacyJob) : NotificationJob where
  id := job.id
  eventId := some job.eventId
  eventType := job.eventType
  payload := job.payload
  status := job.status.rewrite
  idempotencyKey := job.idempotencyKey
  attempts := 0
  lockedBy := none
  heartbeatAt := none
  nextAttemptAt := statementTime
  lastError := none
  createdAt := job.createdAt
  updatedAt := job.updatedAt

/-- `DROP TABLE notification_log` leaves the jobs. -/
def LegacyOutbox.migrate (statementTime : Time) (old : LegacyOutbox) : List NotificationJob :=
  old.notificationJobs.map (LegacyJob.migrated statementTime)

def LegacyOutbox.Delivered (old : LegacyOutbox) (job : LegacyJob) : Prop :=
  ∃ entry ∈ old.notificationLog,
    entry.idempotencyKey = job.idempotencyKey ∧ entry.status = .completed

/-- No worker ever claims a delivered job again, and every claim made after the migration with room
    in its batch takes each job that was pending and is not locked. -/
structure ResendsNothing (statementTime : Time) (old : LegacyOutbox) : Prop where
  delivered : ∀ (settings : Settings) (tr : List Obs) (W : World),
    Run (World.step settings) { jobs := old.migrate statementTime } tr W →
    ∀ job ∈ old.notificationJobs, old.Delivered job → ∀ w n, (job.id, .claimed w n) ∉ tr
  pending : ∀ job ∈ old.notificationJobs, job.status = .pending →
    ∀ (w : WorkerId) (batchSize : ℕ) (now : Time) (skip : UUID → Bool), statementTime ≤ now →
      skip job.id = false →
      (claimBatch w batchSize now skip (old.migrate statementTime)).2.length < batchSize →
      ∃ row ∈ (claimBatch w batchSize now skip (old.migrate statementTime)).2, row.id = job.id

section Migrated
variable {statementTime now : Time} {old : LegacyOutbox} {job : LegacyJob}

theorem migrated_mem (h : job ∈ old.notificationJobs) :
    job.migrated statementTime ∈ old.migrate statementTime := List.mem_map_of_mem h

/-- Whatever it was before, every row is pending and due from the migration on. -/
theorem migrated_due (job : LegacyJob) (h : statementTime ≤ now) :
    (job.migrated statementTime).due now = true := by
  have hstatus : (job.migrated statementTime).status = .pending := by
    change job.status.rewrite = .pending
    cases job.status <;> rfl
  exact decide_eq_true ⟨hstatus, h⟩

end Migrated

section Started
variable {t : List NotificationJob} {row : NotificationJob} {now : Time}

/-- From its wake-up to its first claim, while all rows but `jobId` are locked by others. -/
def firstClaim (w : WorkerId) (now : Time) (jobId : UUID) : List Action :=
  [.wake, .reap now (fun _ => true), .check, .claim now (fun other => other ≠ jobId)].map
    (.worker w)

theorem reapStale_locked (idleSeconds : ℤ) (batchSize : ℕ) (now : Time) (t : List NotificationJob) :
    reapable idleSeconds batchSize now (fun _ => true) t = [] ∧
      reapStale idleSeconds batchSize now (fun _ => true) t = (t, 0) := by
  have hrows : reapable idleSeconds batchSize now (fun _ => true) t = [] := by
    simp [reapable]
  refine ⟨hrows, ?_⟩
  unfold reapStale
  rw [hrows]
  simp [Table.updateWhere]

/-- Any due row can be in the first claim of a worker. -/
theorem claimed_first (w : WorkerId) (hrow : row ∈ t) (hdue : row.due now = true) :
    ∃ (tr : List Obs) (W : World), Run (World.step {}) { jobs := t } tr W ∧
      ∃ n, (row.id, .claimed w n) ∈ tr := by
  obtain ⟨hnone, hsame⟩ := reapStale_locked 300 1000 now t
  have hfirst : ∃ claimed ∈ (claimBatch w 50 now (fun other => other ≠ row.id) t).2,
      claimed.id = row.id := claimBatch_alone (by decide) hrow hdue
  obtain ⟨claimed, hclaimed, hid⟩ := hfirst
  have hrun : ((execute (World.step {}) { jobs := t } (firstClaim w now row.id)).map Prod.snd) =
      some ((claimBatch w 50 now (fun other => other ≠ row.id) t).2.map fun job =>
        (job.id, .claimed w job.attempts)) := by
    simp [firstClaim, execute, World.step, workerStep, Worker.halted, hnone, hsame]
  obtain ⟨W, tr, h, heq⟩ := execute_map hrun
  refine ⟨tr, W, h, claimed.attempts, ?_⟩
  subst heq
  exact List.mem_map.mpr ⟨claimed, hclaimed, by rw [hid]⟩

end Started

/-- The migration re-sends nothing exactly if the log records no delivery of any of its jobs. -/
theorem migration_resends_nothing_iff (statementTime : Time) (old : LegacyOutbox) :
    ResendsNothing statementTime old ↔ ∀ job ∈ old.notificationJobs, ¬ old.Delivered job := by
  constructor
  · intro h job hjob hdelivered
    obtain ⟨tr, W, hrun, n, hclaimed⟩ := claimed_first "worker" (migrated_mem hjob)
      (migrated_due job (le_refl statementTime))
    exact h.delivered {} tr W hrun job hjob hdelivered "worker" n hclaimed
  · intro h
    refine ⟨?_, ?_⟩
    · intro settings tr W _ job hjob hdelivered
      exact absurd hdelivered (h job hjob)
    · intro job hjob _ w batchSize now skip hnow hskip hroom
      exact claimBatch_takes (migrated_mem hjob) (migrated_due job hnow) hskip hroom

def deliveredOutbox : LegacyOutbox where
  notificationJobs :=
    [{ id := 500
       eventId := 100
       eventType := .registrationConfirmed
       payload := { registrationId := some 300, eventId := some 100, studentId := some 2 }
       status := .published
       idempotencyKey := ⟨300, .registrationConfirmed⟩
       createdAt := 0
       updatedAt := seconds 1 }]
  notificationLog :=
    [{ id := 700
       idempotencyKey := ⟨300, .registrationConfirmed⟩
       status := .completed
       attempts := 1
       createdAt := seconds 2
       updatedAt := seconds 3 }]

theorem delivered_job_claimed_again : ¬ ResendsNothing (days 1) deliveredOutbox := by
  intro h
  have hrun : ((execute (World.step {}) { jobs := deliveredOutbox.migrate (days 1) }
      (firstClaim "worker" (days 1) 500)).map Prod.snd) = some [(500, .claimed "worker" 1)] := by
    decide +kernel
  obtain ⟨W, tr, hsteps, htrace⟩ := execute_map hrun
  obtain ⟨job, hjob⟩ : ∃ job, job ∈ deliveredOutbox.notificationJobs := ⟨_, List.mem_cons_self⟩
  have hid : job.id = 500 := by
    rw [List.mem_singleton.mp hjob]
  have hdelivered : deliveredOutbox.Delivered job := by
    rw [List.mem_singleton.mp hjob]
    exact ⟨_, List.mem_cons_self, rfl, rfl⟩
  apply h.delivered {} tr W hsteps job hjob hdelivered "worker" 1
  rw [hid]
  change (500, _) ∈ (W, tr).2
  rw [htrace]
  exact List.mem_singleton_self _

end Hefest
