import Hefest.Statements

set_option autoImplicit false

/-!
# Claims, the reaper and the fenced finalizers

The SQL statements of `claim.py` and of the heartbeat, on the table of notification jobs. `skip`
are the rows that `SKIP LOCKED` passes over; `now` is the `statement_timestamp()`.
-/
namespace Hefest

structure ClaimedJob where
  id : UUID
  eventType : EventType
  payload : Payload
  idempotencyKey : IdempotencyKey
  attempts : ℕ
deriving DecidableEq

namespace NotificationJob

def due (now : Time) (job : NotificationJob) : Bool :=
  decide (job.status = .pending ∧ job.nextAttemptAt ≤ now)

/-- `ORDER BY next_attempt_at, id`. -/
def dueFirst (i j : NotificationJob) : Prop :=
  i.nextAttemptAt < j.nextAttemptAt ∨ (i.nextAttemptAt = j.nextAttemptAt ∧ i.id ≤ j.id)

instance : DecidableRel dueFirst := fun _ _ => inferInstanceAs (Decidable (_ ∨ _))

def claim (workerId : WorkerId) (now : Time) (job : NotificationJob) : NotificationJob :=
  { job with
    status := .processing
    lockedBy := some workerId
    heartbeatAt := some now
    attempts := job.attempts + 1
    updatedAt := now }

/-- `RETURNING id, event_type, payload, idempotency_key, attempts`. -/
def claimed (job : NotificationJob) : ClaimedJob :=
  ⟨job.id, job.eventType, job.payload, job.idempotencyKey, job.attempts⟩

def stale (idleSeconds : ℤ) (now : Time) (job : NotificationJob) : Bool :=
  match job.heartbeatAt with
  | none => false
  | some at_ => decide (job.status = .processing ∧ at_ < now - seconds idleSeconds)

def reap (now : Time) (job : NotificationJob) : NotificationJob :=
  { job with status := .pending, lockedBy := none, updatedAt := now }

/-- The fence of every finalizer. -/
def fenced (jobId : UUID) (workerId : WorkerId) (job : NotificationJob) : Bool :=
  decide (job.id = jobId ∧ job.lockedBy = some workerId ∧ job.status = .processing)

end NotificationJob

/-- The rows that `claim_batch` locks. -/
def claimable (batchSize : ℕ) (now : Time) (skip : UUID → Bool) (t : List NotificationJob) :
    List NotificationJob :=
  (Table.orderBy NotificationJob.dueFirst (t.filter fun j => j.due now && !skip j.id)).take batchSize

def claimBatch (workerId : WorkerId) (batchSize : ℕ) (now : Time) (skip : UUID → Bool)
    (t : List NotificationJob) : List NotificationJob × List ClaimedJob :=
  let rows := claimable batchSize now skip t
  (Table.updateWhere (fun j => j.id ∈ rows.map NotificationJob.id)
      (NotificationJob.claim workerId now) t,
    rows.map fun j => (j.claim workerId now).claimed)

def reapable (idleSeconds : ℤ) (batchSize : ℕ) (now : Time) (skip : UUID → Bool)
    (t : List NotificationJob) : List NotificationJob :=
  (t.filter fun j => j.stale idleSeconds now && !skip j.id).take batchSize

def reapStale (idleSeconds : ℤ) (batchSize : ℕ) (now : Time) (skip : UUID → Bool)
    (t : List NotificationJob) : List NotificationJob × ℕ :=
  let rows := reapable idleSeconds batchSize now skip t
  (Table.updateWhere (fun j => j.id ∈ rows.map NotificationJob.id) (NotificationJob.reap now) t,
    rows.length)

def renewHeartbeat (workerId : WorkerId) (now : Time) (t : List NotificationJob) :
    List NotificationJob :=
  Table.updateWhere (fun j => decide (j.lockedBy = some workerId ∧ j.status = .processing))
    (fun j => { j with heartbeatAt := some now, updatedAt := now }) t

inductive Finalizer
  | markCompleted
  | markRetry (lastError : String) (delaySeconds : ℤ)
  | markFailed (lastError : String)
deriving DecidableEq

def Finalizer.set (now : Time) : Finalizer → NotificationJob → NotificationJob
  | .markCompleted, job => { job with status := .completed, updatedAt := now }
  | .markRetry lastError delaySeconds, job =>
    { job with
      status := .pending
      lockedBy := none
      lastError := some lastError
      nextAttemptAt := now + seconds delaySeconds
      updatedAt := now }
  | .markFailed lastError, job =>
    { job with status := .failed, lastError := some lastError, updatedAt := now }

/-- One fenced `UPDATE`; the result is `affected == 1`. -/
def Finalizer.run (f : Finalizer) (jobId : UUID) (workerId : WorkerId) (now : Time)
    (t : List NotificationJob) : List NotificationJob × Bool :=
  (Table.updateWhere (NotificationJob.fenced jobId workerId) (f.set now) t,
    t.countP (NotificationJob.fenced jobId workerId) == 1)

def backoffDelay (attempts : ℕ) (backoffBase : ℤ) : ℤ := backoffBase * 4 ^ (attempts - 1)

theorem keyUnique_insertJobs {t jobs : List NotificationJob}
    (ht : Table.KeyUnique NotificationJob.id t) (h : jobsViolation t jobs = none) :
    Table.KeyUnique NotificationJob.id (t ++ jobs) := by
  induction jobs generalizing t with
  | nil => simpa using ht
  | cons job jobs ih =>
    rw [jobsViolation] at h
    split_ifs at h with hkey hid
    have hone : Table.KeyUnique NotificationJob.id (t ++ [job]) := by
      apply Table.keyUnique_insert ht
      intro j hj heq
      exact hid ⟨j, hj, heq⟩
    simpa using ih hone h

section Rows
variable {t : List NotificationJob} {id : UUID} {job : NotificationJob}

theorem mem_claimable {batchSize : ℕ} {now : Time} {skip : UUID → Bool}
    (h : job ∈ claimable batchSize now skip t) : job ∈ t ∧ job.status = .pending := by
  have hmem := (Table.mem_orderBy _).mp (List.mem_of_mem_take h)
  rw [List.mem_filter, Bool.and_eq_true] at hmem
  exact ⟨hmem.1, (of_decide_eq_true hmem.2.1).1⟩

/-- A claim that leaves room in its batch takes every due row that nobody has locked. -/
theorem claimBatch_takes {t : List NotificationJob} {v : WorkerId} {batchSize : ℕ} {now : Time}
    {skip : UUID → Bool} (hjob : job ∈ t) (hdue : job.due now = true) (hskip : skip job.id = false)
    (hshort : (claimBatch v batchSize now skip t).2.length < batchSize) :
    ∃ row ∈ (claimBatch v batchSize now skip t).2, row.id = job.id := by
  have hlength : (claimable batchSize now skip t).length < batchSize := by
    simpa [claimBatch] using hshort
  have hmem : job ∈ claimable batchSize now skip t := by
    unfold claimable at hlength ⊢
    rw [List.length_take] at hlength
    rw [List.take_of_length_le (by omega), Table.mem_orderBy, List.mem_filter]
    exact ⟨hjob, by simp [hdue, hskip]⟩
  exact ⟨(job.claim v now).claimed, List.mem_map.mpr ⟨job, hmem, rfl⟩, rfl⟩

theorem claimBatch_alone {v : WorkerId} {batchSize : ℕ} {now : Time} (hsize : 0 < batchSize)
    (hjob : job ∈ t) (hdue : job.due now = true) :
    ∃ row ∈ (claimBatch v batchSize now (fun other => other ≠ job.id) t).2, row.id = job.id := by
  have hmem : job ∈ Table.orderBy NotificationJob.dueFirst
      (t.filter fun j => j.due now && !decide (j.id ≠ job.id)) :=
    (Table.mem_orderBy _).mpr (List.mem_filter.mpr ⟨hjob, by simp [hdue]⟩)
  have hpos : 0 < (claimable batchSize now (fun other => other ≠ job.id) t).length := by
    unfold claimable
    rw [List.length_take]
    exact lt_min hsize (List.length_pos_of_mem hmem)
  obtain ⟨first, hfirst⟩ := List.exists_mem_of_length_pos hpos
  have hsame : first.id = job.id := by
    have hkept := (Table.mem_orderBy _).mp (List.mem_of_mem_take hfirst)
    simpa using (Bool.and_eq_true_iff.mp (List.mem_filter.mp hkept).2).2
  exact ⟨(first.claim v now).claimed, List.mem_map.mpr ⟨first, hfirst, rfl⟩, hsame⟩

theorem stale_of_mem_reapable {idleSeconds : ℤ} {batchSize : ℕ} {now : Time} {skip : UUID → Bool}
    (h : job ∈ reapable idleSeconds batchSize now skip t) : job.stale idleSeconds now = true := by
  have hmem := List.mem_of_mem_take h
  rw [List.mem_filter, Bool.and_eq_true] at hmem
  exact hmem.2.1

theorem stale_iff {idleSeconds : ℤ} {now : Time} :
    job.stale idleSeconds now = true ↔
      job.status = .processing ∧ ∃ at_, job.heartbeatAt = some at_ ∧ at_ < now - seconds idleSeconds := by
  unfold NotificationJob.stale
  cases job.heartbeatAt with
  | none => simp
  | some at_ => simp

theorem mem_reapable {idleSeconds : ℤ} {batchSize : ℕ} {now : Time} {skip : UUID → Bool}
    (h : job ∈ reapable idleSeconds batchSize now skip t) : job ∈ t ∧ job.status = .processing := by
  have hmem := List.mem_of_mem_take h
  rw [List.mem_filter] at hmem
  exact ⟨hmem.1, (stale_iff.mp (stale_of_mem_reapable h)).1⟩

theorem claimable_unique {batchSize : ℕ} {now : Time} {skip : UUID → Bool}
    (h : Table.KeyUnique NotificationJob.id t) :
    Table.KeyUnique NotificationJob.id (claimable batchSize now skip t) := by
  have hfilter : Table.KeyUnique NotificationJob.id (t.filter fun j => j.due now && !skip j.id) :=
    h.filter _
  have hsorted : Table.KeyUnique NotificationJob.id
      (Table.orderBy NotificationJob.dueFirst (t.filter fun j => j.due now && !skip j.id)) :=
    ((Table.orderBy_perm _ _).map _).nodup_iff.mpr hfilter
  exact hsorted.sublist ((List.take_sublist _ _).map _)

theorem reapable_unique {idleSeconds : ℤ} {batchSize : ℕ} {now : Time} {skip : UUID → Bool}
    (h : Table.KeyUnique NotificationJob.id t) :
    Table.KeyUnique NotificationJob.id (reapable idleSeconds batchSize now skip t) :=
  h.sublist (((List.take_sublist _ _).trans List.filter_sublist).map _)

theorem lookup_picked (h : Table.KeyUnique NotificationJob.id t) {rows : List NotificationJob}
    (hrows : ∀ j ∈ rows, j ∈ t) (hunique : Table.KeyUnique NotificationJob.id rows)
    (hjob : Table.lookup NotificationJob.id id t = some job) :
    Table.lookup NotificationJob.id id rows =
      if id ∈ rows.map NotificationJob.id then some job else none := by
  split_ifs with hmem
  · obtain ⟨j, hj, hid⟩ := List.mem_map.mp hmem
    have hsame : j = job := h.eq_of_key (hrows j hj) (Table.lookup_mem hjob)
      (hid.trans (Table.lookup_key hjob).symm)
    subst hsame
    exact hunique.lookup_iff.mpr ⟨hj, hid⟩
  · rw [Table.lookup_eq_none]
    intro j hj hid
    exact hmem (List.mem_map.mpr ⟨j, hj, hid⟩)

theorem lookup_updatePicked (h : Table.KeyUnique NotificationJob.id t) {rows : List NotificationJob}
    (hrows : ∀ j ∈ rows, j ∈ t) (hunique : Table.KeyUnique NotificationJob.id rows)
    {change : NotificationJob → NotificationJob} (hid : ∀ j, (change j).id = j.id) :
    Table.lookup NotificationJob.id id
        (Table.updateWhere (fun j => j.id ∈ rows.map NotificationJob.id) change t) =
      match Table.lookup NotificationJob.id id rows with
      | some job => some (change job)
      | none => Table.lookup NotificationJob.id id t := by
  rw [Table.lookup_updateWhere hid]
  cases hjob : Table.lookup NotificationJob.id id t with
  | none =>
    have hnone : Table.lookup NotificationJob.id id rows = none := by
      rw [Table.lookup_eq_none] at hjob ⊢
      intro j hj
      exact hjob j (hrows j hj)
    rw [hnone]
    rfl
  | some job =>
    rw [lookup_picked h hrows hunique hjob, Option.map_some, Table.lookup_key hjob]
    by_cases hmem : id ∈ rows.map NotificationJob.id
    · simp only [hmem, decide_true, if_true]
    · simp only [hmem, decide_false, if_false]
      rfl

theorem Finalizer.set_id (f : Finalizer) (now : Time) (job : NotificationJob) :
    (f.set now job).id = job.id := by
  cases f <;> rfl

theorem finalizer_refused {f : Finalizer} {workerId : WorkerId} {now : Time}
    (h : ∀ j ∈ t, j.fenced id workerId = false) : (f.run id workerId now t).2 = false := by
  have hzero : t.countP (NotificationJob.fenced id workerId) = 0 := by
    rw [List.countP_eq_zero]
    intro j hj hfenced
    rw [h j hj] at hfenced
    cases hfenced
  unfold Finalizer.run
  rw [hzero]
  rfl

theorem fenced_other {workerId : WorkerId} (h : job.id ≠ id) : job.fenced id workerId = false := by
  simp [NotificationJob.fenced, h]

theorem finalizer_absent {f : Finalizer} {workerId : WorkerId} {now : Time}
    (h : Table.lookup NotificationJob.id id t = none) : (f.run id workerId now t).2 = false := by
  apply finalizer_refused
  intro j hj
  exact fenced_other (Table.lookup_eq_none.mp h j hj)

theorem finalizer_held {f : Finalizer} {workerId : WorkerId} {now : Time}
    (h : Table.KeyUnique NotificationJob.id t)
    (hjob : Table.lookup NotificationJob.id id t = some job) :
    (f.run id workerId now t).2 = job.fenced id workerId := by
  have hmem := Table.lookup_mem hjob
  cases hf : job.fenced id workerId with
  | true =>
    have hcount := h.countP_le_one (k := id) (NotificationJob.fenced id workerId)
      (fun r _ hr => (of_decide_eq_true hr).1)
    have hpos : 0 < t.countP (NotificationJob.fenced id workerId) :=
      List.countP_pos_iff.mpr ⟨job, hmem, hf⟩
    unfold Finalizer.run
    rw [beq_iff_eq]
    omega
  | false =>
    apply finalizer_refused
    intro r hr
    by_cases hid : r.id = id
    · have hsame : r = job := h.eq_of_key hr hmem (hid.trans (Table.lookup_key hjob).symm)
      rw [hsame, hf]
    · exact fenced_other hid

theorem finalizer_lookup (t : List NotificationJob) (id : UUID) (f : Finalizer) (jobId : UUID)
    (workerId : WorkerId) (now : Time) :
    Table.lookup NotificationJob.id id (f.run jobId workerId now t).1 =
      (Table.lookup NotificationJob.id id t).map
        fun j => if j.fenced jobId workerId then f.set now j else j :=
  Table.lookup_updateWhere (f.set_id now) id

end Rows
end Hefest
