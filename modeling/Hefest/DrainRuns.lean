import Hefest.DrainSteps

set_option autoImplicit false

namespace Hefest
open Transition

/-- The last claim of the drain has taken every job that was pending and due. -/
def ClaimedAllDue (settings : Settings) (w : WorkerId) (outcomes : Outcomes)
    (jobs : List NotificationJob) (as : List DrainAction) (tr : List (UUID × DrainEvent)) : Prop :=
  ∃ before now rest D tr', as = before ++ .claim now :: rest ∧ (∀ a ∈ rest, a.claims = false) ∧
    execute (drainStep settings w outcomes) (.start jobs) before = some (D, tr') ∧
    ∀ job ∈ D.jobs, job.due now = true → (job.id, .claimed (job.attempts + 1)) ∈ tr

def Drain.closing (settings : Settings) (D : Drain) : Bool :=
  match D.worker.phase with
  | .processing claimed => decide (claimed < settings.workerClaimBatchSize)
  | .waiting => true
  | _ => false

section LastClaim
variable {settings : Settings} {w : WorkerId} {outcomes : Outcomes} {D D' : Drain}
  {jobs : List NotificationJob} {a : DrainAction} {as : List DrainAction}
  {tr os : List (UUID × DrainEvent)}

theorem ClaimedAllDue.extend (h : ClaimedAllDue settings w outcomes jobs as tr)
    (ha : a.claims = false) : ClaimedAllDue settings w outcomes jobs (as ++ [a]) (tr ++ os) := by
  obtain ⟨before, now, rest, D, tr', rfl, hrest, hbefore, hdue⟩ := h
  refine ⟨before, now, rest ++ [a], D, tr', by simp, ?_, hbefore, ?_⟩
  · intro b hb
    rcases List.mem_append.mp hb with hb | hb
    · exact hrest b hb
    · rw [List.mem_singleton.mp hb]
      exact ha
  · intro job hjob hj
    exact List.mem_append_left _ (hdue job hjob hj)

/-- A short batch holds the claim of every due row. -/
theorem Drain.Ok.short_claim (hD : D.Ok settings w outcomes) {now : Time} {batchSize : ℕ}
    {rows : List ClaimedJob} {jobs' : List NotificationJob}
    (hbatch : claimBatch w batchSize now (fun _ => false) D.jobs = (jobs', rows))
    (hshort : rows.length < batchSize) {job : NotificationJob} (hjob : job ∈ D.jobs)
    (hdue : job.due now = true) :
    (job.id, DrainEvent.claimed (job.attempts + 1)) ∈
      rows.map fun row => (row.id, DrainEvent.claimed row.attempts) := by
  obtain ⟨rfl, rfl⟩ := Prod.mk.inj hbatch
  have hshort' : (claimBatch w batchSize now (fun _ => false) D.jobs).2.length < batchSize := hshort
  obtain ⟨row, hrow, hid⟩ := claimBatch_takes hjob hdue rfl hshort'
  obtain ⟨old, hold, rfl⟩ := List.mem_map.mp hrow
  have hsame : old = job := hD.unique.eq_of_key (mem_claimable hold).1 hjob hid
  rw [← hsame]
  exact List.mem_map.mpr ⟨_, hrow, rfl⟩

theorem DrainStep.closing (h : DrainStep settings w outcomes D a os D')
    (hactive : D.worker.halted = false) (hclaim : a.claims = false)
    (hclosing : D'.closing settings = true) : D.closing settings = true := by
  cases h with
  | reap phase =>
    simp only [Drain.closing] at hclosing
    split_ifs at hclosing
  | check phase =>
    simp [Drain.closing, hactive] at hclosing
  | claim => cases hclaim
  | @join claimed phase done =>
    simp only [Drain.closing] at hclosing ⊢
    split_ifs at hclosing with hshort
    rw [phase]
    exact decide_eq_true hshort
  | renewHeartbeat => exact hclosing
  | advance => exact hclosing
  | finalize => exact hclosing
  | finalizeAgain => exact hclosing

theorem claimedAllDue (hbatch : 0 < settings.workerClaimBatchSize)
    (hjobs : Table.KeyUnique NotificationJob.id jobs)
    (h : execute (drainStep settings w outcomes) (.start jobs) as = some (D, tr)) :
    D.Ok settings w outcomes ∧
      (D.closing settings = true → ClaimedAllDue settings w outcomes jobs as tr) := by
  apply execute_invariant (fun as tr D => D.Ok settings w outcomes ∧
    (D.closing settings = true → ClaimedAllDue settings w outcomes jobs as tr)) h
  · refine ⟨.start hjobs, ?_⟩
    intro hclosing
    cases hclosing
  · intro as tr D a D' os hbefore ih hs
    have hstep := drainStep_cases hs
    refine ⟨ih.1.step hstep, ?_⟩
    intro hclosing
    cases hclaims : a.claims with
    | false => exact (ih.2 (hstep.closing ih.1.active hclaims hclosing)).extend hclaims
    | true =>
      cases hstep with
      | @claim now rows jobs' phase batch =>
        refine ⟨as, now, [], D, tr, rfl, by simp, hbefore, ?_⟩
        intro job hjob hdue
        have hshort : rows.length < settings.workerClaimBatchSize := by
          simp only [Drain.closing] at hclosing
          split_ifs at hclosing with hempty
          · rw [hempty]
            exact hbatch
          · exact of_decide_eq_true hclosing
        exact List.mem_append_right _ (ih.1.short_claim batch hshort hjob hdue)
      | advance other => exact absurd (hclaims.symm.trans other) (by decide)
      | _ => cases hclaims

end LastClaim

def Worker.owes (x : Worker) (id : UUID) (n : ℕ) (p : TaskState → Bool) : ℕ :=
  if (x.task? id).any fun task => task.job.attempts == n && p task.state then 1 else 0

def Drain.HasReached (D : Drain) (id : UUID) (n : ℕ) : Prop :=
  ∃ job ∈ D.jobs, job.id = id ∧ n ≤ job.attempts

/-- What the events of a job say about its claim with `n` attempts, while its task may be there. -/
structure Drain.Tally (D : Drain) (id : UUID) (n : ℕ) (tr : List (UUID × DrainEvent)) : Prop where
  processed : (Table.eventsOf id tr).count (.processed n) + D.worker.owes id n (· == .queued) =
    (Table.eventsOf id tr).count (.claimed n)
  finalized : (Table.eventsOf id tr).count (.finalized n) + D.worker.owes id n (fun _ => true) =
    (Table.eventsOf id tr).count (.claimed n)
  once : (Table.eventsOf id tr).count (.claimed n) ≤ 1
  counted : DrainEvent.claimed n ∈ Table.eventsOf id tr → D.HasReached id n

section Tally
variable {settings : Settings} {w : WorkerId} {outcomes : Outcomes} {D D' : Drain} {x : Worker}
  {task : Task} {a : DrainAction} {id : UUID} {n : ℕ} {tr os : List (UUID × DrainEvent)}

theorem Drain.Tally.start (jobs : List NotificationJob) : (Drain.start jobs).Tally id n [] where
  processed := rfl
  finalized := rfl
  once := Nat.zero_le _
  counted h := absurd h List.not_mem_nil

theorem attempts_kept {p : NotificationJob → Bool} {f : NotificationJob → NotificationJob}
    (hid : ∀ job, (f job).id = job.id) (hattempts : ∀ job, job.attempts ≤ (f job).attempts)
    {jobs : List NotificationJob} (h : ∃ job ∈ jobs, job.id = id ∧ n ≤ job.attempts) :
    ∃ job ∈ Table.updateWhere p f jobs, job.id = id ∧ n ≤ job.attempts := by
  obtain ⟨job, hjob, rfl, hn⟩ := h
  cases hp : p job with
  | false => exact ⟨job, Table.mem_updateWhere.mpr (Or.inl ⟨hjob, hp⟩), rfl, hn⟩
  | true =>
    exact ⟨f job, Table.mem_updateWhere.mpr (Or.inr ⟨job, hjob, hp, rfl⟩), hid job,
      hn.trans (hattempts job)⟩

theorem DrainStep.reached (h : DrainStep settings w outcomes D a os D') (hn : D.HasReached id n) :
    D'.HasReached id n := by
  cases h with
  | reap =>
    apply attempts_kept _ _ hn
    · exact fun _ => rfl
    · exact fun _ => Nat.le_refl _
  | claim phase batch =>
    obtain ⟨rfl, rfl⟩ := Prod.mk.inj batch
    apply attempts_kept _ _ hn
    · exact fun _ => rfl
    · exact fun _ => Nat.le_succ _
  | renewHeartbeat =>
    apply attempts_kept _ _ hn
    · exact fun _ => rfl
    · exact fun _ => Nat.le_refl _
  | @finalize now task f k =>
    exact attempts_kept (f.set_id now) (fun job => (f.set_attempts now job).ge) hn
  | @finalizeAgain now committed task f k =>
    cases committed with
    | false => exact hn
    | true => exact attempts_kept (f.set_id now) (fun job => (f.set_attempts now job).ge) hn
  | _ => exact hn

theorem TaskAdvance.not_queued {job : ClaimedJob} {o : SendOutcome} {s s' : TaskState}
    (h : TaskAdvance settings job o s s') : (s' == .queued) = false := by
  cases h <;> rfl

theorem owes_setTask (found : x.task? task.jobId = some task) (s : TaskState)
    (p : TaskState → Bool) :
    (x.setTask task.jobId s).owes id n p =
      if id = task.jobId then (if task.job.attempts == n && p s then 1 else 0)
      else x.owes id n p := by
  unfold Worker.owes
  rw [task?_setTask]
  by_cases hid : id = task.jobId
  · rw [if_pos hid, hid, found]
    simp
  · simp only [if_neg hid, Option.map_id']

theorem owes_endTask (jobId : UUID) (p : TaskState → Bool) :
    (x.endTask jobId).owes id n p = if id = jobId then 0 else x.owes id n p := by
  unfold Worker.owes
  rw [task?_endTask]
  by_cases hid : id = jobId
  · rw [if_pos hid, if_pos hid]
    rfl
  · rw [if_neg hid, if_neg hid]

theorem owes_found (found : x.task? task.jobId = some task) (p : TaskState → Bool) :
    x.owes task.jobId n p = if task.job.attempts == n && p task.state then 1 else 0 := by
  unfold Worker.owes
  rw [found]
  rfl

theorem Drain.Tally.next (h : D.Tally id n tr) (hreached : D.HasReached id n → D'.HasReached id n)
    (hclaimed : .claimed n ∉ Table.eventsOf id os)
    (hprocessed : (Table.eventsOf id os).count (.processed n) + D'.worker.owes id n (· == .queued) =
      D.worker.owes id n (· == .queued))
    (hfinalized : (Table.eventsOf id os).count (.finalized n) +
      D'.worker.owes id n (fun _ => true) = D.worker.owes id n fun _ => true) :
    D'.Tally id n (tr ++ os) := by
  have hcount : (Table.eventsOf id (tr ++ os)).count (.claimed n) =
      (Table.eventsOf id tr).count (.claimed n) := by
    rw [Table.eventsOf_append, List.count_append, List.count_eq_zero_of_not_mem hclaimed]
    rfl
  refine ⟨?_, ?_, ?_, ?_⟩
  · rw [hcount, Table.eventsOf_append, List.count_append, Nat.add_assoc, hprocessed]
    exact h.processed
  · rw [hcount, Table.eventsOf_append, List.count_append, Nat.add_assoc, hfinalized]
    exact h.finalized
  · rw [hcount]
    exact h.once
  · intro hmem
    rw [Table.eventsOf_append, List.mem_append] at hmem
    rcases hmem with hold | hnew
    · exact hreached (h.counted hold)
    · exact absurd hnew hclaimed

theorem Drain.Ok.claimed_row (hD : D.Ok settings w outcomes) {now : Time} {batchSize : ℕ}
    {rows : List ClaimedJob} {jobs : List NotificationJob}
    (hbatch : claimBatch w batchSize now (fun _ => false) D.jobs = (jobs, rows)) (id : UUID) :
    Table.eventsOf id (rows.map fun job => (job.id, DrainEvent.claimed job.attempts)) =
        ((Table.lookup ClaimedJob.id id rows).map fun job =>
          DrainEvent.claimed job.attempts).toList ∧
      ∀ row, Table.lookup ClaimedJob.id id rows = some row →
        (∃ job ∈ jobs, job.id = id ∧ job.attempts = row.attempts) ∧
        ∀ job ∈ D.jobs, job.id = id → job.attempts < row.attempts := by
  obtain ⟨rfl, rfl⟩ := Prod.mk.inj hbatch
  have hpicked :
      Table.KeyUnique NotificationJob.id (claimable batchSize now (fun _ => false) D.jobs) :=
    claimable_unique hD.unique
  constructor
  · have hclaimed : Table.KeyUnique ClaimedJob.id
        ((claimable batchSize now (fun _ => false) D.jobs).map fun job =>
          (job.claim w now).claimed) := by
      unfold Table.KeyUnique
      rw [List.map_map]
      exact hpicked
    exact Table.eventsOf_rows id hclaimed _
  · intro row hrow
    obtain ⟨old, hold, rfl⟩ := List.mem_map.mp (Table.lookup_mem hrow)
    have hid : (old.claim w now).claimed.id = id := Table.lookup_key hrow
    have hmem : old ∈ D.jobs := (mem_claimable hold).1
    constructor
    · refine ⟨old.claim w now, Table.mem_updateWhere.mpr (Or.inr ⟨old, hmem, ?_, rfl⟩), hid, rfl⟩
      exact decide_eq_true (List.mem_map_of_mem hold)
    · intro job hjob hjobId
      have hsame : job = old := hD.unique.eq_of_key hjob hmem (hjobId.trans hid.symm)
      rw [hsame]
      exact Nat.lt_succ_self _

theorem Drain.Tally.claim (h : D.Tally id n tr) (hD : D.Ok settings w outcomes) {now : Time}
    {rows : List ClaimedJob} {jobs : List NotificationJob}
    (hreached : D.HasReached id n → D'.HasReached id n) (hnone : D.worker.tasks = [])
    (hbatch : claimBatch w settings.workerClaimBatchSize now (fun _ => false) D.jobs = (jobs, rows))
    (htasks : D'.worker.tasks = rows.map fun job => ⟨job, .queued⟩) (hjobs : D'.jobs = jobs) :
    D'.Tally id n (tr ++ rows.map fun job => (job.id, .claimed job.attempts)) := by
  obtain ⟨hevents, hrow⟩ := hD.claimed_row hbatch id
  have htask : D'.worker.task? id =
      (Table.lookup ClaimedJob.id id rows).map fun job => ⟨job, .queued⟩ := by
    unfold Worker.task?
    rw [htasks]
    exact Table.lookup_map _ (fun _ => rfl) id rows
  have hbefore : ∀ p, D.worker.owes id n p = 0 := by
    intro p
    unfold Worker.owes Worker.task?
    rw [hnone]
    rfl
  have hprocessed := h.processed
  have hfinalized := h.finalized
  rw [hbefore] at hprocessed hfinalized
  cases hlookup : Table.lookup ClaimedJob.id id rows with
  | none =>
    rw [hlookup] at htask hevents
    have hafter : ∀ p, D'.worker.owes id n p = 0 := by
      intro p
      unfold Worker.owes
      rw [htask]
      rfl
    apply h.next hreached <;> rw [hevents]
    · exact List.not_mem_nil
    · rw [hafter, hbefore]
      rfl
    · rw [hafter, hbefore]
      rfl
  | some row =>
    obtain ⟨hclaimed, hlater⟩ := hrow row hlookup
    rw [hlookup] at htask hevents
    have howes : ∀ p, p .queued = true →
        D'.worker.owes id n p = if row.attempts = n then 1 else 0 := by
      intro p hp
      unfold Worker.owes
      rw [htask]
      simp [hp]
    have hcount :
        (Table.eventsOf id (tr ++ rows.map fun job => (job.id, .claimed job.attempts))).count
          (.claimed n) =
          (Table.eventsOf id tr).count (.claimed n) + if row.attempts = n then 1 else 0 := by
      rw [Table.eventsOf_append, hevents]
      simp [List.count_singleton]
    -- an earlier claim with as many attempts would be of a row that has had them
    have hnew : row.attempts = n → (Table.eventsOf id tr).count (.claimed n) = 0 := by
      intro hn
      rw [List.count_eq_zero]
      intro hmem
      obtain ⟨job, hjob, hid, hle⟩ := h.counted hmem
      have hlt := hlater job hjob hid
      omega
    refine ⟨?_, ?_, ?_, ?_⟩
    · rw [hcount, howes _ rfl, Table.eventsOf_append, hevents]
      simp [← hprocessed]
    · rw [hcount, howes _ rfl, Table.eventsOf_append, hevents]
      simp [← hfinalized]
    · rw [hcount]
      split_ifs with hn
      · rw [hnew hn]
      · exact h.once
    · intro hmem
      rw [Table.eventsOf_append, hevents, List.mem_append] at hmem
      rcases hmem with hmem | hmem
      · exact hreached (h.counted hmem)
      · obtain ⟨job, hjob, hid, hattempts⟩ := hclaimed
        have hn : n = row.attempts := by simpa using hmem
        exact ⟨job, hjobs ▸ hjob, hid, by omega⟩

theorem Drain.Tally.step (h : D.Tally id n tr) (hD : D.Ok settings w outcomes)
    (hstep : DrainStep settings w outcomes D a os D') : D'.Tally id n (tr ++ os) := by
  have hreached : D.HasReached id n → D'.HasReached id n := hstep.reached
  cases hstep with
  | reap => exact h.next hreached List.not_mem_nil (Nat.zero_add _) (Nat.zero_add _)
  | check => exact h.next hreached List.not_mem_nil (Nat.zero_add _) (Nat.zero_add _)
  | claim phase batch =>
    have hnone : D.worker.tasks = [] := by
      apply hD.idle
      unfold Worker.isProcessing
      rw [phase]
    exact h.claim hD hreached hnone batch rfl rfl
  | join => exact h.next hreached List.not_mem_nil (Nat.zero_add _) (Nat.zero_add _)
  | renewHeartbeat => exact h.next hreached List.not_mem_nil (Nat.zero_add _) (Nat.zero_add _)
  | @advance _ task s other batch found _ move =>
    by_cases hid : id = task.jobId
    · subst hid
      have hnext : (s == .queued) = false := move.not_queued
      apply h.next hreached
      · split_ifs <;> simp [Table.eventsOf_singleton]
      · rw [owes_setTask found, if_pos rfl, owes_found found, hnext]
        split_ifs with hqueued <;> simp_all [Table.eventsOf_singleton]
      · rw [owes_setTask found, if_pos rfl, owes_found found]
        split_ifs <;> simp_all [Table.eventsOf_singleton]
    · have hevents : Table.eventsOf id
          (if task.state = .queued then [(task.jobId, DrainEvent.processed task.job.attempts)]
            else []) = [] := by
        split_ifs
        · rw [Table.eventsOf_singleton, if_neg (Ne.symm hid)]
        · rfl
      apply h.next hreached <;> rw [hevents]
      · exact List.not_mem_nil
      · rw [owes_setTask found, if_neg hid]
        exact Nat.zero_add _
      · rw [owes_setTask found, if_neg hid]
        exact Nat.zero_add _
  | @finalize now task f k found state =>
    by_cases hid : id = task.jobId
    · subst hid
      apply h.next hreached
      · simp [Table.eventsOf_singleton]
      · rw [owes_endTask, if_pos rfl, owes_found found, state]
        simp [Table.eventsOf_singleton]
      · rw [owes_endTask, if_pos rfl, owes_found found]
        simp [Table.eventsOf_singleton, List.count_singleton]
    · apply h.next hreached <;> rw [Table.eventsOf_singleton, if_neg (Ne.symm hid)]
      · exact List.not_mem_nil
      · rw [owes_endTask, if_neg hid]
        exact Nat.zero_add _
      · rw [owes_endTask, if_neg hid]
        exact Nat.zero_add _
  | @finalizeAgain now committed task f k found state left =>
    apply h.next hreached List.not_mem_nil
    · by_cases hid : id = task.jobId
      · subst hid
        rw [owes_setTask found, if_pos rfl, owes_found found, state]
        exact Nat.zero_add _
      · rw [owes_setTask found, if_neg hid]
        exact Nat.zero_add _
    · by_cases hid : id = task.jobId
      · subst hid
        rw [owes_setTask found, if_pos rfl, owes_found found]
        exact Nat.zero_add _
      · rw [owes_setTask found, if_neg hid]
        exact Nat.zero_add _

end Tally

structure JobResult where
  id : UUID
  status : JobStatus
  attempts : ℕ
  lockedBy : Option WorkerId
  lastError : Option String
deriving DecidableEq

def NotificationJob.result (job : NotificationJob) : JobResult :=
  ⟨job.id, job.status, job.attempts, job.lockedBy, job.lastError⟩

def Worker.claimed? (x : Worker) (id : UUID) : Option ClaimedJob := (x.task? id).map Task.job

section Order
variable {settings : Settings} {w : WorkerId} {outcomes : Outcomes} {D D' : Drain} {x : Worker}
  {task : Task} {a : DrainAction} {as : List DrainAction} {tr os : List (UUID × DrainEvent)}

/-- What becomes of a row when the task of its claim, if there is one, is done. -/
def settledRow (settings : Settings) (w : WorkerId) (outcomes : Outcomes) (job : NotificationJob) :
    Option ClaimedJob → JobResult
  | none => job.result
  | some claimed =>
    if job.fenced claimed.id w then
      (((outcomes claimed.id claimed.attempts).finalizer settings claimed).set 0 job).result
    else job.result

theorem settledRow_free {job : NotificationJob} {claimed : ClaimedJob}
    (h : job.fenced claimed.id w = false) :
    settledRow settings w outcomes job (some claimed) = job.result := by
  simp [settledRow, h]

theorem settledRow_held {job : NotificationJob} {claimed : ClaimedJob}
    (h : job.fenced claimed.id w = true) :
    settledRow settings w outcomes job (some claimed) =
      (((outcomes claimed.id claimed.attempts).finalizer settings claimed).set 0 job).result := by
  simp [settledRow, h]

theorem Finalizer.set_renewed (f : Finalizer) (now : Time) (job : NotificationJob) :
    (f.set 0 { job with heartbeatAt := some now, updatedAt := now }).result =
      (f.set 0 job).result := by
  cases f <;> rfl

theorem settledRow_renewed (job : NotificationJob) (now : Time) (claimed? : Option ClaimedJob) :
    settledRow settings w outcomes { job with heartbeatAt := some now, updatedAt := now } claimed? =
      settledRow settings w outcomes job claimed? := by
  cases claimed? with
  | none => rfl
  | some claimed =>
    simp only [settledRow, Finalizer.set_renewed]
    rfl

def Drain.settled (settings : Settings) (w : WorkerId) (outcomes : Outcomes) (D : Drain) :
    List JobResult :=
  D.jobs.map fun job => settledRow settings w outcomes job (D.worker.claimed? job.id)

theorem claimed?_setTask (found : x.task? task.jobId = some task) (s : TaskState) (id : UUID) :
    (x.setTask task.jobId s).claimed? id = x.claimed? id := by
  unfold Worker.claimed?
  rw [task?_setTask, Option.map_map]
  by_cases hid : id = task.jobId
  · subst hid
    rw [found]
    simp
  · congr 1
    funext other
    simp [hid]

theorem claimed?_endTask (jobId id : UUID) :
    (x.endTask jobId).claimed? id = if id = jobId then none else x.claimed? id := by
  unfold Worker.claimed?
  rw [task?_endTask]
  split_ifs <;> rfl

theorem Finalizer.set_result (f : Finalizer) (now now' : Time) (job : NotificationJob) :
    (f.set now job).result = (f.set now' job).result := by
  cases f <;> rfl

theorem run_settled (hD : D.Ok settings w outcomes) (found : D.worker.task? task.jobId = some task)
    {f : Finalizer} {k : ℕ} (state : task.state = .finalizing f k) (now : Time)
    {claimed? : UUID → Option ClaimedJob}
    (hsame : ∀ id, id ≠ task.jobId → claimed? id = D.worker.claimed? id)
    (hown : ∀ job : NotificationJob, job.fenced task.jobId w = false →
      settledRow settings w outcomes job (claimed? task.jobId) = job.result) :
    ((f.run task.jobId w now D.jobs).1.map fun job =>
        settledRow settings w outcomes job (claimed? job.id)) =
      D.settled settings w outcomes := by
  have htowards := hD.towards task (Table.lookup_mem found)
  rw [state] at htowards
  obtain ⟨rfl, _⟩ := htowards
  have hclaimed : D.worker.claimed? task.jobId = some task.job := by
    unfold Worker.claimed?
    rw [found]
    rfl
  unfold Drain.settled Finalizer.run Table.updateWhere
  rw [List.map_map]
  apply List.map_congr_left
  intro job _
  rw [Function.comp_apply]
  cases hfenced : job.fenced task.jobId w with
  | true =>
    have hid : job.id = task.jobId := (of_decide_eq_true hfenced).1
    rw [if_pos rfl, Finalizer.set_id, hid, hclaimed, hown _ (Finalizer.set_fenced ..)]
    exact (Finalizer.set_result ..).trans (settledRow_held hfenced).symm
  | false =>
    rw [if_neg (by decide)]
    by_cases hid : job.id = task.jobId
    · rw [hid, hclaimed, hown job hfenced]
      exact (settledRow_free hfenced).symm
    · rw [hsame job.id hid]

/-- In a batch no step changes what its claims will have left. -/
theorem DrainStep.settled (h : DrainStep settings w outcomes D a os D')
    (hD : D.Ok settings w outcomes) (hbatch : D.worker.isProcessing = true)
    (hjoin : a.joins = false) :
    D'.worker.isProcessing = true ∧
      D'.settled settings w outcomes = D.settled settings w outcomes := by
  have hphase : ∀ {phase : Phase},
      D.worker.phase = phase → phase.betweenBatches = true → False := by
    intro phase hphase hidle
    obtain ⟨claimed, hclaimed⟩ := Worker.isProcessing_iff.mp hbatch
    rw [hclaimed] at hphase
    subst hphase
    cases hidle
  cases h with
  | reap phase => exact (hphase phase rfl).elim
  | check phase => exact (hphase phase rfl).elim
  | claim phase => exact (hphase phase rfl).elim
  | join => cases hjoin
  | @renewHeartbeat now =>
    refine ⟨hbatch, ?_⟩
    unfold Drain.settled Hefest.renewHeartbeat Table.updateWhere
    rw [List.map_map]
    apply List.map_congr_left
    intro job _
    rw [Function.comp_apply]
    split_ifs
    · exact settledRow_renewed ..
    · rfl
  | @advance _ task s other batch found _ move =>
    refine ⟨hbatch, ?_⟩
    unfold Drain.settled
    simp only [claimed?_setTask found]
  | @finalize now task f k found state =>
    refine ⟨hbatch, run_settled hD found state now ?_ ?_⟩
    · intro id hid
      rw [claimed?_endTask, if_neg hid]
    · intro job _
      rw [claimed?_endTask, if_pos rfl]
      rfl
  | @finalizeAgain now committed task f k found state left =>
    refine ⟨hbatch, ?_⟩
    cases committed with
    | false =>
      unfold Drain.settled
      simp only [claimed?_setTask found]
      rfl
    | true =>
      apply run_settled hD found state now
      · intro id _
        exact claimed?_setTask found _ id
      · intro job hfenced
        rw [claimed?_setTask found]
        unfold Worker.claimed?
        rw [found]
        exact settledRow_free hfenced

theorem settled_done (hdone : D.worker.tasks = []) :
    D.settled settings w outcomes = D.jobs.map NotificationJob.result := by
  unfold Drain.settled
  apply List.map_congr_left
  intro job _
  have hnone : D.worker.claimed? job.id = none := by
    unfold Worker.claimed? Worker.task?
    rw [hdone]
    rfl
  rw [hnone]
  rfl

theorem batch_settled (hD : D.Ok settings w outcomes) (hbatch : D.worker.isProcessing = true)
    (h : execute (drainStep settings w outcomes) D as = some (D', tr))
    (hjoin : ∀ a ∈ as, a.joins = false) (hdone : D'.worker.tasks = []) :
    D'.jobs.map NotificationJob.result = D.settled settings w outcomes := by
  have hrun : (∀ a ∈ as, a.joins = false) → D'.Ok settings w outcomes ∧
      D'.worker.isProcessing = true ∧
        D'.settled settings w outcomes = D.settled settings w outcomes := by
    apply execute_invariant (fun as _ D' => (∀ a ∈ as, a.joins = false) →
      D'.Ok settings w outcomes ∧ D'.worker.isProcessing = true ∧
        D'.settled settings w outcomes = D.settled settings w outcomes) h
    · exact fun _ => ⟨hD, hbatch, rfl⟩
    · intro as _ E a E' os _ ih hs hjoins
      obtain ⟨hE, hprocessing, hsame⟩ := ih fun b hb => hjoins b (List.mem_append_left _ hb)
      have hstep := drainStep_cases hs
      obtain ⟨hprocessing', hsettled⟩ := hstep.settled hE hprocessing (hjoins a (by simp))
      exact ⟨hE.step hstep, hprocessing', hsettled.trans hsame⟩
  rw [← settled_done hdone]
  exact (hrun hjoin).2.2

end Order

section Blocked
variable {settings : Settings} {w : WorkerId} {outcomes : Outcomes} {D D' : Drain}
  {a : DrainAction} {as : List DrainAction} {os tr : List (UUID × DrainEvent)}

structure Drain.Blocked (settings : Settings) (D : Drain) : Prop where
  processing : D.worker.isProcessing = true
  waits : D.worker.tasks ≠ []
  queued : ∀ task ∈ D.worker.tasks, task.state = .queued
  noSlot : settings.workerSendConcurrency = 0

theorem Drain.Blocked.step (hD : D.Blocked settings) (h : DrainStep settings w outcomes D a os D') :
    D'.worker = D.worker := by
  obtain ⟨claimed, hphase⟩ := Worker.isProcessing_iff.mp hD.processing
  cases h with
  | reap phase => cases hphase.symm.trans phase
  | check phase => cases hphase.symm.trans phase
  | claim phase => cases hphase.symm.trans phase
  | join _ done => exact absurd done hD.waits
  | renewHeartbeat => rfl
  | advance _ _ found slot =>
    have hfree := slot (hD.queued _ (Table.lookup_mem found))
    have hnoSlot := hD.noSlot
    omega
  | finalize found state => cases (hD.queued _ (Table.lookup_mem found)).symm.trans state
  | finalizeAgain found state => cases (hD.queued _ (Table.lookup_mem found)).symm.trans state

theorem Drain.Blocked.run (hD : D.Blocked settings)
    (h : execute (drainStep settings w outcomes) D as = some (D', tr)) : D'.worker = D.worker := by
  apply execute_invariant (fun _ _ D' => D'.worker = D.worker) h rfl
  intro as _ E a E' os _ ih hs
  have hE : E.Blocked settings := by
    refine ⟨?_, ?_, ?_, hD.noSlot⟩ <;> rw [ih]
    · exact hD.processing
    · exact hD.waits
    · exact hD.queued
  exact (hE.step (drainStep_cases hs)).trans ih

end Blocked

/-- Every step of the drain itself is counted by a bound that its table gives, and with a slot for
    its sends it is never stuck. When it returns, its last claim has taken whatever was due, and
    every claim has led to one call of `_process_one` and to one finalizer. What a batch leaves is
    the same in whatever order its tasks go on. -/
theorem drain_terminates (settings : Settings) (w : WorkerId) (outcomes : Outcomes)
    (hreap : 0 < settings.workerReapBatchSize) (hclaim : 0 < settings.workerClaimBatchSize)
    (jobs : List NotificationJob) (hjobs : Table.KeyUnique NotificationJob.id jobs)
    (as : List DrainAction) (D : Drain) (tr : List (UUID × DrainEvent))
    (h : execute (drainStep settings w outcomes) (.start jobs) as = some (D, tr)) :
    as.countP DrainAction.own ≤ (Drain.start jobs).cost settings ∧
    (0 < settings.workerSendConcurrency → D.returned = false →
      ∃ a : DrainAction, a.own = true ∧ (drainStep settings w outcomes D a).isSome = true) ∧
    (D.returned = true →
      ClaimedAllDue settings w outcomes jobs as tr ∧
      ∀ id n, (Table.eventsOf id tr).count (.claimed n) ≤ 1 ∧
        (Table.eventsOf id tr).count (.processed n) = (Table.eventsOf id tr).count (.claimed n) ∧
        (Table.eventsOf id tr).count (.finalized n) = (Table.eventsOf id tr).count (.claimed n)) ∧
    (D.worker.isProcessing = true → ∀ bs cs D₁ D₂ tr₁ tr₂,
      (∀ b ∈ bs, b.joins = false) → (∀ c ∈ cs, c.joins = false) →
      execute (drainStep settings w outcomes) D bs = some (D₁, tr₁) →
      execute (drainStep settings w outcomes) D cs = some (D₂, tr₂) →
      D₁.worker.tasks = [] → D₂.worker.tasks = [] →
      D₁.jobs.map NotificationJob.result = D₂.jobs.map NotificationJob.result) := by
  obtain ⟨hD, hdue⟩ := claimedAllDue hclaim hjobs h
  refine ⟨?_, ?_, ?_, ?_⟩
  · have hbound := execute_bounded (fun D => D.Ok settings w outcomes) (Drain.cost settings)
      DrainAction.own h (.start hjobs) fun E a E' os hE hs =>
        ⟨hE.step (drainStep_cases hs), hE.step_cost hreap (drainStep_cases hs)⟩
    omega
  · exact hD.progress
  · intro hreturned
    have hphase : D.worker.phase = .waiting := beq_iff_eq.mp hreturned
    refine ⟨hdue ?_, ?_⟩
    · unfold Drain.closing
      rw [hphase]
    · intro id n
      have htally : D.Ok settings w outcomes ∧ D.Tally id n tr := by
        apply (execute_run h).invariant (fun tr D => D.Ok settings w outcomes ∧ D.Tally id n tr)
        · exact ⟨.start hjobs, .start jobs⟩
        · intro tr E a E' os hE hs
          exact ⟨hE.1.step (drainStep_cases hs), hE.2.step hE.1 (drainStep_cases hs)⟩
      have hnone : D.worker.tasks = [] := by
        apply hD.idle
        unfold Worker.isProcessing
        rw [hphase]
      have howes : ∀ p, D.worker.owes id n p = 0 := by
        intro p
        unfold Worker.owes Worker.task?
        rw [hnone]
        rfl
      have hprocessed := htally.2.processed
      have hfinalized := htally.2.finalized
      rw [howes] at hprocessed hfinalized
      exact ⟨htally.2.once, hprocessed, hfinalized⟩
  · intro hbatch bs cs D₁ D₂ tr₁ tr₂ hbs hcs h₁ h₂ hdone₁ hdone₂
    rw [batch_settled hD hbatch h₁ hbs hdone₁, batch_settled hD hbatch h₂ hcs hdone₂]

def greylisted : Outcomes := fun _ n => if n = 1 then .transientError "greylisted" else .succeeds

def drainAgain : List DrainAction :=
  [.reap (seconds 10) (fun _ => false), .check, .claim (seconds 10), .start 500, .load 500 false,
    .send 500, .finalize 500 (seconds 20), .join, .check, .claim (seconds 100), .start 500,
    .load 500 false, .renewHeartbeat (seconds 101), .send 500, .push 500,
    .finalizeAgain 500 (seconds 102) true, .finalize 500 (seconds 103), .join, .check,
    .claim (seconds 104)]

theorem drain_terminates_greylisted :
    ∃ D tr, execute (drainStep { workerClaimBatchSize := 1 } "host:1" greylisted)
        (.start [verifyJob]) drainAgain = some (D, tr) ∧
      D.jobs.map (fun job => (job.status, job.attempts)) = [(.completed, 2)] ∧
      drainAgain.countP DrainAction.own ≤
        (Drain.start [verifyJob]).cost { workerClaimBatchSize := 1 } ∧
      ClaimedAllDue { workerClaimBatchSize := 1 } "host:1" greylisted [verifyJob] drainAgain tr ∧
      ∀ id n, (Table.eventsOf id tr).count (.finalized n) =
        (Table.eventsOf id tr).count (.claimed n) := by
  have hrun : (execute (drainStep { workerClaimBatchSize := 1 } "host:1" greylisted)
      (.start [verifyJob]) drainAgain).map
        (fun r => (r.1.returned, r.1.jobs.map fun job => (job.status, job.attempts))) =
      some (true, [(.completed, 2)]) := by
    decide +kernel
  obtain ⟨⟨D, tr⟩, h, heq⟩ := Option.map_eq_some_iff.mp hrun
  obtain ⟨hreturned, hjobs⟩ := Prod.mk.inj heq
  obtain ⟨hbound, _, hdone, _⟩ := drain_terminates { workerClaimBatchSize := 1 } "host:1" greylisted
    (by decide) (by decide) [verifyJob] (List.nodup_singleton _) drainAgain D tr h
  obtain ⟨hdue, hcounts⟩ := hdone hreturned
  exact ⟨D, tr, h, hjobs, hbound, hdue, fun id n => (hcounts id n).2.2⟩

theorem drain_blocks_without_slot :
    ∃ as D tr, execute (drainStep { workerSendConcurrency := 0 } "host:1" fun _ _ => .succeeds)
        (.start [verifyJob]) as = some (D, tr) ∧
      ∀ bs D' tr', execute (drainStep { workerSendConcurrency := 0 } "host:1" fun _ _ => .succeeds)
        D bs = some (D', tr') → D'.returned = false := by
  have hrun : (execute (drainStep { workerSendConcurrency := 0 } "host:1" fun _ _ => .succeeds)
      (.start [verifyJob])
        [.reap (seconds 10) (fun _ => false), .check, .claim (seconds 10)]).map
        (fun r => (r.1.worker.phase, r.1.worker.tasks.map Task.state)) =
      some (.processing 1, [.queued]) := by
    decide +kernel
  obtain ⟨⟨D, tr⟩, h, heq⟩ := Option.map_eq_some_iff.mp hrun
  obtain ⟨hphase, hstates⟩ := Prod.mk.inj heq
  have hblocked : D.Blocked { workerSendConcurrency := 0 } := by
    refine ⟨Worker.isProcessing_iff.mpr ⟨1, hphase⟩, ?_, ?_, rfl⟩
    · intro hnone
      rw [hnone] at hstates
      cases hstates
    · intro task htask
      have hstate : task.state ∈ D.worker.tasks.map Task.state := List.mem_map_of_mem htask
      rw [hstates] at hstate
      exact List.mem_singleton.mp hstate
  refine ⟨_, D, tr, h, ?_⟩
  intro bs D' tr' h'
  unfold Drain.returned
  rw [hblocked.run h', hphase]
  rfl

end Hefest
