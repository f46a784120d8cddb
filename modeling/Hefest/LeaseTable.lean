import Hefest.Consumer

set_option autoImplicit false

namespace Hefest

inductive JobStatement
  | enqueue (jobs : List NotificationJob)
  | claimBatch (workerId : WorkerId) (batchSize : ℕ) (skip : UUID → Bool)
  | reapStale (idleSeconds : ℤ) (batchSize : ℕ) (skip : UUID → Bool)
  | renewHeartbeat (workerId : WorkerId)
  | finalize (f : Finalizer) (jobId : UUID) (workerId : WorkerId)

inductive LeaseAct
  | claim | reap | retry
deriving DecidableEq

def Finalizer.act : Finalizer → Option LeaseAct
  | .markRetry _ _ => some .retry
  | .markCompleted | .markFailed _ => none

/-- One statement at its `statement_timestamp()`, and the leases that it opens and closes. An
    insertion that violates a constraint is rejected. -/
def jobStep (t : List NotificationJob) :
    Time × JobStatement → Option (List NotificationJob × List (UUID × LeaseAct))
  | (_, .enqueue jobs) =>
    if jobsViolation t jobs = none ∧ jobs.all NotificationJob.isNew then some (t ++ jobs, []) else none
  | (now, .claimBatch workerId batchSize skip) =>
    let (rows, claimed) := claimBatch workerId batchSize now skip t
    some (rows, claimed.map fun job => (job.id, .claim))
  | (now, .reapStale idleSeconds batchSize skip) =>
    some ((reapStale idleSeconds batchSize now skip t).1,
      (reapable idleSeconds batchSize now skip t).map fun job => (job.id, .reap))
  | (now, .renewHeartbeat workerId) => some (renewHeartbeat workerId now t, [])
  | (now, .finalize f jobId workerId) =>
    let (rows, effective) := f.run jobId workerId now t
    some (rows, if effective then f.act.toList.map fun a => (jobId, a) else [])

def JobStatement.renews (s : JobStatement) (job : NotificationJob) : Bool :=
  match s with
  | .renewHeartbeat workerId => decide (job.lockedBy = some workerId ∧ job.status = .processing)
  | _ => false

inductive RowStep (now : Time) (s : JobStatement) :
    Option NotificationJob → List LeaseAct → Option NotificationJob → Prop
  | absent : RowStep now s none [] none
  | enqueued {job : NotificationJob} (isNew : job.isNew = true) : RowStep now s none [] (some job)
  | kept {job : NotificationJob} (h : s.renews job = false) : RowStep now s (some job) [] (some job)
  | claimed {job : NotificationJob} {workerId : WorkerId} {batchSize : ℕ} {skip : UUID → Bool}
      (statement : s = .claimBatch workerId batchSize skip) (pending : job.status = .pending) :
      RowStep now s (some job) [.claim] (some (job.claim workerId now))
  | reaped {job : NotificationJob} {idleSeconds : ℤ} {batchSize : ℕ} {skip : UUID → Bool}
      (statement : s = .reapStale idleSeconds batchSize skip)
      (stale : job.stale idleSeconds now = true) :
      RowStep now s (some job) [.reap] (some (job.reap now))
  | renewed {job : NotificationJob} (h : s.renews job = true) :
      RowStep now s (some job) [] (some { job with heartbeatAt := some now, updatedAt := now })
  | finalized {job : NotificationJob} {f : Finalizer} {jobId : UUID} {workerId : WorkerId}
      (statement : s = .finalize f jobId workerId) (fenced : job.fenced jobId workerId = true) :
      RowStep now s (some job) f.act.toList (some (f.set now job))

section Rows
variable {now : Time} {s : JobStatement} {t t' : List NotificationJob} {os : List (UUID × LeaseAct)}

/-- A statement that picks rows, changes them and logs one act a row. -/
theorem rowStep_picked (hunique : Table.KeyUnique NotificationJob.id t)
    {rows : List NotificationJob} (hrows : ∀ j ∈ rows, j ∈ t)
    (hpicked : Table.KeyUnique NotificationJob.id rows) {change : NotificationJob → NotificationJob}
    (hid : ∀ j, (change j).id = j.id) (act : LeaseAct) (hkept : ∀ job, s.renews job = false)
    (taken : ∀ job ∈ rows, RowStep now s (some job) [act] (some (change job))) (id : UUID) :
    RowStep now s (Table.lookup NotificationJob.id id t)
      (Table.eventsOf id (rows.map fun job => (job.id, act)))
      (Table.lookup NotificationJob.id id
        (Table.updateWhere (fun j => j.id ∈ rows.map NotificationJob.id) change t)) := by
  rw [Table.eventsOf_rows id hpicked (fun _ => act), lookup_updatePicked hunique hrows hpicked hid]
  cases hjob : Table.lookup NotificationJob.id id rows with
  | none =>
    cases hold : Table.lookup NotificationJob.id id t with
    | none => exact .absent
    | some job => exact .kept (hkept job)
  | some job =>
    have hmem := Table.lookup_mem hjob
    have hold : Table.lookup NotificationJob.id id t = some job :=
      hunique.lookup_iff.mpr ⟨hrows job hmem, Table.lookup_key hjob⟩
    rw [hold]
    exact taken job hmem

theorem rowStep_claimBatch (hunique : Table.KeyUnique NotificationJob.id t) (workerId : WorkerId)
    (batchSize : ℕ) (skip : UUID → Bool) (id : UUID) :
    RowStep now (.claimBatch workerId batchSize skip) (Table.lookup NotificationJob.id id t)
      (Table.eventsOf id ((claimBatch workerId batchSize now skip t).2.map fun job => (job.id, .claim)))
      (Table.lookup NotificationJob.id id (claimBatch workerId batchSize now skip t).1) := by
  unfold claimBatch
  rw [List.map_map]
  apply rowStep_picked hunique (fun j hj => (mem_claimable hj).1) (claimable_unique hunique)
    (by intro j; rfl) .claim (by intro j; rfl)
  intro job hjob
  exact .claimed rfl (mem_claimable hjob).2

theorem rowStep_reapStale (hunique : Table.KeyUnique NotificationJob.id t) (idleSeconds : ℤ)
    (batchSize : ℕ) (skip : UUID → Bool) (id : UUID) :
    RowStep now (.reapStale idleSeconds batchSize skip) (Table.lookup NotificationJob.id id t)
      (Table.eventsOf id
        ((reapable idleSeconds batchSize now skip t).map fun job => (job.id, LeaseAct.reap)))
      (Table.lookup NotificationJob.id id (reapStale idleSeconds batchSize now skip t).1) := by
  apply rowStep_picked hunique (fun j hj => (mem_reapable hj).1) (reapable_unique hunique)
    (by intro j; rfl) .reap (by intro j; rfl)
  intro job hjob
  exact .reaped rfl (stale_of_mem_reapable hjob)

theorem rowStep_renewHeartbeat (workerId : WorkerId) (id : UUID) :
    RowStep now (.renewHeartbeat workerId) (Table.lookup NotificationJob.id id t) []
      (Table.lookup NotificationJob.id id (renewHeartbeat workerId now t)) := by
  unfold renewHeartbeat
  rw [Table.lookup_updateWhere (by intro j; rfl)]
  cases hjob : Table.lookup NotificationJob.id id t with
  | none => exact .absent
  | some job =>
    by_cases hown : job.lockedBy = some workerId ∧ job.status = .processing
    · have hrenews : (JobStatement.renewHeartbeat workerId).renews job = true := decide_eq_true hown
      rw [Option.map_some, if_pos (decide_eq_true hown)]
      exact .renewed hrenews
    · have hrenews : (JobStatement.renewHeartbeat workerId).renews job = false :=
        decide_eq_false hown
      rw [Option.map_some, if_neg (by simpa using hown)]
      exact .kept hrenews

theorem eventsOf_finalize (f : Finalizer) (effective : Bool) (jobId id : UUID) :
    Table.eventsOf id (if effective then f.act.toList.map fun a => (jobId, a) else []) =
      if effective ∧ jobId = id then f.act.toList else [] := by
  cases effective with
  | false => simp [Table.eventsOf]
  | true =>
    cases f.act with
    | none => simp [Table.eventsOf]
    | some a => simpa using Table.eventsOf_singleton id jobId a

theorem rowStep_finalize (hunique : Table.KeyUnique NotificationJob.id t) (f : Finalizer)
    (jobId : UUID) (workerId : WorkerId) (id : UUID) :
    RowStep now (.finalize f jobId workerId) (Table.lookup NotificationJob.id id t)
      (Table.eventsOf id
        (if (f.run jobId workerId now t).2 then f.act.toList.map fun a => (jobId, a) else []))
      (Table.lookup NotificationJob.id id (f.run jobId workerId now t).1) := by
  rw [eventsOf_finalize, finalizer_lookup]
  by_cases hid : jobId = id
  · subst hid
    cases hjob : Table.lookup NotificationJob.id jobId t with
    | none =>
      rw [if_neg (by simp [finalizer_absent hjob])]
      exact .absent
    | some job =>
      rw [Option.map_some, finalizer_held hunique hjob]
      cases hfenced : job.fenced jobId workerId with
      | false => exact .kept rfl
      | true =>
        simp only [and_self, if_true]
        exact .finalized rfl hfenced
  · -- another row is not touched
    rw [if_neg (fun h => hid h.2)]
    cases hjob : Table.lookup NotificationJob.id id t with
    | none => exact .absent
    | some job =>
      have hne : job.id ≠ jobId := by
        rw [Table.lookup_key hjob]
        exact Ne.symm hid
      rw [Option.map_some, fenced_other hne]
      exact .kept rfl

theorem rowStep_enqueue {jobs : List NotificationJob} (hnew : jobs.all NotificationJob.isNew)
    (id : UUID) :
    RowStep now (.enqueue jobs) (Table.lookup NotificationJob.id id t) []
      (Table.lookup NotificationJob.id id (t ++ jobs)) := by
  cases hold : Table.lookup NotificationJob.id id t with
  | some job =>
    rw [Table.lookup_append_of_some hold]
    exact .kept rfl
  | none =>
    rw [Table.lookup_append_of_none hold]
    cases hjob : Table.lookup NotificationJob.id id jobs with
    | none => exact .absent
    | some job => exact .enqueued (List.all_eq_true.mp hnew job (Table.lookup_mem hjob))

/-- The inversion of a statement, row by row. -/
theorem jobStep_row (hunique : Table.KeyUnique NotificationJob.id t)
    (h : jobStep t (now, s) = some (t', os)) (id : UUID) :
    RowStep now s (Table.lookup NotificationJob.id id t) (Table.eventsOf id os)
      (Table.lookup NotificationJob.id id t') := by
  cases s with
  | enqueue jobs =>
    obtain ⟨hinsert, heq⟩ := Option.ite_none_right_eq_some.mp h
    cases heq
    exact rowStep_enqueue hinsert.2 id
  | claimBatch workerId batchSize skip =>
    cases h
    exact rowStep_claimBatch hunique workerId batchSize skip id
  | reapStale idleSeconds batchSize skip =>
    cases h
    exact rowStep_reapStale hunique idleSeconds batchSize skip id
  | renewHeartbeat workerId =>
    cases h
    exact rowStep_renewHeartbeat workerId id
  | finalize f jobId workerId =>
    cases h
    exact rowStep_finalize hunique f jobId workerId id

theorem jobStep_unique (hunique : Table.KeyUnique NotificationJob.id t)
    (h : jobStep t (now, s) = some (t', os)) : Table.KeyUnique NotificationJob.id t' := by
  cases s with
  | enqueue jobs =>
    obtain ⟨hinsert, heq⟩ := Option.ite_none_right_eq_some.mp h
    cases heq
    exact keyUnique_insertJobs hunique hinsert.1
  | finalize f jobId workerId =>
    cases h
    exact Table.keyUnique_updateWhere hunique (f.set_id _)
  | _ =>
    cases h
    exact Table.keyUnique_updateWhere hunique (by intro j; rfl)

end Rows

/-- Claims and releases alternate; the flag says whether the last claim is still open. -/
inductive LeaseLog : List LeaseAct → Bool → Prop
  | unclaimed : LeaseLog [] false
  | claim {acts : List LeaseAct} (h : LeaseLog acts false) : LeaseLog (acts ++ [.claim]) true
  | release {acts : List LeaseAct} {a : LeaseAct} (h : LeaseLog acts true) (ha : a ≠ .claim) :
      LeaseLog (acts ++ [a]) false

section Log
variable {acts : List LeaseAct} {held : Bool}

theorem LeaseLog.last (h : LeaseLog acts held) : ∀ a ∈ acts.getLast?, (a = .claim ↔ held = true) := by
  cases h with
  | unclaimed => simp
  | claim _ => simp
  | release _ ha => simpa using ha

theorem LeaseLog.alternates (h : LeaseLog acts held) :
    acts.IsChain (fun a b => a = .claim ↔ b ≠ .claim) := by
  induction h with
  | unclaimed => exact .nil
  | claim h ih =>
    rw [List.isChain_append]
    refine ⟨ih, .singleton _, ?_⟩
    intro a ha b hb
    have hlast := h.last a ha
    simp only [List.head?_cons, Option.mem_some_iff] at hb
    simp [hlast, ← hb]
  | release h hne ih =>
    rw [List.isChain_append]
    refine ⟨ih, .singleton _, ?_⟩
    intro a ha b hb
    have hlast := h.last a ha
    simp only [List.head?_cons, Option.mem_some_iff] at hb
    simp [hlast, ← hb, hne]

theorem LeaseLog.claims_pos (h : LeaseLog acts true) : 1 ≤ acts.count .claim := by
  cases h with
  | claim _ =>
    rw [List.count_append, List.count_singleton_self]
    omega

theorem LeaseLog.between (h : LeaseLog acts held) {before mid later : List LeaseAct}
    (hacts : acts = before ++ .claim :: mid ++ .claim :: later) (hmid : .claim ∉ mid) :
    mid = [.reap] ∨ mid = [.retry] := by
  have hchain : (.claim :: (mid ++ .claim :: later)).IsChain
      (fun a b => a = LeaseAct.claim ↔ b ≠ .claim) := by
    have halt := h.alternates
    rw [hacts, List.append_assoc, List.isChain_append] at halt
    exact halt.2.1
  cases mid with
  | nil =>
    have hadjacent := (List.isChain_cons_cons.mp hchain).1
    simp at hadjacent
  | cons a mid =>
    cases mid with
    | nil =>
      cases a with
      | claim => simp at hmid
      | reap => exact .inl rfl
      | retry => exact .inr rfl
    | cons b mid =>
      have hfirst := List.isChain_cons_cons.mp hchain
      have hsecond := (List.isChain_cons_cons.mp hfirst.2).1
      simp only [List.mem_cons, not_or] at hmid
      exact absurd (hsecond.mpr (Ne.symm hmid.2.1)) (Ne.symm hmid.1)

end Log

structure RowLease (acts : List LeaseAct) (job : NotificationJob) : Prop where
  log : LeaseLog acts (job.status != .pending)
  attempts : job.attempts = acts.count .claim
  pending : job.status = .pending → job.lockedBy = none
  processing : job.status = .processing → job.lockedBy.isSome ∧ job.heartbeatAt.isSome
  failed : job.status = .failed → job.lastError.isSome

def Leased (acts : List LeaseAct) : Option NotificationJob → Prop
  | none => acts = []
  | some job => RowLease acts job

theorem rowLease_new {job : NotificationJob} (h : job.isNew = true) : RowLease [] job := by
  simp only [NotificationJob.isNew, Bool.and_eq_true, beq_iff_eq] at h
  have hstatus : job.status = .pending := h.1.1
  refine ⟨?_, h.1.2, fun _ => h.2, ?_, ?_⟩
  · rw [hstatus]
    exact .unclaimed
  · intro hp
    rw [hstatus] at hp
    cases hp
  · intro hp
    rw [hstatus] at hp
    cases hp

theorem fenced_iff {job : NotificationJob} {jobId : UUID} {workerId : WorkerId} :
    job.fenced jobId workerId = true ↔
      job.id = jobId ∧ job.lockedBy = some workerId ∧ job.status = .processing := decide_eq_true_iff

section Steps
variable {now : Time} {s : JobStatement} {acts acts' : List LeaseAct}

theorem RowLease.open (job : NotificationJob) (h : RowLease acts job)
    (hstatus : job.status = .processing) : LeaseLog acts true := by
  have hlog := h.log
  rw [hstatus] at hlog
  exact hlog

theorem RowLease.claim {job : NotificationJob} (h : RowLease acts job) (hstatus : job.status = .pending)
    (workerId : WorkerId) : RowLease (acts ++ [.claim]) (job.claim workerId now) := by
  have hlog := h.log
  rw [hstatus] at hlog
  refine ⟨.claim hlog, ?_, nofun, fun _ => ⟨rfl, rfl⟩, nofun⟩
  have hattempts := h.attempts
  change job.attempts + 1 = _
  rw [List.count_append, List.count_singleton_self]
  omega

theorem RowLease.reap {job : NotificationJob} (h : RowLease acts job)
    (hstatus : job.status = .processing) : RowLease (acts ++ [.reap]) (job.reap now) := by
  refine ⟨.release (h.open _ hstatus) nofun, ?_, fun _ => rfl, nofun, nofun⟩
  change job.attempts = _
  simp [h.attempts, List.count_append]

theorem RowLease.renew {job : NotificationJob} (h : RowLease acts job) :
    RowLease acts { job with heartbeatAt := some now, updatedAt := now } :=
  ⟨h.log, h.attempts, h.pending, fun hp => ⟨(h.processing hp).1, rfl⟩, h.failed⟩

theorem RowLease.finalize {job : NotificationJob} (h : RowLease acts job)
    (hstatus : job.status = .processing) (f : Finalizer) :
    RowLease (acts ++ f.act.toList) (f.set now job) := by
  have hopen := h.open _ hstatus
  cases f with
  | markCompleted =>
    rw [show Finalizer.markCompleted.act.toList = [] from rfl, List.append_nil]
    exact ⟨hopen, h.attempts, nofun, nofun, nofun⟩
  | markRetry lastError delaySeconds =>
    refine ⟨.release hopen nofun, ?_, fun _ => rfl, nofun, nofun⟩
    change job.attempts = _
    simp [h.attempts, List.count_append, Finalizer.act]
  | markFailed lastError =>
    rw [show (Finalizer.markFailed lastError).act.toList = [] from rfl, List.append_nil]
    exact ⟨hopen, h.attempts, nofun, nofun, fun _ => rfl⟩

theorem RowStep.leased {old new : Option NotificationJob} (h : RowStep now s old acts' new)
    (hold : Leased acts old) : Leased (acts ++ acts') new := by
  cases h with
  | absent => simpa [Leased] using hold
  | enqueued isNew =>
    have hnil : acts = [] := hold
    rw [hnil]
    exact rowLease_new isNew
  | kept _ => simpa using hold
  | claimed _ pending => exact RowLease.claim hold pending _
  | reaped _ stale => exact RowLease.reap hold (stale_iff.mp stale).1
  | renewed _ =>
    rw [List.append_nil]
    exact RowLease.renew hold
  | finalized _ fenced => exact RowLease.finalize hold (fenced_iff.mp fenced).2.2 _

end Steps

section Runs
variable {t₀ t : List NotificationJob} {tr : List (UUID × LeaseAct)}

theorem run_unique (hunique : Table.KeyUnique NotificationJob.id t₀)
    (h : Transition.Run jobStep t₀ tr t) : Table.KeyUnique NotificationJob.id t := by
  apply h.invariant (fun _ t => Table.KeyUnique NotificationJob.id t) hunique
  intro _ t a u os ht hstep
  exact jobStep_unique ht hstep

theorem run_leased (hunique : Table.KeyUnique NotificationJob.id t₀)
    (hnew : t₀.all NotificationJob.isNew) (h : Transition.Run jobStep t₀ tr t) (id : UUID) :
    Leased (Table.eventsOf id tr) (Table.lookup NotificationJob.id id t) := by
  have hboth : Table.KeyUnique NotificationJob.id t ∧
      Leased (Table.eventsOf id tr) (Table.lookup NotificationJob.id id t) := by
    apply h.invariant (fun tr t => Table.KeyUnique NotificationJob.id t ∧
      Leased (Table.eventsOf id tr) (Table.lookup NotificationJob.id id t))
    · refine ⟨hunique, ?_⟩
      cases hjob : Table.lookup NotificationJob.id id t₀ with
      | none => rfl
      | some job => exact rowLease_new (List.all_eq_true.mp hnew job (Table.lookup_mem hjob))
    · intro tr t a u os ht hstep
      rw [Table.eventsOf_append]
      exact ⟨jobStep_unique ht.1 hstep, (jobStep_row ht.1 hstep id).leased ht.2⟩
  exact hboth.2

theorem run_rowLease (hunique : Table.KeyUnique NotificationJob.id t₀)
    (hnew : t₀.all NotificationJob.isNew) (h : Transition.Run jobStep t₀ tr t) {job : NotificationJob}
    (hjob : job ∈ t) : RowLease (Table.eventsOf job.id tr) job := by
  have hleased := run_leased hunique hnew h job.id
  rw [(run_unique hunique h).lookup_self hjob] at hleased
  exact hleased

/-- A statement that changes a row finds it pending or processing. -/
theorem RowStep.terminal {now : Time} {s : JobStatement} {job : NotificationJob}
    {acts : List LeaseAct} {new : Option NotificationJob} (h : RowStep now s (some job) acts new)
    (hend : job.status = .completed ∨ job.status = .failed) : new = some job := by
  cases h with
  | kept _ => rfl
  | claimed _ pending => simp [pending] at hend
  | reaped _ stale => simp [(stale_iff.mp stale).1] at hend
  | renewed hrenews =>
    cases s with
    | renewHeartbeat workerId => simp [(of_decide_eq_true hrenews).2] at hend
    | _ => cases hrenews
  | finalized _ fenced => simp [(fenced_iff.mp fenced).2.2] at hend

theorem run_terminal (hunique : Table.KeyUnique NotificationJob.id t₀)
    (h : Transition.Run jobStep t₀ tr t) {job : NotificationJob} (hjob : job ∈ t₀)
    (hend : job.status = .completed ∨ job.status = .failed) : job ∈ t := by
  have hboth : Table.KeyUnique NotificationJob.id t ∧ job ∈ t := by
    apply h.invariant (fun _ t => Table.KeyUnique NotificationJob.id t ∧ job ∈ t) ⟨hunique, hjob⟩
    intro _ t a u os ht hstep
    have hrow := jobStep_row ht.1 hstep job.id
    rw [ht.1.lookup_self ht.2] at hrow
    exact ⟨jobStep_unique ht.1 hstep, Table.lookup_mem (hrow.terminal hend)⟩
  exact hboth.2

theorem finalizer_true_holder {f : Finalizer} {jobId : UUID} {workerId : WorkerId} {now : Time}
    (h : (f.run jobId workerId now t).2 = true) :
    ∃ job ∈ t, job.id = jobId ∧ job.lockedBy = some workerId := by
  have hone : t.countP (NotificationJob.fenced jobId workerId) = 1 := beq_iff_eq.mp h
  have hpos : 0 < t.countP (NotificationJob.fenced jobId workerId) := by omega
  obtain ⟨job, hjob, hfenced⟩ := List.countP_pos_iff.mp hpos
  exact ⟨job, hjob, (fenced_iff.mp hfenced).1, (fenced_iff.mp hfenced).2.1⟩

/-- The lease invariant of the table, from freshly inserted jobs on. -/
theorem lease_invariant (hunique : Table.KeyUnique NotificationJob.id t₀)
    (hnew : t₀.all NotificationJob.isNew) (h : Transition.Run jobStep t₀ tr t) :
    (∀ job ∈ t, job.status = .pending → job.lockedBy = none) ∧
    (∀ job ∈ t, job.status = .processing →
      job.lockedBy.isSome ∧ job.heartbeatAt.isSome ∧ 1 ≤ job.attempts) ∧
    (∀ job ∈ t, job.status = .failed → job.lastError.isSome) ∧
    (∀ job ∈ t, job.status = .completed ∨ job.status = .failed →
      ∀ tr' t', Transition.Run jobStep t tr' t' → job ∈ t') ∧
    (∀ job ∈ t, job.attempts = (Table.eventsOf job.id tr).count .claim) ∧
    (∀ id before mid later,
      Table.eventsOf id tr = before ++ .claim :: mid ++ .claim :: later → .claim ∉ mid →
        mid = [.reap] ∨ mid = [.retry]) ∧
    (∀ (f : Finalizer) (jobId : UUID) (workerId : WorkerId) (now : Time),
      (f.run jobId workerId now t).2 = true →
        ∃ job ∈ t, job.id = jobId ∧ job.lockedBy = some workerId) := by
  have hrow {job : NotificationJob} (hjob : job ∈ t) := run_rowLease hunique hnew h hjob
  refine ⟨?_, ?_, ?_, ?_, ?_, ?_, ?_⟩
  · intro job hjob
    exact (hrow hjob).pending
  · intro job hjob hstatus
    have hheld := (hrow hjob).processing hstatus
    have hclaims := ((hrow hjob).open _ hstatus).claims_pos
    have hattempts := (hrow hjob).attempts
    exact ⟨hheld.1, hheld.2, by omega⟩
  · intro job hjob
    exact (hrow hjob).failed
  · intro job hjob hend tr' t' hrun
    exact run_terminal (run_unique hunique h) hrun hjob hend
  · intro job hjob
    exact (hrow hjob).attempts
  · intro id before mid later hacts hmid
    have hleased := run_leased hunique hnew h id
    cases hjob : Table.lookup NotificationJob.id id t with
    | none =>
      rw [hjob] at hleased
      have hnil : Table.eventsOf id tr = [] := hleased
      rw [hnil] at hacts
      simp at hacts
    | some job =>
      rw [hjob] at hleased
      exact (RowLease.log hleased).between hacts hmid
  · intro f jobId workerId now
    exact finalizer_true_holder

end Runs

def queuedJob : NotificationJob := newJob ⟨fun n => n, fun _ => 500⟩ 0 0 none .emailVerify {} 600

def reclaimedJob : List (Time × JobStatement) :=
  [(seconds 1, .claimBatch "host:1" 50 fun _ => false),
    (seconds 400, .reapStale 300 1000 fun _ => false),
    (seconds 401, .claimBatch "host:2" 50 fun _ => false),
    (seconds 402, .finalize .markCompleted 500 "host:1"),
    (seconds 403, .finalize (.markRetry "timeout" 30) 500 "host:2"),
    (seconds 500, .claimBatch "host:2" 50 fun _ => false),
    (seconds 501, .finalize (.markFailed "timeout") 500 "host:2")]

theorem reclaimedJob_run :
    ∃ t tr, Transition.Run jobStep [queuedJob] tr t ∧
      tr = [(500, .claim), (500, .reap), (500, .claim), (500, .retry), (500, .claim)] ∧
      t.map (·.status) = [.failed] := by
  have hrun : (Transition.execute jobStep [queuedJob] reclaimedJob).map
      (fun r => (r.2, r.1.map (·.status))) =
        some ([(500, .claim), (500, .reap), (500, .claim), (500, .retry), (500, .claim)],
          [.failed]) := by
    decide +kernel
  obtain ⟨t, tr, h, heq⟩ := Transition.execute_map hrun
  obtain ⟨htr, hstatus⟩ := Prod.mk.inj heq
  exact ⟨t, tr, h, htr, hstatus⟩

theorem lease_invariant_reclaimed :
    ∃ t tr, Transition.Run jobStep [queuedJob] tr t ∧
      tr = [(500, .claim), (500, .reap), (500, .claim), (500, .retry), (500, .claim)] ∧
      (∀ job ∈ t, job.status = .failed → job.lastError.isSome) ∧
      (∀ job ∈ t, job.attempts = (Table.eventsOf job.id tr).count .claim) := by
  obtain ⟨t, tr, h, htr, _⟩ := reclaimedJob_run
  have hlease := lease_invariant (by simp [Table.KeyUnique]) (by decide) h
  exact ⟨t, tr, h, htr, hlease.2.2.1, hlease.2.2.2.2.1⟩

end Hefest
