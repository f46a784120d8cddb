import Hefest.LeaseTable

set_option autoImplicit false

namespace Hefest

structure Watch where
  jobs : List NotificationJob
  clock : Time
  renewedAt : Time

def JobStatement.isRenewalOf (workerId : WorkerId) : JobStatement → Bool
  | .renewHeartbeat w => decide (w = workerId)
  | _ => false

def watchStep (workerId : WorkerId) (W : Watch) :
    Time × JobStatement → Option (Watch × List (UUID × LeaseAct))
  | (now, s) =>
    if W.clock ≤ now then
      (jobStep W.jobs (now, s)).map fun (jobs, os) =>
        (⟨jobs, now, if s.isRenewalOf workerId then now else W.renewedAt⟩, os)
    else none

def NotificationJob.Beats (workerId : WorkerId) (since : Time) (job : NotificationJob) : Prop :=
  job.lockedBy = some workerId → job.status = .processing →
    ∃ at_, job.heartbeatAt = some at_ ∧ since ≤ at_

section Step
variable {workerId : WorkerId} {since now : Time} {s : JobStatement} {job : NotificationJob}

theorem RowStep.beats {old : Option NotificationJob} {acts : List LeaseAct}
    (h : RowStep now s old acts (some job)) (hold : ∀ j ∈ old, j.Beats workerId since)
    (hsince : since ≤ now) :
    job.Beats workerId (if s.isRenewalOf workerId then now else since) := by
  intro hlocked hstatus
  cases h with
  | enqueued isNew =>
    simp only [NotificationJob.isNew, Bool.and_eq_true, beq_iff_eq] at isNew
    rw [isNew.2] at hlocked
    cases hlocked
  | kept hrenews =>
    -- A renewal by the worker would have touched the row.
    have hother : s.isRenewalOf workerId = false := by
      cases s with
      | renewHeartbeat w =>
        by_contra howner
        have hw : w = workerId := by simpa [JobStatement.isRenewalOf] using howner
        subst hw
        exact of_decide_eq_false hrenews ⟨hlocked, hstatus⟩
      | _ => rfl
    rw [hother]
    exact hold job rfl hlocked hstatus
  | claimed statement _ =>
    subst statement
    exact ⟨now, rfl, hsince⟩
  | reaped _ _ => cases hlocked
  | renewed _ =>
    refine ⟨now, rfl, ?_⟩
    split_ifs
    · exact le_refl now
    · exact hsince
  | @finalized _ f _ _ _ _ => cases f <;> cases hstatus

/-- The reaper's comparison is strict, so a heartbeat as old as the idle time still counts. -/
theorem RowStep.not_reaped {idleSeconds : ℤ} {batchSize : ℕ} {skip : UUID → Bool}
    {acts : List LeaseAct} {new : Option NotificationJob}
    (h : RowStep now (.reapStale idleSeconds batchSize skip) (some job) acts new)
    (hbeats : job.Beats workerId since) (hlocked : job.lockedBy = some workerId)
    (hlive : now ≤ since + seconds idleSeconds) : acts = [] ∧ new = some job := by
  cases h with
  | kept _ => exact ⟨rfl, rfl⟩
  | renewed hrenews => cases hrenews
  | claimed statement _ => cases statement
  | finalized statement _ => cases statement
  | reaped statement stale =>
    cases statement
    obtain ⟨hstatus, at_, hat, hlt⟩ := stale_iff.mp stale
    obtain ⟨at', hat', hle⟩ := hbeats hlocked hstatus
    rw [hat] at hat'
    cases hat'
    have hold : since < now - seconds idleSeconds := lt_of_le_of_lt hle hlt
    exact absurd (sub_le_iff_le_add.mpr hlive) (not_le.mpr hold)

end Step

structure Watched (workerId : WorkerId) (W : Watch) : Prop where
  unique : Table.KeyUnique NotificationJob.id W.jobs
  clock : W.renewedAt ≤ W.clock
  beats : ∀ job ∈ W.jobs, job.Beats workerId W.renewedAt

section Runs
variable {workerId : WorkerId} {W W' : Watch} {now : Time} {s : JobStatement}
  {os : List (UUID × LeaseAct)}

theorem watchStep_some (h : watchStep workerId W (now, s) = some (W', os)) :
    W.clock ≤ now ∧ ∃ jobs, jobStep W.jobs (now, s) = some (jobs, os) ∧
      W' = ⟨jobs, now, if s.isRenewalOf workerId then now else W.renewedAt⟩ := by
  obtain ⟨hclock, hstep⟩ := Option.ite_none_right_eq_some.mp h
  obtain ⟨⟨jobs, os'⟩, hjobs, heq⟩ := Option.map_eq_some_iff.mp hstep
  cases heq
  exact ⟨hclock, jobs, hjobs, rfl⟩

theorem Watched.step (hW : Watched workerId W) (h : watchStep workerId W (now, s) = some (W', os)) :
    Watched workerId W' := by
  obtain ⟨hclock, jobs, hstep, rfl⟩ := watchStep_some h
  have hsince : W.renewedAt ≤ now := le_trans hW.clock hclock
  have hunique := jobStep_unique hW.unique hstep
  refine ⟨hunique, ?_, ?_⟩
  · change (if s.isRenewalOf workerId then now else W.renewedAt) ≤ now
    split_ifs
    · exact le_refl now
    · exact hsince
  · intro job hjob
    have hrow := jobStep_row hW.unique hstep job.id
    rw [hunique.lookup_self hjob] at hrow
    apply hrow.beats _ hsince
    intro j hj
    exact hW.beats j (Table.lookup_mem hj)

/-- From the start of the worker on, no reap before its next renewal is overdue takes a row that it
    is processing. -/
theorem live_worker_not_reaped (settings : Settings) {G : Time}
    (hG : G ≤ seconds settings.workerReaperIdleSeconds) {t₀ : List NotificationJob} {start : Time}
    (hunique : Table.KeyUnique NotificationJob.id t₀)
    (hstart : ∀ job ∈ t₀, job.lockedBy ≠ some workerId) {tr : List (UUID × LeaseAct)}
    (h : Transition.Run (watchStep workerId) ⟨t₀, start, start⟩ tr W) {batchSize : ℕ}
    {skip : UUID → Bool} (hdue : now ≤ W.renewedAt + G)
    (hreap : watchStep workerId W
      (now, .reapStale settings.workerReaperIdleSeconds batchSize skip) = some (W', os)) :
    ∀ job ∈ W.jobs, job.lockedBy = some workerId → job.status = .processing →
      job ∈ W'.jobs ∧ (job.id, .reap) ∉ os := by
  have hW : Watched workerId W := by
    apply h.invariant (fun _ W => Watched workerId W)
    · refine ⟨hunique, le_refl start, ?_⟩
      intro job hjob hlocked
      exact absurd hlocked (hstart job hjob)
    · intro _ W a W' os hW hstep
      exact hW.step hstep
  intro job hjob hlocked _
  obtain ⟨_, jobs, hstep, rfl⟩ := watchStep_some hreap
  have hrow := jobStep_row hW.unique hstep job.id
  rw [hW.unique.lookup_self hjob] at hrow
  have hlive : now ≤ W.renewedAt + seconds settings.workerReaperIdleSeconds :=
    le_trans hdue (Int.add_le_add_left hG _)
  obtain ⟨hacts, hnew⟩ := hrow.not_reaped (hW.beats job hjob) hlocked hlive
  refine ⟨Table.lookup_mem hnew, ?_⟩
  intro hmem
  have hact := (Table.mem_eventsOf job.id).mpr hmem
  rw [hacts] at hact
  cases hact

end Runs

def nextJob : NotificationJob := { queuedJob with id := 501, nextAttemptAt := seconds 5 }

def renewing : List (Time × JobStatement) :=
  [(seconds 1, .claimBatch "host:1" 50 fun _ => false),
    (seconds 90, .renewHeartbeat "host:1"),
    (seconds 100, .claimBatch "host:1" 50 fun _ => false)]

theorem live_worker_not_reaped_renewing :
    ∃ W tr W' os, Transition.Run (watchStep "host:1") ⟨[queuedJob, nextJob], 0, 0⟩ tr W ∧
      W.jobs.map (fun job => (job.lockedBy, job.status)) =
        [(some "host:1", .processing), (some "host:1", .processing)] ∧
      watchStep "host:1" W (seconds 390, .reapStale 300 1000 fun _ => false) = some (W', os) ∧
      ∀ job ∈ W.jobs, job.lockedBy = some "host:1" → job.status = .processing →
        job ∈ W'.jobs ∧ (job.id, .reap) ∉ os := by
  have hrun : (Transition.execute (watchStep "host:1") ⟨[queuedJob, nextJob], 0, 0⟩ renewing).map
      (fun r => (r.1.clock, r.1.renewedAt, r.1.jobs.map fun job => (job.lockedBy, job.status))) =
        some (seconds 100, seconds 90,
          [(some "host:1", .processing), (some "host:1", .processing)]) := by
    decide +kernel
  obtain ⟨W, tr, h, heq⟩ := Transition.execute_map hrun
  obtain ⟨hclock, hrest⟩ := Prod.mk.inj heq
  obtain ⟨hrenewed, hjobs⟩ := Prod.mk.inj hrest
  have hready : W.clock ≤ seconds 390 := by
    rw [hclock]
    decide
  have hdue : seconds 390 ≤ W.renewedAt + seconds 300 := by
    rw [hrenewed]
    decide
  have hreap : watchStep "host:1" W (seconds 390, .reapStale 300 1000 fun _ => false) =
      some (⟨(reapStale 300 1000 (seconds 390) (fun _ => false) W.jobs).1, seconds 390, W.renewedAt⟩,
        (reapable 300 1000 (seconds 390) (fun _ => false) W.jobs).map fun job => (job.id, .reap)) :=
    if_pos hready
  have hunique : Table.KeyUnique NotificationJob.id [queuedJob, nextJob] := by
    unfold Table.KeyUnique
    decide
  have hkept := live_worker_not_reaped {} (le_refl (seconds 300)) hunique (by decide) h hdue hreap
  exact ⟨W, tr, _, _, h, hjobs, hreap, hkept⟩

end Hefest
