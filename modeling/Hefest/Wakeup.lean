import Hefest.Lib.WakeSignal
import Hefest.LeaseTable
import Hefest.Delivery

set_option autoImplicit false

/-!
# The loop of `run` and the task of `_listen`

One worker of the consumer system with its wake event and its LISTEN connection. The trigger on
`notification_jobs` publishes at COMMIT; the listener's channel is the trigger's. The database clock
does not go back: no claim of the drain is stamped before the commits that came before the drain.
-/
namespace Hefest
open WakeSignal

structure Loop where
  world : World := {}
  channel : WakeSignal.Channel := {}
  /-- In `wait_for(wake.wait(), interval)`; if not, at the head of the loop or in `_drain`. -/
  inWait : Bool := false
  /-- The latest commit. -/
  clock : Time
  /-- The latest commit when the last drain began. -/
  since : Time

def Loop.start (clock : Time) : Loop := { clock := clock, since := clock }

inductive LoopAction
  /-- The API commits new outbox rows. -/
  | commit (jobs : List NotificationJob) (now : Time)
  /-- Another worker takes a step. -/
  | other (v : WorkerId) (a : WorkerAction)
  /-- A step inside `_drain`, or one that the loop does not decide. -/
  | own (a : WorkerAction)
  | link (a : Act)
  /-- The head of the loop: the flags, then `wake.clear()` and `_drain`. -/
  | enter
  | resume (timedOut : Bool)

inductive LoopEvent
  | committed (job : NotificationJob) (now : Time)
  | drain
  /-- The watched worker has claimed a batch; `skip` are the rows that others had locked. -/
  | claimBatch (skip : UUID → Bool)
  | observed (o : Obs)

def WorkerAction.inLoop (since : Time) : WorkerAction → Bool
  | .wake => false
  | .claim now _ => decide (since ≤ now)
  | _ => true

def WorkerAction.claims : WorkerAction → List LoopEvent
  | .claim _ skip => [.claimBatch skip]
  | _ => []

/-- The trigger fires once for each INSERT statement. -/
def notify (jobs : List NotificationJob) (c : WakeSignal.Channel) : Option WakeSignal.Channel :=
  if jobs = [] then some c else c.step .publish

section Loop
variable (settings : Settings) (w : WorkerId)

def Loop.phase (L : Loop) : Phase := (L.world.worker w).phase
def Loop.halted (L : Loop) : Bool := (L.world.worker w).halted

def Loop.returned (L : Loop) (W : World) : Bool :=
  !(L.phase w == .waiting) && ((W.worker w).phase == .waiting)

def Loop.step (L : Loop) : LoopAction → Option (Loop × List LoopEvent)
  | .commit jobs now =>
    if L.clock ≤ now then
      match L.world.step settings (.enqueue jobs), notify jobs L.channel with
      | some (W, os), some channel =>
        some ({ L with world := W, channel := channel, clock := now },
          jobs.map (.committed · now) ++ os.map .observed)
      | _, _ => none
    else none
  | .other v a =>
    if v = w then none
    else
      match L.world.step settings (.worker v a) with
      | some (W, os) => some ({ L with world := W }, os.map .observed)
      | none => none
  | .own a =>
    if a.inLoop L.since then
      match L.world.step settings (.worker w a) with
      | some (W, os) =>
        some ({ L with world := W, inWait := L.inWait || L.returned w W },
          os.map .observed ++ a.claims)
      | none => none
    else none
  | .link a =>
    if a = .clear then none
    else
      match L.channel.step a with
      | some channel => some ({ L with channel := channel }, [])
      | none => none
  | .enter =>
    if L.inWait then none
    else
      match L.world.step settings (.worker w .wake), L.channel.step .clear with
      | some (W, _), some channel =>
        if L.halted w then some ({ L with world := W }, [])
        else some ({ L with world := W, channel := channel, since := L.clock }, [.drain])
      | _, _ => none
  | .resume timedOut =>
    if L.inWait ∧ (timedOut ∨ L.channel.flag) then some ({ L with inWait := false }, []) else none

/-- Neither `stop` nor `lease_lost` is set, the loop waits and nothing is about to wake it. -/
structure Loop.Blocked (L : Loop) : Prop where
  active : L.halted w = false
  waiting : L.phase w = .waiting
  inWait : L.inWait = true
  quiet : L.channel.Quiet

end Loop

def LoopEvent.observed? : LoopEvent → Option Obs
  | .observed o => some o
  | _ => none

inductive LoopStep (settings : Settings) (w : WorkerId) (L : Loop) : List LoopEvent → Loop → Prop
  | commit {jobs : List NotificationJob} {now : Time} {W : World} {channel : WakeSignal.Channel}
      (later : L.clock ≤ now)
      (world : L.world.step settings (.enqueue jobs) = some (W, jobs.map fun j => (j.id, .enqueued)))
      (notified : notify jobs L.channel = some channel) :
      LoopStep settings w L
        (jobs.map (.committed · now) ++ jobs.map fun j => .observed (j.id, .enqueued))
        { L with world := W, channel := channel, clock := now }
  | other {v : WorkerId} {a : WorkerAction} {W : World} {os : List Obs} (hv : v ≠ w)
      (world : L.world.step settings (.worker v a) = some (W, os)) :
      LoopStep settings w L (os.map .observed) { L with world := W }
  | own {a : WorkerAction} {W : World} {os : List Obs} (inLoop : a.inLoop L.since = true)
      (world : L.world.step settings (.worker w a) = some (W, os)) :
      LoopStep settings w L (os.map .observed ++ a.claims)
        { L with world := W, inWait := L.inWait || L.returned w W }
  | link {a : Act} {channel : WakeSignal.Channel} (ha : a ≠ .clear) (linked : L.channel.step a = some channel) :
      LoopStep settings w L [] { L with channel := channel }
  | leave {W : World} (out : L.inWait = false) (halted : L.halted w = true)
      (world : L.world.step settings (.worker w .wake) = some (W, [])) :
      LoopStep settings w L [] { L with world := W }
  | enter {W : World} {channel : WakeSignal.Channel} (out : L.inWait = false) (active : L.halted w = false)
      (world : L.world.step settings (.worker w .wake) = some (W, []))
      (cleared : L.channel.step .clear = some channel) :
      LoopStep settings w L [.drain] { L with world := W, channel := channel, since := L.clock }
  | resume (waits : L.inWait = true) : LoopStep settings w L [] { L with inWait := false }

section Steps
variable {settings : Settings} {w : WorkerId} {L L' : Loop} {a : LoopAction} {es : List LoopEvent}

theorem World.step_worker {W W' : World} {v : WorkerId} {act : WorkerAction} {os : List Obs}
    (h : W.step settings (.worker v act) = some (W', os)) :
    ∃ x jobs, workerStep settings v (W.worker v) W.jobs act = some (x, jobs, os) ∧
      W' = ⟨jobs, Function.update W.worker v x⟩ := by
  simp only [World.step] at h
  split at h
  · cases h
  · rename_i x jobs os' hstep
    cases h
    exact ⟨x, jobs, hstep, rfl⟩

theorem World.wake_events {W W' : World} {os : List Obs}
    (h : W.step settings (.worker w .wake) = some (W', os)) : os = [] := by
  obtain ⟨x, jobs, hstep, _⟩ := World.step_worker h
  obtain ⟨_, hnext⟩ := Option.ite_none_right_eq_some.mp hstep
  cases hnext
  rfl

theorem Loop.step_cases (h : L.step settings w a = some (L', es)) : LoopStep settings w L es L' := by
  cases a with
  | commit jobs now =>
    simp only [Loop.step] at h
    obtain ⟨hnow, hnext⟩ := Option.ite_none_right_eq_some.mp h
    split at hnext
    · rename_i W os channel hworld hchannel
      cases hnext
      obtain ⟨hnew, hinsert⟩ := Option.ite_none_right_eq_some.mp hworld
      cases hinsert
      have hstep := LoopStep.commit (w := w) hnow hworld hchannel
      rw [List.map_map]
      exact hstep
    · cases hnext
  | other v act =>
    simp only [Loop.step] at h
    obtain ⟨hv, hnext⟩ := Option.ite_none_left_eq_some.mp h
    split at hnext
    · rename_i W os hworld
      cases hnext
      exact .other hv hworld
    · cases hnext
  | own act =>
    simp only [Loop.step] at h
    obtain ⟨hact, hnext⟩ := Option.ite_none_right_eq_some.mp h
    split at hnext
    · rename_i W os hworld
      cases hnext
      exact .own hact hworld
    · cases hnext
  | link act =>
    simp only [Loop.step] at h
    obtain ⟨hact, hnext⟩ := Option.ite_none_left_eq_some.mp h
    split at hnext
    · rename_i channel hchannel
      cases hnext
      exact .link hact hchannel
    · cases hnext
  | enter =>
    simp only [Loop.step] at h
    obtain ⟨hwait, hnext⟩ := Option.ite_none_left_eq_some.mp h
    have hout : L.inWait = false := by simpa using hwait
    split at hnext
    · rename_i W os channel hworld hchannel
      have hos := World.wake_events hworld
      subst hos
      cases hhalted : L.halted w with
      | true =>
        rw [if_pos hhalted] at hnext
        cases hnext
        exact .leave hout hhalted hworld
      | false =>
        rw [if_neg (by simp [hhalted])] at hnext
        cases hnext
        exact .enter hout hhalted hworld hchannel
    · cases hnext
  | resume timedOut =>
    simp only [Loop.step] at h
    obtain ⟨hwait, hnext⟩ := Option.ite_none_right_eq_some.mp h
    cases hnext
    exact .resume hwait.1

theorem observed_map (os : List Obs) :
    (os.map LoopEvent.observed).filterMap LoopEvent.observed? = os := by
  rw [List.filterMap_map]
  exact List.filterMap_some

theorem LoopStep.world (h : LoopStep settings w L es L') :
    L'.world = L.world ∧ es = [] ∨
      ∃ a os, L.world.step settings a = some (L'.world, os) ∧ es.filterMap LoopEvent.observed? = os := by
  cases h with
  | @commit jobs now _ _ _ world _ =>
    refine Or.inr ⟨_, _, world, ?_⟩
    have hcommitted : (jobs.map (LoopEvent.committed · now)).filterMap LoopEvent.observed? = [] := by
      simp [List.filterMap_map, Function.comp_def, LoopEvent.observed?]
    have hobserved := observed_map (jobs.map fun j => (j.id, .enqueued))
    rw [List.map_map] at hobserved
    rw [List.filterMap_append, hcommitted, List.nil_append]
    exact hobserved
  | other _ world => exact Or.inr ⟨_, _, world, observed_map _⟩
  | @own a _ os _ world =>
    refine Or.inr ⟨_, _, world, ?_⟩
    have hclaims : a.claims.filterMap LoopEvent.observed? = [] := by
      cases a <;> rfl
    rw [List.filterMap_append, hclaims, List.append_nil, observed_map]
  | link => exact Or.inl ⟨rfl, rfl⟩
  | leave _ _ world => exact Or.inr ⟨_, _, world, rfl⟩
  | enter _ _ world _ => exact Or.inr ⟨_, _, world, rfl⟩
  | resume => exact Or.inl ⟨rfl, rfl⟩

end Steps

/-- Every run of the loop is a run of the consumer system. -/
theorem Loop.delivers {settings : Settings} {w : WorkerId} {clock : Time} {tr : List LoopEvent}
    {L : Loop} (h : Transition.Run (Loop.step settings w) (.start clock) tr L) :
    Delivers settings (tr.filterMap LoopEvent.observed?) L.world := by
  apply h.invariant (fun tr L => Delivers settings (tr.filterMap LoopEvent.observed?) L.world) .start
  intro tr L a L' es hrun hstep
  rw [List.filterMap_append]
  rcases (Loop.step_cases hstep).world with ⟨hworld, hes⟩ | ⟨act, os, hworld, hes⟩
  · rw [hworld, hes]
    simpa using hrun
  · rw [hes]
    exact .next hrun hworld

section Pending
variable {settings : Settings} {job : NotificationJob}

theorem RowStep.pending_kept {now : Time} {s : JobStatement} {acts : List LeaseAct}
    {new : Option NotificationJob} (h : RowStep now s (some job) acts new)
    (hpending : job.status = .pending) (hclaim : .claim ∉ acts) : new = some job := by
  cases h with
  | kept _ => rfl
  | claimed _ _ => simp at hclaim
  | reaped _ stale => simp [(stale_iff.mp stale).1] at hpending
  | renewed hrenews =>
    cases s with
    | renewHeartbeat v => simp [(of_decide_eq_true hrenews).2] at hpending
    | _ => cases hrenews
  | finalized _ fenced => simp [(fenced_iff.mp fenced).2.2] at hpending

theorem claim_mem_eventsOf {id : UUID} {rows : List ClaimedJob} {v : WorkerId}
    (h : ∀ n, ((id, .claimed v n) : Obs) ∉ rows.map fun r => (r.id, .claimed v r.attempts)) :
    LeaseAct.claim ∉ Table.eventsOf id (rows.map fun r => (r.id, LeaseAct.claim)) := by
  intro hmem
  rw [Table.mem_eventsOf] at hmem
  obtain ⟨r, hr, heq⟩ := List.mem_map.mp hmem
  obtain ⟨hid, _⟩ := Prod.mk.inj heq
  subst hid
  exact h r.attempts (List.mem_map.mpr ⟨r, hr, rfl⟩)

theorem workerStep_pending {v : WorkerId} {x y : Worker} {t t' : List NotificationJob}
    {a : WorkerAction} {os : List Obs} (hunique : Table.KeyUnique NotificationJob.id t)
    (h : workerStep settings v x t a = some (y, t', os)) {id : UUID}
    (hjob : Table.lookup NotificationJob.id id t = some job) (hpending : job.status = .pending)
    (hclaim : ∀ n, (id, .claimed v n) ∉ os) : Table.lookup NotificationJob.id id t' = some job := by
  cases a with
  | renewHeartbeat now =>
    obtain ⟨_, hnext⟩ := Option.ite_none_left_eq_some.mp h
    cases hnext
    have hrow : RowStep now (.renewHeartbeat v) (Table.lookup NotificationJob.id id t) [] _ :=
      rowStep_renewHeartbeat v id
    rw [hjob] at hrow
    exact hrow.pending_kept hpending (by simp)
  | reap now skip =>
    obtain ⟨_, hnext⟩ := Option.ite_none_right_eq_some.mp h
    cases hnext
    have hrow : RowStep now _ _ _ _ := rowStep_reapStale hunique settings.workerReaperIdleSeconds
      settings.workerReapBatchSize skip id
    rw [hjob] at hrow
    apply hrow.pending_kept hpending
    rw [Table.mem_eventsOf]
    simp
  | claim now skip =>
    obtain ⟨_, hnext⟩ := Option.ite_none_right_eq_some.mp h
    cases hnext
    have hrow : RowStep now _ _ _ _ :=
      rowStep_claimBatch hunique v settings.workerClaimBatchSize skip id
    rw [hjob] at hrow
    exact hrow.pending_kept hpending (claim_mem_eventsOf hclaim)
  | task jobId a =>
    simp only [workerStep] at h
    split at h
    · cases h
    · rename_i task htask
      rcases taskStep_cases h with ⟨rfl, _⟩ | ⟨f, now, _, hwrite, _⟩
      · exact hjob
      · have ht : t' = (f.run task.job.id v now t).1 := by
          have hfirst := congrArg Prod.fst hwrite
          exact hfirst.symm
        have hrow : RowStep now _ _ _ _ := rowStep_finalize hunique f task.job.id v id
        rw [hjob] at hrow
        rw [ht]
        apply hrow.pending_kept hpending
        rw [Table.mem_eventsOf]
        cases f <;> simp [Finalizer.act]
  | _ =>
    have hsame : t' = t := by grind [workerStep]
    rw [hsame]
    exact hjob

theorem World.pending_kept {W W' : World} {a : Action} {os : List Obs} (hW : W.Ok)
    (h : W.step settings a = some (W', os)) {id : UUID}
    (hjob : Table.lookup NotificationJob.id id W.jobs = some job) (hpending : job.status = .pending)
    (hclaim : ∀ v n, (id, .claimed v n) ∉ os) :
    Table.lookup NotificationJob.id id W'.jobs = some job := by
  cases a with
  | enqueue jobs =>
    obtain ⟨_, hnext⟩ := Option.ite_none_right_eq_some.mp h
    cases hnext
    exact Table.lookup_append_of_some hjob
  | worker v a =>
    obtain ⟨x, jobs, hstep, rfl⟩ := World.step_worker h
    exact workerStep_pending hW.unique hstep hjob hpending (hclaim v)

end Pending

def Phase.drains : Phase → Bool
  | .reaping | .checking | .claiming | .processing _ => true
  | _ => false

inductive PhaseStep (settings : Settings) (v : WorkerId) (t : List NotificationJob) (x y : Worker) :
    WorkerAction → Prop
  | same {a : WorkerAction} (phase : y.phase = x.phase) (noClaim : a.claims = []) :
      PhaseStep settings v t x y a
  | ended {a : WorkerAction} (phase : y.phase = .unwinding ∨ y.phase = .exited)
      (noClaim : a.claims = []) : PhaseStep settings v t x y a
  /-- The flags are read at the head of the claim loop. -/
  | cut (busy : x.phase = .checking) (halted : y.halted = true) : PhaseStep settings v t x y .check
  | inside {a : WorkerAction} (busy : x.phase.drains = true)
      (phase : y.phase = .reaping ∨ y.phase = .checking ∨ y.phase = .claiming)
      (noClaim : a.claims = []) : PhaseStep settings v t x y a
  | claimed {now : Time} {skip : UUID → Bool} (busy : x.phase = .claiming)
      (phase : y.phase =
        if (claimBatch v settings.workerClaimBatchSize now skip t).2 = [] then .waiting
        else .processing (claimBatch v settings.workerClaimBatchSize now skip t).2.length) :
      PhaseStep settings v t x y (.claim now skip)
  | joined {n : ℕ} (busy : x.phase = .processing n) (short : n < settings.workerClaimBatchSize)
      (phase : y.phase = .waiting) : PhaseStep settings v t x y .join

section Phases
variable {settings : Settings} {v : WorkerId} {t t' : List NotificationJob} {x y : Worker}
  {a : WorkerAction} {os : List Obs}

theorem workerStep_halted (h : workerStep settings v x t a = some (y, t', os))
    (hactive : y.halted = false) : x.halted = false := by
  cases a with
  | signal =>
    cases h
    simp [Worker.halted] at hactive
  | loseLease =>
    cases h
    simp [Worker.halted] at hactive
  | task jobId a =>
    simp only [workerStep] at h
    split at h
    · cases h
    · rename_i task htask
      have hflags : y.halted = x.halted := by
        have hout : ∃ os, TaskOutcome settings v x task os y := by
          rcases taskStep_cases h with ⟨_, hout⟩ | ⟨_, _, _, _, hout⟩ <;> exact ⟨_, hout⟩
        obtain ⟨_, hout⟩ := hout
        cases hout <;> rfl
      rw [← hflags]
      exact hactive
  | _ => grind [workerStep, Worker.halted]

theorem workerStep_phase (h : workerStep settings v x t a = some (y, t', os))
    (hwake : a ≠ .wake) : PhaseStep settings v t x y a := by
  cases a with
  | wake => exact absurd rfl hwake
  | reap now skip =>
    obtain ⟨hphase, hnext⟩ := Option.ite_none_right_eq_some.mp h
    cases hnext
    refine .inside (by rw [hphase]; rfl) ?_ rfl
    dsimp only
    split_ifs
    · exact Or.inr (Or.inl rfl)
    · exact Or.inl rfl
  | check =>
    obtain ⟨hphase, hnext⟩ := Option.ite_none_right_eq_some.mp h
    cases hnext
    cases hhalted : x.halted with
    | true => exact .cut hphase hhalted
    | false => exact .inside (by rw [hphase]; rfl) (Or.inr (Or.inr (by simp))) rfl
  | claim now skip =>
    obtain ⟨hphase, hnext⟩ := Option.ite_none_right_eq_some.mp h
    cases hnext
    exact .claimed hphase rfl
  | join =>
    simp only [workerStep] at h
    split at h
    · rename_i n hphase
      obtain ⟨_, hnext⟩ := Option.ite_none_right_eq_some.mp h
      cases hnext
      by_cases hshort : n < settings.workerClaimBatchSize
      · exact .joined hphase hshort (by simp [hshort])
      · exact .inside (by rw [hphase]; rfl) (Or.inr (Or.inl (by simp [hshort]))) rfl
    · cases h
  | task jobId a =>
    simp only [workerStep] at h
    split at h
    · cases h
    · rename_i task htask
      have hout : y.phase = x.phase ∨ y.phase = .unwinding := by
        rcases taskStep_cases h with ⟨_, hout⟩ | ⟨_, _, _, _, hout⟩ <;> exact hout.phase
      rcases hout with hsame | hunwinding
      · exact .same hsame rfl
      · exact .ended (Or.inl hunwinding) rfl
  | shutdown =>
    obtain ⟨_, hnext⟩ := Option.ite_none_left_eq_some.mp h
    cases hnext
    exact .ended (Or.inl rfl) rfl
  | crash =>
    cases h
    exact .ended (Or.inr rfl) rfl
  | renewHeartbeat now =>
    obtain ⟨_, hnext⟩ := Option.ite_none_left_eq_some.mp h
    cases hnext
    exact .same rfl rfl
  | _ =>
    cases h
    exact .same rfl rfl

end Phases

def ClaimedIn (id : UUID) (tr : List LoopEvent) : Prop :=
  ∃ v n, .observed (id, .claimed v n) ∈ tr

theorem ClaimedIn.mono {id : UUID} {tr tr' : List LoopEvent} (h : ClaimedIn id tr)
    (hsub : ∀ e ∈ tr, e ∈ tr') : ClaimedIn id tr' := by
  obtain ⟨v, n, hmem⟩ := h
  exact ⟨v, n, hsub _ hmem⟩

/-- A job that nobody has claimed is still the row that was inserted. -/
structure OnRecord (tr : List LoopEvent) (L : Loop) : Prop where
  ok : L.world.Ok
  clock : ∀ job now, .committed job now ∈ tr → now ≤ L.clock
  pending : ∀ job now, .committed job now ∈ tr → job.status = .pending
  kept : ∀ job now, .committed job now ∈ tr → ¬ ClaimedIn job.id tr →
    Table.lookup NotificationJob.id job.id L.world.jobs = some job

section Record
variable {settings : Settings} {w : WorkerId} {L L' : Loop} {tr es : List LoopEvent}

theorem LoopStep.ok (h : LoopStep settings w L es L') (hok : L.world.Ok) : L'.world.Ok := by
  rcases h.world with ⟨hworld, _⟩ | ⟨a, os, hworld, _⟩
  · rw [hworld]
    exact hok
  · exact (World.step_follows hok hworld).1

theorem LoopStep.kept (h : LoopStep settings w L es L') (hok : L.world.Ok) {job : NotificationJob}
    (hjob : Table.lookup NotificationJob.id job.id L.world.jobs = some job)
    (hpending : job.status = .pending) (hclaim : ¬ ClaimedIn job.id es) :
    Table.lookup NotificationJob.id job.id L'.world.jobs = some job := by
  rcases h.world with ⟨hworld, _⟩ | ⟨a, os, hworld, hes⟩
  · rw [hworld]
    exact hjob
  · apply World.pending_kept hok hworld hjob hpending
    intro v n hmem
    rw [← hes] at hmem
    obtain ⟨e, he, hobs⟩ := List.mem_filterMap.mp hmem
    cases e with
    | observed o =>
      cases hobs
      exact hclaim ⟨v, n, he⟩
    | _ => cases hobs

theorem committed_of_mem {jobs : List NotificationJob} {job : NotificationJob} {now now' : Time}
    (h : .committed job now' ∈
      jobs.map (LoopEvent.committed · now) ++ jobs.map fun j => .observed (j.id, .enqueued)) :
    job ∈ jobs ∧ now' = now := by
  rcases List.mem_append.mp h with hmem | hmem
  · obtain ⟨j, hj, heq⟩ := List.mem_map.mp hmem
    cases heq
    exact ⟨hj, rfl⟩
  · obtain ⟨j, _, heq⟩ := List.mem_map.mp hmem
    cases heq

theorem observed_not_committed {a : WorkerAction} {os : List Obs} {job : NotificationJob} {now : Time} :
    .committed job now ∉ os.map LoopEvent.observed ++ a.claims := by
  intro hmem
  rcases List.mem_append.mp hmem with hmem | hmem
  · obtain ⟨o, _, heq⟩ := List.mem_map.mp hmem
    cases heq
  · cases a <;> simp [WorkerAction.claims] at hmem

theorem LoopStep.committed (h : LoopStep settings w L es L') {job : NotificationJob} {now : Time}
    (hmem : .committed job now ∈ es) :
    ∃ jobs, L.clock ≤ now ∧ L'.clock = now ∧ job ∈ jobs ∧ jobs ≠ [] ∧
      jobsViolation L.world.jobs jobs = none ∧ jobs.all NotificationJob.isNew = true ∧
      L'.world.jobs = L.world.jobs ++ jobs ∧ notify jobs L.channel = some L'.channel := by
  cases h with
  | @commit jobs _ _ _ later world notified =>
    obtain ⟨hjob, rfl⟩ := committed_of_mem hmem
    obtain ⟨hnew, hinsert⟩ := Option.ite_none_right_eq_some.mp world
    cases hinsert
    exact ⟨jobs, later, rfl, hjob, List.ne_nil_of_mem hjob, hnew.1, hnew.2, rfl, notified⟩
  | other _ _ => simp at hmem
  | own _ _ => exact (observed_not_committed hmem).elim
  | enter _ _ _ _ => simp at hmem
  | _ => cases hmem

theorem LoopStep.clock (h : LoopStep settings w L es L') : L.clock ≤ L'.clock := by
  cases h with
  | commit later _ _ => exact later
  | _ => exact le_refl _

theorem lookup_inserted {t jobs : List NotificationJob} {job : NotificationJob}
    (hunique : Table.KeyUnique NotificationJob.id t) (h : jobsViolation t jobs = none)
    (hjob : job ∈ jobs) : Table.lookup NotificationJob.id job.id (t ++ jobs) = some job :=
  (keyUnique_insertJobs hunique h).lookup_self (List.mem_append_right t hjob)

theorem OnRecord.step (hr : OnRecord tr L) (h : LoopStep settings w L es L') :
    OnRecord (tr ++ es) L' where
  ok := h.ok hr.ok
  clock job now hmem := by
    rcases List.mem_append.mp hmem with hold | hnew
    · exact le_trans (hr.clock job now hold) h.clock
    · obtain ⟨_, _, hclock, _⟩ := h.committed hnew
      exact le_of_eq hclock.symm
  pending job now hmem := by
    rcases List.mem_append.mp hmem with hold | hnew
    · exact hr.pending job now hold
    · obtain ⟨jobs, _, _, hjob, _, _, hisNew, _⟩ := h.committed hnew
      have hnew := List.all_eq_true.mp hisNew job hjob
      simp only [NotificationJob.isNew, Bool.and_eq_true, beq_iff_eq] at hnew
      exact hnew.1.1
  kept job now hmem hclaim := by
    have hbefore : ¬ ClaimedIn job.id tr :=
      fun hc => hclaim (hc.mono fun e he => List.mem_append_left es he)
    have hafter : ¬ ClaimedIn job.id es :=
      fun hc => hclaim (hc.mono fun e he => List.mem_append_right tr he)
    rcases List.mem_append.mp hmem with hold | hnew
    · exact h.kept hr.ok (hr.kept job now hold hbefore) (hr.pending job now hold) hafter
    · obtain ⟨jobs, _, _, hjob, _, hinsert, _, hjobs, _⟩ := h.committed hnew
      rw [hjobs]
      exact lookup_inserted hr.ok.unique hinsert hjob

theorem onRecord_start (clock : Time) : OnRecord [] (.start clock) where
  ok := .start
  clock _ _ h := nomatch h
  pending _ _ h := nomatch h
  kept _ _ h := nomatch h

end Record

/-- The last claim after the drain began left room in its batch, so it took every due row that the
    others had not locked. -/
def Swept (settings : Settings) (before later : List LoopEvent) : Prop :=
  ∃ between skip rest, later = between ++ .claimBatch skip :: rest ∧ (∀ s, .claimBatch s ∉ rest) ∧
    (0 < settings.workerClaimBatchSize → ∀ job now, .committed job now ∈ before →
      job.nextAttemptAt ≤ now → skip job.id = true ∨ ClaimedIn job.id (before ++ .drain :: between))

def Loop.swept (settings : Settings) (w : WorkerId) (L : Loop) : Prop :=
  L.halted w = false ∧
    ((L.phase w = .waiting ∧ L.inWait = true) ∨
      ∃ n, L.phase w = .processing n ∧ n < settings.workerClaimBatchSize)

structure Drained (settings : Settings) (w : WorkerId) (tr : List LoopEvent) (L : Loop)
    (before later : List LoopEvent) : Prop where
  split : tr = before ++ .drain :: later
  latest : .drain ∉ later
  since : ∀ job now, .committed job now ∈ before → now ≤ L.since
  /-- A commit after `wake.clear()` would wake the loop. -/
  quiet : L.channel.Quiet → ∀ job now, .committed job now ∉ later
  swept : L.swept settings w → Swept settings before later

inductive DrainStage (settings : Settings) (w : WorkerId) (tr : List LoopEvent) (L : Loop) : Prop
  | fresh (restless : ¬ L.channel.Quiet) (out : L.inWait = false)
      (idle : (L.phase w).drains = false)
  | drained {before later : List LoopEvent} (h : Drained settings w tr L before later)

section Drain
variable {settings : Settings} {w : WorkerId} {L L' : Loop} {tr es before later : List LoopEvent}

theorem Swept.extend (h : Swept settings before later) (hes : ∀ s, .claimBatch s ∉ es) :
    Swept settings before (later ++ es) := by
  obtain ⟨between, skip, rest, rfl, hrest, htaken⟩ := h
  refine ⟨between, skip, rest ++ es, by simp, ?_, htaken⟩
  intro s hmem
  rcases List.mem_append.mp hmem with hold | hnew
  · exact hrest s hold
  · exact hes s hnew

theorem Drained.extend (h : Drained settings w tr L before later) (hdrain : .drain ∉ es)
    (hsince : L'.since = L.since)
    (hquiet : L'.channel.Quiet → L.channel.Quiet ∧ ∀ job now, .committed job now ∉ es)
    (hswept : L'.swept settings w → Swept settings before (later ++ es)) :
    Drained settings w (tr ++ es) L' before (later ++ es) where
  split := by simp [h.split]
  latest := by simp [h.latest, hdrain]
  since := by
    rw [hsince]
    exact h.since
  quiet hq job now hmem := by
    obtain ⟨hold, hnone⟩ := hquiet hq
    rcases List.mem_append.mp hmem with hmem | hmem
    · exact h.quiet hold job now hmem
    · exact hnone job now hmem
  swept := hswept

theorem notify_quiet {jobs : List NotificationJob} {c c' : WakeSignal.Channel} (h : notify jobs c = some c')
    (hq : c'.Quiet) : jobs = [] ∧ c' = c := by
  unfold notify at h
  split_ifs at h with hjobs
  · cases h
    exact ⟨hjobs, rfl⟩
  · cases WakeSignal.Channel.clear_of_quiet h hq

theorem swept_world {W : World} (hw : W.worker w = L.world.worker w) {channel : WakeSignal.Channel}
    {clock : Time} (h : Loop.swept settings w { L with world := W, channel := channel, clock := clock }) :
    L.swept settings w := by
  unfold Loop.swept Loop.halted Loop.phase at h ⊢
  rwa [hw] at h

theorem World.step_other {W W' : World} {v : WorkerId} {a : WorkerAction} {os : List Obs}
    (h : W.step settings (.worker v a) = some (W', os)) (hv : v ≠ w) :
    W'.worker w = W.worker w := by
  obtain ⟨x, jobs, _, rfl⟩ := World.step_worker h
  exact Function.update_of_ne (Ne.symm hv) x W.worker

theorem World.step_enqueue {W W' : World} {jobs : List NotificationJob} {os : List Obs}
    (h : W.step settings (.enqueue jobs) = some (W', os)) : W'.worker = W.worker := by
  obtain ⟨_, hnext⟩ := Option.ite_none_right_eq_some.mp h
  cases hnext
  rfl

theorem inLoop_wake {a : WorkerAction} {since : Time} (h : a.inLoop since = true) : a ≠ .wake := by
  rintro rfl
  cases h

/-- The last claim of a drain takes what was committed and due when the drain began. -/
theorem swept_claim {x : Worker} {t t' : List NotificationJob} {now : Time} {skip : UUID → Bool}
    {os : List Obs} (hr : OnRecord tr L) (hd : Drained settings w tr L before later)
    (hjobs : L.world.jobs = t)
    (hclaim : workerStep settings w (L.world.worker w) t (.claim now skip) = some (x, t', os))
    (hsince : L.since ≤ now)
    (hshort : 0 < settings.workerClaimBatchSize →
      (claimBatch w settings.workerClaimBatchSize now skip t).2.length <
        settings.workerClaimBatchSize) :
    Swept settings before (later ++ (os.map .observed ++ [.claimBatch skip])) := by
  refine ⟨later ++ os.map .observed, skip, [], by simp, by simp, ?_⟩
  intro hbatch job now' hmem hdue
  by_contra hnot
  rw [not_or] at hnot
  have hcommitted : .committed job now' ∈ tr := by
    rw [hd.split]
    exact List.mem_append_left _ hmem
  have hunclaimed : ¬ ClaimedIn job.id tr := by
    intro hc
    rw [hd.split] at hc
    refine hnot.2 (hc.mono ?_)
    intro e he
    rw [← List.cons_append, ← List.append_assoc]
    exact List.mem_append_left _ he
  have hrow := hr.kept job now' hcommitted hunclaimed
  rw [hjobs] at hrow
  have hbegan : now' ≤ L.since := hd.since job now' hmem
  have hready : job.due now = true := by
    apply decide_eq_true
    exact ⟨hr.pending job now' hcommitted, hdue.trans (hbegan.trans hsince)⟩
  obtain ⟨row, hmemRow, hid⟩ := claimBatch_takes (v := w) (Table.lookup_mem hrow) hready
    (by simpa using hnot.1) (hshort hbatch)
  obtain ⟨_, hnext⟩ := Option.ite_none_right_eq_some.mp hclaim
  cases hnext
  refine hnot.2 ⟨w, row.attempts, ?_⟩
  rw [← hid]
  apply List.mem_append_right
  apply List.mem_cons_of_mem
  apply List.mem_append_right
  exact List.mem_map.mpr ⟨_, List.mem_map.mpr ⟨row, hmemRow, rfl⟩, rfl⟩

theorem claims_nil {a : WorkerAction} {os : List Obs} (h : a.claims = []) (s : UUID → Bool) :
    .claimBatch s ∉ os.map LoopEvent.observed ++ a.claims := by
  rw [h]
  simp

theorem drain_not_observed {a : WorkerAction} {os : List Obs} :
    .drain ∉ os.map LoopEvent.observed ++ a.claims := by
  cases a <;> simp [WorkerAction.claims]

theorem own_cases {a : WorkerAction} {W : World} {os : List Obs} (hwake : a ≠ .wake)
    (h : L.world.step settings (.worker w a) = some (W, os)) :
    PhaseStep settings w L.world.jobs (L.world.worker w) (W.worker w) a ∧
      ((W.worker w).halted = false → L.halted w = false) := by
  obtain ⟨x, jobs, hstep, rfl⟩ := World.step_worker h
  have hself : (World.mk jobs (Function.update L.world.worker w x)).worker w = x :=
    Function.update_self w x L.world.worker
  rw [hself]
  exact ⟨workerStep_phase hstep hwake, workerStep_halted hstep⟩

/-- A worker outside a drain does not begin one by itself. -/
theorem own_outside {a : WorkerAction} {W : World} {os : List Obs} (hwake : a ≠ .wake)
    (world : L.world.step settings (.worker w a) = some (W, os))
    (idle : (L.phase w).drains = false) :
    (W.worker w).phase.drains = false ∧ L.returned w W = false := by
  obtain ⟨hphase, _⟩ := own_cases hwake world
  unfold Loop.phase at idle
  unfold Loop.returned Loop.phase
  cases hphase with
  | same phase _ =>
    rw [phase]
    refine ⟨idle, ?_⟩
    cases (L.world.worker w).phase <;> rfl
  | ended phase _ => rcases phase with phase | phase <;> simp [phase, Phase.drains]
  | cut busy _ => simp [busy, Phase.drains] at idle
  | inside busy _ _ => simp [busy] at idle
  | claimed busy _ => simp [busy, Phase.drains] at idle
  | joined busy _ _ => simp [busy, Phase.drains] at idle

theorem Drained.own {a : WorkerAction} {W : World} {os : List Obs} (hr : OnRecord tr L)
    (hd : Drained settings w tr L before later) (inLoop : a.inLoop L.since = true)
    (world : L.world.step settings (.worker w a) = some (W, os)) :
    Drained settings w (tr ++ (os.map .observed ++ a.claims))
      { L with world := W, inWait := L.inWait || L.returned w W } before
      (later ++ (os.map .observed ++ a.claims)) := by
  obtain ⟨hphase, hflags⟩ := own_cases (inLoop_wake inLoop) world
  refine hd.extend drain_not_observed rfl (fun hq => ⟨hq, fun _ _ => observed_not_committed⟩) ?_
  intro hswept
  have hactive : L.halted w = false := hflags hswept.1
  have hstage : ((W.worker w).phase = .waiting ∧ (L.inWait || L.returned w W) = true) ∨
      ∃ n, (W.worker w).phase = .processing n ∧ n < settings.workerClaimBatchSize := hswept.2
  cases hphase with
  | same phase noClaim =>
    -- The drain has not returned by this step.
    have hreturned : L.returned w W = false := by
      unfold Loop.returned Loop.phase
      rw [phase]
      cases (L.world.worker w).phase <;> rfl
    rw [hreturned, Bool.or_false, phase] at hstage
    exact (hd.swept ⟨hactive, hstage⟩).extend (claims_nil noClaim)
  | ended phase noClaim =>
    rcases phase with phase | phase <;> simp [phase] at hstage
  | cut busy halted =>
    have hopen : (W.worker w).halted = false := hswept.1
    rw [halted] at hopen
    cases hopen
  | inside busy phase noClaim =>
    rcases phase with phase | phase | phase <;> simp [phase] at hstage
  | @claimed now skip busy phase =>
    obtain ⟨x, jobs, hstep, rfl⟩ := World.step_worker world
    refine swept_claim hr hd rfl hstep (of_decide_eq_true inLoop) ?_
    intro hbatch
    rw [phase] at hstage
    split_ifs at hstage with hnone
    · rw [hnone]
      exact hbatch
    · rcases hstage with ⟨hwaiting, _⟩ | ⟨n, hn, hshort⟩
      · cases hwaiting
      · cases hn
        exact hshort
  | joined busy short phase =>
    have hbefore : L.swept settings w := ⟨hactive, Or.inr ⟨_, busy, short⟩⟩
    exact (hd.swept hbefore).extend (claims_nil rfl)

theorem DrainStage.commit {jobs : List NotificationJob} {now : Time} {W : World}
    {channel : WakeSignal.Channel} (hs : DrainStage settings w tr L)
    (world : L.world.step settings (.enqueue jobs) = some (W, jobs.map fun j => (j.id, .enqueued)))
    (notified : notify jobs L.channel = some channel) :
    DrainStage settings w
      (tr ++ (jobs.map (.committed · now) ++ jobs.map fun j => .observed (j.id, .enqueued)))
      { L with world := W, channel := channel, clock := now } := by
  have hworkers : W.worker w = L.world.worker w := by rw [World.step_enqueue world]
  cases hs with
  | fresh restless out idle =>
    refine .fresh ?_ out ?_
    · intro hq
      obtain ⟨_, hsame⟩ := notify_quiet notified hq
      rw [hsame] at hq
      exact restless hq
    · unfold Loop.phase at idle ⊢
      rw [hworkers]
      exact idle
  | drained hd =>
    refine .drained (hd.extend (by simp) rfl ?_ ?_)
    · intro hq
      obtain ⟨hnil, hsame⟩ := notify_quiet notified hq
      rw [hsame] at hq
      subst hnil
      exact ⟨hq, by simp⟩
    · intro hswept
      exact (hd.swept (swept_world hworkers hswept)).extend (by simp)

theorem DrainStage.other {v : WorkerId} {a : WorkerAction} {W : World} {os : List Obs}
    (hs : DrainStage settings w tr L) (hv : v ≠ w)
    (world : L.world.step settings (.worker v a) = some (W, os)) :
    DrainStage settings w (tr ++ os.map .observed) { L with world := W } := by
  have hworkers : W.worker w = L.world.worker w := World.step_other world hv
  cases hs with
  | fresh restless out idle =>
    refine .fresh restless out ?_
    unfold Loop.phase at idle ⊢
    rw [hworkers]
    exact idle
  | drained hd =>
    refine .drained (hd.extend (by simp) rfl (fun hq => ⟨hq, by simp⟩) ?_)
    intro hswept
    exact (hd.swept (swept_world hworkers hswept)).extend (by simp)

theorem DrainStage.own {a : WorkerAction} {W : World} {os : List Obs} (hr : OnRecord tr L)
    (hs : DrainStage settings w tr L) (inLoop : a.inLoop L.since = true)
    (world : L.world.step settings (.worker w a) = some (W, os)) :
    DrainStage settings w (tr ++ (os.map .observed ++ a.claims))
      { L with world := W, inWait := L.inWait || L.returned w W } := by
  cases hs with
  | drained hd => exact .drained (hd.own hr inLoop world)
  | fresh restless out idle =>
    obtain ⟨hidle, hreturned⟩ := own_outside (inLoop_wake inLoop) world idle
    refine .fresh restless ?_ hidle
    rw [out, hreturned]
    rfl

/-- Only `wake.clear()` can make the channel quiet, so the loop stays restless here. -/
theorem DrainStage.link {a : Act} {channel : WakeSignal.Channel} (hs : DrainStage settings w tr L)
    (ha : a ≠ .clear) (linked : L.channel.step a = some channel) :
    DrainStage settings w (tr ++ []) { L with channel := channel } := by
  have hrestless : ¬ channel.Quiet := fun hq => ha (WakeSignal.Channel.clear_of_quiet linked hq)
  cases hs with
  | fresh _ out idle => exact .fresh hrestless out idle
  | drained hd =>
    refine .drained (hd.extend (by simp) rfl (fun hq => absurd hq hrestless) ?_)
    intro hswept
    exact (hd.swept hswept).extend (by simp)

theorem DrainStage.leave {W : World} (hs : DrainStage settings w tr L) (out : L.inWait = false)
    (halted : L.halted w = true)
    (world : L.world.step settings (.worker w .wake) = some (W, [])) :
    DrainStage settings w (tr ++ []) { L with world := W } := by
  obtain ⟨x, jobs, hstep, rfl⟩ := World.step_worker world
  obtain ⟨_, hnext⟩ := Option.ite_none_right_eq_some.mp hstep
  cases hnext
  have hexited : (L.world.worker w).halted = true := halted
  cases hs with
  | fresh restless _ _ =>
    refine .fresh restless out ?_
    simp [Loop.phase, hexited, Phase.drains]
  | drained hd =>
    refine .drained (hd.extend (by simp) rfl (fun hq => ⟨hq, by simp⟩) ?_)
    intro hswept
    have hopen := hswept.1
    simp only [Loop.halted, Function.update_self] at hopen
    have hflags : (L.world.worker w).halted = false := hopen
    rw [hexited] at hflags
    cases hflags

/-- A new drain begins: everything on the trace was committed before it. -/
theorem DrainStage.enter {W : World} {channel : WakeSignal.Channel} (hr : OnRecord tr L)
    (active : L.halted w = false)
    (world : L.world.step settings (.worker w .wake) = some (W, [])) :
    DrainStage settings w (tr ++ [.drain])
      { L with world := W, channel := channel, since := L.clock } := by
  obtain ⟨x, jobs, hstep, rfl⟩ := World.step_worker world
  obtain ⟨_, hnext⟩ := Option.ite_none_right_eq_some.mp hstep
  cases hnext
  have hopen : (L.world.worker w).halted = false := active
  refine .drained ⟨rfl, by simp, hr.clock, by simp, ?_⟩
  intro hswept
  rcases hswept.2 with ⟨hwaiting, _⟩ | ⟨n, hn, _⟩
  · simp [Loop.phase, hopen] at hwaiting
  · simp [Loop.phase, hopen] at hn

theorem DrainStage.resume (hs : DrainStage settings w tr L) (waits : L.inWait = true) :
    DrainStage settings w (tr ++ []) { L with inWait := false } := by
  cases hs with
  | fresh _ out _ =>
    rw [waits] at out
    cases out
  | drained hd =>
    refine .drained (hd.extend (by simp) rfl (fun hq => ⟨hq, by simp⟩) ?_)
    intro hswept
    have hprocessing : ∃ n, L.phase w = .processing n ∧ n < settings.workerClaimBatchSize := by
      rcases hswept.2 with ⟨_, hin⟩ | hprocessing
      · cases hin
      · exact hprocessing
    exact (hd.swept ⟨hswept.1, Or.inr hprocessing⟩).extend (by simp)

theorem DrainStage.step (hr : OnRecord tr L) (hs : DrainStage settings w tr L)
    (h : LoopStep settings w L es L') : DrainStage settings w (tr ++ es) L' := by
  cases h with
  | commit _ world notified => exact hs.commit world notified
  | other hv world => exact hs.other hv world
  | own inLoop world => exact hs.own hr inLoop world
  | link ha linked => exact hs.link ha linked
  | leave out halted world => exact hs.leave out halted world
  | enter _ active world _ => exact .enter hr active world
  | resume waits => exact hs.resume waits

theorem Loop.invariant {clock : Time}
    (h : Transition.Run (Loop.step settings w) (.start clock) tr L) :
    OnRecord tr L ∧ DrainStage settings w tr L := by
  apply h.invariant (fun tr L => OnRecord tr L ∧ DrainStage settings w tr L)
  · exact ⟨onRecord_start clock, .fresh WakeSignal.Channel.start_not_quiet rfl rfl⟩
  · intro tr L a L' es hinv hstep
    have hcases := Loop.step_cases hstep
    exact ⟨hinv.1.step hcases, hinv.2.step hinv.1 hcases⟩

/-- No wake-up is lost: when nothing is about to wake the loop, no job has been committed since the
    last claim of the last drain, and what was due then is taken or locked by another worker. -/
theorem no_lost_wakeup {clock : Time}
    (h : Transition.Run (Loop.step settings w) (.start clock) tr L) (hblocked : L.Blocked w) :
    ∃ before skip later, tr = before ++ .claimBatch skip :: later ∧ .drain ∈ before ∧
      .drain ∉ later ∧ (∀ s, .claimBatch s ∉ later) ∧ (∀ job now, .committed job now ∉ later) ∧
      (0 < settings.workerClaimBatchSize → ∀ job now, .committed job now ∈ tr →
        job.nextAttemptAt ≤ now → skip job.id = true ∨ ClaimedIn job.id before) := by
  cases (Loop.invariant h).2 with
  | fresh restless _ _ => exact absurd hblocked.quiet restless
  | @drained before later hd =>
    have hquiet := hd.quiet hblocked.quiet
    obtain ⟨between, skip, rest, rfl, hrest, htaken⟩ :=
      hd.swept ⟨hblocked.active, Or.inl ⟨hblocked.waiting, hblocked.inWait⟩⟩
    refine ⟨before ++ .drain :: between, skip, rest, by simp [hd.split], by simp, ?_, hrest, ?_, ?_⟩
    · intro hmem
      exact hd.latest (by simp [hmem])
    · intro job now hmem
      exact hquiet job now (by simp [hmem])
    · intro hbatch job now hmem hdue
      apply htaken hbatch job now _ hdue
      rw [hd.split] at hmem
      rcases List.mem_append.mp hmem with hbefore | hlater
      · exact hbefore
      · rcases List.mem_cons.mp hlater with heq | hlater
        · cases heq
        · exact absurd hlater (hquiet job now)

end Drain

def wokenLoop : List LoopAction :=
  [.link .connect, .enter, .own (.reap 0 fun _ => false), .own .check,
    .own (.claim 0 fun _ => false), .link .register, .link .catchUp, .resume false, .enter,
    .own (.reap 0 fun _ => false), .commit [queuedJob] (seconds 1), .own .check,
    .own (.claim (seconds 2) fun id => id == 500), .link .deliver, .resume false, .enter,
    .own (.reap (seconds 2) fun _ => false), .own .check, .own (.claim (seconds 2) fun _ => false),
    .own (.task 500 .start), .own (.task 500 (.load none)), .own (.task 500 (.send none)),
    .own (.task 500 .push), .own (.task 500 (.finalize (seconds 3) true .returned)), .own .join]

theorem wokenLoop_run :
    ∃ L tr, Transition.Run (Loop.step {} "host:1") (.start 0) tr L ∧ L.Blocked "host:1" ∧
      .observed (500, .claimed "host:1" 1) ∈ tr := by
  have hrun : (Transition.execute (Loop.step {} "host:1") (.start 0) wokenLoop).map
      (fun r => (r.1.halted "host:1", r.1.phase "host:1", r.1.inWait, r.1.channel,
        (r.2.filterMap LoopEvent.observed?).contains (500, .claimed "host:1" 1))) =
        some (false, .waiting, true, ⟨false, .ready, true, 0⟩, true) := by
    decide +kernel
  obtain ⟨L, tr, h, heq⟩ := Transition.execute_map hrun
  simp only [Prod.mk.injEq] at heq
  obtain ⟨hactive, hwaiting, hin, hchannel, hclaimed⟩ := heq
  refine ⟨L, tr, h, ⟨hactive, hwaiting, hin, ?_⟩, ?_⟩
  · rw [hchannel]
    exact ⟨rfl, rfl, rfl, rfl⟩
  · obtain ⟨e, he, hobs⟩ := List.mem_filterMap.mp (List.contains_iff_mem.mp hclaimed)
    cases e with
    | observed o =>
      cases hobs
      exact he
    | _ => cases hobs

theorem no_lost_wakeup_woken :
    ∃ L tr, Transition.Run (Loop.step {} "host:1") (.start 0) tr L ∧
      .observed (500, .claimed "host:1" 1) ∈ tr ∧
      ∃ before skip later, tr = before ++ .claimBatch skip :: later ∧ .drain ∈ before ∧
        ∀ job now, .committed job now ∉ later := by
  obtain ⟨L, tr, h, hblocked, hclaimed⟩ := wokenLoop_run
  obtain ⟨before, skip, later, htr, hdrain, _, _, hnone, _⟩ := no_lost_wakeup h hblocked
  exact ⟨L, tr, h, hclaimed, before, skip, later, htr, hdrain, hnone⟩

end Hefest
