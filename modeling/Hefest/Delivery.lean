import Hefest.Lib.LeaseCounts
import Hefest.DeliveryRefinement

set_option autoImplicit false

namespace Hefest

inductive Outcome (settings : Settings) (attempts : ℕ) : Finalizer → List Note → Prop
  | completed : Outcome settings attempts .markCompleted [.sendStarted, .returned]
  | permanent {xs : List Note} {message : String} (before : xs = [] ∨ xs = [.sendStarted]) :
      Outcome settings attempts (.markFailed message) (xs ++ [.permanentError])
  | exhausted {xs : List Note} {message : String} (before : xs = [] ∨ xs = [.sendStarted])
      (last : settings.workerMaxAttempts ≤ attempts) :
      Outcome settings attempts (.markFailed message) (xs ++ [.transientError])
  | retry {xs : List Note} {message : String} {delay : ℤ}
      (before : xs = [] ∨ xs = [.sendStarted]) (left : attempts < settings.workerMaxAttempts) :
      Outcome settings attempts (.markRetry message delay) (xs ++ [.transientError])

inductive Recorded (settings : Settings) (attempts : ℕ) : List Note → TaskState → Prop
  | queued : Recorded settings attempts [] .queued
  | loading : Recorded settings attempts [] .loading
  | sending : Recorded settings attempts [.sendStarted] .sending
  | pushing : Recorded settings attempts [.sendStarted, .returned] .pushing
  | finalizing {f : Finalizer} {xs : List Note} (h : Outcome settings attempts f xs) (k : ℕ) :
      Recorded settings attempts xs (.finalizing f k)
  | interrupted {f : Finalizer} {xs : List Note} (h : Outcome settings attempts f xs) :
      Recorded settings attempts xs (.cancelled (some f))
  | abandoned {xs : List Note} (h : xs <+: [.sendStarted, .returned]) :
      Recorded settings attempts xs (.cancelled none)

section Records
variable {settings : Settings} {n : ℕ} {xs : List Note} {s s' : TaskState} {x : Option Note}

theorem onFailure_outcome {job : ClaimedJob} {failure : Failure} {f : Finalizer} {note : Note}
    (h : onFailure settings job failure = some (f, note)) (hxs : xs = [] ∨ xs = [.sendStarted]) :
    Outcome settings job.attempts f (xs ++ [note]) := by
  cases failure with
  | permanentError message =>
    cases h
    exact .permanent hxs
  | transientError message =>
    simp only [onFailure] at h
    split_ifs at h with hlast
    · cases h
      exact .exhausted hxs hlast
    · cases h
      exact .retry hxs (by omega)
  | other => cases h

theorem Recorded.move (h : Recorded settings n xs s) (hm : Move settings n s x s') :
    Recorded settings n (xs ++ x.toList) s' := by
  cases hm with
  | start =>
    cases h
    exact .loading
  | rendered =>
    cases h
    exact .sending
  | sent =>
    cases h
    exact .pushing
  | failed stage latest handled =>
    subst latest
    apply Recorded.finalizing
    apply onFailure_outcome handled
    rcases stage with rfl | rfl
    · cases h
      exact Or.inl rfl
    · cases h
      exact Or.inr rfl
  | pushed =>
    cases h
    exact .finalizing .completed 1
  | again f k =>
    rw [Option.toList_none, List.append_nil]
    cases h with
    | finalizing hout => exact .finalizing hout (k + 1)
  | cancel =>
    rw [Option.toList_none, List.append_nil]
    cases h with
    | finalizing hout => exact .interrupted hout
    | interrupted hout => exact .interrupted hout
    | abandoned hprefix => exact .abandoned hprefix
    | queued => exact .abandoned (by decide)
    | loading => exact .abandoned (by decide)
    | sending => exact .abandoned (by decide)
    | pushing => exact .abandoned (by decide)

theorem recorded (h : (deliveryWork settings).Does n xs s) : Recorded settings n xs s := by
  induction h with
  | start => exact .queued
  | move _ hm ih => exact ih.move hm

theorem Recorded.outcome (h : Recorded settings n xs s) {v : Option Verdict}
    (hs : s.finish = some v) : ∃ f, f.verdict = v ∧ Outcome settings n f xs := by
  cases h with
  | finalizing hout => exact ⟨_, Option.some.inj hs, hout⟩
  | interrupted hout => exact ⟨_, Option.some.inj hs, hout⟩
  | _ => cases hs

/-- One claim starts at most one send, so at most one returns. -/
theorem Outcome.once {f : Finalizer} (h : Outcome settings n f xs) (y : Note) : xs.count y ≤ 1 := by
  cases h with
  | completed => cases y <;> decide
  | permanent before =>
    rcases before with rfl | rfl <;> cases y <;> decide
  | exhausted before =>
    rcases before with rfl | rfl <;> cases y <;> decide
  | retry before =>
    rcases before with rfl | rfl <;> cases y <;> decide

theorem Recorded.once (h : Recorded settings n xs s) (y : Note) : xs.count y ≤ 1 := by
  cases h with
  | finalizing hout => exact hout.once y
  | interrupted hout => exact hout.once y
  | abandoned hprefix =>
    have hle : xs.count y ≤ [Note.sendStarted, Note.returned].count y :=
      hprefix.sublist.count_le y
    have hone : [Note.sendStarted, Note.returned].count y ≤ 1 := by
      cases y <;> decide
    omega
  | _ => cases y <;> decide

theorem deliveryWork_once (y : Note) : ∀ n xs s, (deliveryWork settings).Does n xs s → xs.count y ≤ 1 := by
  intro n xs s h
  exact (recorded h).once y

/-- A claim that gives its job back has not used up the attempts, and no send of it returned. -/
theorem Outcome.retried {f : Finalizer} (h : Outcome settings n f xs) (hf : f.verdict = none) :
    (n : ℤ) < settings.workerMaxAttempts ∧ .returned ∉ xs := by
  cases h with
  | retry before left =>
    refine ⟨left, ?_⟩
    rcases before with rfl | rfl <;> decide
  | _ => cases hf

def Verdict.Backed (settings : Settings) (attempts : ℕ) : Verdict → Option Note → Prop
  | .completed, last => last = some .returned
  | .failed, last => last = some .permanentError ∨
      (last = some .transientError ∧ settings.workerMaxAttempts ≤ attempts)

theorem Outcome.backed {f : Finalizer} (h : Outcome settings n f xs) {v : Verdict}
    (hf : f.verdict = some v) : v.Backed settings n xs.getLast? := by
  cases h with
  | completed =>
    cases hf
    rfl
  | permanent =>
    cases hf
    exact Or.inl List.getLast?_concat
  | exhausted _ last =>
    cases hf
    exact Or.inr ⟨List.getLast?_concat, last⟩
  | retry => cases hf

end Records

def Obs.about (id : UUID) (p : LeaseEvent → Bool) (o : Obs) : Bool := decide (o.1 = id) && p o.2

theorem countP_project (id : UUID) (p : LeaseEvent → Bool) (tr : List Obs) :
    (project id tr).countP p = tr.countP (Obs.about id p) := by
  unfold project
  rw [List.countP_filterMap]
  apply List.countP_congr
  intro o _
  by_cases ho : o.1 = id <;> simp [Obs.about, ho]

theorem countP_about_le_one {K : Type} [DecidableEq K] {f : LeaseEvent → Option K} {id : UUID}
    {tr : List Obs} (h : ((project id tr).filterMap f).Nodup) (k : K) :
    tr.countP (Obs.about id fun e => f e == some k) ≤ 1 := by
  rw [← countP_project, ← List.count_filterMap]
  exact List.nodup_iff_count_le_one.mp h k

def verifyJob : NotificationJob := newJob ⟨fun n => n, fun _ => 500⟩ 0 0 none .emailVerify {} 600

def startSend (w : WorkerId) (now : Time) : List Action :=
  [.wake, .reap now (fun _ => false), .check, .claim now (fun _ => false), .task 500 .start,
    .task 500 (.load none)].map (.worker w)

def finishSend (w : WorkerId) (now : Time) : List Action :=
  [.task 500 (.send none), .task 500 .push, .task 500 (.finalize now true .returned)].map (.worker w)

def resent : List Action :=
  .enqueue [verifyJob] :: startSend "host:1" (seconds 1) ++
    [.worker "host:1" (.task 500 (.send none)), .worker "host:1" .crash] ++
    startSend "host:2" (seconds 1000) ++ finishSend "host:2" (seconds 1001)

def resentTrace : List Obs :=
  [.enqueued, .claimed "host:1" 1, .noted "host:1" 1 .sendStarted, .noted "host:1" 1 .returned,
    .reclaimed 1, .claimed "host:2" 2, .noted "host:2" 2 .sendStarted, .noted "host:2" 2 .returned,
    .landed "host:2" 2 2 (some .completed)].map (Prod.mk 500)

theorem resent_delivers : ∃ W, Delivers {} resentTrace W ∧ W.jobs.map (·.status) = [.completed] := by
  have hrun : (Transition.execute (World.step {}) {} resent).map
      (fun r => (r.2, r.1.jobs.map (·.status))) = some (resentTrace, [.completed]) := by
    decide +kernel
  obtain ⟨W, tr, hdelivers, heq⟩ := Transition.execute_map hrun
  obtain ⟨rfl, hstatus⟩ := Prod.mk.inj heq
  exact ⟨W, hdelivers, hstatus⟩

def crashing : List Action :=
  .enqueue [verifyJob] ::
    [("host:1", 1), ("host:2", 1000), ("host:3", 2000), ("host:4", 3000)].flatMap fun (w, now) =>
      startSend w (seconds now) ++ [.worker w .crash]

section Fence
variable {settings : Settings} {tr : List Obs} {W : World}

theorem finalizer_changes {f : Finalizer} {id : UUID} {w : WorkerId} {now : Time}
    {t : List NotificationJob} (h : (f.run id w now t).1 ≠ t) :
    ∃ job ∈ t, job.fenced id w = true := by
  by_contra hnone
  apply h
  unfold Finalizer.run Table.updateWhere
  conv_rhs => rw [← List.map_id t]
  apply List.map_congr_left
  intro job hjob
  have hrefused : job.fenced id w ≠ true := fun hf => hnone ⟨job, hjob, hf⟩
  rw [if_neg hrefused]
  rfl

theorem Delivers.ok (h : Delivers settings tr W) : W.Ok := (delivers_follows .start h).1

theorem Delivers.lookup (h : Delivers settings tr W) {job : NotificationJob} (hjob : job ∈ W.jobs) :
    (W.lease job.id).row = some job.lease := by
  change (Table.lookup NotificationJob.id job.id W.jobs).map NotificationJob.lease = _
  rw [h.ok.unique.lookup_self hjob]
  rfl

/-- A finalizer that changes a row acts for the latest claim of its job, and every claim is ended
    by at most one row change. -/
theorem finalizer_ends_latest_claim (h : Delivers settings tr W) (id : UUID) :
    (∀ (w : WorkerId) (task : Task) (f : Finalizer) (now : Time),
      (W.worker w).task? id = some task → (f.run id w now W.jobs).1 ≠ W.jobs →
      ∃ job ∈ W.jobs, job.id = id ∧ job.attempts = task.job.attempts) ∧
    (∀ w n m r, (id, .landed w n m r) ∈ tr → n = m) ∧
    (∀ n, tr.countP (Obs.about id fun e => e.claim? == some n) ≤ 1) ∧
    ∀ n, tr.countP (Obs.about id fun e => e.end? == some n) ≤ 1 := by
  have hruns := delivers_runs h id
  refine ⟨?_, ?_, ?_, ?_⟩
  · intro w task f now htask hchanges
    obtain ⟨job, hjob, hfenced⟩ := finalizer_changes hchanges
    obtain ⟨hid, hholder, hstatus⟩ := of_decide_eq_true hfenced
    subst hid
    have hlease : (W.lease job.id).task w = some (task.job.attempts, task.state) := by
      simp [World.lease, htask, Task.lease]
    have hheld : job.lease.status = .held := by
      simp [NotificationJob.lease, hstatus, JobStatus.lease]
    have hlatest := hruns.sound.latest _ w _ _ (h.lookup hjob) hlease hheld hholder
    exact ⟨job, hjob, rfl, hlatest.symm⟩
  · intro w n m r hmem
    exact (hruns.told.landed w n m r ((mem_project id).mpr hmem)).1
  · intro n
    apply countP_about_le_one
    change (Lease.claims (project id tr)).Nodup
    cases hrow : (W.lease id).row with
    | none =>
      rw [hruns.counted.absent hrow]
      exact List.nodup_nil
    | some row =>
      rw [hruns.counted.claims row hrow]
      exact List.nodup_range'
  · intro n
    apply countP_about_le_one
    exact hruns.counted.nodup

end Fence

theorem finalizer_ends_latest_claim_resent :
    (∀ w n m r, ((500 : UUID), .landed w n m r) ∈ resentTrace → n = m) ∧
      (∀ n, resentTrace.countP (Obs.about 500 fun e => e.claim? == some n) ≤ 1) ∧
      ∀ n, resentTrace.countP (Obs.about 500 fun e => e.end? == some n) ≤ 1 := by
  obtain ⟨W, h, _⟩ := resent_delivers
  exact (finalizer_ends_latest_claim h 500).2

/-- The sends of a job that return are at most one more than its reclaims. -/
theorem returned_le_reclaimed {settings : Settings} {tr : List Obs} {W : World}
    (h : Delivers settings tr W) (id : UUID) :
    tr.countP (Obs.about id (Lease.Event.isNote .returned)) ≤
      1 + tr.countP (Obs.about id Lease.Event.isReclaim) := by
  rw [← countP_project, ← countP_project]
  apply (delivers_runs h id).notes_le_reclaims (deliveryWork_once .returned)
  intro n xs s hdoes hfinish
  obtain ⟨f, hf, hout⟩ := (recorded hdoes).outcome hfinish
  exact (hout.retried hf).2

theorem returned_le_reclaimed_resent :
    resentTrace.countP (Obs.about 500 (Lease.Event.isNote .returned)) = 2 ∧
      resentTrace.countP (Obs.about 500 (Lease.Event.isNote .returned)) ≤
        1 + resentTrace.countP (Obs.about 500 Lease.Event.isReclaim) := by
  obtain ⟨W, h, _⟩ := resent_delivers
  exact ⟨by decide +kernel, returned_le_reclaimed h 500⟩

def reapsFresh (settings : Settings) (W : World) : Action → Bool
  | .worker _ (.reap now skip) =>
    (reapable settings.workerReaperIdleSeconds settings.workerReapBatchSize now skip W.jobs).all
      fun job => decide ((job.attempts : ℤ) < settings.workerMaxAttempts)
  | _ => true

section Attempts
variable {settings : Settings} {W W' : World} {tr os : List Obs}

theorem TaskOutcome.not_reclaimed {w : WorkerId} {x y : Worker} {task : Task} {id : UUID} {n : ℕ}
    (h : TaskOutcome settings w x task os y) : (id, .reclaimed n) ∉ os := by
  cases h with
  | @moved note => cases note <;> simp
  | ended => simp
  | raised => simp

theorem step_reclaimed {a : Action} {id : UUID} {n : ℕ} (h : W.step settings a = some (W', os))
    (hmem : (id, .reclaimed n) ∈ os) :
    ∃ w now skip, a = .worker w (.reap now skip) ∧
      ∃ job ∈ reapable settings.workerReaperIdleSeconds settings.workerReapBatchSize now skip W.jobs,
        job.attempts = n := by
  cases a with
  | enqueue jobs =>
    obtain ⟨_, hnext⟩ := Option.ite_none_right_eq_some.mp h
    cases hnext
    simp at hmem
  | worker w a =>
    simp only [World.step] at h
    split at h
    · cases h
    · rename_i x jobs' os' hstep
      cases h
      cases a with
      | reap now skip =>
        obtain ⟨_, hnext⟩ := Option.ite_none_right_eq_some.mp hstep
        cases hnext
        obtain ⟨job, hjob, heq⟩ := List.mem_map.mp hmem
        obtain ⟨_, hn⟩ := Prod.mk.inj heq
        exact ⟨w, now, skip, rfl, job, hjob, Lease.Event.reclaimed.inj hn⟩
      | claim now skip =>
        obtain ⟨_, hnext⟩ := Option.ite_none_right_eq_some.mp hstep
        cases hnext
        simp at hmem
      | task jobId a =>
        simp only [workerStep] at hstep
        split at hstep
        · cases hstep
        · rename_i task htask
          rcases taskStep_cases hstep with ⟨_, hout⟩ | ⟨f, now, _, hwrite, _⟩
          · exact absurd hmem hout.not_reclaimed
          · have hos : os = (runFinalizer f task.job w now W.jobs).2 := by rw [hwrite]
            rw [hos] at hmem
            unfold runFinalizer at hmem
            dsimp only at hmem
            split at hmem <;> simp at hmem
      | _ =>
        have hquiet : os = [] := by grind [workerStep]
        rw [hquiet] at hmem
        cases hmem

theorem reclaimed_fresh
    (h : Transition.RunIf (World.step settings) (fun W a => reapsFresh settings W a = true) {} tr W)
    {id : UUID} {n : ℕ} (hmem : (id, .reclaimed n) ∈ tr) : (n : ℤ) < settings.workerMaxAttempts := by
  induction h with
  | start => cases hmem
  | next _ hfresh hs ih =>
    rcases List.mem_append.mp hmem with hold | hnew
    · exact ih hold
    · obtain ⟨w, now, skip, rfl, job, hjob, rfl⟩ := step_reclaimed hs hnew
      exact of_decide_eq_true (List.all_eq_true.mp hfresh job hjob)

/-- With every reap fresh, no job is sent more often than it may be attempted. -/
theorem sends_le_max_attempts (hmax : 1 ≤ settings.workerMaxAttempts)
    (h : Transition.RunIf (World.step settings) (fun W a => reapsFresh settings W a = true) {} tr W)
    (id : UUID) :
    (tr.countP (Obs.about id (Lease.Event.isNote .sendStarted)) : ℤ) ≤
      settings.workerMaxAttempts := by
  have hruns := delivers_runs h.run id
  have hsends : tr.countP (Obs.about id (Lease.Event.isNote .sendStarted)) ≤
      (Lease.claims (project id tr)).length := by
    rw [← countP_project]
    exact hruns.notes_le_claims (deliveryWork_once .sendStarted)
  have hclaims : (Lease.claims (project id tr)).length ≤ settings.workerMaxAttempts.toNat := by
    apply hruns.claims_le (by omega)
    · intro n hmem
      have hlt := reclaimed_fresh h ((mem_project id).mp hmem)
      omega
    · intro w n m hmem
      obtain ⟨_, xs, s, _, hdoes, hfinish⟩ := hruns.told.landed w n m none hmem
      obtain ⟨f, hf, hout⟩ := (recorded hdoes).outcome hfinish
      have hlt := (hout.retried hf).1
      omega
  omega

theorem sends_le_max_attempts_resent :
    (1 : ℤ) ≤ ({} : Settings).workerMaxAttempts ∧
      (resentTrace.countP (Obs.about 500 (Lease.Event.isNote .sendStarted)) : ℤ) ≤
        ({} : Settings).workerMaxAttempts := by
  have hrun : (Transition.execute
      (fun W a => if reapsFresh {} W a then World.step {} W a else none) {} resent).map Prod.snd =
      some resentTrace := by
    decide +kernel
  obtain ⟨W, tr, h, htr⟩ := Transition.execute_map hrun
  obtain rfl : tr = resentTrace := htr
  exact ⟨by decide, sends_le_max_attempts (by decide) h.runIf 500⟩

theorem crashing_sends_four_times :
    ∃ tr W, Delivers {} tr W ∧ ({} : Settings).workerMaxAttempts = 3 ∧
      tr.countP (Obs.about 500 (Lease.Event.isNote .sendStarted)) = 4 := by
  have hrun : (Transition.execute (World.step {}) {} crashing).map
      (fun r => r.2.countP (Obs.about 500 (Lease.Event.isNote .sendStarted))) = some 4 := by
    decide +kernel
  obtain ⟨W, tr, h, hcount⟩ := Transition.execute_map hrun
  exact ⟨tr, W, h, rfl, hcount⟩

end Attempts

section Terminal
variable {settings : Settings} {tr : List Obs} {W : World}

theorem Delivers.backed (h : Delivers settings tr W) {job : NotificationJob} (hjob : job ∈ W.jobs)
    {v : Verdict} (hstatus : job.status.lease = .closed v) :
    ∃ w tr₁ tr₂, tr = tr₁ ++ (job.id, .landed w job.attempts job.attempts (some v)) :: tr₂ ∧
      ∃ last, (Lease.notes job.attempts (project job.id tr₁)).getLast? = some (w, last) ∧
        v.Backed settings job.attempts (some last) := by
  have hruns := delivers_runs h job.id
  obtain ⟨w, hland⟩ := hruns.counted.closed _ v (h.lookup hjob) hstatus
  obtain ⟨tr₁, tr₂, htr⟩ := List.append_of_mem ((mem_project job.id).mp hland)
  refine ⟨w, tr₁, tr₂, htr, ?_⟩
  have hproject : project job.id tr = project job.id tr₁ ++
      .landed w job.attempts job.attempts (some v) :: project job.id tr₂ := by
    rw [htr, ← List.singleton_append, project_append, project_append, project_singleton,
      if_pos rfl]
    rfl
  obtain ⟨xs, s, hxs, hdoes, hfinish⟩ := hruns.landed_before hproject
  obtain ⟨f, hf, hout⟩ := (recorded hdoes).outcome hfinish
  have hbacked := hout.backed hf
  rw [hxs, List.getLast?_map]
  cases hlast : xs.getLast? with
  | none =>
    rw [hlast] at hbacked
    cases v with
    | completed => cases hbacked
    | failed => simp [Verdict.Backed] at hbacked
  | some last =>
    rw [hlast] at hbacked
    exact ⟨last, rfl, hbacked⟩

theorem JobStatus.lease_injective : Function.Injective JobStatus.lease := by
  intro a b h
  cases a <;> cases b <;> first | rfl | cases h

theorem World.mem_of_row {id : UUID} {row : Lease.Row WorkerId Verdict}
    (h : (W.lease id).row = some row) : ∃ job ∈ W.jobs, job.id = id ∧ job.lease = row := by
  obtain ⟨job, hjob, hlease⟩ := Option.map_eq_some_iff.mp h
  exact ⟨job, Table.lookup_mem hjob, Table.lookup_key hjob, hlease⟩

theorem Delivers.kept (h : Delivers settings tr W) {tr' : List Obs} {W' : World}
    (h' : Transition.Run (World.step settings) W tr' W') {job : NotificationJob}
    (hjob : job ∈ W.jobs) :
    ∃ job' ∈ W'.jobs, job'.id = job.id ∧
      (job.status = .completed ∨ job.status = .failed → job'.status = job.status) := by
  have hruns := (delivers_follows h.ok h').2 job.id
  have hrow := h.lookup hjob
  cases hrow' : (W'.lease job.id).row with
  | none =>
    have hpresent : (W.lease job.id).row ≠ none := by
      rw [hrow]
      exact Option.some_ne_none _
    exact absurd hrow' (hruns.kept hpresent)
  | some row =>
    obtain ⟨job', hjob', hid, hlease⟩ := World.mem_of_row hrow'
    refine ⟨job', hjob', hid, ?_⟩
    intro hclosed
    have hverdict : ∃ v, job.lease.status = .closed v := by
      rcases hclosed with hstatus | hstatus
      · exact ⟨.completed, congrArg JobStatus.lease hstatus⟩
      · exact ⟨.failed, congrArg JobStatus.lease hstatus⟩
    obtain ⟨v, hv⟩ := hverdict
    have hsame : row = job.lease := by
      rw [hruns.closed hrow hv] at hrow'
      exact (Option.some.inj hrow').symm
    rw [hsame] at hlease
    exact JobStatus.lease_injective (congrArg Lease.Row.status hlease)

/-- What the status of a job says about its last claim, and that it stays. -/
theorem terminal_states_truthful (h : Delivers settings tr W) :
    (∀ job ∈ W.jobs, job.status = .completed → ∃ w tr₁ tr₂,
      tr = tr₁ ++ (job.id, .landed w job.attempts job.attempts (some .completed)) :: tr₂ ∧
      (Lease.notes job.attempts (project job.id tr₁)).getLast? = some (w, .returned)) ∧
    (∀ job ∈ W.jobs, job.status = .failed → ∃ w tr₁ tr₂ last,
      tr = tr₁ ++ (job.id, .landed w job.attempts job.attempts (some .failed)) :: tr₂ ∧
      (Lease.notes job.attempts (project job.id tr₁)).getLast? = some (w, last) ∧
      (last = .permanentError ∨
        (last = .transientError ∧ settings.workerMaxAttempts ≤ job.attempts))) ∧
    (∀ id, (id, .enqueued) ∈ tr → ∃ job ∈ W.jobs, job.id = id) ∧
    ∀ tr' W', Transition.Run (World.step settings) W tr' W' → ∀ job ∈ W.jobs,
      ∃ job' ∈ W'.jobs, job'.id = job.id ∧
        (job.status = .completed ∨ job.status = .failed → job'.status = job.status) := by
  refine ⟨?_, ?_, ?_, ?_⟩
  · intro job hjob hstatus
    obtain ⟨w, tr₁, tr₂, htr, last, hlast, hbacked⟩ :=
      h.backed hjob (v := .completed) (congrArg JobStatus.lease hstatus)
    cases hbacked
    exact ⟨w, tr₁, tr₂, htr, hlast⟩
  · intro job hjob hstatus
    obtain ⟨w, tr₁, tr₂, htr, last, hlast, hbacked⟩ :=
      h.backed hjob (v := .failed) (congrArg JobStatus.lease hstatus)
    refine ⟨w, tr₁, tr₂, last, htr, hlast, ?_⟩
    rcases hbacked with hpermanent | ⟨htransient, hmax⟩
    · exact Or.inl (Option.some.inj hpermanent)
    · exact Or.inr ⟨Option.some.inj htransient, hmax⟩
  · intro id hmem
    have hruns := delivers_runs h id
    have hevent := (mem_project id).mpr hmem
    cases hrow : (W.lease id).row with
    | none =>
      rw [hruns.counted.absent hrow] at hevent
      cases hevent
    | some row =>
      obtain ⟨job, hjob, hid, _⟩ := World.mem_of_row hrow
      exact ⟨job, hjob, hid⟩
  · intro tr' W' h' job hjob
    exact h.kept h' hjob

theorem terminal_states_truthful_resent :
    ∃ W, Delivers {} resentTrace W ∧ W.jobs.map (·.status) = [.completed] ∧
      ∀ job ∈ W.jobs, job.status = .completed → ∃ w tr₁ tr₂,
        resentTrace =
          tr₁ ++ (job.id, .landed w job.attempts job.attempts (some .completed)) :: tr₂ ∧
        (Lease.notes job.attempts (project job.id tr₁)).getLast? = some (w, .returned) := by
  obtain ⟨W, h, hstatus⟩ := resent_delivers
  exact ⟨W, h, hstatus, (terminal_states_truthful h).1⟩

end Terminal
end Hefest
