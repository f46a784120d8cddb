import Hefest.Custody
import Hefest.Delivery
import Hefest.JobContract

set_option autoImplicit false

/-!
# The site: the API and the workers over one database

Requests are served one after the other, each to its end; the statements of the workers come
anywhere in between. `recipients.load` is two statements, so that the user and the event of an e-mail
may be read from two databases. What a load returns or raises is computed; how a send ends is up to
the mail server.
-/
namespace Hefest
open Transition Recipients Templates

/-- The state between two requests, or two statements of workers: requests run one after the other,
    and none of them fails half-way. -/
structure Site where
  db : Database
  worker : WorkerId → Worker := fun _ => {}
  /-- The database as the first statement of a load has seen it. -/
  read : WorkerId → UUID → Option Database := fun _ _ => none

def Site.world (S : Site) : World := ⟨S.db.notificationJobs, S.worker⟩

inductive SiteAction
  | request (c : ApiCall)
  /-- The first statement of `recipients.load`. -/
  | selectUser (workerId : WorkerId) (jobId : UUID)
  /-- The rest of the load and the rendering; `now` is when a verification link is minted. -/
  | load (workerId : WorkerId) (jobId : UUID) (now : Time)
  | worker (workerId : WorkerId) (a : WorkerAction)

structure Mail where
  jobId : UUID
  attempts : ℕ
  address : String
  content : EmailContent
deriving DecidableEq

inductive SiteEvent
  | lease (o : Obs)
  | mail (m : Mail)
deriving DecidableEq

def SiteEvent.lease? : SiteEvent → Option Obs
  | .lease o => some o
  | .mail _ => none

def SiteEvent.mail? : SiteEvent → Option Mail
  | .lease _ => none
  | .mail m => some m

def leases (tr : List SiteEvent) : List Obs := tr.filterMap SiteEvent.lease?

def mails (tr : List SiteEvent) : List Mail := tr.filterMap SiteEvent.mail?

/-- A load that has read its rows. Only an exception of another kind is up to the environment. -/
def WorkerAction.loads : WorkerAction → Bool
  | .task _ (.load none) | .task _ (.load (some (.permanentError _)))
  | .task _ (.load (some (.transientError _))) => true
  | _ => false

def Site.work (settings : Settings) (S : Site) (w : WorkerId) (a : WorkerAction) :
    Option (Site × List SiteEvent) :=
  (S.world.step settings (.worker w a)).map fun r =>
    ({ S with db := { S.db with notificationJobs := r.1.jobs }, worker := r.1.worker },
      r.2.map .lease)

section Step
variable (settings : Settings) (accounts : AccountLib) (lib : TokenLib)

def Site.step (S : Site) : SiteAction → Option (Site × List SiteEvent)
  | .request c =>
    let db := handle settings accounts lib c S.db
    some ({ S with db := db }, (db.notificationJobs.drop S.db.notificationJobs.length).map
      fun j => .lease (j.id, .enqueued))
  | .selectUser w jobId =>
    if ((S.worker w).task? jobId).map Task.state = some .loading then
      some ({ S with
        read := fun v id => if v = w ∧ id = jobId then some S.db else S.read v id }, [])
    else none
  | .load w jobId now =>
    match (S.worker w).task? jobId, S.read w jobId with
    | some task, some users =>
      match prepare settings accounts users S.db now task.job with
      | .ok (recipient, content) =>
        (S.work settings w (.task jobId (.load none))).map fun r =>
          (r.1, r.2 ++ [.mail ⟨jobId, task.job.attempts, recipient.user.email, content⟩])
      | .error failure => S.work settings w (.task jobId (.load (some failure)))
    | _, _ => none
  | .worker w a => if a.loads then none else S.work settings w a

/-- Runs from a database in which nobody has registered for anything yet. -/
abbrev Serves (db₀ : Database) (tr : List SiteEvent) (S : Site) : Prop :=
  Run (Site.step settings accounts lib) { db := db₀ } tr S

end Step

structure Message where
  id : UUID
  eventId : Option UUID
  eventType : EventType
  payload : Payload
  idempotencyKey : IdempotencyKey

def NotificationJob.message (j : NotificationJob) : Message :=
  ⟨j.id, j.eventId, j.eventType, j.payload, j.idempotencyKey⟩

def ClaimedJob.CopyOf (job : ClaimedJob) (j : NotificationJob) : Prop :=
  job.id = j.id ∧ job.eventType = j.eventType ∧ job.payload = j.payload

theorem ClaimedJob.CopyOf.of_message {job : ClaimedJob} {j j' : NotificationJob}
    (h : job.CopyOf j) (hsame : j'.message = j.message) : job.CopyOf j' := by
  obtain ⟨hid, _, htype, hpayload, _⟩ := Message.mk.inj hsame
  exact ⟨h.1.trans hid.symm, h.2.1.trans htype.symm, h.2.2.trans hpayload.symm⟩

section Worker
variable {settings : Settings} {w : WorkerId} {x y : Worker} {task : Task}
  {jobs jobs' : List NotificationJob} {os : List Obs}

theorem runFinalizer_messages (f : Finalizer) (job : ClaimedJob) (now : Time) :
    (runFinalizer f job w now jobs).1.map NotificationJob.message =
      jobs.map NotificationJob.message := by
  apply Table.map_updateWhere
  intro j
  cases f <;> rfl

theorem TaskOutcome.tasks (h : TaskOutcome settings w x task os y) {t : Task} (ht : t ∈ y.tasks) :
    ∃ t₀ ∈ x.tasks, t₀.job = t.job := by
  cases h with
  | moved =>
    rcases Table.mem_update.mp ht with ⟨hold, _⟩ | ⟨t₀, ht₀, _, rfl⟩
    · exact ⟨t, hold, rfl⟩
    · exact ⟨t₀, ht₀, rfl⟩
  | ended => exact ⟨t, List.mem_of_mem_filter ht, rfl⟩
  | raised => exact ⟨t, List.mem_of_mem_filter ht, rfl⟩

/-- A step of a worker rewrites no message, and its tasks are those it had or copies of rows. -/
theorem workerStep_frame {a : WorkerAction}
    (h : workerStep settings w x jobs a = some (y, jobs', os)) :
    jobs'.map NotificationJob.message = jobs.map NotificationJob.message ∧
      ∀ t ∈ y.tasks, (∃ t₀ ∈ x.tasks, t₀.job = t.job) ∨ ∃ j ∈ jobs, t.job.CopyOf j := by
  have hkept : ∀ {y : Worker}, y.tasks = x.tasks →
      ∀ t ∈ y.tasks, (∃ t₀ ∈ x.tasks, t₀.job = t.job) ∨ ∃ j ∈ jobs, t.job.CopyOf j := by
    intro y hy t ht
    exact .inl ⟨t, hy ▸ ht, rfl⟩
  cases a with
  | signal =>
    cases h
    exact ⟨rfl, hkept rfl⟩
  | loseLease =>
    cases h
    exact ⟨rfl, hkept rfl⟩
  | shutdown =>
    simp only [workerStep] at h
    split_ifs at h
    cases h
    exact ⟨rfl, hkept rfl⟩
  | crash =>
    cases h
    refine ⟨rfl, ?_⟩
    intro t ht
    obtain ⟨t₀, ht₀, rfl⟩ := List.mem_map.mp ht
    exact .inl ⟨t₀, ht₀, rfl⟩
  | renewHeartbeat now =>
    simp only [workerStep] at h
    split_ifs at h
    cases h
    exact ⟨Table.map_updateWhere _ (by intro j; rfl), hkept rfl⟩
  | wake =>
    obtain ⟨_, hnext⟩ := Option.ite_none_right_eq_some.mp h
    cases hnext
    exact ⟨rfl, hkept rfl⟩
  | reap now skip =>
    obtain ⟨_, hnext⟩ := Option.ite_none_right_eq_some.mp h
    cases hnext
    exact ⟨Table.map_updateWhere _ (by intro j; rfl), hkept rfl⟩
  | check =>
    obtain ⟨_, hnext⟩ := Option.ite_none_right_eq_some.mp h
    cases hnext
    exact ⟨rfl, hkept rfl⟩
  | claim now skip =>
    obtain ⟨_, hnext⟩ := Option.ite_none_right_eq_some.mp h
    cases hnext
    refine ⟨Table.map_updateWhere _ (by intro j; rfl), ?_⟩
    intro t ht
    obtain ⟨job, hjob, rfl⟩ := List.mem_map.mp ht
    obtain ⟨j, hj, rfl⟩ := List.mem_map.mp hjob
    exact .inr ⟨j, (mem_claimable hj).1, rfl, rfl, rfl⟩
  | join =>
    simp only [workerStep] at h
    split at h
    · obtain ⟨_, hnext⟩ := Option.ite_none_right_eq_some.mp h
      cases hnext
      exact ⟨rfl, hkept rfl⟩
    · cases h
  | task jobId a =>
    simp only [workerStep] at h
    split at h
    · cases h
    · rcases taskStep_cases h with ⟨rfl, hout⟩ | ⟨f, now, _, hwrite, hout⟩
      · exact ⟨rfl, fun t ht => .inl (hout.tasks ht)⟩
      · refine ⟨?_, fun t ht => .inl (hout.tasks ht)⟩
        have hjobs : jobs' = (runFinalizer f _ w now jobs).1 := (congrArg Prod.fst hwrite).symm
        rw [hjobs]
        exact runFinalizer_messages f _ now

theorem failTask_sendStarted {job : ClaimedJob} {failure : Failure} {id : UUID} {v : WorkerId}
    {n : ℕ} : (id, .noted v n .sendStarted) ∉ (failTask settings w x job failure).2 := by
  unfold failTask
  cases failure with
  | permanentError message => simp [onFailure]
  | transientError message =>
    unfold onFailure
    by_cases hlast : settings.workerMaxAttempts ≤ job.attempts <;> simp [hlast]
  | other => simp [onFailure]

theorem runFinalizer_sendStarted {f : Finalizer} {job : ClaimedJob} {now : Time} {id : UUID}
    {v : WorkerId} {n : ℕ} : (id, .noted v n .sendStarted) ∉ (runFinalizer f job w now jobs).2 := by
  unfold runFinalizer
  dsimp only
  split_ifs <;> simp

theorem taskStep_sendStarted {a : TaskAction} {id : UUID} {v : WorkerId} {n : ℕ}
    (h : taskStep settings w x jobs task a = some (y, jobs', os))
    (hmem : (id, .noted v n .sendStarted) ∈ os) : a = .load none := by
  by_contra ha
  cases a with
  | start =>
    obtain ⟨_, hnext⟩ := Option.ite_none_right_eq_some.mp h
    cases hnext
    cases hmem
  | load failure? =>
    obtain ⟨_, hnext⟩ := Option.ite_none_right_eq_some.mp h
    cases failure? with
    | none => exact ha rfl
    | some failure =>
      cases hnext
      exact failTask_sendStarted hmem
  | send failure? =>
    obtain ⟨_, hnext⟩ := Option.ite_none_right_eq_some.mp h
    cases failure? with
    | none =>
      cases hnext
      simp at hmem
    | some failure =>
      cases hnext
      exact failTask_sendStarted hmem
  | push =>
    obtain ⟨_, hnext⟩ := Option.ite_none_right_eq_some.mp h
    cases hnext
    cases hmem
  | finalize now committed reply =>
    cases hstate : task.state with
    | finalizing f k =>
      have hwrite := (finalize_outcome hstate h).1
      cases committed with
      | true =>
        have hos : os = (runFinalizer f task.job w now jobs).2 := (congrArg Prod.snd hwrite).symm
        rw [hos] at hmem
        exact runFinalizer_sendStarted hmem
      | false =>
        cases hwrite
        cases hmem
    | _ =>
      simp only [taskStep, hstate] at h
      cases h
  | cancel =>
    obtain ⟨_, hnext⟩ := Option.ite_none_right_eq_some.mp h
    cases hnext
    cases hmem
  | land now =>
    simp only [taskStep] at h
    split at h
    · cases h
      exact runFinalizer_sendStarted hmem
    · cases h

theorem workerStep_sendStarted {a : WorkerAction} {id : UUID} {v : WorkerId} {n : ℕ}
    (h : workerStep settings w x jobs a = some (y, jobs', os))
    (hmem : (id, .noted v n .sendStarted) ∈ os) : a.loads = true := by
  cases a with
  | reap now skip =>
    obtain ⟨_, hnext⟩ := Option.ite_none_right_eq_some.mp h
    cases hnext
    simp at hmem
  | claim now skip =>
    obtain ⟨_, hnext⟩ := Option.ite_none_right_eq_some.mp h
    cases hnext
    simp at hmem
  | task jobId a =>
    simp only [workerStep] at h
    split at h
    · cases h
    · rw [taskStep_sendStarted h hmem]
      rfl
  | _ =>
    have hquiet : os = [] := by grind [workerStep]
    rw [hquiet] at hmem
    cases hmem

end Worker

section Log
variable {x y : Database}

theorem exists_message {jobs jobs' : List NotificationJob}
    (h : jobs'.map NotificationJob.message = jobs.map NotificationJob.message) {j : NotificationJob}
    (hj : j ∈ jobs) : ∃ j' ∈ jobs', j'.message = j.message := by
  apply List.mem_map.mp
  rw [h]
  exact List.mem_map_of_mem hj

theorem map_of_messages {jobs jobs' : List NotificationJob} {β : Type}
    (h : jobs'.map NotificationJob.message = jobs.map NotificationJob.message) (g : Message → β) :
    jobs'.map (fun j => g j.message) = jobs.map fun j => g j.message := by
  have hmap := congrArg (List.map g) h
  rwa [List.map_map, List.map_map] at hmap

theorem logOf_messages (jobs : List NotificationJob) (id : UUID) :
    logOf jobs id = ((jobs.map NotificationJob.message).filter
      fun m => m.payload.registrationId = some id).map Message.eventType := by
  unfold logOf
  rw [List.filter_map, List.map_map]
  rfl

theorem OutboxLog.of_messages (h : OutboxLog x) (hregs : y.registrations = x.registrations)
    (hevents : y.events = x.events)
    (hjobs : y.notificationJobs.map NotificationJob.message =
      x.notificationJobs.map NotificationJob.message) : OutboxLog y where
  wf := by
    refine ⟨by rw [hregs]; exact h.wf.registrations, ?_⟩
    intro r hr
    rw [event?_of_events hevents]
    exact h.wf.eventOf r (hregs ▸ hr)
  keys := by
    have hkeys : y.notificationJobs.map NotificationJob.idempotencyKey =
        x.notificationJobs.map NotificationJob.idempotencyKey :=
      map_of_messages hjobs Message.idempotencyKey
    unfold Table.KeyUnique
    rw [hkeys]
    exact h.keys
  jobs := by
    intro j hj
    obtain ⟨j₀, hj₀, hsame⟩ := exists_message hjobs.symm hj
    obtain ⟨_, hevent, htype, hpayload, hkey⟩ := Message.mk.inj hsame
    rw [← hpayload, ← hkey, hregs]
    rcases h.jobs j₀ hj₀ with hscoped | ⟨r, hr, habout⟩
    · exact .inl hscoped
    · refine .inr ⟨r, hr, ?_⟩
      unfold About at habout ⊢
      rwa [← hpayload, ← hkey, ← hevent, ← htype]
  logs := by
    intro r hr
    obtain ⟨told, hreplay, htold⟩ := h.logs r (hregs ▸ hr)
    refine ⟨told, ?_, ?_⟩
    · rw [logOf_messages, hjobs, ← logOf_messages]
      exact hreplay
    · intro ht event
      rw [event?_of_events hevents]
      exact htold ht event

end Log

section Requests
variable {settings : Settings} {accounts : AccountLib} {db db' : Database} {c : ApiCall}

/-- What a request commits to the outbox is an insertion of new jobs. -/
theorem ApiChange.enqueues (h : ApiChange settings accounts db c db') :
    ∃ jobs, db'.notificationJobs = db.notificationJobs ++ jobs ∧
      jobsViolation db.notificationJobs jobs = none ∧ jobs.all NotificationJob.isNew = true := by
  cases h with
  | accounts only =>
    refine ⟨[], ?_, rfl, rfl⟩
    rw [List.append_nil]
    exact only.jobs
  | registers unused fresh => exact ⟨_, rfl, fresh, rfl⟩
  | service _ _ change => exact change.enqueues

theorem jobsViolation_key {t : List NotificationJob} {job : NotificationJob}
    (h : jobsViolation t [job] = none) : ∀ j ∈ t, j.idempotencyKey ≠ job.idempotencyKey := by
  intro j hj hkey
  rw [jobsViolation, if_pos ⟨j, hj, hkey⟩] at h
  cases h

theorem OutboxLog.register {body : RegisterRequest} {hash : String} {env : Env} (h : OutboxLog db)
    (fresh : jobsViolation db.notificationJobs
      [emailVerifyJob env (registeredUser body env hash)] = none) :
    OutboxLog { db with
      users := db.users ++ [registeredUser body env hash]
      notificationJobs :=
        db.notificationJobs ++ [emailVerifyJob env (registeredUser body env hash)] } where
  wf := ⟨h.wf.registrations, h.wf.eventOf⟩
  keys := Table.keyUnique_insert h.keys (jobsViolation_key fresh)
  jobs := by
    intro j hj
    rcases List.mem_append.mp hj with hold | hnew
    · exact h.jobs j hold
    · rw [List.mem_singleton.mp hnew]
      exact .inl ⟨rfl, rfl⟩
  logs := by
    intro r hr
    obtain ⟨told, hreplay, htold⟩ := h.logs r hr
    refine ⟨told, ?_, htold⟩
    rw [logOf_append, logOf_singleton, if_neg (by intro hnone; cases hnone), List.append_nil]
    exact hreplay

theorem ApiChange.outboxLog (h : ApiChange settings accounts db c db') (hlog : OutboxLog db) :
    OutboxLog db' := by
  cases h with
  | accounts only =>
    exact hlog.of_messages only.registrations only.events (by rw [only.jobs])
  | registers unused fresh => exact hlog.register fresh
  | service _ _ change => exact change.outboxLog hlog

theorem Change.users {call : Call} (h : Change settings call db db') : db'.users = db.users := by
  cases h <;> rfl

theorem ApiChange.users (h : ApiChange settings accounts db c db') :
    db.users.map User.account <+: db'.users.map User.account := by
  cases h with
  | accounts only => exact only.users
  | registers =>
    rw [List.map_append]
    exact List.prefix_append _ _
  | service _ _ change => rw [change.users]

end Requests

end Hefest
