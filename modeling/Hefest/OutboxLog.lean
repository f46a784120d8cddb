import Hefest.SeatRuns

set_option autoImplicit false

/-!
# The outbox log of a registration

`Replay` is the abstract meaning of the log: which sequences of job types a registration can have
written, and the status each of them stands for. `OutboxLog` says that the two tables agree.
-/
namespace Hefest
open Transition Transaction

/-- `Replay log status told`: the log leaves the registration in `status`; `told` says whether the
    cancellation of the event has been announced to it. -/
inductive Replay : List EventType → RegistrationStatus → Bool → Prop
  | seated : Replay [.registrationConfirmed] .confirmed false
  | queued : Replay [.registrationWaitlisted] .waitlisted false
  | promoted {log : List EventType} {told : Bool} (h : Replay log .waitlisted told) :
      Replay (log ++ [.waitlistPromoted]) .confirmed told
  | cancelled {log : List EventType} {status : RegistrationStatus} {told : Bool}
      (h : Replay log status told) (active : status ≠ .cancelled) :
      Replay (log ++ [.registrationCancelled]) .cancelled told
  | announced {log : List EventType} {status : RegistrationStatus} (h : Replay log status false)
      (active : status ≠ .cancelled) : Replay (log ++ [.eventCancelled]) status true

structure Tally (log : List EventType) (status : RegistrationStatus) (told : Bool) : Prop where
  origin : log.count .registrationConfirmed + log.count .registrationWaitlisted = 1
  promoted : log.count .waitlistPromoted ≤ log.count .registrationWaitlisted
  cancelled : log.count .registrationCancelled = if status = .cancelled then 1 else 0
  confirmed : status = .confirmed →
    log.count .registrationConfirmed + log.count .waitlistPromoted = 1
  waitlisted : status = .waitlisted →
    log.count .registrationWaitlisted = 1 ∧ log.count .waitlistPromoted = 0
  told : log.count .eventCancelled = if told then 1 else 0

theorem count_snoc (log : List EventType) (a b : EventType) :
    (log ++ [a]).count b = log.count b + if a = b then 1 else 0 := by
  rw [List.count_append, List.count_singleton]
  by_cases h : a = b <;> simp [h]

theorem Replay.tally {log : List EventType} {status : RegistrationStatus} {told : Bool}
    (h : Replay log status told) : Tally log status told := by
  induction h with
  | seated => constructor <;> decide
  | queued => constructor <;> decide
  | promoted _ ih =>
    obtain ⟨hw, hp⟩ := ih.waitlisted rfl
    have ho := ih.origin
    have hc := ih.cancelled
    have ht := ih.told
    constructor <;> simp only [count_snoc, reduceCtorEq, if_false, if_true, true_implies,
      false_implies] at hc ⊢ <;> omega
  | cancelled _ active ih =>
    have ho := ih.origin
    have hp := ih.promoted
    have hc := ih.cancelled
    have ht := ih.told
    rw [if_neg active] at hc
    constructor <;> simp only [count_snoc, reduceCtorEq, if_false, if_true, false_implies] <;> omega
  | @announced _ status _ active ih =>
    have ho := ih.origin
    have hp := ih.promoted
    have hc := ih.cancelled
    have hs := ih.confirmed
    have hw := ih.waitlisted
    have ht := ih.told
    constructor <;> simp only [count_snoc, reduceCtorEq, if_false, if_true, Nat.add_zero] at ht ⊢
    · exact ho
    · exact hp
    · exact hc
    · exact hs
    · exact hw
    · omega

theorem Tally.confirmed_iff {log : List EventType} {status : RegistrationStatus} {told : Bool}
    (h : Tally log status told) :
    status = .confirmed ↔ log.count .registrationCancelled = 0 ∧
      (0 < log.count .registrationConfirmed ∨ 0 < log.count .waitlistPromoted) := by
  have ho := h.origin
  have hc := h.cancelled
  cases status with
  | confirmed =>
    have hs := h.confirmed rfl
    simp only [reduceCtorEq, if_false] at hc
    refine ⟨fun _ => ⟨hc, by omega⟩, fun _ => rfl⟩
  | waitlisted =>
    obtain ⟨hw, hp⟩ := h.waitlisted rfl
    refine ⟨fun hs => (by cases hs), ?_⟩
    rintro ⟨_, hpos⟩
    omega
  | cancelled =>
    simp only [if_true] at hc
    refine ⟨fun hs => (by cases hs), ?_⟩
    rintro ⟨hzero, _⟩
    omega

theorem Tally.waitlisted_iff {log : List EventType} {status : RegistrationStatus} {told : Bool}
    (h : Tally log status told) :
    status = .waitlisted ↔ 0 < log.count .registrationWaitlisted ∧
      log.count .waitlistPromoted = 0 ∧ log.count .registrationCancelled = 0 := by
  have ho := h.origin
  have hc := h.cancelled
  cases status with
  | confirmed =>
    have hs := h.confirmed rfl
    refine ⟨fun hs => (by cases hs), ?_⟩
    rintro ⟨hw, hp, _⟩
    omega
  | waitlisted =>
    obtain ⟨hw, hp⟩ := h.waitlisted rfl
    simp only [reduceCtorEq, if_false] at hc
    exact ⟨fun _ => ⟨by omega, hp, hc⟩, fun _ => rfl⟩
  | cancelled =>
    simp only [if_true] at hc
    refine ⟨fun hs => (by cases hs), ?_⟩
    rintro ⟨_, _, hzero⟩
    omega

def logOf (jobs : List NotificationJob) (id : UUID) : List EventType :=
  (jobs.filter fun j => j.payload.registrationId = some id).map NotificationJob.eventType

theorem logOf_append (xs ys : List NotificationJob) (id : UUID) :
    logOf (xs ++ ys) id = logOf xs id ++ logOf ys id := by
  simp [logOf]

theorem logOf_eq_nil {jobs : List NotificationJob} {id : UUID}
    (h : ∀ j ∈ jobs, j.payload.registrationId ≠ some id) : logOf jobs id = [] := by
  simp only [logOf, List.map_eq_nil_iff, List.filter_eq_nil_iff, decide_eq_true_eq]
  exact h

theorem mem_logOf {jobs : List NotificationJob} {id : UUID} {j : NotificationJob} (hj : j ∈ jobs)
    (hid : j.payload.registrationId = some id) : j.eventType ∈ logOf jobs id :=
  List.mem_map.mpr ⟨j, List.mem_filter.mpr ⟨hj, by simpa using hid⟩, rfl⟩

theorem logOf_singleton (j : NotificationJob) (id : UUID) :
    logOf [j] id = if j.payload.registrationId = some id then [j.eventType] else [] := by
  unfold logOf
  split_ifs with h <;> simp [h]

def About (j : NotificationJob) (r : Registration) : Prop :=
  j.payload.registrationId = some r.id ∧ j.idempotencyKey = ⟨r.id, j.eventType⟩ ∧
    j.eventId = some r.eventId ∧ j.payload.eventId = some r.eventId ∧
    j.payload.studentId = some r.studentId

theorem About.of_same {j : NotificationJob} {r s : Registration} (h : About j r)
    (hsame : r.identity = s.identity) : About j s := by
  obtain ⟨hid, hevent, hstudent⟩ := Registration.identity_eq hsame
  unfold About at h ⊢
  rw [← hid, ← hevent, ← hstudent]
  exact h

def Logged (db : Database) (r : Registration) : Prop :=
  ∃ told, Replay (logOf db.notificationJobs r.id) r.status told ∧
    (told = true → ∀ event, db.event? r.eventId = some event → event.status = .cancelled)

structure OutboxLog (db : Database) : Prop where
  wf : Wf db
  keys : Table.KeyUnique NotificationJob.idempotencyKey db.notificationJobs
  jobs : ∀ j ∈ db.notificationJobs,
    (j.payload.registrationId = none ∧ j.idempotencyKey.eventType = .emailVerify) ∨
      ∃ r ∈ db.registrations, About j r
  logs : ∀ r ∈ db.registrations, Logged db r

def KeysFresh (t jobs : List NotificationJob) : Prop :=
  (jobs.map NotificationJob.idempotencyKey).Nodup ∧
    ∀ j ∈ t, ∀ k ∈ jobs, j.idempotencyKey ≠ k.idempotencyKey

theorem KeysFresh.keyUnique {t jobs : List NotificationJob} (h : KeysFresh t jobs)
    (ht : Table.KeyUnique NotificationJob.idempotencyKey t) :
    Table.KeyUnique NotificationJob.idempotencyKey (t ++ jobs) :=
  Table.keyUnique_append ht h.1 h.2

theorem KeysFresh.jobsViolation {t jobs : List NotificationJob} (h : KeysFresh t jobs) :
    jobsViolation t jobs ≠ some .idempotencyKey := by
  induction jobs generalizing t with
  | nil => simp [Hefest.jobsViolation]
  | cons job jobs ih =>
    obtain ⟨hnodup, hfresh⟩ := h
    rw [List.map_cons, List.nodup_cons] at hnodup
    have hkey : ¬ ∃ j ∈ t, j.idempotencyKey = job.idempotencyKey := by
      rintro ⟨j, hj, heq⟩
      exact hfresh j hj job (by simp) heq
    have htail : KeysFresh (t ++ [job]) jobs := by
      refine ⟨hnodup.2, ?_⟩
      intro j hj k hk
      rcases List.mem_append.mp hj with hold | hnew
      · exact hfresh j hold k (by simp [hk])
      · rw [List.mem_singleton.mp hnew]
        intro heq
        exact hnodup.1 (List.mem_map.mpr ⟨k, hk, heq.symm⟩)
    rw [Hefest.jobsViolation, if_neg hkey]
    split_ifs
    · simp
    · exact ih htail

section Fresh
variable {db : Database}

theorem OutboxLog.absent (h : OutboxLog db) {id : UUID} (hid : ∀ r ∈ db.registrations, r.id ≠ id) :
    logOf db.notificationJobs id = [] := by
  apply logOf_eq_nil
  intro j hj heq
  rcases h.jobs j hj with ⟨hnone, _⟩ | ⟨r, hr, habout⟩
  · rw [hnone] at heq
    cases heq
  · rw [habout.1] at heq
    exact hid r hr (Option.some.inj heq)

theorem OutboxLog.key_fresh (h : OutboxLog db) {id : UUID} {type : EventType}
    (htype : type ≠ .emailVerify) (hlog : type ∉ logOf db.notificationJobs id) :
    ∀ j ∈ db.notificationJobs, j.idempotencyKey ≠ ⟨id, type⟩ := by
  intro j hj hkey
  rcases h.jobs j hj with ⟨_, hverify⟩ | ⟨r, _, hreg, hown, _⟩
  · rw [hkey] at hverify
    exact htype hverify
  · rw [hown] at hkey
    obtain ⟨hid, htyp⟩ := IdempotencyKey.mk.inj hkey
    apply hlog
    rw [← htyp, ← hid]
    exact mem_logOf hj hreg

theorem OutboxLog.keysFresh_singleton (h : OutboxLog db) {job : NotificationJob} {id : UUID}
    {type : EventType} (hkey : job.idempotencyKey = ⟨id, type⟩) (htype : type ≠ .emailVerify)
    (hlog : type ∉ logOf db.notificationJobs id) : KeysFresh db.notificationJobs [job] := by
  refine ⟨by simp, ?_⟩
  intro j hj k hk
  rw [List.mem_singleton.mp hk, hkey]
  exact h.key_fresh htype hlog j hj

theorem OutboxLog.tally (h : OutboxLog db) {r : Registration} (hr : r ∈ db.registrations) :
    ∃ told, Tally (logOf db.notificationJobs r.id) r.status told ∧
      (told = true → ∀ event, db.event? r.eventId = some event → event.status = .cancelled) := by
  obtain ⟨told, hreplay, hevent⟩ := h.logs r hr
  exact ⟨told, hreplay.tally, hevent⟩

theorem OutboxLog.not_cancelled (h : OutboxLog db) {r : Registration} (hr : r ∈ db.registrations)
    (hactive : r.status ≠ .cancelled) :
    EventType.registrationCancelled ∉ logOf db.notificationJobs r.id := by
  obtain ⟨_, ht, _⟩ := h.tally hr
  have hzero := ht.cancelled
  rw [if_neg hactive] at hzero
  exact List.count_eq_zero.mp hzero

theorem OutboxLog.not_promoted (h : OutboxLog db) {r : Registration} (hr : r ∈ db.registrations)
    (hwaits : r.status = .waitlisted) :
    EventType.waitlistPromoted ∉ logOf db.notificationJobs r.id := by
  obtain ⟨_, ht, _⟩ := h.tally hr
  exact List.count_eq_zero.mp (ht.waitlisted hwaits).2

theorem OutboxLog.not_announced (h : OutboxLog db) {r : Registration} (hr : r ∈ db.registrations)
    {event : Event} (hevent : db.event? r.eventId = some event) (hlive : event.status ≠ .cancelled) :
    EventType.eventCancelled ∉ logOf db.notificationJobs r.id := by
  obtain ⟨told, ht, htold⟩ := h.tally hr
  have hfalse : told = false := by
    cases told with
    | false => rfl
    | true => exact absurd (htold rfl event hevent) hlive
  have hzero := ht.told
  rw [hfalse] at hzero
  exact List.count_eq_zero.mp (by simpa using hzero)

end Fresh

theorem eventCancelledJobs_keys (env : Env) (eventId : UUID) (regs : List Registration) :
    (eventCancelledJobs env eventId regs).map NotificationJob.idempotencyKey =
      regs.map fun r => ⟨r.id, .eventCancelled⟩ := by
  unfold eventCancelledJobs
  rw [List.map_map]
  conv_rhs => rw [← List.zipIdx_map_fst 0 regs, List.map_map]
  rfl

theorem mem_eventCancelledJobs {env : Env} {eventId : UUID} {regs : List Registration}
    {j : NotificationJob} (h : j ∈ eventCancelledJobs env eventId regs) :
    ∃ r ∈ regs, ∃ i, j = eventCancelledJob env eventId r i := by
  obtain ⟨⟨r, i⟩, hmem, rfl⟩ := List.mem_map.mp h
  exact ⟨r, (List.mem_zipIdx' hmem).2 ▸ List.getElem_mem _, i, rfl⟩

theorem logOf_eventCancelledJobs (env : Env) (eventId : UUID) {regs : List Registration}
    (hregs : Table.KeyUnique Registration.id regs) (id : UUID) :
    logOf (eventCancelledJobs env eventId regs) id =
      if id ∈ regs.map Registration.id then [.eventCancelled] else [] := by
  unfold eventCancelledJobs
  generalize 0 = start
  induction regs generalizing start with
  | nil => rfl
  | cons r regs ih =>
    have hnd : r.id ∉ regs.map Registration.id ∧ Table.KeyUnique Registration.id regs :=
      List.nodup_cons.mp hregs
    rw [List.zipIdx_cons, List.map_cons, ← List.singleton_append, logOf_append, ih hnd.2,
      logOf_singleton]
    have hreg : (eventCancelledJob env eventId r start).payload.registrationId = some r.id := rfl
    have htype : (eventCancelledJob env eventId r start).eventType = .eventCancelled := rfl
    rw [hreg, htype]
    by_cases hid : r.id = id
    · subst hid
      simp [hnd.1]
    · simp [hid, Ne.symm hid]

theorem mem_activeRegistrations {db : Database} {eventId : UUID} {r : Registration} :
    r ∈ db.activeRegistrations eventId ↔
      r ∈ db.registrations ∧ r.eventId = eventId ∧ r.status ≠ .cancelled := by
  have hactive : r.status.isActive = true ↔ r.status ≠ .cancelled := by
    cases r.status <;> decide
  simp [Database.activeRegistrations, hactive]

theorem activeRegistrations_unique {db : Database}
    (h : Table.KeyUnique Registration.id db.registrations) (eventId : UUID) :
    Table.KeyUnique Registration.id (db.activeRegistrations eventId) :=
  h.filter _

theorem seatOutcome_cases (db : Database) (event : Event) (eventId : UUID) :
    (∃ position, seatOutcome db event eventId = (.confirmed, .registrationConfirmed, position)) ∨
      ∃ position, seatOutcome db event eventId = (.waitlisted, .registrationWaitlisted, position) := by
  unfold seatOutcome
  split_ifs
  · exact Or.inl ⟨_, rfl⟩
  · exact Or.inr ⟨_, rfl⟩

inductive Appends : Call → Database → List NotificationJob → Prop
  | cancelEvent {user : User} {eventId : UUID} {env : Env} {db : Database} {event : Event}
      (found : db.event? eventId = some event) (live : event.status ≠ .cancelled) :
      Appends (.cancelEvent user eventId env) db
        (eventCancelledJobs env eventId (db.activeRegistrations eventId))
  | registerStudent {student : User} {eventId : UUID} {env : Env} {db : Database} {event : Event}
      {status : RegistrationStatus} {eventType : EventType} {position : Option ℕ}
      (seat : seatOutcome db event eventId = (status, eventType, position))
      (unregistered : registrationViolation db (newRegistration student eventId status env) = none) :
      Appends (.registerStudent student eventId env) db
        [registrationJob student event eventId eventType position env]
  | cancelRegistration {student : User} {regId : UUID} {env : Env} {db : Database}
      {reg : Registration} {event : Event} (found : db.registration? regId = some reg)
      (active : reg.status ≠ .cancelled) :
      Appends (.cancelRegistration student regId env) db
        (cancellationJobs student event reg (promotion db reg env) env)

/-- No transition is announced twice. -/
theorem Appends.keysFresh {c : Call} {db : Database} {jobs : List NotificationJob}
    (h : Appends c db jobs) (hlog : OutboxLog db) : KeysFresh db.notificationJobs jobs := by
  cases h with
  | @cancelEvent user eventId env _ event found live =>
    constructor
    · rw [eventCancelledJobs_keys]
      have hnodup := activeRegistrations_unique hlog.wf.registrations eventId
      have hinj : Function.Injective fun id => IdempotencyKey.mk id .eventCancelled := by
        intro a b hab
        exact (IdempotencyKey.mk.inj hab).1
      have hkeys := List.Nodup.map hinj hnodup
      rwa [List.map_map] at hkeys
    · intro j hj k hk
      obtain ⟨r, hr, i, rfl⟩ := mem_eventCancelledJobs hk
      obtain ⟨hmem, hevent, _⟩ := mem_activeRegistrations.mp hr
      have hannounced := hlog.not_announced hmem (by rw [hevent]; exact found) live
      exact hlog.key_fresh (by decide) hannounced j hj
  | @registerStudent student eventId env _ event status eventType position seat unregistered =>
    have hlogged : logOf db.notificationJobs (env.uuid 0) = [] :=
      hlog.absent (registration_fresh unregistered)
    refine hlog.keysFresh_singleton rfl ?_ (by rw [hlogged]; simp)
    rcases seatOutcome_cases db event eventId with ⟨_, hseat⟩ | ⟨_, hseat⟩
    · rw [hseat] at seat
      rw [← (Prod.mk.inj (Prod.mk.inj seat).2).1]
      decide
    · rw [hseat] at seat
      rw [← (Prod.mk.inj (Prod.mk.inj seat).2).1]
      decide
  | @cancelRegistration student regId env _ reg event found active =>
    have hreg := registration_mem found
    have hcancel := hlog.not_cancelled hreg active
    unfold cancellationJobs
    cases hnext : promotion db reg env with
    | none => exact hlog.keysFresh_singleton rfl (by decide) hcancel
    | some next =>
      obtain ⟨_, hmem, _, hwaits, hne⟩ := promotion_some hlog.wf.registrations hreg hnext
      have hpromote := hlog.not_promoted hmem hwaits
      refine ⟨?_, ?_⟩
      · simp [waitlistPromotedJob, registrationCancelledJob, newJob]
      · intro j hj k hk
        simp only [Option.toList_some, List.map_cons, List.map_nil, List.cons_append,
          List.nil_append, List.mem_cons, List.not_mem_nil, or_false] at hk
        rcases hk with rfl | rfl
        · exact hlog.key_fresh (by decide) hpromote j hj
        · exact hlog.key_fresh (by decide) hcancel j hj

/-- An integrity error reports a job that could not be inserted, or the id of a new event. -/
theorem perform_integrityError {settings : Settings} {c : Call} {db : Database} {k : Constraint}
    (h : (perform settings c db).2 = .error (.integrityError k)) :
    k = .eventId ∨ ∃ jobs, Appends c db jobs ∧ jobsViolation db.notificationJobs jobs = some k := by
  cases c with
  | createEvent organizer data env =>
    exact Or.inl ((createEvent_error (run_map_error h)).2 k rfl)
  | publishEvent user eventId env =>
    exact absurd rfl ((publishEvent_error (run_map_error h)).2 k)
  | updateEvent user eventId data env =>
    exact absurd rfl ((updateEvent_error (run_map_error h)).2 k)
  | cancelEvent user eventId env =>
    have hrun := run_map_error h
    rcases cancelEvent_cases user eventId env db with
      ⟨e, he, hnot⟩ | ⟨event, he⟩ | ⟨event, found, owner, live, ahead⟩
    · rw [he] at hrun
      exact absurd (Except.error.inj (Prod.mk.inj hrun).2) (hnot k)
    · rw [he] at hrun
      cases (Prod.mk.inj hrun).2
    · rw [cancelEvent_run found owner live ahead] at hrun
      obtain ⟨k', hk, hviolation⟩ := outcome_error hrun
      rw [ApiError.integrityError.inj hk]
      exact Or.inr ⟨_, .cancelEvent found live, hviolation⟩
  | registerStudent student eventId env =>
    have hrun := run_map_error h
    rcases registerStudent_cases student eventId env db with he | ⟨event, found, published⟩
    · rw [he] at hrun
      cases (Prod.mk.inj hrun).2
    · rw [registerStudent_run found published] at hrun
      rcases hseat : seatOutcome db event eventId with ⟨status, eventType, position⟩
      rw [hseat] at hrun
      dsimp only at hrun
      split_ifs at hrun with unregistered
      · obtain ⟨k', hk, hviolation⟩ := outcome_error hrun
        rw [ApiError.integrityError.inj hk]
        exact Or.inr ⟨_, .registerStudent hseat unregistered, hviolation⟩
      · cases (Prod.mk.inj hrun).2
  | cancelRegistration student regId env =>
    have hrun := run_map_error h
    rcases cancelRegistration_cases student regId env db with
      ⟨e, he, hnot⟩ | ⟨reg, event, found, owner, active, foundEvent, ahead⟩
    · rw [he] at hrun
      exact absurd (Except.error.inj (Prod.mk.inj hrun).2) (hnot k)
    · rw [cancelRegistration_run found owner active foundEvent ahead] at hrun
      obtain ⟨k', hk, hviolation⟩ := outcome_error hrun
      rw [ApiError.integrityError.inj hk]
      exact Or.inr ⟨_, .cancelRegistration found active, hviolation⟩

theorem OutboxLog.no_key_conflict {db : Database} (h : OutboxLog db) (settings : Settings)
    (c : Call) : (perform settings c db).2 ≠ .error (.integrityError .idempotencyKey) := by
  intro herror
  rcases perform_integrityError herror with hk | ⟨jobs, happends, hviolation⟩
  · cases hk
  · exact (happends.keysFresh h).jobsViolation hviolation

section Steps
variable {settings : Settings} {c : Call} {db db' : Database}

theorem Change.appends (h : Change settings c db db') :
    ∃ jobs, db'.notificationJobs = db.notificationJobs ++ jobs ∧ (jobs = [] ∨ Appends c db jobs) := by
  cases h with
  | refused => exact ⟨[], by simp, Or.inl rfl⟩
  | createEvent => exact ⟨[], by simp, Or.inl rfl⟩
  | publishEvent => exact ⟨[], by simp, Or.inl rfl⟩
  | updateEvent => exact ⟨[], by simp, Or.inl rfl⟩
  | cancelEvent found owner live => exact ⟨_, rfl, Or.inr (.cancelEvent found live)⟩
  | registerStudent found published seat unregistered =>
    exact ⟨_, rfl, Or.inr (.registerStudent seat unregistered)⟩
  | cancelRegistration found owner active => exact ⟨_, rfl, Or.inr (.cancelRegistration found active)⟩

theorem Change.registration_kept (h : Change settings c db db') {r : Registration}
    (hr : r ∈ db.registrations) : ∃ r' ∈ db'.registrations, r'.identity = r.identity := by
  cases h with
  | refused => exact ⟨r, hr, rfl⟩
  | createEvent => exact ⟨r, hr, rfl⟩
  | publishEvent => exact ⟨r, hr, rfl⟩
  | updateEvent => exact ⟨r, hr, rfl⟩
  | cancelEvent => exact ⟨r, hr, rfl⟩
  | registerStudent => exact ⟨r, List.mem_append_left _ hr, rfl⟩
  | cancelRegistration => exact cancelledRows_mem _ _ _ hr

theorem Change.cancelled_kept (h : Change settings c db db') {id : UUID}
    (hfound : (db.event? id).isSome)
    (hc : ∀ event, db.event? id = some event → event.status = .cancelled) :
    ∀ event, db'.event? id = some event → event.status = .cancelled := by
  intro event' hevent'
  obtain ⟨event, hevent⟩ := Option.isSome_iff_exists.mp hfound
  obtain ⟨event'', hfound', hmove⟩ := h.event_move hevent
  rw [← Option.some.inj (hfound'.symm.trans hevent')]
  exact hmove.cancelled (hc event hevent)

/-- A job that a call inserts is about a registration of the table it leaves. -/
theorem Change.new_jobs (h : Change settings c db db') (hwf : Wf db) {j : NotificationJob}
    (hj : j ∈ db'.notificationJobs) :
    j ∈ db.notificationJobs ∨ ∃ r ∈ db'.registrations, About j r := by
  cases h with
  | refused => exact Or.inl hj
  | createEvent => exact Or.inl hj
  | publishEvent => exact Or.inl hj
  | updateEvent => exact Or.inl hj
  | cancelEvent found owner live ahead fresh =>
    rcases List.mem_append.mp hj with hold | hnew
    · exact Or.inl hold
    · obtain ⟨r, hr, i, rfl⟩ := mem_eventCancelledJobs hnew
      obtain ⟨hmem, hevent, _⟩ := mem_activeRegistrations.mp hr
      exact Or.inr ⟨r, hmem, rfl, rfl, by rw [hevent]; rfl, by rw [hevent]; rfl, rfl⟩
  | registerStudent =>
    rcases List.mem_append.mp hj with hold | hnew
    · exact Or.inl hold
    · rw [List.mem_singleton.mp hnew]
      exact Or.inr ⟨_, List.mem_append_right _ (List.mem_singleton_self _), rfl, rfl, rfl, rfl, rfl⟩
  | @cancelRegistration student regId env _ reg event found owner active =>
    have hreg := registration_mem found
    have hafter : ∀ r ∈ db.registrations, About j r →
        ∃ r' ∈ (cancelledDatabase student event reg env db).registrations, About j r' := by
      intro r hr habout
      obtain ⟨r', hr', hsame⟩ := cancelledRows_mem reg (promotion db reg env) env hr
      exact ⟨r', hr', habout.of_same hsame.symm⟩
    rcases List.mem_append.mp hj with hold | hnew
    · exact Or.inl hold
    · right
      unfold cancellationJobs at hnew
      rcases List.mem_append.mp hnew with hpromoted | hcancelled
      · obtain ⟨next, hnext, rfl⟩ := List.mem_map.mp hpromoted
        obtain ⟨_, hmem, hevent, _, _⟩ :=
          promotion_some hwf.registrations hreg (Option.mem_toList.mp hnext)
        exact hafter next hmem ⟨rfl, rfl, by rw [hevent]; rfl, by rw [hevent]; rfl, rfl⟩
      · rw [List.mem_singleton] at hcancelled
        subst hcancelled
        exact hafter reg hreg ⟨rfl, rfl, rfl, rfl, by rw [owner]; rfl⟩

theorem logOf_cancellationJobs (student : User) (event : Event) (reg : Registration)
    (next? : Option Registration) (env : Env) (id : UUID) :
    logOf (cancellationJobs student event reg next? env) id =
      (if ∃ next ∈ next?, next.id = id then [EventType.waitlistPromoted] else []) ++
        if reg.id = id then [EventType.registrationCancelled] else [] := by
  unfold cancellationJobs
  rw [logOf_append, logOf_singleton]
  cases next? with
  | none => simp [logOf, registrationCancelledJob, newJob]
  | some next =>
    rw [Option.toList_some, List.map_singleton, logOf_singleton]
    simp [waitlistPromotedJob, registrationCancelledJob, newJob]

theorem Change.logged_kept (h : Change settings c db db') (hwf : Wf db) {r : Registration}
    (hr : r ∈ db.registrations) (hlog : Logged db r)
    (hsame : logOf db'.notificationJobs r.id = logOf db.notificationJobs r.id) : Logged db' r := by
  obtain ⟨told, hreplay, htold⟩ := hlog
  refine ⟨told, by rw [hsame]; exact hreplay, ?_⟩
  intro ht
  exact h.cancelled_kept (hwf.eventOf r hr) (htold ht)

theorem cancelEvent_logged {user : User} {eventId : UUID} {env : Env} {event : Event}
    (found : db.event? eventId = some event) (live : event.status ≠ .cancelled)
    (h : Change settings (.cancelEvent user eventId env) db db')
    (hevents : db'.event? eventId = some (event.cancel (env.now 1)))
    (hjobs : db'.notificationJobs = db.notificationJobs ++
      eventCancelledJobs env eventId (db.activeRegistrations eventId))
    (hlog : OutboxLog db) {r : Registration} (hr : r ∈ db.registrations) : Logged db' r := by
  have happend : logOf db'.notificationJobs r.id = logOf db.notificationJobs r.id ++
      if r.id ∈ (db.activeRegistrations eventId).map Registration.id then [.eventCancelled] else [] := by
    rw [hjobs, logOf_append,
      logOf_eventCancelledJobs env eventId (activeRegistrations_unique hlog.wf.registrations eventId)]
  by_cases hid : r.id ∈ (db.activeRegistrations eventId).map Registration.id
  · obtain ⟨s, hs, hsid⟩ := List.mem_map.mp hid
    obtain ⟨hmem, hevent, hactive⟩ := mem_activeRegistrations.mp hs
    have hsame : s = r := hlog.wf.registrations.eq_of_key hmem hr hsid
    subst hsame
    obtain ⟨told, hreplay, htold⟩ := hlog.logs s hmem
    have hfalse : told = false := by
      cases told with
      | false => rfl
      | true => exact absurd (htold rfl event (by rw [hevent]; exact found)) live
    subst hfalse
    refine ⟨true, ?_, ?_⟩
    · rw [happend, if_pos hid]
      exact hreplay.announced hactive
    · intro _ event' hevent'
      rw [hevent, hevents] at hevent'
      rw [← Option.some.inj hevent']
      rfl
  · refine h.logged_kept hlog.wf hr (hlog.logs r hr) ?_
    rw [happend, if_neg hid, List.append_nil]

theorem registerStudent_logged {student : User} {eventId : UUID} {env : Env} {event : Event}
    {status : RegistrationStatus} {eventType : EventType} {position : Option ℕ}
    (seat : seatOutcome db event eventId = (status, eventType, position))
    (unregistered : registrationViolation db (newRegistration student eventId status env) = none)
    (hjobs : db'.notificationJobs = db.notificationJobs ++
      [registrationJob student event eventId eventType position env])
    (hlog : OutboxLog db) : Logged db' (newRegistration student eventId status env) := by
  have hnone : logOf db.notificationJobs (env.uuid 0) = [] :=
    hlog.absent (registration_fresh unregistered)
  have hlogged : logOf db'.notificationJobs (env.uuid 0) = [eventType] := by
    rw [hjobs, logOf_append, hnone, logOf_singleton]
    exact if_pos rfl
  have hreplay : Replay [eventType] status false := by
    rcases seatOutcome_cases db event eventId with ⟨_, hseat⟩ | ⟨_, hseat⟩
    · rw [hseat] at seat
      simp only [Prod.mk.injEq] at seat
      rw [← seat.1, ← seat.2.1]
      exact .seated
    · rw [hseat] at seat
      simp only [Prod.mk.injEq] at seat
      rw [← seat.1, ← seat.2.1]
      exact .queued
  refine ⟨false, ?_, by simp⟩
  change Replay (logOf db'.notificationJobs (env.uuid 0)) status false
  rw [hlogged]
  exact hreplay

theorem cancelledDatabase_logged {student : User} {env : Env} {event : Event} {reg : Registration}
    (hreg : reg ∈ db.registrations) (active : reg.status ≠ .cancelled) (hlog : OutboxLog db)
    {r : Registration} (hr : r ∈ (cancelledDatabase student event reg env db).registrations) :
    Logged (cancelledDatabase student event reg env db) r := by
  have happend : ∀ id, logOf (cancelledDatabase student event reg env db).notificationJobs id =
      logOf db.notificationJobs id ++
        logOf (cancellationJobs student event reg (promotion db reg env) env) id := by
    intro id
    exact logOf_append _ _ id
  rcases mem_cancelledDatabase hlog.wf.registrations hreg hr with
    rfl | ⟨next, hnext, rfl⟩ | ⟨hold, hne, hother⟩
  · obtain ⟨told, hreplay, htold⟩ := hlog.logs reg hreg
    refine ⟨told, ?_, htold⟩
    have hnot : ¬ ∃ next ∈ promotion db reg env, next.id = reg.id := by
      rintro ⟨next, hnext, hid⟩
      exact (promotion_some hlog.wf.registrations hreg hnext).2.2.2.2 hid
    change Replay (logOf _ reg.id) _ _
    rw [happend, logOf_cancellationJobs, if_neg hnot, if_pos rfl, List.nil_append]
    exact hreplay.cancelled active
  · obtain ⟨_, hmem, _, hwaits, hne⟩ := promotion_some hlog.wf.registrations hreg hnext
    obtain ⟨told, hreplay, htold⟩ := hlog.logs next hmem
    refine ⟨told, ?_, htold⟩
    change Replay (logOf _ next.id) _ _
    rw [happend, logOf_cancellationJobs, if_pos ⟨next, hnext, rfl⟩, if_neg hne.symm,
      List.append_nil]
    rw [hwaits] at hreplay
    exact hreplay.promoted
  · obtain ⟨told, hreplay, htold⟩ := hlog.logs r hold
    refine ⟨told, ?_, htold⟩
    have hnot : ¬ ∃ next ∈ promotion db reg env, next.id = r.id := by
      rintro ⟨next, hnext, hid⟩
      exact hother next hnext hid.symm
    rw [happend, logOf_cancellationJobs, if_neg hnot, if_neg hne.symm, List.append_nil,
      List.append_nil]
    exact hreplay

theorem Change.logs (h : Change settings c db db') (hlog : OutboxLog db) :
    ∀ r ∈ db'.registrations, Logged db' r := by
  have hkept : ∀ r ∈ db.registrations,
      logOf db'.notificationJobs r.id = logOf db.notificationJobs r.id → Logged db' r := by
    intro r hr
    exact h.logged_kept hlog.wf hr (hlog.logs r hr)
  have hself := h
  intro r hr
  cases h with
  | refused => exact hlog.logs r hr
  | createEvent => exact hkept r hr rfl
  | publishEvent => exact hkept r hr rfl
  | updateEvent => exact hkept r hr rfl
  | cancelEvent found owner live =>
    refine cancelEvent_logged found live hself ?_ rfl hlog hr
    exact (event_update (by intro _; rfl) found).trans (by rw [if_pos rfl])
  | registerStudent found published seat unregistered =>
    rcases List.mem_append.mp hr with hold | hnew
    · apply hkept r hold
      have hne := registration_fresh unregistered r hold
      rw [logOf_append, logOf_singleton, if_neg, List.append_nil]
      intro heq
      exact hne (Option.some.inj heq).symm
    · rw [List.mem_singleton.mp hnew]
      exact registerStudent_logged seat unregistered rfl hlog
  | cancelRegistration found owner active =>
    exact cancelledDatabase_logged (registration_mem found) active hlog hr

theorem Change.outboxLog (h : Change settings c db db') (hlog : OutboxLog db) : OutboxLog db' where
  wf := h.wf hlog.wf
  keys := by
    obtain ⟨jobs, hjobs, happends⟩ := h.appends
    rw [hjobs]
    rcases happends with rfl | happends
    · rw [List.append_nil]
      exact hlog.keys
    · exact (happends.keysFresh hlog).keyUnique hlog.keys
  jobs := by
    intro j hj
    rcases h.new_jobs hlog.wf hj with hold | habout
    · rcases hlog.jobs j hold with hscoped | ⟨r, hr, habout⟩
      · exact Or.inl hscoped
      · obtain ⟨r', hr', hsame⟩ := h.registration_kept hr
        exact Or.inr ⟨r', hr', habout.of_same hsame.symm⟩
    · exact Or.inr habout
  logs := h.logs hlog

end Steps

theorem Initial.outboxLog {db : Database} (h : Initial db) : OutboxLog db where
  wf := h.wf
  keys := h.jobs
  jobs := by
    intro j hj
    obtain ⟨hkey, _, _, hnone⟩ := h.accountScoped j hj
    exact Or.inl ⟨hnone, hkey⟩
  logs := by simp [h.registrations]

theorem outboxLog_after (settings : Settings) {db₀ : Database} (h₀ : Initial db₀)
    (calls : List Call) : OutboxLog (after (effect settings) db₀ calls) :=
  after_invariant (effect settings) OutboxLog (fun _ => True)
    (fun c db _ h => (change settings c db).outboxLog h) db₀ calls h₀.outboxLog (by simp)

def Database.typeCount (db : Database) (r : Registration) (type : EventType) : ℕ :=
  (logOf db.notificationJobs r.id).count type

structure Determines (db : Database) (r : Registration) : Prop where
  origin : db.typeCount r .registrationConfirmed + db.typeCount r .registrationWaitlisted = 1
  promotedOnce : db.typeCount r .waitlistPromoted ≤ 1
  promotedFrom : 0 < db.typeCount r .waitlistPromoted → db.typeCount r .registrationWaitlisted = 1
  cancelled : db.typeCount r .registrationCancelled = if r.status = .cancelled then 1 else 0
  confirmed : r.status = .confirmed ↔ db.typeCount r .registrationCancelled = 0 ∧
    (0 < db.typeCount r .registrationConfirmed ∨ 0 < db.typeCount r .waitlistPromoted)
  waitlisted : r.status = .waitlisted ↔ 0 < db.typeCount r .registrationWaitlisted ∧
    db.typeCount r .waitlistPromoted = 0 ∧ db.typeCount r .registrationCancelled = 0
  columns : ∀ j ∈ db.notificationJobs, j.payload.registrationId = some r.id →
    j.payload.studentId = some r.studentId ∧ j.payload.eventId = some r.eventId ∧
      j.eventId = some r.eventId

theorem OutboxLog.determines {db : Database} (h : OutboxLog db) {r : Registration}
    (hr : r ∈ db.registrations) : Determines db r := by
  obtain ⟨told, ht, _⟩ := h.tally hr
  have horigin := ht.origin
  have hpromoted := ht.promoted
  constructor
  · exact horigin
  · unfold Database.typeCount; omega
  · unfold Database.typeCount; omega
  · exact ht.cancelled
  · exact ht.confirmed_iff
  · exact ht.waitlisted_iff
  · intro j hj hid
    rcases h.jobs j hj with ⟨hnone, _⟩ | ⟨s, hs, hreg, _, hcolumn, hevent, hstudent⟩
    · rw [hnone] at hid
      cases hid
    · rw [hreg] at hid
      have hsame : s = r := h.wf.registrations.eq_of_key hs hr (Option.some.inj hid)
      subst hsame
      exact ⟨hstudent, hevent, hcolumn⟩

/-- In every run no call fails on a duplicate idempotency key, and the outbox determines every
    registration. -/
theorem outbox_determines_registrations (settings : Settings) (db₀ : Database) (h₀ : Initial db₀)
    (calls : List Call) :
    let db := after (effect settings) db₀ calls
    (∀ c, (perform settings c db).2 ≠ .error (.integrityError .idempotencyKey)) ∧
      ∀ r ∈ db.registrations, Determines db r := by
  intro db
  have hlog : OutboxLog db := outboxLog_after settings h₀ calls
  exact ⟨hlog.no_key_conflict settings, fun r hr => hlog.determines hr⟩

theorem outbox_determines_registrations_oneSeat :
    let db := after (effect {}) {} oneSeatCalls
    (∀ c, (perform {} c db).2 ≠ .error (.integrityError .idempotencyKey)) ∧
      ∀ r ∈ db.registrations, Determines db r :=
  outbox_determines_registrations {} {} initial_empty oneSeatCalls

end Hefest
