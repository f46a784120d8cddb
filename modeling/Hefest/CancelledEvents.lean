import Hefest.OutboxLog

set_option autoImplicit false

namespace Hefest
open Transition Transaction

/-- The identifiers drawn for the two jobs are distinct and unused. -/
def JobIdsFresh (db : Database) (env : Env) : Prop :=
  env.uuid 0 ≠ env.uuid 1 ∧ ∀ j ∈ db.notificationJobs, j.id ≠ env.uuid 0 ∧ j.id ≠ env.uuid 1

section Insertable
variable {db : Database} {student : User} {event : Event} {reg next : Registration} {env : Env}

theorem cancellationJobs_some :
    cancellationJobs student event reg (some next) env =
      [waitlistPromotedJob event next reg.eventId env, registrationCancelledJob student reg env] := rfl

theorem jobIdsFresh_of_inserted
    (h : jobsViolation db.notificationJobs (cancellationJobs student event reg (some next) env) =
      none) : JobIdsFresh db env := by
  rw [cancellationJobs_some] at h
  simp only [jobsViolation] at h
  split_ifs at h with hkey hid hkey' hid'
  have hfirst : ∀ j ∈ db.notificationJobs, j.id ≠ env.uuid 0 := by
    intro j hj heq
    exact hid ⟨j, hj, heq⟩
  have hsecond : ∀ j ∈ db.notificationJobs ++ [waitlistPromotedJob event next reg.eventId env],
      j.id ≠ env.uuid 1 := by
    intro j hj heq
    exact hid' ⟨j, hj, heq⟩
  refine ⟨hsecond _ (List.mem_append_right _ (List.mem_singleton_self _)), ?_⟩
  intro j hj
  exact ⟨hfirst j hj, hsecond j (by simp [hj])⟩

theorem inserted_of_jobIdsFresh
    (hkeys : KeysFresh db.notificationJobs (cancellationJobs student event reg (some next) env))
    (hids : JobIdsFresh db env) :
    jobsViolation db.notificationJobs (cancellationJobs student event reg (some next) env) = none := by
  have hkey := hkeys.jobsViolation
  obtain ⟨hne, hids⟩ := hids
  have hid : ¬ ∃ j ∈ db.notificationJobs,
      j.id = (waitlistPromotedJob event next reg.eventId env).id := by
    rintro ⟨j, hj, heq⟩
    exact (hids j hj).1 heq
  have hid' : ¬ ∃ j ∈ db.notificationJobs ++ [waitlistPromotedJob event next reg.eventId env],
      j.id = (registrationCancelledJob student reg env).id := by
    rintro ⟨j, hj, heq⟩
    rcases List.mem_append.mp hj with hold | hnew
    · exact (hids j hold).2 heq
    · rw [List.mem_singleton.mp hnew] at heq
      exact hne heq
  rw [cancellationJobs_some] at hkey ⊢
  simp only [jobsViolation, if_neg hid, if_neg hid'] at hkey ⊢
  split_ifs at hkey ⊢
  · exact absurd rfl hkey
  · exact absurd rfl hkey
  · rfl

end Insertable

section Steps
variable {settings : Settings} {c : Call} {db db' : Database}

def NoNewSeat (id : UUID) (db db' : Database) : Prop :=
  (∀ r ∈ db'.registrations, r.eventId = id → r.status = .confirmed →
      ∃ r₀ ∈ db.registrations, r₀.id = r.id ∧ r₀.status = .confirmed) ∧
    ∀ j ∈ db'.notificationJobs, j.eventId = some id →
      j.eventType = .registrationConfirmed ∨ j.eventType = .waitlistPromoted →
      j ∈ db.notificationJobs

def EventCancelled (id : UUID) (db : Database) : Prop :=
  ∃ event, db.event? id = some event ∧ event.status = .cancelled

/-- The call does not give up a confirmed seat of a cancelled event on which somebody waits. -/
def LeavesNoSeat (db : Database) : Call → Prop
  | .cancelRegistration student regId env =>
    ∀ reg event, db.registration? regId = some reg → reg.studentId = student.id →
      reg.status = .confirmed → db.event? reg.eventId = some event → event.status = .cancelled →
      env.now 0 < event.startsAt → JobIdsFresh db env → db.count reg.eventId .waitlisted = 0
  | _ => True

theorem EventCancelled.step {id : UUID} (h : EventCancelled id db) :
    EventCancelled id (effect settings c db) := by
  obtain ⟨event, hevent, hcancelled⟩ := h
  obtain ⟨event', hevent', hmove⟩ := (change settings c db).event_move hevent
  exact ⟨event', hevent', hmove.cancelled hcancelled⟩

theorem noNewSeat_of_same {id : UUID} (hrows : db'.registrations = db.registrations)
    (hjobs : db'.notificationJobs = db.notificationJobs) : NoNewSeat id db db' := by
  refine ⟨?_, ?_⟩
  · intro r hr _ hconfirmed
    exact ⟨r, hrows ▸ hr, rfl, hconfirmed⟩
  · intro j hj _ _
    exact hjobs ▸ hj

theorem promotion_waits {reg next : Registration} {env : Env}
    (hdb : Table.KeyUnique Registration.id db.registrations) (hreg : reg ∈ db.registrations)
    (h : promotion db reg env = some next) : db.count reg.eventId .waitlisted ≠ 0 := by
  obtain ⟨_, hmem, hevent, hwaits, _⟩ := promotion_some hdb hreg h
  have hpos : 0 < db.registrations.countP (isFor reg.eventId .waitlisted) :=
    List.countP_pos_iff.mpr ⟨next, hmem, by simp [isFor, hevent, hwaits]⟩
  rw [count_def]
  omega

theorem Change.noNewSeat (h : Change settings c db db') (hwf : Wf db) (hq : LeavesNoSeat db c)
    {id : UUID} (hid : EventCancelled id db) : NoNewSeat id db db' := by
  obtain ⟨event₀, hevent₀, hcancelled⟩ := hid
  cases h with
  | refused => exact noNewSeat_of_same rfl rfl
  | createEvent => exact noNewSeat_of_same rfl rfl
  | publishEvent => exact noNewSeat_of_same rfl rfl
  | updateEvent => exact noNewSeat_of_same rfl rfl
  | cancelEvent =>
    refine ⟨fun r hr _ hconfirmed => ⟨r, hr, rfl, hconfirmed⟩, ?_⟩
    intro j hj _ htype
    rcases List.mem_append.mp hj with hold | hnew
    · exact hold
    · obtain ⟨r, _, i, rfl⟩ := mem_eventCancelledJobs hnew
      rcases htype with h | h <;> cases h
  | @registerStudent student eventId env _ event _ _ _ found published =>
    have hother : eventId ≠ id := by
      rintro rfl
      rw [Option.some.inj (found.symm.trans hevent₀), hcancelled] at published
      cases published
    refine ⟨?_, ?_⟩
    · intro r hr hrid hconfirmed
      rcases List.mem_append.mp hr with hold | hnew
      · exact ⟨r, hold, rfl, hconfirmed⟩
      · rw [List.mem_singleton.mp hnew] at hrid
        exact absurd hrid hother
    · intro j hj hjid _
      rcases List.mem_append.mp hj with hold | hnew
      · exact hold
      · rw [List.mem_singleton.mp hnew] at hjid
        exact absurd (Option.some.inj hjid) hother
  | @cancelRegistration student regId env _ reg event found owner active foundEvent ahead fresh =>
    have hreg := registration_mem found
    have hquiet : ∀ next, promotion db reg env = some next → reg.eventId ≠ id := by
      rintro next hnext rfl
      have hsame : event = event₀ := Option.some.inj (foundEvent.symm.trans hevent₀)
      obtain ⟨hconfirmed, _⟩ := promotion_some hwf.registrations hreg hnext
      rw [hnext] at fresh
      exact promotion_waits hwf.registrations hreg hnext (hq reg event found owner hconfirmed
        foundEvent (hsame ▸ hcancelled) ahead (jobIdsFresh_of_inserted fresh))
    refine ⟨?_, ?_⟩
    · intro r hr hrid hconfirmed
      rcases mem_cancelledDatabase hwf.registrations hreg hr with
        rfl | ⟨next, hnext, rfl⟩ | ⟨hold, _, _⟩
      · cases hconfirmed
      · obtain ⟨_, _, hevent, _, _⟩ := promotion_some hwf.registrations hreg hnext
        exact absurd (hevent.symm.trans hrid) (hquiet next hnext)
      · exact ⟨r, hold, rfl, hconfirmed⟩
    · intro j hj hjid htype
      rcases List.mem_append.mp hj with hold | hnew
      · exact hold
      · unfold cancellationJobs at hnew
        rcases List.mem_append.mp hnew with hpromoted | hcancel
        · obtain ⟨next, hnext, rfl⟩ := List.mem_map.mp hpromoted
          exact absurd (Option.some.inj hjid) (hquiet next (Option.mem_toList.mp hnext))
        · rw [List.mem_singleton] at hcancel
          subst hcancel
          rcases htype with h | h <;> cases h

/-- With fresh identifiers an allowed cancellation that has somebody to promote succeeds. -/
theorem cancelRegistration_promotes (settings : Settings) (hlog : OutboxLog db) {student : User}
    {regId : UUID} {env : Env} {reg next : Registration} {event : Event}
    (found : db.registration? regId = some reg) (owner : reg.studentId = student.id)
    (active : reg.status ≠ .cancelled) (foundEvent : db.event? reg.eventId = some event)
    (ahead : env.now 0 < event.startsAt) (hids : JobIdsFresh db env)
    (hnext : promotion db reg env = some next) :
    effect settings (.cancelRegistration student regId env) db =
        cancelledDatabase student event reg env db ∧
      next.confirm ∈ (cancelledDatabase student event reg env db).registrations := by
  obtain ⟨_, hmem, _, _, hne⟩ :=
    promotion_some hlog.wf.registrations (registration_mem found) hnext
  have happends : Appends (.cancelRegistration student regId env) db
      (cancellationJobs student event reg (promotion db reg env) env) :=
    .cancelRegistration found active
  have hkeys := happends.keysFresh hlog
  rw [hnext] at hkeys
  refine ⟨?_, ?_⟩
  · unfold effect perform Call.prog
    rw [effect_map, cancelRegistration_run found owner active foundEvent ahead, outcome_fst, hnext,
      if_pos (inserted_of_jobIdsFresh hkeys hids)]
  · change next.confirm ∈ promoteRows (promotion db reg env) _
    rw [hnext]
    exact Table.mem_update.mpr (Or.inr ⟨next, mem_cancelRows_of_ne env hmem hne, rfl, rfl⟩)

theorem leavesNoSeat_of_noNewSeat (settings : Settings) (hlog : OutboxLog db)
    (h : ∀ id, EventCancelled id db → NoNewSeat id db (effect settings c db)) :
    LeavesNoSeat db c := by
  cases c with
  | cancelRegistration student regId env =>
    intro reg event found owner hconfirmed foundEvent hcancelled ahead hids
    have hreg := registration_mem found
    have hactive : reg.status ≠ .cancelled := by
      rw [hconfirmed]
      decide
    cases hnext : promotion db reg env with
    | none => exact promotion_none hlog.wf.registrations hreg hconfirmed hnext
    | some next =>
      obtain ⟨_, hmem, hevent, hwaits, _⟩ := promotion_some hlog.wf.registrations hreg hnext
      obtain ⟨hafter, hseated⟩ := cancelRegistration_promotes settings hlog found owner hactive
        foundEvent ahead hids hnext
      have hseat := (h reg.eventId ⟨event, foundEvent, hcancelled⟩).1
      rw [hafter] at hseat
      obtain ⟨r₀, hr₀, hid, hstatus⟩ := hseat next.confirm hseated hevent rfl
      have hsame : r₀ = next := hlog.wf.registrations.eq_of_key hr₀ hmem hid
      rw [hsame, hwaits] at hstatus
      cases hstatus
  | _ => trivial

end Steps

section Runs
variable (settings : Settings)

/-- Once an event is cancelled, no later call of the run seats anybody on it. -/
def SeatsClosed (db₀ : Database) (calls : List Call) : Prop :=
  ∀ n m id c, n ≤ m → EventCancelled id (after (effect settings) db₀ (calls.take n)) →
    calls[m]? = some c →
    NoNewSeat id (after (effect settings) db₀ (calls.take m))
      (after (effect settings) db₀ (calls.take (m + 1)))

theorem seats_closed_iff (db₀ : Database) (h₀ : Initial db₀) (calls : List Call) :
    SeatsClosed settings db₀ calls ↔
      ∀ m c, calls[m]? = some c → LeavesNoSeat (after (effect settings) db₀ (calls.take m)) c := by
  constructor
  · intro h m c hc
    apply leavesNoSeat_of_noNewSeat settings (outboxLog_after settings h₀ (calls.take m))
    intro id hid
    have hseat := h m m id c le_rfl hid hc
    rwa [after_take_succ (effect settings) db₀ calls m c hc] at hseat
  · intro h n m id c hnm hid hc
    have hcancelled : EventCancelled id (after (effect settings) db₀ (calls.take m)) :=
      take_stable (effect settings) (EventCancelled id) (fun _ _ h => h.step) db₀ calls hnm hid
    rw [after_take_succ (effect settings) db₀ calls m c hc]
    exact (change settings c _).noNewSeat (outboxLog_after settings h₀ _).wf (h m c hc) hcancelled

end Runs

section LateSeat

/-- The organizer cancels the full event, then the seated student cancels as well. -/
def lateSeatCalls : List Call :=
  oneSeatCalls ++
    [.cancelEvent organizer 100 (envAt 4 500), .cancelRegistration alice 300 (envAt 5 600)]

theorem late_seat_promoted : ¬ SeatsClosed {} {} lateSeatCalls := by
  intro h
  have hseat := (h 5 5 100 (.cancelRegistration alice 300 (envAt 5 600)) le_rfl
    ⟨_, show _ = some _ by rfl, by decide⟩ rfl).1
  revert hseat
  decide

theorem seats_closed_iff_oneSeat : SeatsClosed {} {} oneSeatCalls := by
  refine (seats_closed_iff {} {} initial_empty oneSeatCalls).mpr ?_
  intro m c hc
  have hmem := List.mem_of_getElem? hc
  simp only [oneSeatCalls, List.mem_cons, List.not_mem_nil, or_false] at hmem
  obtain rfl | rfl | rfl | rfl := hmem <;> trivial

end LateSeat
end Hefest
