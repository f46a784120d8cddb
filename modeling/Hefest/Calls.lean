import Hefest.Registrations

set_option autoImplicit false

/-!
# The seat-allocation calls of the API

One `Call` is one request with its inputs; `perform` executes it alone. For each service one
lemma says what a success did to the tables (`*_ok`) and one what an unhandled constraint
violation means (`*_integrityError`); everything else is a refusal that changes nothing.
-/
namespace Hefest
open Transaction

inductive Call
  | createEvent (organizer : User) (data : EventCreateRequest) (env : Env)
  | publishEvent (user : User) (eventId : UUID) (env : Env)
  | updateEvent (user : User) (eventId : UUID) (data : EventUpdateRequest) (env : Env)
  | cancelEvent (user : User) (eventId : UUID) (env : Env)
  | registerStudent (student : User) (eventId : UUID) (env : Env)
  | cancelRegistration (student : User) (regId : UUID) (env : Env)

inductive Response
  | event (event : Event)
  | registered (response : RegistrationResponse)
  | cancelled (reg : Registration)
deriving DecidableEq

def Call.prog (settings : Settings) : Call → Service Response
  | .createEvent organizer data env => (Hefest.createEvent organizer data env).map .event
  | .publishEvent user eventId env => (Hefest.publishEvent user eventId env).map .event
  | .updateEvent user eventId data env =>
    (Hefest.updateEvent settings user eventId data env).map .event
  | .cancelEvent user eventId env => (Hefest.cancelEvent user eventId env).map .event
  | .registerStudent student eventId env =>
    (Hefest.registerStudent student eventId env).map .registered
  | .cancelRegistration student regId env =>
    (Hefest.cancelRegistration student regId env).map .cancelled

def perform (settings : Settings) (c : Call) (db : Database) : Database × Except ApiError Response :=
  (c.prog settings).run db

def effect (settings : Settings) (c : Call) (db : Database) : Database := (perform settings c db).1

section Specs
variable {settings : Settings} {user student organizer : User} {eventId regId : UUID} {env : Env}
  {db db' : Database}

theorem createEvent_ok {data : EventCreateRequest} {event : Event}
    (h : (createEvent organizer data env).run db = (db', .ok event)) :
    event = newEvent organizer data env ∧ eventViolation db event = none ∧
      db' = { db with events := db.events ++ [event] } := by
  unfold createEvent at h
  split_ifs at h
  · simp only [run_stmt, insertEvent] at h
    cases hv : eventViolation db (newEvent organizer data env) with
    | some c => simp [hv, orRaise] at h
    | none =>
      simp only [hv, orRaise, run_ret, ite_true, Prod.mk.injEq, Except.ok.injEq] at h
      obtain ⟨rfl, rfl⟩ := h
      exact ⟨rfl, hv, rfl⟩
  · simp at h

theorem createEvent_error {data : EventCreateRequest} {e : ApiError}
    (h : (createEvent organizer data env).run db = (db', .error e)) :
    db' = db ∧ ∀ c, e = .integrityError c → c = .eventId := by
  unfold createEvent at h
  split_ifs at h
  · simp only [run_stmt, insertEvent] at h
    cases hv : eventViolation db (newEvent organizer data env) with
    | some c =>
      simp only [hv, orRaise, run_raise, reduceCtorEq, ite_false, Prod.mk.injEq,
        Except.error.injEq] at h
      unfold eventViolation at hv
      split at hv
      · cases hv
        exact ⟨h.1.symm, fun c hc => by simpa [eq_comm] using h.2.trans hc⟩
      · cases hv
    | none => simp [hv, orRaise] at h
  · simp only [run_raise, Prod.mk.injEq, Except.error.injEq] at h
    exact ⟨h.1.symm, fun c hc => by simp [← h.2] at hc⟩

theorem publishEvent_ok {event : Event}
    (h : (publishEvent user eventId env).run db = (db', .ok event)) :
    ∃ old, db.event? eventId = some old ∧ old.organizerId = user.id ∧ old.status = .draft ∧
      event = old.publish (env.now 0) ∧
      db' = { db with
        events := Table.update Event.id eventId (Event.publish (env.now 0)) db.events } := by
  simp only [publishEvent, getOwnedDraft, bind_stmt, run_stmt, selectEvent, Stmt.select] at h
  cases hold : db.event? eventId with
  | none => simp [hold] at h
  | some old =>
    simp only [hold] at h
    split_ifs at h with howner hdraft
    · simp at h
    · simp at h
    · simp only [bind_ret, run_stmt, saveEvent, run_ret, Prod.mk.injEq, Except.ok.injEq] at h
      exact ⟨old, rfl, not_not.mp howner, not_not.mp hdraft, h.2.symm, h.1.symm⟩

theorem publishEvent_error {e : ApiError}
    (h : (publishEvent user eventId env).run db = (db', .error e)) :
    db' = db ∧ ∀ c, e ≠ .integrityError c := by
  simp only [publishEvent, getOwnedDraft, bind_stmt, run_stmt, selectEvent, Stmt.select] at h
  cases hold : db.event? eventId with
  | none =>
    simp only [hold, bind_raise, run_raise, Prod.mk.injEq, Except.error.injEq] at h
    exact ⟨h.1.symm, fun c hc => by simp [← h.2, notFound] at hc⟩
  | some old =>
    simp only [hold] at h
    split_ifs at h
    · simp only [bind_raise, run_raise, Prod.mk.injEq, Except.error.injEq] at h
      exact ⟨h.1.symm, fun c hc => by simp [← h.2, notFound] at hc⟩
    · simp only [bind_raise, run_raise, Prod.mk.injEq, Except.error.injEq] at h
      exact ⟨h.1.symm, fun c hc => by simp [← h.2, conflict] at hc⟩
    · simp [saveEvent] at h

/-- The guards of `update_event`: the caller owns the event, the location is not locked, no
    non-nullable column is sent as `null` and the columns take the values. -/
def updateAccepted (settings : Settings) (user : User) (event : Event) (data : EventUpdateRequest)
    (env : Env) : Bool :=
  event.organizerId == user.id &&
    !(data.location.isSome && locationLocked settings (env.now 0) event) && !data.nullsColumn &&
      data.fitsColumns

theorem assign_of_isEmpty {data : EventUpdateRequest} (h : data.isEmpty = true) (event : Event) :
    data.assign event = event := by
  simp only [EventUpdateRequest.isEmpty, Bool.and_eq_true, Option.isNone_iff_eq_none] at h
  obtain ⟨⟨⟨⟨⟨h1, h2⟩, h3⟩, h4⟩, h5⟩, h6⟩ := h
  simp [EventUpdateRequest.assign, h1, h2, h3, h4, h5, h6]

theorem isEmpty_passes {data : EventUpdateRequest} (h : data.isEmpty = true) :
    data.nullsColumn = false ∧ data.fitsColumns = true := by
  simp only [EventUpdateRequest.isEmpty, Bool.and_eq_true, Option.isNone_iff_eq_none] at h
  obtain ⟨⟨⟨⟨⟨h1, h2⟩, h3⟩, h4⟩, h5⟩, h6⟩ := h
  constructor
  · simp [EventUpdateRequest.nullsColumn, h1, h2, h3, h5, h6]
  · simp [EventUpdateRequest.fitsColumns, h1, h2, h3, h4, h5, h6]

/-- An empty body writes nothing, which is what assigning none of the columns does. -/
theorem updateEvent_run (data : EventUpdateRequest) {event : Event}
    (hevent : db.event? eventId = some event)
    (haccepted : updateAccepted settings user event data env = true) :
    (updateEvent settings user eventId data env).run db =
      ({ db with events := Table.update Event.id eventId data.assign db.events },
        .ok (data.assign event)) := by
  simp only [updateAccepted, Bool.and_eq_true, beq_iff_eq, Bool.not_eq_true'] at haccepted
  obtain ⟨⟨⟨howner, hlocked⟩, hnull⟩, hfits⟩ := haccepted
  simp only [updateEvent, run_stmt, selectEventForUpdate, hevent, howner, hlocked, hnull, hfits,
    ne_eq, not_true_eq_false, if_false, if_true, Bool.false_eq_true]
  split_ifs with hempty
  · have hid : data.assign = id := funext (assign_of_isEmpty hempty)
    have hsame : Table.update Event.id eventId data.assign db.events = db.events :=
      Table.update_eq_self (fun _ _ _ => by rw [hid]; rfl)
    rw [run_ret, hsame, assign_of_isEmpty hempty]
  · simp [saveEvent]

theorem updateEvent_ok {data : EventUpdateRequest} {event : Event}
    (h : (updateEvent settings user eventId data env).run db = (db', .ok event)) :
    ∃ old, db.event? eventId = some old ∧ updateAccepted settings user old data env = true ∧
      event = data.assign old ∧
      db' = { db with events := Table.update Event.id eventId data.assign db.events } := by
  cases hold : db.event? eventId with
  | none => simp [updateEvent, selectEventForUpdate, hold] at h
  | some old =>
    have haccepted : updateAccepted settings user old data env = true := by
      simp only [updateEvent, run_stmt, selectEventForUpdate, hold] at h
      split_ifs at h with howner hlocked hempty hnull hfits
      · simp at h
      · simp at h
      · simp [updateAccepted, not_not.mp howner, hlocked, isEmpty_passes hempty]
      · simp at h
      · simp [updateAccepted, not_not.mp howner, hlocked, hnull, hfits]
      · simp at h
    rw [updateEvent_run data hold haccepted] at h
    simp only [Prod.mk.injEq, Except.ok.injEq] at h
    exact ⟨old, rfl, haccepted, h.2.symm, h.1.symm⟩

theorem updateEvent_error {data : EventUpdateRequest} {e : ApiError}
    (h : (updateEvent settings user eventId data env).run db = (db', .error e)) :
    db' = db ∧ ∀ c, e ≠ .integrityError c := by
  simp only [updateEvent, run_stmt, selectEventForUpdate] at h
  cases hold : db.event? eventId with
  | none =>
    simp only [hold, run_raise, Prod.mk.injEq, Except.error.injEq] at h
    exact ⟨h.1.symm, fun c hc => by simp [← h.2, notFound] at hc⟩
  | some old =>
    simp only [hold] at h
    split_ifs at h <;> simp only [run_raise, run_ret, run_stmt, saveEvent, Prod.mk.injEq,
      Except.error.injEq, reduceCtorEq, and_false] at h
    · exact ⟨h.1.symm, fun c hc => by simp [← h.2, notFound] at hc⟩
    · exact ⟨h.1.symm, fun c hc => by simp [← h.2, conflict] at hc⟩
    · exact ⟨h.1.symm, fun c hc => by simp [← h.2] at hc⟩
    · exact ⟨h.1.symm, fun c hc => by simp [← h.2] at hc⟩

theorem jobsViolation_append (t xs ys : List NotificationJob) :
    jobsViolation t (xs ++ ys) =
      (jobsViolation t xs).or (jobsViolation (t ++ xs) ys) := by
  induction xs generalizing t with
  | nil => simp [jobsViolation]
  | cons x xs ih =>
    simp only [List.cons_append, jobsViolation, ih, List.append_assoc]
    split_ifs <;> rfl

theorem createJobs_run {α : Type} (jobs : List NotificationJob) (next : Service α) (db : Database) :
    (createJobs jobs next).run db =
      match jobsViolation db.notificationJobs jobs with
      | some c => (db, .error (.integrityError c))
      | none => next.run { db with notificationJobs := db.notificationJobs ++ jobs } := by
  simp only [createJobs, run_stmt, insertJobs]
  cases jobsViolation db.notificationJobs jobs <;> simp [orRaise]

/-- The tables after a write to `registrations` that is accompanied by its jobs, or the violated
    constraint that undoes both. -/
def outcome {α : Type} (db : Database) (jobs : List NotificationJob) (v : Database) (a : α) :
    Database × Except ApiError α :=
  match jobsViolation db.notificationJobs jobs with
  | some c => (db, .error (.integrityError c))
  | none => (v, .ok a)

theorem outcome_ok {α : Type} {jobs : List NotificationJob} {v : Database} {a b : α}
    (h : outcome db jobs v a = (db', .ok b)) :
    jobsViolation db.notificationJobs jobs = none ∧ db' = v ∧ b = a := by
  unfold outcome at h
  split at h
  · simp at h
  · rename_i hv
    simp only [Prod.mk.injEq, Except.ok.injEq] at h
    exact ⟨hv, h.1.symm, h.2.symm⟩

theorem outcome_error {α : Type} {jobs : List NotificationJob} {v : Database} {a : α} {e : ApiError}
    (h : outcome db jobs v a = (db', .error e)) :
    ∃ c, e = .integrityError c ∧ jobsViolation db.notificationJobs jobs = some c := by
  unfold outcome at h
  split at h
  · rename_i c hv
    simp only [Prod.mk.injEq, Except.error.injEq] at h
    exact ⟨c, h.2.symm, hv⟩
  · simp at h

theorem cancelEvent_run {event : Event} (hevent : db.event? eventId = some event)
    (howner : event.organizerId = user.id) (hstatus : event.status ≠ .cancelled)
    (hstart : env.now 0 < event.startsAt) :
    (cancelEvent user eventId env).run db =
      outcome db (eventCancelledJobs env eventId (db.activeRegistrations eventId))
        { db with
          events := Table.update Event.id eventId (Event.cancel (env.now 1)) db.events
          notificationJobs := db.notificationJobs ++
            eventCancelledJobs env eventId (db.activeRegistrations eventId) }
        (event.cancel (env.now 1)) := by
  have hregs : ({ db with
      events := Table.update Event.id eventId (Event.cancel (env.now 1)) db.events } :
        Database).activeRegistrations eventId = db.activeRegistrations eventId := rfl
  simp only [cancelEvent, run_transaction, run_stmt, selectEventForUpdate, hevent, howner, ne_eq,
    not_true_eq_false, if_false, hstatus, not_le.mpr hstart, saveEvent, selectActiveRegistrations,
    Stmt.select, hregs]
  generalize eventCancelledJobs env eventId (db.activeRegistrations eventId) = jobs
  split_ifs with hempty
  · subst hempty
    simp [outcome, jobsViolation]
  · rw [createJobs_run]
    unfold outcome
    cases jobsViolation db.notificationJobs jobs <;> rfl

theorem cancelEvent_again {event : Event} (hevent : db.event? eventId = some event)
    (howner : event.organizerId = user.id) (hstatus : event.status = .cancelled) :
    (cancelEvent user eventId env).run db = (db, .ok event) := by
  simp [cancelEvent, selectEventForUpdate, hevent, howner, hstatus]

theorem cancelEvent_cases (user : User) (eventId : UUID) (env : Env) (db : Database) :
    (∃ e, (cancelEvent user eventId env).run db = (db, .error e) ∧ ∀ c, e ≠ .integrityError c) ∨
    (∃ event, (cancelEvent user eventId env).run db = (db, .ok event)) ∨
    ∃ event, db.event? eventId = some event ∧ event.organizerId = user.id ∧
      event.status ≠ .cancelled ∧ env.now 0 < event.startsAt := by
  cases hevent : db.event? eventId with
  | none =>
    refine Or.inl ⟨notFound "event not found", ?_, fun c => by simp [notFound]⟩
    simp [cancelEvent, selectEventForUpdate, hevent]
  | some event =>
    by_cases howner : event.organizerId = user.id
    · by_cases hstatus : event.status = .cancelled
      · exact Or.inr (Or.inl ⟨event, cancelEvent_again hevent howner hstatus⟩)
      · by_cases hstart : event.startsAt ≤ env.now 0
        · refine Or.inl ⟨conflict "cannot cancel an event that has already started", ?_,
            fun c => by simp [conflict]⟩
          simp [cancelEvent, selectEventForUpdate, hevent, howner, hstatus, hstart]
        · exact Or.inr (Or.inr ⟨event, rfl, howner, hstatus, not_le.mp hstart⟩)
    · refine Or.inl ⟨notFound "event not found", ?_, fun c => by simp [notFound]⟩
      simp [cancelEvent, selectEventForUpdate, hevent, howner]

def seatOutcome (db : Database) (event : Event) (eventId : UUID) :
    RegistrationStatus × EventType × Option ℕ :=
  if db.count eventId .confirmed < event.capacity then (.confirmed, .registrationConfirmed, none)
  else (.waitlisted, .registrationWaitlisted, some (db.count eventId .waitlisted + 1))

theorem registerStudent_run {event : Event} (hevent : db.event? eventId = some event)
    (hstatus : event.status = .published) :
    (registerStudent student eventId env).run db =
      let seat := seatOutcome db event eventId
      let reg := newRegistration student eventId seat.1 env
      if registrationViolation db reg = none then
        outcome db [registrationJob student event eventId seat.2.1 seat.2.2 env]
          { db with
            registrations := db.registrations ++ [reg]
            notificationJobs := db.notificationJobs ++
              [registrationJob student event eventId seat.2.1 seat.2.2 env] }
          ⟨env.uuid 0, eventId, student.id, seat.1, env.now 0, seat.2.2⟩
      else (db, .error (conflict "already registered for this event")) := by
  have halloc : ∀ k : RegistrationStatus × EventType × Option ℕ → Service RegistrationResponse,
      ((allocateSeat event eventId (db.count eventId .confirmed)).bind k).run db =
        (k (seatOutcome db event eventId)).run db := by
    intro k
    unfold allocateSeat seatOutcome
    split_ifs <;> rfl
  simp only [registerStudent, run_transaction, run_stmt, selectEventForUpdate, hevent, hstatus,
    ne_eq, not_true_eq_false, if_false, countRegistrations, Stmt.select, halloc]
  generalize seatOutcome db event eventId = seat
  obtain ⟨status, eventType, position⟩ := seat
  simp only [insertRegistration]
  cases hv : registrationViolation db (newRegistration student eventId status env) with
  | some c => simp
  | none =>
    simp only [if_true, createJobs_run]
    unfold outcome
    cases jobsViolation db.notificationJobs
      [registrationJob student event eventId eventType position env] <;> rfl

theorem registerStudent_cases (student : User) (eventId : UUID) (env : Env) (db : Database) :
    (registerStudent student eventId env).run db = (db, .error (notFound "event not found")) ∨
    ∃ event, db.event? eventId = some event ∧ event.status = .published := by
  cases hevent : db.event? eventId with
  | none => left; simp [registerStudent, selectEventForUpdate, hevent]
  | some event =>
    by_cases hstatus : event.status = .published
    · exact Or.inr ⟨event, rfl, hstatus⟩
    · left; simp [registerStudent, selectEventForUpdate, hevent, hstatus]

theorem registerStudent_ok {response : RegistrationResponse}
    (h : (registerStudent student eventId env).run db = (db', .ok response)) :
    ∃ event, db.event? eventId = some event ∧ event.status = .published ∧
      let seat := seatOutcome db event eventId
      let reg := newRegistration student eventId seat.1 env
      let job := registrationJob student event eventId seat.2.1 seat.2.2 env
      registrationViolation db reg = none ∧ jobsViolation db.notificationJobs [job] = none ∧
      response = ⟨env.uuid 0, eventId, student.id, seat.1, env.now 0, seat.2.2⟩ ∧
      db' = { db with
        registrations := db.registrations ++ [reg]
        notificationJobs := db.notificationJobs ++ [job] } := by
  rcases registerStudent_cases student eventId env db with hrefused | ⟨event, hevent, hstatus⟩
  · rw [hrefused] at h
    simp at h
  · rw [registerStudent_run hevent hstatus] at h
    dsimp only at h
    split_ifs at h with hv
    · obtain ⟨hjobs, hdb, hresp⟩ := outcome_ok h
      exact ⟨event, hevent, hstatus, hv, hjobs, hresp, hdb⟩
    · simp at h

def cancelRows (reg : Registration) (env : Env) (t : List Registration) : List Registration :=
  Table.update Registration.id reg.id (Registration.cancel (env.now 1)) t

def promotion (db : Database) (reg : Registration) (env : Env) : Option Registration :=
  if reg.status = .confirmed then
    ({ db with registrations := cancelRows reg env db.registrations } : Database).nextWaitlisted
      reg.eventId
  else none

def promoteRows : Option Registration → List Registration → List Registration
  | none, t => t
  | some next, t => Table.update Registration.id next.id Registration.confirm t

def cancellationJobs (student : User) (event : Event) (reg : Registration)
    (next? : Option Registration) (env : Env) : List NotificationJob :=
  (next?.toList.map fun next => waitlistPromotedJob event next reg.eventId env) ++
    [registrationCancelledJob student reg env]

def cancelledDatabase (student : User) (event : Event) (reg : Registration) (env : Env)
    (db : Database) : Database :=
  { db with
    registrations := promoteRows (promotion db reg env) (cancelRows reg env db.registrations)
    notificationJobs := db.notificationJobs ++
      cancellationJobs student event reg (promotion db reg env) env }

theorem promoteNext_run {α : Type} (event : Event) (eventId : UUID) (env : Env) (k : Service α)
    (db : Database) :
    (promoteNext event eventId env k).run db =
      match db.nextWaitlisted eventId with
      | none => k.run db
      | some next => (createJobs [waitlistPromotedJob event next eventId env] k).run
          { db with registrations := promoteRows (some next) db.registrations } := by
  simp only [promoteNext, run_stmt, selectNextWaitlisted, Stmt.select]
  cases db.nextWaitlisted eventId <;> rfl

/-- The writes under the lock once every guard has passed, given the jobs of the promotion. -/
theorem cancelWrites_run {α : Type} (student : User) (reg : Registration) (event : Event) (a : α) :
    settle db ((if reg.status = .confirmed then
        promoteNext event reg.eventId env
          (createJobs [registrationCancelledJob student reg env] (.ret a))
      else createJobs [registrationCancelledJob student reg env] (.ret a)).run
        { db with registrations := cancelRows reg env db.registrations }) =
      outcome db (cancellationJobs student event reg (promotion db reg env) env)
        (cancelledDatabase student event reg env db) a := by
  unfold cancelledDatabase cancellationJobs promotion outcome
  split_ifs with hconfirmed
  · rw [promoteNext_run]
    generalize Database.nextWaitlisted _ _ = next?
    cases next? with
    | none =>
      simp only [createJobs_run, Option.toList_none, List.map_nil, List.nil_append, promoteRows]
      cases jobsViolation db.notificationJobs [registrationCancelledJob student reg env] <;> rfl
    | some next =>
      simp only [createJobs_run, Option.toList_some, List.map_cons, List.map_nil,
        jobsViolation_append]
      cases jobsViolation db.notificationJobs [waitlistPromotedJob event next reg.eventId env] with
      | some c => rfl
      | none =>
        simp only [Option.none_or, List.append_assoc]
        cases jobsViolation
          (db.notificationJobs ++ [waitlistPromotedJob event next reg.eventId env])
          [registrationCancelledJob student reg env] <;> rfl
  · simp only [createJobs_run, Option.toList_none, List.map_nil, List.nil_append, promoteRows]
    cases jobsViolation db.notificationJobs [registrationCancelledJob student reg env] <;> rfl

theorem filter_own {reg : Registration} (howner : reg.studentId = student.id) :
    (some reg).filter (fun r => decide (r.studentId = student.id)) = some reg := by
  simp [howner]

theorem cancelRegistration_run {reg : Registration} {event : Event}
    (hreg : db.registration? regId = some reg) (howner : reg.studentId = student.id)
    (hactive : reg.status ≠ .cancelled) (hevent : db.event? reg.eventId = some event)
    (hstart : env.now 0 < event.startsAt) :
    (cancelRegistration student regId env).run db =
      outcome db (cancellationJobs student event reg (promotion db reg env) env)
        (cancelledDatabase student event reg env db) (reg.cancel (env.now 1)) := by
  rw [← cancelWrites_run student reg event]
  simp only [cancelRegistration, run_transaction, run_stmt, selectOwnRegistration, Stmt.select,
    hreg, filter_own howner, hactive, if_false, selectEventForUpdate, hevent, cancelUnderLock,
    selectRegistrationForUpdate, not_le.mpr hstart]
  rfl

theorem cancelRegistration_cases (student : User) (regId : UUID) (env : Env) (db : Database) :
    (∃ e, (cancelRegistration student regId env).run db = (db, .error e) ∧
      ∀ c, e ≠ .integrityError c) ∨
    ∃ reg event, db.registration? regId = some reg ∧ reg.studentId = student.id ∧
      reg.status ≠ .cancelled ∧ db.event? reg.eventId = some event ∧
      env.now 0 < event.startsAt := by
  cases hreg : db.registration? regId with
  | none =>
    refine Or.inl ⟨notFound "registration not found", ?_, fun c => by simp [notFound]⟩
    simp [cancelRegistration, selectOwnRegistration, Stmt.select, hreg]
  | some reg =>
    by_cases howner : reg.studentId = student.id
    · by_cases hactive : reg.status = .cancelled
      · refine Or.inl ⟨alreadyCancelled, ?_, fun c => by simp [alreadyCancelled, conflict]⟩
        simp [cancelRegistration, selectOwnRegistration, Stmt.select, hreg, filter_own howner,
          hactive]
      · cases hevent : db.event? reg.eventId with
        | none =>
          refine Or.inl ⟨notFound "event not found", ?_, fun c => by simp [notFound]⟩
          simp [cancelRegistration, selectOwnRegistration, Stmt.select, hreg, filter_own howner,
            hactive, selectEventForUpdate, hevent]
        | some event =>
          by_cases hstart : event.startsAt ≤ env.now 0
          · refine Or.inl ⟨eventAlreadyStarted, ?_, fun c => by simp [eventAlreadyStarted]⟩
            simp [cancelRegistration, selectOwnRegistration, Stmt.select, hreg, filter_own howner,
              hactive, selectEventForUpdate, hevent, cancelUnderLock, selectRegistrationForUpdate,
              hstart]
          · exact Or.inr ⟨reg, event, rfl, howner, hactive, hevent, not_le.mp hstart⟩
    · refine Or.inl ⟨notFound "registration not found", ?_, fun c => by simp [notFound]⟩
      have hother : (some reg).filter (fun r => decide (r.studentId = student.id)) = none := by
        simp [howner]
      simp [cancelRegistration, selectOwnRegistration, Stmt.select, hreg, hother]

end Specs

/-- Every way in which one call moves the tables, with the guards it has passed. -/
inductive Change (settings : Settings) : Call → Database → Database → Prop
  | refused (c : Call) (db : Database) : Change settings c db db
  | createEvent {organizer : User} {data : EventCreateRequest} {env : Env} {db : Database}
      (fresh : eventViolation db (newEvent organizer data env) = none) :
      Change settings (.createEvent organizer data env) db
        { db with events := db.events ++ [newEvent organizer data env] }
  | publishEvent {user : User} {eventId : UUID} {env : Env} {db : Database} {event : Event}
      (found : db.event? eventId = some event) (owner : event.organizerId = user.id)
      (draft : event.status = .draft) :
      Change settings (.publishEvent user eventId env) db
        { db with
          events := Table.update Event.id eventId (Event.publish (env.now 0)) db.events }
  | updateEvent {user : User} {eventId : UUID} {data : EventUpdateRequest} {env : Env}
      {db : Database} {event : Event} (found : db.event? eventId = some event)
      (accepted : updateAccepted settings user event data env = true) :
      Change settings (.updateEvent user eventId data env) db
        { db with events := Table.update Event.id eventId data.assign db.events }
  | cancelEvent {user : User} {eventId : UUID} {env : Env} {db : Database} {event : Event}
      (found : db.event? eventId = some event) (owner : event.organizerId = user.id)
      (live : event.status ≠ .cancelled) (ahead : env.now 0 < event.startsAt)
      (fresh : jobsViolation db.notificationJobs
        (eventCancelledJobs env eventId (db.activeRegistrations eventId)) = none) :
      Change settings (.cancelEvent user eventId env) db
        { db with
          events := Table.update Event.id eventId (Event.cancel (env.now 1)) db.events
          notificationJobs := db.notificationJobs ++
            eventCancelledJobs env eventId (db.activeRegistrations eventId) }
  | registerStudent {student : User} {eventId : UUID} {env : Env} {db : Database} {event : Event}
      {status : RegistrationStatus} {eventType : EventType} {position : Option ℕ}
      (found : db.event? eventId = some event) (published : event.status = .published)
      (seat : seatOutcome db event eventId = (status, eventType, position))
      (unregistered : registrationViolation db (newRegistration student eventId status env) = none)
      (fresh : jobsViolation db.notificationJobs
        [registrationJob student event eventId eventType position env] = none) :
      Change settings (.registerStudent student eventId env) db
        { db with
          registrations := db.registrations ++ [newRegistration student eventId status env]
          notificationJobs := db.notificationJobs ++
            [registrationJob student event eventId eventType position env] }
  | cancelRegistration {student : User} {regId : UUID} {env : Env} {db : Database}
      {reg : Registration} {event : Event} (found : db.registration? regId = some reg)
      (owner : reg.studentId = student.id) (active : reg.status ≠ .cancelled)
      (foundEvent : db.event? reg.eventId = some event) (ahead : env.now 0 < event.startsAt)
      (fresh : jobsViolation db.notificationJobs
        (cancellationJobs student event reg (promotion db reg env) env) = none) :
      Change settings (.cancelRegistration student regId env) db
        (cancelledDatabase student event reg env db)

theorem effect_map {α : Type} (p : Service α) (f : α → Response) (db : Database) :
    ((p.map f).run db).1 = (p.run db).1 := by
  rw [run_map]

theorem outcome_fst {α : Type} (db v : Database) (jobs : List NotificationJob) (a : α) :
    (outcome db jobs v a).1 = if jobsViolation db.notificationJobs jobs = none then v else db := by
  unfold outcome
  split
  · rename_i c hv
    simp [hv]
  · rename_i hv
    simp [hv]

/-- The inversion of one call. -/
theorem change (settings : Settings) (c : Call) (db : Database) :
    Change settings c db (effect settings c db) := by
  cases c with
  | createEvent organizer data env =>
    unfold effect perform Call.prog
    rw [effect_map]
    rcases h : (createEvent organizer data env).run db with ⟨db', r⟩
    cases r with
    | error e =>
      obtain ⟨rfl, _⟩ := createEvent_error h
      exact .refused _ _
    | ok event =>
      obtain ⟨rfl, fresh, rfl⟩ := createEvent_ok h
      exact .createEvent fresh
  | publishEvent user eventId env =>
    unfold effect perform Call.prog
    rw [effect_map]
    rcases h : (publishEvent user eventId env).run db with ⟨db', r⟩
    cases r with
    | error e =>
      obtain ⟨rfl, _⟩ := publishEvent_error h
      exact .refused _ _
    | ok event =>
      obtain ⟨old, found, owner, draft, rfl, rfl⟩ := publishEvent_ok h
      exact .publishEvent found owner draft
  | updateEvent user eventId data env =>
    unfold effect perform Call.prog
    rw [effect_map]
    rcases h : (updateEvent settings user eventId data env).run db with ⟨db', r⟩
    cases r with
    | error e =>
      obtain ⟨rfl, _⟩ := updateEvent_error h
      exact .refused _ _
    | ok event =>
      obtain ⟨old, found, accepted, rfl, rfl⟩ := updateEvent_ok h
      exact .updateEvent found accepted
  | cancelEvent user eventId env =>
    unfold effect perform Call.prog
    rw [effect_map]
    rcases cancelEvent_cases user eventId env db with
      ⟨e, h, _⟩ | ⟨event, h⟩ | ⟨event, found, owner, live, ahead⟩
    · rw [h]
      exact .refused _ _
    · rw [h]
      exact .refused _ _
    · rw [cancelEvent_run found owner live ahead, outcome_fst]
      split_ifs with fresh
      · exact .cancelEvent found owner live ahead fresh
      · exact .refused _ _
  | registerStudent student eventId env =>
    unfold effect perform Call.prog
    rw [effect_map]
    rcases registerStudent_cases student eventId env db with h | ⟨event, found, published⟩
    · rw [h]
      exact .refused _ _
    · rw [registerStudent_run found published]
      rcases hseat : seatOutcome db event eventId with ⟨status, eventType, position⟩
      dsimp only
      split_ifs with unregistered
      · rw [outcome_fst]
        split_ifs with fresh
        · exact .registerStudent found published hseat unregistered fresh
        · exact .refused _ _
      · exact .refused _ _
  | cancelRegistration student regId env =>
    unfold effect perform Call.prog
    rw [effect_map]
    rcases cancelRegistration_cases student regId env db with
      ⟨e, h, _⟩ | ⟨reg, event, found, owner, active, foundEvent, ahead⟩
    · rw [h]
      exact .refused _ _
    · rw [cancelRegistration_run found owner active foundEvent ahead, outcome_fst]
      split_ifs with fresh
      · exact .cancelRegistration found owner active foundEvent ahead fresh
      · exact .refused _ _

/-- A call that raises leaves every table as it was. -/
theorem perform_error {settings : Settings} {c : Call} {db : Database} {e : ApiError}
    (h : (perform settings c db).2 = .error e) : (perform settings c db).1 = db := by
  have unmapped : ∀ {α : Type} (p : Service α) (f : α → Response),
      (∀ e, (p.run db).2 = .error e → (p.run db).1 = db) →
      ((p.map f).run db).2 = .error e → ((p.map f).run db).1 = db := by
    intro α p f hp hr
    rw [run_map] at hr ⊢
    rcases hrun : p.run db with ⟨v, r⟩
    rw [hrun] at hp hr
    cases r with
    | ok a => cases hr
    | error e' => exact hp e' rfl
  cases c with
  | createEvent => exact unmapped _ _ (fun _ he => (createEvent_error (Prod.ext rfl he)).1) h
  | publishEvent => exact unmapped _ _ (fun _ he => (publishEvent_error (Prod.ext rfl he)).1) h
  | updateEvent => exact unmapped _ _ (fun _ he => (updateEvent_error (Prod.ext rfl he)).1) h
  | cancelEvent => exact unmapped _ _ (fun _ he => run_transaction_error (Prod.ext rfl he)) h
  | registerStudent => exact unmapped _ _ (fun _ he => run_transaction_error (Prod.ext rfl he)) h
  | cancelRegistration => exact unmapped _ _ (fun _ he => run_transaction_error (Prod.ext rfl he)) h

end Hefest
