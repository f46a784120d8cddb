import Hefest.Listings
import Hefest.SeatRuns

set_option autoImplicit false

namespace Hefest
open Transition Transaction

/-- `EventResponse.model_validate(evt)` of a row without the annotation. -/
def EventResponse.modelValidate (event : Event) : EventResponse := { event := event }

def EventDetailResponse.toEventResponse (detail : EventDetailResponse) : EventResponse :=
  ⟨detail.event, detail.confirmedCount⟩

inductive EventEndpoint
  | listEvents (user : User) (limit offset : ℕ)
  | getEvent (user : User) (eventId : UUID)
  | updateEvent (organizer : User) (eventId : UUID) (body : EventUpdateRequest) (env : Env)
  | publishEvent (organizer : User) (eventId : UUID) (env : Env)
  | cancelEvent (organizer : User) (eventId : UUID) (env : Env)

namespace EventEndpoint

def prog (settings : Settings) : EventEndpoint → Service (List EventResponse)
  | listEvents user limit offset => Hefest.listEvents user limit offset
  | getEvent user eventId =>
    (Hefest.getEventDetail user eventId).map fun detail => [detail.toEventResponse]
  | updateEvent organizer eventId body env =>
    requireRole .organizer organizer <|
      (Hefest.updateEvent settings organizer eventId body env).map fun event => [.modelValidate event]
  | publishEvent organizer eventId env =>
    requireRole .organizer organizer <|
      (Hefest.publishEvent organizer eventId env).map fun event => [.modelValidate event]
  | cancelEvent organizer eventId env =>
    requireRole .organizer organizer <|
      (Hefest.cancelEvent organizer eventId env).map fun event => [.modelValidate event]

def written? : EventEndpoint → Option UUID
  | listEvents .. | getEvent .. => none
  | updateEvent _ eventId _ _ => some eventId
  | publishEvent _ eventId _ => some eventId
  | cancelEvent _ eventId _ => some eventId

end EventEndpoint

/-- Every event of the answer has the number of its confirmed registrations in `db`. -/
def CountsConfirmed (responses : List EventResponse) (db : Database) : Prop :=
  ∀ response ∈ responses, response.confirmedCount = db.count response.event.id .confirmed

section Answers
variable {settings : Settings} {user organizer : User} {eventId : UUID} {env : Env}
  {db db' : Database}

theorem run_map_ok {α β : Type} {p : Service α} {f : α → β} {b : β}
    (h : (p.map f).run db = (db', .ok b)) : ∃ a, p.run db = (db', .ok a) ∧ f a = b := by
  rw [run_map] at h
  rcases hrun : p.run db with ⟨v, r⟩
  rw [hrun] at h
  cases r with
  | error e => cases (Prod.mk.inj h).2
  | ok a =>
    obtain ⟨rfl, hb⟩ := Prod.mk.inj h
    exact ⟨a, rfl, Except.ok.inj hb⟩

theorem requireRole_ok {α : Type} {role : UserRole} {next : Service α} {a : α}
    (h : (requireRole role user next).run db = (db', .ok a)) : next.run db = (db', .ok a) := by
  unfold requireRole at h
  split_ifs at h
  · exact h
  · cases (Prod.mk.inj h).2

theorem listEvents_counts {limit offset : ℕ} {responses : List EventResponse}
    (h : (listEvents user limit offset).run db = (db', .ok responses)) :
    CountsConfirmed responses db' := by
  have hselected : ∀ shown : Event → Bool,
      CountsConfirmed ((selectEvents shown limit offset).result db) db := by
    intro shown response hresponse
    obtain ⟨event, _, rfl⟩ := List.mem_map.mp hresponse
    rfl
  unfold listEvents at h
  split_ifs at h
  · obtain ⟨rfl, hresponses⟩ := Prod.mk.inj h
    rw [← Except.ok.inj hresponses]
    exact hselected _
  · obtain ⟨rfl, hresponses⟩ := Prod.mk.inj h
    rw [← Except.ok.inj hresponses]
    exact hselected _

theorem getEventDetail_counts {detail : EventDetailResponse}
    (h : (getEventDetail user eventId).run db = (db', .ok detail)) :
    CountsConfirmed [detail.toEventResponse] db' := by
  simp only [getEventDetail, run_stmt, selectEventDetail, Stmt.select] at h
  cases hevent : db.event? eventId with
  | none => simp [hevent] at h
  | some event =>
    by_cases hvisible : event.visibleTo user = true
    · simp only [hevent, Option.map_some, hvisible, if_true, run_stmt, selectUser,
        Stmt.select] at h
      cases horganizer : Table.lookup User.id event.organizerId db.users with
      | none => simp [horganizer] at h
      | some organizer =>
        simp only [horganizer, run_ret, Prod.mk.injEq, Except.ok.injEq] at h
        obtain ⟨rfl, rfl⟩ := h
        intro response hresponse
        rw [List.mem_singleton.mp hresponse, ← event_lookup_id hevent]
        rfl
    · simp [hevent, hvisible] at h

theorem cancelEvent_ok {event : Event}
    (h : (cancelEvent user eventId env).run db = (db', .ok event)) :
    event.id = eventId ∧ db'.registrations = db.registrations := by
  cases hold : db.event? eventId with
  | none => simp [cancelEvent, selectEventForUpdate, hold] at h
  | some old =>
    have hid := event_lookup_id hold
    by_cases howner : old.organizerId = user.id
    · by_cases hcancelled : old.status = .cancelled
      · rw [cancelEvent_again hold howner hcancelled] at h
        cases h
        exact ⟨hid, rfl⟩
      · by_cases hstarted : old.startsAt ≤ env.now 0
        · simp [cancelEvent, selectEventForUpdate, hold, howner, hcancelled, hstarted] at h
        · rw [cancelEvent_run hold howner hcancelled (not_le.mp hstarted)] at h
          obtain ⟨_, rfl, rfl⟩ := outcome_ok h
          exact ⟨hid, rfl⟩
    · simp [cancelEvent, selectEventForUpdate, hold, howner] at h

/-- What a writing endpoint answers with: the default for an event whose registrations stay. -/
theorem written_ok {endpoint : EventEndpoint} {responses : List EventResponse}
    (hwritten : endpoint.written? = some eventId)
    (h : (endpoint.prog settings).run db = (db', .ok responses)) :
    ∃ event, responses = [.modelValidate event] ∧ event.id = eventId ∧
      db'.registrations = db.registrations := by
  cases endpoint with
  | listEvents => cases hwritten
  | getEvent => cases hwritten
  | updateEvent organizer id body env =>
    cases hwritten
    obtain ⟨event, hok, rfl⟩ := run_map_ok (requireRole_ok h)
    obtain ⟨old, hold, _, rfl, rfl⟩ := updateEvent_ok hok
    have hid : old.id = eventId := event_lookup_id hold
    exact ⟨_, rfl, hid, rfl⟩
  | publishEvent organizer id env =>
    cases hwritten
    obtain ⟨event, hok, rfl⟩ := run_map_ok (requireRole_ok h)
    obtain ⟨old, hold, _, _, rfl, rfl⟩ := publishEvent_ok hok
    have hid : old.id = eventId := event_lookup_id hold
    exact ⟨_, rfl, hid, rfl⟩
  | cancelEvent organizer id env =>
    cases hwritten
    obtain ⟨event, hok, rfl⟩ := run_map_ok (requireRole_ok h)
    exact ⟨event, rfl, cancelEvent_ok hok⟩

end Answers

/-- The counts of an answer are those of the database it leaves, exactly if the endpoint only reads
    or its event has no confirmed registration. -/
theorem confirmed_count_iff (settings : Settings) (endpoint : EventEndpoint) (db db' : Database)
    (responses : List EventResponse)
    (hok : (endpoint.prog settings).run db = (db', .ok responses)) :
    CountsConfirmed responses db' ↔
      ∀ eventId, endpoint.written? = some eventId → db.count eventId .confirmed = 0 := by
  cases hwritten : endpoint.written? with
  | none =>
    have hcounts : CountsConfirmed responses db' := by
      cases endpoint with
      | listEvents => exact listEvents_counts hok
      | getEvent =>
        obtain ⟨detail, hdetail, rfl⟩ := run_map_ok hok
        exact getEventDetail_counts hdetail
      | _ => cases hwritten
    refine ⟨?_, fun _ => hcounts⟩
    intro _ eventId hsome
    cases hsome
  | some eventId =>
    obtain ⟨event, rfl, hid, hrows⟩ := written_ok hwritten hok
    have hsame : db'.count eventId .confirmed = db.count eventId .confirmed := by
      rw [count_def, count_def, hrows]
    constructor
    · intro h id hsome
      cases hsome
      have hzero : 0 = db'.count event.id .confirmed := h _ List.mem_cons_self
      rw [← hsame, ← hid, ← hzero]
    · intro h response hresponse
      rw [List.mem_singleton.mp hresponse]
      change 0 = db'.count event.id .confirmed
      rw [hid, hsame, h eventId rfl]

theorem confirmed_count_iff_publish :
    ∃ db' responses, ((EventEndpoint.publishEvent organizer 100 (envAt 1 200)).prog {}).run
        (after (effect {}) {} [.createEvent organizer oneSeat (envAt 0 100)]) =
          (db', .ok responses) ∧
      CountsConfirmed responses db' := by
  refine ⟨_, _, rfl, ?_⟩
  refine (confirmed_count_iff {} (.publishEvent organizer 100 (envAt 1 200))
    (after (effect {}) {} [.createEvent organizer oneSeat (envAt 0 100)]) _ _ rfl).mpr ?_
  intro eventId hwritten
  cases hwritten
  decide

/-- `alice` has the seat; the answer to a new title says that nobody has. -/
theorem confirmed_count_defaults :
    ∃ db' response, ((EventEndpoint.updateEvent organizer 100
        { title := some (some "Defence, part 2") } (envAt 4 500)).prog {}).run
          (after (effect {}) {} oneSeatCalls) = (db', .ok [response]) ∧
      response.event.id = 100 ∧ response.confirmedCount = 0 ∧ db'.count 100 .confirmed = 1 ∧
      ¬ CountsConfirmed [response] db' := by
  refine ⟨_, _, rfl, by decide, rfl, by decide, ?_⟩
  intro h
  have hcount := h _ List.mem_cons_self
  revert hcount
  decide

end Hefest
