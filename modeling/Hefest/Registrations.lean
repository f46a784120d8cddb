import Hefest.Events

set_option autoImplicit false

namespace Hefest
open Transaction

structure RegistrationResponse where
  id : UUID
  eventId : UUID
  studentId : UUID
  status : RegistrationStatus
  registeredAt : Time
  waitlistPosition : Option ℕ
deriving DecidableEq

/-- Seat or queue: the status, the job type and the waitlist position of a new registration. -/
def allocateSeat (event : Event) (eventId : UUID) (confirmedCount : ℕ) :
    Service (RegistrationStatus × EventType × Option ℕ) :=
  if confirmedCount < event.capacity then .ret (.confirmed, .registrationConfirmed, none)
  else .stmt (countRegistrations eventId .waitlisted) fun waitlistCount =>
    .ret (.waitlisted, .registrationWaitlisted, some (waitlistCount + 1))

def newRegistration (student : User) (eventId : UUID) (status : RegistrationStatus) (env : Env) :
    Registration where
  id := env.uuid 0
  eventId := eventId
  studentId := student.id
  status := status
  registeredAt := env.now 0
  cancelledAt := none

def registrationJob (student : User) (event : Event) (eventId : UUID) (eventType : EventType)
    (position : Option ℕ) (env : Env) : NotificationJob :=
  newJob env 1 1 (some eventId) eventType
    { registrationId := some (env.uuid 0), eventId := some eventId, studentId := some student.id,
      eventTitle := some event.title, waitlistPosition := position } (env.uuid 0)

def registerStudent (student : User) (eventId : UUID) (env : Env) : Service RegistrationResponse :=
  .transaction <| .stmt (selectEventForUpdate eventId) fun event? =>
    match event? with
    | none => .raise (notFound "event not found")
    | some event =>
      if event.status ≠ .published then .raise (notFound "event not found")
      else
        .stmt (countRegistrations eventId .confirmed) fun confirmedCount =>
        (allocateSeat event eventId confirmedCount).bind fun (status, eventType, position) =>
        .stmt (insertRegistration (newRegistration student eventId status env)) fun violation =>
          match violation with
          | some _ => .raise (conflict "already registered for this event")
          | none =>
            createJobs [registrationJob student event eventId eventType position env]
              (.ret ⟨env.uuid 0, eventId, student.id, status, env.now 0, position⟩)

def Registration.cancel (now : Time) (reg : Registration) : Registration :=
  { reg with status := .cancelled, cancelledAt := some now }

def Registration.confirm (reg : Registration) : Registration := { reg with status := .confirmed }

def waitlistPromotedJob (event : Event) (next : Registration) (eventId : UUID) (env : Env) :
    NotificationJob :=
  newJob env 0 2 (some eventId) .waitlistPromoted
    { registrationId := some next.id, eventId := some eventId, studentId := some next.studentId,
      eventTitle := some event.title } next.id

def registrationCancelledJob (student : User) (reg : Registration) (env : Env) : NotificationJob :=
  newJob env 1 5 (some reg.eventId) .registrationCancelled
    { registrationId := some reg.id, eventId := some reg.eventId, studentId := some student.id }
    reg.id

def alreadyCancelled : ApiError := conflict "registration already cancelled"

def eventAlreadyStarted : ApiError :=
  .http 409 "event already started" (some "event_already_started")

/-- Promote the first waitlisted registration of the event, if there is one. -/
def promoteNext {α : Type} (event : Event) (eventId : UUID) (env : Env) (k : Service α) :
    Service α :=
  .stmt (selectNextWaitlisted eventId) fun next? =>
    match next? with
    | none => k
    | some next =>
      .stmt (saveRegistration next.id Registration.confirm) fun _ =>
        createJobs [waitlistPromotedJob event next eventId env] k

/-- What `cancel_registration` does once it holds the event row. -/
def cancelUnderLock (student : User) (regId : UUID) (event : Event) (env : Env) :
    Service Registration :=
  .stmt (selectRegistrationForUpdate regId) fun reg? =>
    match reg? with
    | none => .raise .doesNotExist
    | some reg =>
      if reg.status = .cancelled then .raise alreadyCancelled
      else if event.startsAt ≤ env.now 0 then .raise eventAlreadyStarted
      else
        .stmt (saveRegistration reg.id (Registration.cancel (env.now 1))) fun _ =>
          let finish := createJobs [registrationCancelledJob student reg env]
            (.ret (reg.cancel (env.now 1)))
          if reg.status = .confirmed then promoteNext event reg.eventId env finish else finish

def cancelRegistration (student : User) (regId : UUID) (env : Env) : Service Registration :=
  .transaction <| .stmt (selectOwnRegistration regId student.id) fun reg? =>
    match reg? with
    | none => .raise (notFound "registration not found")
    | some reg =>
      if reg.status = .cancelled then .raise alreadyCancelled
      else .stmt (selectEventForUpdate reg.eventId) fun event? =>
        match event? with
        | none => .raise (notFound "event not found")
        | some event => cancelUnderLock student regId event env

end Hefest
