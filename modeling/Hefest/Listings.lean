import Hefest.Lib.Ranking
import Hefest.Calls
import Hefest.RefreshTokens

set_option autoImplicit false

namespace Hefest
open Transaction

/-- `ORDER BY starts_at DESC`. -/
def Event.latestFirst (e f : Event) : Prop := f.startsAt ≤ e.startsAt

instance : DecidableRel Event.latestFirst := fun e f => inferInstanceAs (Decidable (f.startsAt ≤ e.startsAt))

structure EventResponse where
  event : Event
  confirmedCount : ℕ := 0
deriving DecidableEq

structure EventDetailResponse where
  event : Event
  confirmedCount : ℕ
  waitlistCount : ℕ
  organizerName : String
deriving DecidableEq

def selectEvents (shown : Event → Bool) (limit offset : ℕ) : Query (List EventResponse) :=
  .select fun db =>
    (((Table.orderBy Event.latestFirst (db.events.filter shown)).drop offset).take limit).map
      fun event => ⟨event, db.count event.id .confirmed⟩

def listEvents (user : User) (limit offset : ℕ) : Service (List EventResponse) :=
  if user.role = .student then
    .stmt (selectEvents (fun event => event.status = .published) limit offset) .ret
  else
    .stmt (selectEvents (fun event => event.organizerId = user.id ∨ event.status = .published) limit
      offset) .ret

/-- The condition of `_assert_visible`. -/
def Event.visibleTo (user : User) (event : Event) : Bool :=
  if user.role = .student then event.status = .published
  else !(event.status ≠ .published && event.organizerId ≠ user.id)

/-- The event with both counts, in one query. -/
def selectEventDetail (eventId : UUID) : Query (Option (Event × ℕ × ℕ)) :=
  .select fun db => (db.event? eventId).map fun event =>
    (event, db.count eventId .confirmed, db.count eventId .waitlisted)

def getEventDetail (user : User) (eventId : UUID) : Service EventDetailResponse :=
  .stmt (selectEventDetail eventId) fun found =>
    match found with
    | none => .raise (notFound "event not found")
    | some (event, confirmedCount, waitlistCount) =>
      if event.visibleTo user then
        .stmt (selectUser event.organizerId) fun organizer? =>
          match organizer? with
          | none => .raise .doesNotExist
          | some organizer => .ret ⟨event, confirmedCount, waitlistCount, organizer.fullName⟩
      else .raise (notFound "event not found")

structure MyRegistrationResponse where
  id : UUID
  eventId : UUID
  status : RegistrationStatus
  registeredAt : Time
  cancelledAt : Option Time
  waitlistPosition : Option ℕ
deriving DecidableEq

def selectMyRegistrations (studentId : UUID) : Query (List Registration) :=
  .select fun db =>
    db.registrations.filter fun r => r.studentId = studentId ∧ r.status ≠ .cancelled

/-- The waitlisted registrations of the event up to this one; the OR condition replicates the FIFO
    ordering. -/
def countAhead (reg : Registration) : Query ℕ :=
  .select fun db => db.registrations.countP fun r =>
    (r.eventId = reg.eventId ∧ r.status = .waitlisted) ∧
      (r.registeredAt < reg.registeredAt ∨ (r.registeredAt = reg.registeredAt ∧ r.id ≤ reg.id))

def waitlistPositions : List Registration → (UUID → Option ℕ) → Service (UUID → Option ℕ)
  | [], positions => .ret positions
  | reg :: regs, positions =>
    if reg.status = .waitlisted then
      .stmt (countAhead reg) fun n =>
        waitlistPositions regs (Function.update positions reg.id (some n))
    else waitlistPositions regs positions

def myRegistration (positions : UUID → Option ℕ) (reg : Registration) : MyRegistrationResponse :=
  ⟨reg.id, reg.eventId, reg.status, reg.registeredAt, reg.cancelledAt, positions reg.id⟩

def listMyRegistrations (student : User) : Service (List MyRegistrationResponse) :=
  .stmt (selectMyRegistrations student.id) fun regs =>
    (waitlistPositions regs fun _ => none).map fun positions => regs.map (myRegistration positions)

/-- `student_name` and `student_email` come from the join with the students; a foreign key rules out
    that it finds none. -/
structure RegistrationSummary where
  id : UUID
  studentId : UUID
  studentName : Option String
  studentEmail : Option String
  status : RegistrationStatus
  registeredAt : Time
deriving DecidableEq

def Database.summary (db : Database) (reg : Registration) : RegistrationSummary where
  id := reg.id
  studentId := reg.studentId
  studentName := (db.user? reg.studentId).map User.fullName
  studentEmail := (db.user? reg.studentId).map User.email
  status := reg.status
  registeredAt := reg.registeredAt

def selectEventRegistrations (eventId : UUID) (status : RegistrationStatus) (limit offset : ℕ) :
    Query (List RegistrationSummary) :=
  .select fun db =>
    (((Table.orderBy Registration.fifo (db.registrations.filter fun r =>
      r.eventId = eventId ∧ r.status = status)).drop offset).take limit).map db.summary

def listEventRegistrations (organizer : User) (eventId : UUID) (waitlistOnly : Bool)
    (limit offset : ℕ) : Service (List RegistrationSummary) :=
  .stmt (selectEvent eventId) fun event? =>
    match event? with
    | none => .raise (notFound "event not found")
    | some event =>
      if event.organizerId ≠ organizer.id then .raise (notFound "event not found")
      else
        .stmt (selectEventRegistrations eventId
          (if waitlistOnly then .waitlisted else .confirmed) limit offset) .ret

def requireRole {α : Type} (role : UserRole) (user : User) (next : Service α) : Service α :=
  if user.role = role then next else .raise (.http 403 "insufficient permissions" none)

/-- `event__organizer=organizer`, over the join of the job with its event. -/
def Database.ownsJob (db : Database) (organizer : User) (job : NotificationJob) : Bool :=
  match job.eventId.bind db.event? with
  | none => false
  | some event => event.organizerId = organizer.id

structure NotificationJobResponse where
  id : UUID
  eventId : Option UUID
  eventType : EventType
  payload : Payload
  status : JobStatus
  idempotencyKey : IdempotencyKey
  createdAt : Time
  updatedAt : Time
deriving DecidableEq

structure NotificationJobDetailResponse extends NotificationJobResponse where
  lastError : Option String
deriving DecidableEq

def NotificationJob.response (job : NotificationJob) : NotificationJobResponse :=
  ⟨job.id, job.eventId, job.eventType, job.payload, job.status, job.idempotencyKey, job.createdAt,
    job.updatedAt⟩

def NotificationJob.newestFirst (i j : NotificationJob) : Prop := j.createdAt ≤ i.createdAt

instance : DecidableRel NotificationJob.newestFirst :=
  fun i j => inferInstanceAs (Decidable (j.createdAt ≤ i.createdAt))

def selectOwnJobs (organizer : User) (eventId : Option UUID) (limit offset : ℕ) :
    Query (List NotificationJob) :=
  .select fun db =>
    ((Table.orderBy NotificationJob.newestFirst (db.notificationJobs.filter fun job =>
      db.ownsJob organizer job && (eventId.isNone || job.eventId = eventId))).drop offset).take limit

def listNotificationJobs (organizer : User) (eventId : Option UUID) (limit offset : ℕ) :
    Service (List NotificationJobResponse) :=
  requireRole .organizer organizer <|
    .stmt (selectOwnJobs organizer eventId limit offset) fun jobs =>
      .ret (jobs.map NotificationJob.response)

def selectOwnJob (organizer : User) (jobId : UUID) : Query (Option NotificationJob) :=
  .select fun db =>
    (Table.lookup NotificationJob.id jobId db.notificationJobs).filter (db.ownsJob organizer)

def getNotificationJob (organizer : User) (jobId : UUID) : Service NotificationJobDetailResponse :=
  requireRole .organizer organizer <|
    .stmt (selectOwnJob organizer jobId) fun job? =>
      match job? with
      | none => .raise (notFound "notification job not found")
      | some job => .ret { job.response with lastError := job.lastError }

end Hefest
