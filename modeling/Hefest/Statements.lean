import Hefest.Lib.Transaction
import Hefest.Models

set_option autoImplicit false

/-!
# The database and the statements the ORM issues on it

Each definition is one SQL statement of the services: the row locks PostgreSQL takes for it, its
result and its write. An insert waits on the unique values it claims, and its foreign key takes
`FOR KEY SHARE` on the event.
-/
namespace Hefest
open Transaction

structure Database where
  users : List User := []
  events : List Event := []
  registrations : List Registration := []
  notificationJobs : List NotificationJob := []
  refreshTokens : List RefreshToken := []
  oauthIdentities : List OAuthIdentity := []
deriving DecidableEq

inductive Constraint
  | eventId | registrationId | uqOneActiveRegistrationPerStudent | jobId | idempotencyKey
  | refreshTokenId | refreshTokenHash
  | userId | userEmail | oauthIdentityId | oauthProviderSubject
deriving DecidableEq

/-- What a call can raise: an `HTTPException` with its `X-Error-Code`, or an exception that no
    handler catches. -/
inductive ApiError
  | http (statusCode : ℕ) (detail : String) (errorCode : Option String)
  | integrityError (violated : Constraint)
  | doesNotExist
  | valueError (message : String)
  | permissionError (message : String)
  | transactionManagementError
  | dataError
deriving DecidableEq

/-- The clock readings and the generated UUIDs of one call, in the order in which it draws them. -/
structure Env where
  now : ℕ → Time
  uuid : ℕ → UUID

inductive RowKey
  | event (id : UUID)
  | registration (id : UUID)
  | activeRegistration (eventId studentId : UUID)
  | job (id : UUID)
  | idempotencyKey (key : IdempotencyKey)
  | refreshToken (id : UUID)
  | tokenHash (hash : String)
  | user (id : UUID)
  | userEmail (email : String)
  | oauthIdentity (id : UUID)
  | oauthSubject (provider subject : String)
deriving DecidableEq

inductive LockMode
  | forKeyShare | forNoKeyUpdate | forUpdate
deriving DecidableEq

def LockMode.conflict : LockMode → LockMode → Bool
  | .forKeyShare, .forUpdate | .forUpdate, .forKeyShare => true
  | .forKeyShare, _ | _, .forKeyShare => false
  | _, _ => true

structure RowLock where
  row : RowKey
  mode : LockMode
deriving DecidableEq

instance : Lock RowLock where
  conflict a b := a.row == b.row && a.mode.conflict b.mode

theorem LockMode.conflict_comm (m n : LockMode) : m.conflict n = n.conflict m := by
  cases m <;> cases n <;> rfl

theorem RowLock.conflict_comm (a b : RowLock) : Lock.conflict a b = Lock.conflict b a := by
  simp only [Lock.conflict, LockMode.conflict_comm a.mode]
  rw [Bool.beq_comm]

/-- Two locks on one row conflict unless one of them is `FOR KEY SHARE`. -/
theorem RowLock.conflict_same_row {a b : RowLock} (hrow : a.row = b.row) (ha : a.mode ≠ .forKeyShare)
    (hb : b.mode ≠ .forKeyShare) : Lock.conflict a b = true := by
  obtain ⟨_, m⟩ := a
  obtain ⟨_, n⟩ := b
  cases m <;> cases n <;> simp_all [Lock.conflict, LockMode.conflict]

abbrev Query (ρ : Type) := Stmt Database RowLock ρ
abbrev Service (α : Type) := Prog Database RowLock ApiError α

namespace Database

def event? (db : Database) (id : UUID) : Option Event := Table.lookup Event.id id db.events

def registration? (db : Database) (id : UUID) : Option Registration :=
  Table.lookup Registration.id id db.registrations

def count (db : Database) (eventId : UUID) (status : RegistrationStatus) : ℕ :=
  db.registrations.countP (fun r => r.eventId = eventId ∧ r.status = status)

def waitlist (db : Database) (eventId : UUID) : List Registration :=
  db.registrations.filter (fun r => r.eventId = eventId ∧ r.status = .waitlisted)

/-- The waitlist's first row by `registered_at, id`. -/
def nextWaitlisted (db : Database) (eventId : UUID) : Option Registration :=
  Table.first Registration.fifo (db.waitlist eventId)

def activeRegistrations (db : Database) (eventId : UUID) : List Registration :=
  db.registrations.filter (fun r => r.eventId = eventId ∧ r.status.isActive)

end Database

def selectEvent (id : UUID) : Query (Option Event) := .select (fun db => db.event? id)

/-- `Event.filter(id=id).select_for_update().get_or_none()`. -/
def selectEventForUpdate (id : UUID) : Query (Option Event) where
  locks db := if (db.event? id).isSome then [⟨.event id, .forUpdate⟩] else []
  result db := db.event? id
  write _ x := x

def selectOwnRegistration (id studentId : UUID) : Query (Option Registration) :=
  .select (fun db => (db.registration? id).filter (fun r => r.studentId = studentId))

def selectRegistrationForUpdate (id : UUID) : Query (Option Registration) where
  locks db := if (db.registration? id).isSome then [⟨.registration id, .forUpdate⟩] else []
  result db := db.registration? id
  write _ x := x

def countRegistrations (eventId : UUID) (status : RegistrationStatus) : Query ℕ :=
  .select (fun db => db.count eventId status)

def selectNextWaitlisted (eventId : UUID) : Query (Option Registration) :=
  .select (fun db => db.nextWaitlisted eventId)

def selectActiveRegistrations (eventId : UUID) : Query (List Registration) :=
  .select (fun db => db.activeRegistrations eventId)

/-- `event.save(update_fields=...)`; `set` assigns exactly the listed columns. -/
def saveEvent (id : UUID) (set : Event → Event) : Query Unit where
  locks db := if (db.event? id).isSome then [⟨.event id, .forNoKeyUpdate⟩] else []
  result _ := ()
  write _ x := { x with events := Table.update Event.id id set x.events }

theorem saveEvent_event? {id : UUID} {set : Event → Event} (hid : ∀ e, (set e).id = e.id)
    (seen x : Database) : ((saveEvent id set).write seen x).event? id = (x.event? id).map set := by
  change Table.lookup Event.id id (Table.update Event.id id set x.events) = _
  rw [Table.lookup_update hid]
  simp only [if_true]
  rfl

def saveRegistration (id : UUID) (set : Registration → Registration) : Query Unit where
  locks db := if (db.registration? id).isSome then [⟨.registration id, .forNoKeyUpdate⟩] else []
  result _ := ()
  write _ x := { x with registrations := Table.update Registration.id id set x.registrations }

def eventViolation (db : Database) (event : Event) : Option Constraint :=
  if (db.event? event.id).isSome then some .eventId else none

def insertEvent (event : Event) : Query (Option Constraint) where
  locks _ := [⟨.event event.id, .forUpdate⟩]
  result db := eventViolation db event
  write db x := if eventViolation db event = none then { x with events := x.events ++ [event] } else x

def registrationViolation (db : Database) (reg : Registration) : Option Constraint :=
  if (db.registration? reg.id).isSome then some .registrationId
  else if reg.status.isActive ∧ ∃ r ∈ db.registrations,
      r.eventId = reg.eventId ∧ r.studentId = reg.studentId ∧ r.status.isActive then
    some .uqOneActiveRegistrationPerStudent
  else none

def insertRegistration (reg : Registration) : Query (Option Constraint) where
  locks _ :=
    [⟨.event reg.eventId, .forKeyShare⟩, ⟨.registration reg.id, .forUpdate⟩,
      ⟨.activeRegistration reg.eventId reg.studentId, .forUpdate⟩]
  result db := registrationViolation db reg
  write db x :=
    if registrationViolation db reg = none then { x with registrations := x.registrations ++ [reg] }
    else x

/-- The first violation met when the rows are inserted one by one. -/
def jobsViolation : List NotificationJob → List NotificationJob → Option Constraint
  | _, [] => none
  | t, job :: jobs =>
    if ∃ j ∈ t, j.idempotencyKey = job.idempotencyKey then some .idempotencyKey
    else if ∃ j ∈ t, j.id = job.id then some .jobId
    else jobsViolation (t ++ [job]) jobs

def jobLocks (job : NotificationJob) : List RowLock :=
  (job.eventId.toList.map fun id => ⟨.event id, .forKeyShare⟩) ++
    [⟨.job job.id, .forUpdate⟩, ⟨.idempotencyKey job.idempotencyKey, .forUpdate⟩]

/-- `NotificationJob.create` and `NotificationJob.bulk_create`. -/
def insertJobs (jobs : List NotificationJob) : Query (Option Constraint) where
  locks _ := jobs.flatMap jobLocks
  result db := jobsViolation db.notificationJobs jobs
  write db x :=
    if jobsViolation db.notificationJobs jobs = none then
      { x with notificationJobs := x.notificationJobs ++ jobs }
    else x

/-- A new outbox row with the model's defaults; its id is the `u`-th UUID of the call and its
    three `auto_now` columns are its clock readings from the `c`-th on. -/
def newJob (env : Env) (u c : ℕ) (eventId : Option UUID) (eventType : EventType)
    (payload : Payload) (subject : UUID) : NotificationJob where
  id := env.uuid u
  eventId := eventId
  eventType := eventType
  payload := payload
  status := .pending
  idempotencyKey := ⟨subject, eventType⟩
  attempts := 0
  lockedBy := none
  heartbeatAt := none
  nextAttemptAt := env.now c
  lastError := none
  createdAt := env.now (c + 1)
  updatedAt := env.now (c + 2)

def orRaise {α : Type} (violation : Option Constraint) (next : Service α) : Service α :=
  match violation with
  | some c => .raise (.integrityError c)
  | none => next

def createJobs {α : Type} (jobs : List NotificationJob) (next : Service α) : Service α :=
  .stmt (insertJobs jobs) fun violation => orRaise violation next

end Hefest
