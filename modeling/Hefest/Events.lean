import Mathlib.Data.PNat.Notation
import Hefest.Statements

set_option autoImplicit false

namespace Hefest
open Transaction

/-- `text` has no NUL. -/
def textColumn (text : String) : Bool := !text.toList.contains (Char.ofNat 0)

/-- `int4`. -/
def intColumn (n : ℕ) : Bool := n ≤ 2147483647

/-- In UTC a `datetime` is of the years 1 to 9999. -/
def datetimeColumn (t : Time) : Bool := -days 719162 ≤ t && t < days 2932897

/-- Body of `POST /events`; the validator `ends_after_starts` is its last field. -/
structure EventCreateRequest where
  title : String
  description : String := ""
  startsAt : Time
  endsAt : Option Time := none
  location : String
  capacity : ℕ+
  endsAfterStarts : ∀ e ∈ endsAt, startsAt < e

def EventCreateRequest.fitsColumns (data : EventCreateRequest) : Bool :=
  textColumn data.title && textColumn data.description && datetimeColumn data.startsAt &&
    data.endsAt.all datetimeColumn && textColumn data.location && intColumn data.capacity

/-- Body of `PUT /events/{id}`: a field is absent, `null` or a value. -/
structure EventUpdateRequest where
  title : Option (Option String) := none
  description : Option (Option String) := none
  startsAt : Option (Option Time) := none
  endsAt : Option (Option Time) := none
  location : Option (Option String) := none
  capacity : Option (Option ℕ+) := none

namespace EventUpdateRequest

/-- `not data.model_dump(exclude_unset=True)`. -/
def isEmpty (data : EventUpdateRequest) : Bool :=
  data.title.isNone && data.description.isNone && data.startsAt.isNone && data.endsAt.isNone &&
    data.location.isNone && data.capacity.isNone

/-- A non-nullable column is sent as `null`; `update_from_dict` refuses it. -/
def nullsColumn (data : EventUpdateRequest) : Bool :=
  data.title == some none || data.description == some none || data.startsAt == some none ||
    data.location == some none || data.capacity == some none

def fitsColumns (data : EventUpdateRequest) : Bool :=
  data.title.join.all textColumn && data.description.join.all textColumn &&
    data.startsAt.join.all datetimeColumn && data.endsAt.join.all datetimeColumn &&
    data.location.join.all textColumn && data.capacity.join.all (intColumn ·.val)

/-- The columns that `update_from_dict` assigns and `save(update_fields=...)` writes. -/
def assign (data : EventUpdateRequest) (event : Event) : Event :=
  { event with
    title := data.title.join.getD event.title
    description := data.description.join.getD event.description
    startsAt := data.startsAt.join.getD event.startsAt
    endsAt := data.endsAt.getD event.endsAt
    location := data.location.join.getD event.location
    capacity := (data.capacity.join.map PNat.val).getD event.capacity }

end EventUpdateRequest

def notFound (detail : String) : ApiError := .http 404 detail none
def conflict (detail : String) : ApiError := .http 409 detail none

def newEvent (organizer : User) (data : EventCreateRequest) (env : Env) : Event where
  id := env.uuid 0
  organizerId := organizer.id
  title := data.title
  description := data.description
  startsAt := data.startsAt
  endsAt := data.endsAt
  location := data.location
  capacity := data.capacity
  status := .draft
  createdAt := env.now 0
  updatedAt := env.now 1

def createEvent (organizer : User) (data : EventCreateRequest) (env : Env) : Service Event :=
  let event := newEvent organizer data env
  if data.fitsColumns then
    .stmt (insertEvent event) fun violation => orRaise violation (.ret event)
  else .raise .dataError

def locationLocked (settings : Settings) (now : Time) (event : Event) : Bool :=
  event.startsAt ≤ now + hours settings.eventLocationLockHours

/-- Two statements, each in its own transaction: the row lock of the first is gone before the
    second. -/
def updateEvent (settings : Settings) (user : User) (eventId : UUID) (data : EventUpdateRequest)
    (env : Env) : Service Event :=
  .stmt (selectEventForUpdate eventId) fun event? =>
    match event? with
    | none => .raise (notFound "event not found")
    | some event =>
      if event.organizerId ≠ user.id then .raise (notFound "event not found")
      else if data.location.isSome && locationLocked settings (env.now 0) event then
        .raise (conflict
          s!"location cannot be changed within {settings.eventLocationLockHours} hours of the event start")
      else if data.isEmpty then .ret event
      else if data.nullsColumn then .raise (.valueError "null for a non nullable field")
      else if data.fitsColumns then
        .stmt (saveEvent eventId data.assign) fun _ => .ret (data.assign event)
      else .raise .dataError

def getOwnedDraft (user : User) (eventId : UUID) : Service Event :=
  .stmt (selectEvent eventId) fun event? =>
    match event? with
    | none => .raise (notFound "event not found")
    | some event =>
      if event.organizerId ≠ user.id then .raise (notFound "event not found")
      else if event.status ≠ .draft then
        .raise (conflict s!"event is not in draft status (current: {event.status.value})")
      else .ret event

def Event.publish (now : Time) (event : Event) : Event :=
  { event with status := .published, updatedAt := now }

def publishEvent (user : User) (eventId : UUID) (env : Env) : Service Event :=
  (getOwnedDraft user eventId).bind fun event =>
    .stmt (saveEvent eventId (Event.publish (env.now 0))) fun _ => .ret (event.publish (env.now 0))

def Event.cancel (now : Time) (event : Event) : Event :=
  { event with status := .cancelled, updatedAt := now }

/-- The `EventCancelled` row of the `i`-th fetched registration. -/
def eventCancelledJob (env : Env) (eventId : UUID) (reg : Registration) (i : ℕ) :
    NotificationJob :=
  newJob env i (3 + 3 * i) (some eventId) .eventCancelled
    { eventId := some eventId, studentId := some reg.studentId, registrationId := some reg.id,
      occurredAt := some (env.now 2) } reg.id

def eventCancelledJobs (env : Env) (eventId : UUID) (regs : List Registration) :
    List NotificationJob :=
  regs.zipIdx.map fun (reg, i) => eventCancelledJob env eventId reg i

def cancelEvent (user : User) (eventId : UUID) (env : Env) : Service Event :=
  .transaction <| .stmt (selectEventForUpdate eventId) fun event? =>
    match event? with
    | none => .raise (notFound "event not found")
    | some event =>
      if event.organizerId ≠ user.id then .raise (notFound "event not found")
      else if event.status = .cancelled then .ret event
      else if event.startsAt ≤ env.now 0 then
        .raise (conflict "cannot cancel an event that has already started")
      else
        .stmt (saveEvent eventId (Event.cancel (env.now 1))) fun _ =>
        .stmt (selectActiveRegistrations eventId) fun regs =>
          let jobs := eventCancelledJobs env eventId regs
          if jobs = [] then .ret (event.cancel (env.now 1))
          else createJobs jobs (.ret (event.cancel (env.now 1)))

end Hefest
