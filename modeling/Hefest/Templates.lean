import Hefest.Accounts
import Hefest.Consumer

set_option autoImplicit false

namespace Hefest

/-- `repr` of a text without quotes, backslashes and control characters. -/
def reprStr (s : String) : String := "'" ++ s ++ "'"

namespace Recipients

structure Recipient where
  user : User
  event : Option Event
deriving DecidableEq

def recipientNotFound (message : String) : Failure := .permanentError message

def load (users events : Database) (payload : Payload) : Except Failure Recipient :=
  match payload.studentId with
  | none => .error (recipientNotFound "payload missing required key: 'student_id'")
  | some studentId =>
    match users.user? studentId with
    | none =>
      .error (recipientNotFound
        ("user " ++ reprStr (String.ofList (uuidStr studentId)) ++ " not found"))
    | some user =>
      match payload.eventId with
      | none => .ok ⟨user, none⟩
      | some eventId =>
        match events.event? eventId with
        | none =>
          .error (recipientNotFound
            ("event " ++ reprStr (String.ofList (uuidStr eventId)) ++ " not found"))
        | some event => .ok ⟨user, some event⟩

end Recipients

/-- Year, month and day of a day counted from 1970-01-01. Years begin in March, so that the leap
    day is the last of its year. -/
def civil (day : ℤ) : ℤ × ℕ × ℕ :=
  let shifted := day + 719468
  let era := shifted / 146097
  let dayOfEra := shifted % 146097
  let yearOfEra := (dayOfEra - dayOfEra / 1460 + dayOfEra / 36524 - dayOfEra / 146096) / 365
  let dayOfYear := dayOfEra - (365 * yearOfEra + yearOfEra / 4 - yearOfEra / 100)
  let march := (5 * dayOfYear + 2) / 153
  let month := if march < 10 then march + 3 else march - 9
  (yearOfEra + era * 400 + (if month ≤ 2 then 1 else 0), month.toNat,
    (dayOfYear - (153 * march + 2) / 5 + 1).toNat)

def monthNames : List String :=
  ["Jan", "Feb", "Mar", "Apr", "May", "Jun", "Jul", "Aug", "Sep", "Oct", "Nov", "Dec"]

/-- `%d`, `%H` and `%M`. -/
def twoDigits (n : ℕ) : String := (if n < 10 then "0" else "") ++ toString n

/-- `dt.strftime("%d %b %Y at %H:%M UTC")`, for the years from 1000 on. -/
def fmtDt (t : Time) : String :=
  let date := civil (t / days 1)
  let minute := (t % days 1 / minutes 1).toNat
  twoDigits date.2.2 ++ " " ++ monthNames.getD (date.2.1 - 1) "" ++ " " ++ toString date.1 ++
    " at " ++ twoDigits (minute / 60) ++ ":" ++ twoDigits (minute % 60) ++ " UTC"

namespace Templates

structure EmailContent where
  subject : String
  body : String
deriving DecidableEq

def noEvent (eventType : EventType) : Failure :=
  .permanentError
    ("event-scoped event_type " ++ reprStr eventType.value ++ " has no event to render")

def greeting (user : User) : String := "Hi " ++ user.fullName ++ ",\n\n"

def whenWhere (event : Event) : String :=
  "When: " ++ fmtDt event.startsAt ++ "\n" ++ "Where: " ++ event.location ++ "\n\n"

def render (eventType : EventType) (user : User) (event : Option Event) (payload : Payload)
    (verifyLink : Option String) : Except Failure EmailContent :=
  match eventType, event with
  | .emailVerify, _ =>
    match verifyLink with
    | none => .error (.permanentError "EmailVerify job has no verify_link")
    | some link => .ok
      { subject := "Verify your Hefest email address"
        body := greeting user ++
          "Welcome to Hefest. Please confirm your email address by " ++
          "opening the link below:\n\n" ++ link ++ "\n\n" ++
          "If you did not create this account, you can ignore this email." }
  | eventType, none => .error (noEvent eventType)
  | .registrationConfirmed, some event => .ok
      { subject := "You're registered for " ++ event.title
        body := greeting user ++
          "Your registration for " ++ event.title ++ " is confirmed.\n\n" ++
          whenWhere event ++ "See you there." }
  | .registrationWaitlisted, some event =>
    let posLine := match payload.waitlistPosition with
      | none => ""
      | some pos => "Your current position: " ++ toString pos ++ ".\n"
    .ok
      { subject := "You're on the waitlist for " ++ event.title
        body := greeting user ++
          "The event " ++ event.title ++ " is currently full, " ++
          "but you have been added to the waitlist.\n\n" ++ posLine ++ whenWhere event ++
          "We will notify you if a spot opens up." }
  | .waitlistPromoted, some event => .ok
      { subject := "A spot opened up: you're confirmed for " ++ event.title
        body := greeting user ++
          "Good news! A spot opened up and your registration for " ++ event.title ++
          " is now confirmed.\n\n" ++ whenWhere event ++ "See you there." }
  | .registrationCancelled, some event => .ok
      { subject := "Your registration for " ++ event.title ++ " was cancelled"
        body := greeting user ++
          "Your registration for " ++ event.title ++ " has been cancelled.\n\n" ++
          whenWhere event ++ "If this was unexpected, please contact the organizer." }
  | .eventCancelled, some event => .ok
      { subject := event.title ++ " has been cancelled"
        body := greeting user ++
          "We regret to inform you that " ++ event.title ++ " has been cancelled.\n\n" ++
          "Scheduled for: " ++ fmtDt event.startsAt ++ "\n" ++
          "Location: " ++ event.location ++ "\n\n" ++ "We apologise for any inconvenience." }
  | .unknown name, some _ =>
    .error (.permanentError ("unknown event_type " ++ reprStr name.val ++ ": cannot render email"))

end Templates

namespace PushTemplates

structure PushContent where
  title : String
  body : String
deriving DecidableEq

def render (eventType : EventType) (event : Option Event) (payload : Payload) :
    Except Failure PushContent :=
  match event with
  | none => .error (Templates.noEvent eventType)
  | some event =>
    match eventType with
    | .registrationConfirmed =>
      .ok ⟨"Registration confirmed", "You're registered for " ++ event.title ++ "."⟩
    | .registrationWaitlisted =>
      let suffix := match payload.waitlistPosition with
        | none => ""
        | some pos => " (position " ++ toString pos ++ ")"
      .ok ⟨"Added to waitlist", "You're on the waitlist for " ++ event.title ++ suffix ++ "."⟩
    | .waitlistPromoted => .ok ⟨"Spot opened up", "You're now confirmed for " ++ event.title ++ "."⟩
    | .registrationCancelled =>
      .ok ⟨"Registration cancelled", "Your registration for " ++ event.title ++ " was cancelled."⟩
    | .eventCancelled => .ok ⟨"Event cancelled", event.title ++ " has been cancelled."⟩
    | eventType =>
      .error (.permanentError
        ("unknown event_type " ++ reprStr eventType.value ++ ": cannot render push"))

end PushTemplates

open Recipients Templates

section Prepare
variable (settings : Settings) (lib : AccountLib)

/-- Only a verification mail carries a link, minted at `now` from the user just loaded. -/
def verifyLink (eventType : EventType) (user : User) (now : Time) : Option String :=
  if eventType = .emailVerify then some (buildEmailVerifyLink settings lib user now) else none

/-- `_process_one` up to `mailer.send`. -/
def prepare (users events : Database) (now : Time) (job : ClaimedJob) :
    Except Failure (Recipient × EmailContent) := do
  let recipient ← load users events job.payload
  let content ← render job.eventType recipient.user recipient.event job.payload
    (verifyLink settings lib job.eventType recipient.user now)
  return (recipient, content)

end Prepare

section Specs
variable {users events : Database} {payload : Payload} {studentId : UUID} {user : User}

theorem load_account (hstudent : payload.studentId = some studentId)
    (huser : users.user? studentId = some user) (hevent : payload.eventId = none) :
    load users events payload = .ok ⟨user, none⟩ := by
  simp only [load, hstudent, huser, hevent]

theorem load_event {eventId : UUID} {event : Event} (hstudent : payload.studentId = some studentId)
    (huser : users.user? studentId = some user) (heventId : payload.eventId = some eventId)
    (hevent : events.event? eventId = some event) :
    load users events payload = .ok ⟨user, some event⟩ := by
  simp only [load, hstudent, huser, heventId, hevent]

/-- The types that both templates know; each has its own text in either of them. -/
def EventType.isEventScoped : EventType → Bool
  | .emailVerify | .unknown _ => false
  | _ => true

theorem render_event {eventType : EventType} (h : eventType.isEventScoped = true) (user : User)
    (event : Event) (payload : Payload) (verifyLink : Option String) :
    ∃ content, render eventType user (some event) payload verifyLink = .ok content := by
  cases eventType with
  | emailVerify => cases h
  | unknown name => cases h
  | _ => exact ⟨_, rfl⟩

theorem render_push {eventType : EventType} (h : eventType.isEventScoped = true) (event : Event)
    (payload : Payload) :
    ∃ content, PushTemplates.render eventType (some event) payload = .ok content := by
  cases eventType with
  | emailVerify => cases h
  | unknown name => cases h
  | _ => exact ⟨_, rfl⟩

theorem prepare_of_load {settings : Settings} {lib : AccountLib} {now : Time} {job : ClaimedJob}
    {recipient : Recipient} {content : EmailContent}
    (hload : load users events job.payload = .ok recipient)
    (hrender : render job.eventType recipient.user recipient.event job.payload
      (verifyLink settings lib job.eventType recipient.user now) = .ok content) :
    prepare settings lib users events now job = .ok (recipient, content) := by
  unfold prepare
  rw [hload]
  change (render job.eventType recipient.user recipient.event job.payload
    (verifyLink settings lib job.eventType recipient.user now)).bind _ = _
  rw [hrender]
  rfl

theorem render_account (settings : Settings) (lib : AccountLib) (now : Time) (user : User)
    (event : Option Event) (payload : Payload) :
    ∃ content, render .emailVerify user event payload
      (verifyLink settings lib .emailVerify user now) = .ok content := ⟨_, rfl⟩

end Specs

example : fmtDt (seconds 1782655200) = "28 Jun 2026 at 14:00 UTC" := by decide +kernel

end Hefest
