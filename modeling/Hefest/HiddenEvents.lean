import Hefest.DeliveryRefinement
import Hefest.OutboxLog
import Hefest.Stats
import Hefest.WaitlistViews

set_option autoImplicit false

/-!
# What a user can tell about hidden events

Two databases that differ only in events the user must not see, and the answers of every call to
that user. A call reads an event by its id, the registrations of an event it has found, the user's
own rows, or what is joined to the user's own events; on all of these the two databases agree.
-/
namespace Hefest
open Transaction

def Event.hiddenFrom (user : User) (event : Event) : Bool :=
  event.status ≠ .published && event.organizerId ≠ user.id

section Shared
variable (db : Database) (user : User)

def Database.hides (id : UUID) : Bool := (db.event? id).any fun event => event.hiddenFrom user

/-- The rows that are not hidden: everything but the hidden events, their jobs, and the
    registrations of other students on them. -/
def Database.sharedEvents : List Event := db.events.filter fun event => !event.hiddenFrom user

def Database.sharedRegistrations : List Registration :=
  db.registrations.filter fun r => decide (r.studentId = user.id) || !db.hides user r.eventId

def Database.sharedJobs : List NotificationJob :=
  db.notificationJobs.filter fun job => !job.eventId.any (db.hides user)

def Database.seen? (id : UUID) : Option Event :=
  (db.event? id).filter fun event => !event.hiddenFrom user

end Shared

/-- The databases have the same rows, in the same order, but for the hidden ones. -/
structure DifferInHidden (user : User) (x y : Database) : Prop where
  users : x.users = y.users
  refreshTokens : x.refreshTokens = y.refreshTokens
  oauthIdentities : x.oauthIdentities = y.oauthIdentities
  events : x.sharedEvents user = y.sharedEvents user
  registrations : x.sharedRegistrations user = y.sharedRegistrations user
  jobs : x.sharedJobs user = y.sharedJobs user

/-- Primary keys are unique, and a job of an event has a registration of this event in its
    idempotency key. -/
structure Stored (db : Database) : Prop where
  events : Table.KeyUnique Event.id db.events
  registrations : Table.KeyUnique Registration.id db.registrations
  jobs : Table.KeyUnique NotificationJob.id db.notificationJobs
  ownKey : ∀ j ∈ db.notificationJobs, ∀ id, j.eventId = some id →
    ∃ r ∈ db.registrations, r.id = j.idempotencyKey.subject ∧ r.eventId = id

structure FreshIds (env : Env) (db : Database) : Prop where
  registrations : ∀ n, ∀ r ∈ db.registrations, r.id ≠ env.uuid n
  jobs : ∀ n, ∀ j ∈ db.notificationJobs, j.id ≠ env.uuid n

structure Twins (user : User) (env : Env) (x y : Database) : Prop where
  differ : DifferInHidden user x y
  left : Stored x
  right : Stored y
  freshLeft : FreshIds env x
  freshRight : FreshIds env y

section Agreement
variable {user : User} {env : Env} {x y : Database}

theorem DifferInHidden.symm (h : DifferInHidden user x y) : DifferInHidden user y x where
  users := h.users.symm
  refreshTokens := h.refreshTokens.symm
  oauthIdentities := h.oauthIdentities.symm
  events := h.events.symm
  registrations := h.registrations.symm
  jobs := h.jobs.symm

theorem Twins.symm (h : Twins user env x y) : Twins user env y x :=
  ⟨h.differ.symm, h.right, h.left, h.freshRight, h.freshLeft⟩

/-- An event is seen in one database as in the other. -/
theorem Twins.seen (h : Twins user env x y) (id : UUID) : x.seen? user id = y.seen? user id := by
  unfold Database.seen? Database.event?
  rw [← h.left.events.lookup_filter, ← h.right.events.lookup_filter]
  exact congrArg (Table.lookup Event.id id) h.differ.events

theorem seen_eq_some {db : Database} {id : UUID} {event : Event} :
    db.seen? user id = some event ↔ db.event? id = some event ∧ event.hiddenFrom user = false := by
  unfold Database.seen?
  rw [Option.filter_eq_some_iff, Bool.not_eq_true']

theorem hides_of_seen {db : Database} {id : UUID} {event : Event}
    (h : db.seen? user id = some event) : db.hides user id = false := by
  obtain ⟨hfound, hvisible⟩ := seen_eq_some.mp h
  rw [Database.hides, hfound, Option.any_some, hvisible]

theorem Twins.event_cases (h : Twins user env x y) (id : UUID) :
    (∃ event, x.event? id = some event ∧ y.event? id = some event ∧
        x.seen? user id = some event) ∨
      (∀ event, x.event? id = some event → event.hiddenFrom user = true) ∧
        ∀ event, y.event? id = some event → event.hiddenFrom user = true := by
  have hidden : ∀ db : Database, db.seen? user id = none →
      ∀ event, db.event? id = some event → event.hiddenFrom user = true := by
    intro db hnone event hevent
    by_contra hvisible
    rw [seen_eq_some.mpr ⟨hevent, Bool.not_eq_true _ ▸ hvisible⟩] at hnone
    cases hnone
  cases hseen : x.seen? user id with
  | some event =>
    have hseen' : y.seen? user id = some event := by rw [← h.seen, hseen]
    exact Or.inl ⟨event, (seen_eq_some.mp hseen).1, (seen_eq_some.mp hseen').1, rfl⟩
  | none =>
    have hseen' : y.seen? user id = none := by rw [← h.seen, hseen]
    exact Or.inr ⟨hidden x hseen, hidden y hseen'⟩

theorem Twins.registrations (h : Twins user env x y) {id : UUID} {event : Event}
    (hseen : x.seen? user id = some event) :
    x.registrations.filter (fun r => r.eventId = id) =
      y.registrations.filter (fun r => r.eventId = id) := by
  have hseen' : y.seen? user id = some event := by rw [← h.seen, hseen]
  have hshared : ∀ db : Database, db.seen? user id = some event →
      db.registrations.filter (fun r => r.eventId = id) =
        (db.sharedRegistrations user).filter fun r => r.eventId = id := by
    intro db hdb
    rw [Database.sharedRegistrations, List.filter_filter]
    apply List.filter_congr
    intro r _
    by_cases hr : r.eventId = id
    · simp [hr, hides_of_seen hdb]
    · simp [hr]
  rw [hshared x hseen, hshared y hseen', h.differ.registrations]

theorem Twins.filter_registrations (h : Twins user env x y) {id : UUID} {event : Event}
    (hseen : x.seen? user id = some event) (p : Registration → Bool)
    (hp : ∀ r, p r = true → r.eventId = id) :
    x.registrations.filter p = y.registrations.filter p := by
  have hfirst : ∀ t : List Registration,
      t.filter p = (t.filter fun r => decide (r.eventId = id)).filter p := by
    intro t
    rw [List.filter_filter]
    apply List.filter_congr
    intro r _
    cases hr : p r with
    | false => rfl
    | true => simp [hp r hr]
  rw [hfirst x.registrations, hfirst y.registrations, h.registrations hseen]

theorem Twins.count (h : Twins user env x y) {id : UUID} {event : Event}
    (hseen : x.seen? user id = some event) (status : RegistrationStatus) :
    x.count id status = y.count id status := by
  unfold Database.count
  rw [List.countP_eq_length_filter, List.countP_eq_length_filter, h.filter_registrations hseen]
  intro r hr
  exact (of_decide_eq_true hr).1

theorem Twins.activeRegistrations (h : Twins user env x y) {id : UUID} {event : Event}
    (hseen : x.seen? user id = some event) :
    x.activeRegistrations id = y.activeRegistrations id :=
  h.filter_registrations hseen _ fun _ hr => (of_decide_eq_true hr).1

theorem Twins.seatOutcome (h : Twins user env x y) {id : UUID} {event : Event}
    (hseen : x.seen? user id = some event) :
    seatOutcome x event id = seatOutcome y event id := by
  unfold Hefest.seatOutcome
  rw [h.count hseen, h.count hseen]

theorem Twins.promotion (h : Twins user env x y) {reg : Registration} {event : Event}
    (hseen : x.seen? user reg.eventId = some event) (hx : reg ∈ x.registrations)
    (hy : reg ∈ y.registrations) : promotion x reg env = promotion y reg env := by
  by_cases hconfirmed : reg.status = .confirmed
  · rw [promotion_of_confirmed env h.left.registrations hx hconfirmed,
      promotion_of_confirmed env h.right.registrations hy hconfirmed]
    exact congrArg (Table.first Registration.fifo)
      (h.filter_registrations hseen _ fun _ hr => (of_decide_eq_true hr).1)
  · unfold Hefest.promotion
    rw [if_neg hconfirmed, if_neg hconfirmed]

theorem Twins.own_registrations (h : Twins user env x y) (p : Registration → Bool)
    (hp : ∀ r, p r = true → r.studentId = user.id) :
    x.registrations.filter p = y.registrations.filter p := by
  have hshared : ∀ db : Database, db.registrations.filter p = (db.sharedRegistrations user).filter p := by
    intro db
    rw [Database.sharedRegistrations, List.filter_filter]
    apply List.filter_congr
    intro r _
    cases hr : p r with
    | false => rfl
    | true => simp [hp r hr]
  rw [hshared x, hshared y, h.differ.registrations]

theorem Twins.own_registration (h : Twins user env x y) (id : UUID) :
    (x.registration? id).filter (fun r => decide (r.studentId = user.id)) =
      (y.registration? id).filter fun r => decide (r.studentId = user.id) := by
  unfold Database.registration?
  rw [← h.left.registrations.lookup_filter, ← h.right.registrations.lookup_filter,
    h.own_registrations _ fun _ hr => of_decide_eq_true hr]

theorem jobsViolation_congr {t t' : List NotificationJob} (jobs : List NotificationJob)
    (hkeys : ∀ job ∈ jobs, (∃ j ∈ t, j.idempotencyKey = job.idempotencyKey) ↔
      ∃ j ∈ t', j.idempotencyKey = job.idempotencyKey)
    (hids : ∀ job ∈ jobs, (∃ j ∈ t, j.id = job.id) ↔ ∃ j ∈ t', j.id = job.id) :
    jobsViolation t jobs = jobsViolation t' jobs := by
  induction jobs generalizing t t' with
  | nil => rfl
  | cons job jobs ih =>
    have htail : jobsViolation (t ++ [job]) jobs = jobsViolation (t' ++ [job]) jobs := by
      apply ih
      · intro k hk
        simp only [List.mem_append, or_and_right, exists_or]
        exact or_congr (hkeys k (List.mem_cons_of_mem _ hk)) Iff.rfl
      · intro k hk
        simp only [List.mem_append, or_and_right, exists_or]
        exact or_congr (hids k (List.mem_cons_of_mem _ hk)) Iff.rfl
    simp only [jobsViolation, hkeys job List.mem_cons_self, hids job List.mem_cons_self, htail]

def SeenSubject (user : User) (db : Database) (key : IdempotencyKey) : Prop :=
  ∀ r ∈ db.registrations, r.id = key.subject → db.hides user r.eventId = false

/-- A key of a job that is not hidden is there in both databases. -/
theorem Twins.key (h : Twins user env x y) {key : IdempotencyKey} (hx : SeenSubject user x key)
    (hkey : ∃ j ∈ x.notificationJobs, j.idempotencyKey = key) :
    ∃ j ∈ y.notificationJobs, j.idempotencyKey = key := by
  obtain ⟨j, hj, hsame⟩ := hkey
  have hshown : j.eventId.any (x.hides user) = false := by
    cases hevent : j.eventId with
    | none => rfl
    | some id =>
      obtain ⟨r, hr, hsubject, hid⟩ := h.left.ownKey j hj id hevent
      rw [hsame] at hsubject
      rw [Option.any_some, ← hid]
      exact hx r hr hsubject
  have hshared : j ∈ x.sharedJobs user := List.mem_filter.mpr ⟨hj, by simp [hshown]⟩
  rw [h.differ.jobs] at hshared
  exact ⟨j, (List.mem_filter.mp hshared).1, hsame⟩

theorem Twins.jobsViolation (h : Twins user env x y) (jobs : List NotificationJob)
    (hids : ∀ job ∈ jobs, ∃ n, job.id = env.uuid n)
    (hx : ∀ job ∈ jobs, SeenSubject user x job.idempotencyKey)
    (hy : ∀ job ∈ jobs, SeenSubject user y job.idempotencyKey) :
    jobsViolation x.notificationJobs jobs = jobsViolation y.notificationJobs jobs := by
  apply jobsViolation_congr
  · intro job hjob
    exact ⟨h.key (hx job hjob), h.symm.key (hy job hjob)⟩
  · intro job hjob
    obtain ⟨n, hn⟩ := hids job hjob
    have hnew : ∀ db : Database, FreshIds env db → ¬ ∃ j ∈ db.notificationJobs, j.id = job.id := by
      rintro db hfresh ⟨j, hj, hid⟩
      exact hfresh.jobs n j hj (hid.trans hn)
    exact ⟨fun hx => absurd hx (hnew x h.freshLeft), fun hy => absurd hy (hnew y h.freshRight)⟩

theorem FreshIds.seenSubject {db : Database} (h : FreshIds env db) (n : ℕ) (type : EventType) :
    SeenSubject user db ⟨env.uuid n, type⟩ :=
  fun r hr hid => absurd hid (h.registrations n r hr)

theorem seenSubject_of_mem {db : Database} (hdb : Stored db) {reg : Registration} {event : Event}
    (hreg : reg ∈ db.registrations) (hseen : db.seen? user reg.eventId = some event)
    (type : EventType) : SeenSubject user db ⟨reg.id, type⟩ := by
  intro r hr hid
  rw [hdb.registrations.eq_of_key hr hreg hid]
  exact hides_of_seen hseen

theorem Twins.shown_events (h : Twins user env x y) (p : Event → Bool)
    (hp : ∀ event, p event = true → event.hiddenFrom user = false) :
    x.events.filter p = y.events.filter p := by
  have hshared : ∀ db : Database, db.events.filter p = (db.sharedEvents user).filter p := by
    intro db
    rw [Database.sharedEvents, List.filter_filter]
    apply List.filter_congr
    intro event _
    cases hevent : p event with
    | false => rfl
    | true => simp [hp event hevent]
  rw [hshared x, hshared y, h.differ.events]

theorem Twins.selectEvents (h : Twins user env x y) (p : Event → Bool) (limit offset : ℕ)
    (hp : ∀ event, p event = true → event.hiddenFrom user = false) :
    (selectEvents p limit offset).result x = (selectEvents p limit offset).result y := by
  simp only [Hefest.selectEvents, Stmt.select, h.shown_events p hp]
  apply List.map_congr_left
  intro event hevent
  have hmem : event ∈ x.events.filter p := by
    rw [h.shown_events p hp]
    exact (Table.mem_orderBy _).mp (List.mem_of_mem_drop (List.mem_of_mem_take hevent))
  obtain ⟨hmem, hshown⟩ := List.mem_filter.mp hmem
  have hseen : x.seen? user event.id = some event :=
    seen_eq_some.mpr ⟨h.left.events.lookup_self hmem, hp event hshown⟩
  rw [h.count hseen]

theorem Twins.listEvents (h : Twins user env x y) (limit offset : ℕ) :
    ((listEvents user limit offset).run x).2 = ((listEvents user limit offset).run y).2 := by
  unfold Hefest.listEvents
  split_ifs
  · refine congrArg Except.ok (h.selectEvents _ limit offset ?_)
    intro event hshown
    simp [Event.hiddenFrom, of_decide_eq_true hshown]
  · refine congrArg Except.ok (h.selectEvents _ limit offset ?_)
    intro event hshown
    rcases of_decide_eq_true hshown with hown | hpublished
    · simp [Event.hiddenFrom, hown]
    · simp [Event.hiddenFrom, hpublished]

theorem visibleTo_of_hidden {event : Event} (h : event.hiddenFrom user = true) :
    event.visibleTo user = false := by
  simp only [Event.hiddenFrom, Bool.and_eq_true, decide_eq_true_eq] at h
  simp [Event.visibleTo, h.1, h.2]

theorem owner_of_hidden {event : Event} (h : event.hiddenFrom user = true) :
    event.organizerId ≠ user.id := by
  simp only [Event.hiddenFrom, Bool.and_eq_true, decide_eq_true_eq] at h
  exact h.2

theorem status_of_hidden {event : Event} (h : event.hiddenFrom user = true) :
    event.status ≠ .published := by
  simp only [Event.hiddenFrom, Bool.and_eq_true, decide_eq_true_eq] at h
  exact h.1

/-- A call that reads one event: it answers the same if a hidden event is answered like an absent one
    and on an event that the user may see it answers the same. -/
theorem Twins.answer_of_event {α : Type} (h : Twins user env x y) (eventId : UUID) {p : Service α}
    {e : ApiError}
    (refused : ∀ db : Database, (∀ event, db.event? eventId = some event →
      event.hiddenFrom user = true) → (p.run db).2 = .error e)
    (found : ∀ event, x.event? eventId = some event → y.event? eventId = some event →
      x.seen? user eventId = some event → (p.run x).2 = (p.run y).2) :
    (p.run x).2 = (p.run y).2 := by
  rcases h.event_cases eventId with ⟨event, hx, hy, hseen⟩ | ⟨hx, hy⟩
  · exact found event hx hy hseen
  · rw [refused x hx, refused y hy]

theorem Twins.getEventDetail (h : Twins user env x y) (eventId : UUID) :
    ((getEventDetail user eventId).run x).2 = ((getEventDetail user eventId).run y).2 := by
  apply h.answer_of_event eventId
  · intro db hhidden
    simp only [Hefest.getEventDetail, run_stmt, selectEventDetail, Stmt.select]
    cases hevent : db.event? eventId with
    | none => rfl
    | some event => simp [visibleTo_of_hidden (hhidden event hevent)]
  · intro event hx hy hseen
    simp only [Hefest.getEventDetail, run_stmt, selectEventDetail, Stmt.select, hx, hy,
      Option.map_some, h.count hseen]
    split_ifs
    · simp only [run_stmt, selectUser, Stmt.select, h.differ.users]
      cases Table.lookup User.id event.organizerId y.users <;> rfl
    · rfl

theorem Twins.updateEvent (h : Twins user env x y) (settings : Settings) (eventId : UUID)
    (data : EventUpdateRequest) :
    ((updateEvent settings user eventId data env).run x).2 =
      ((updateEvent settings user eventId data env).run y).2 := by
  apply h.answer_of_event eventId
  · intro db hhidden
    simp only [Hefest.updateEvent, run_stmt, selectEventForUpdate]
    cases hevent : db.event? eventId with
    | none => rfl
    | some event => simp [owner_of_hidden (hhidden event hevent)]
  · intro event hx hy _
    simp only [Hefest.updateEvent, run_stmt, selectEventForUpdate, hx, hy]
    split_ifs <;> rfl

theorem Twins.publishEvent (h : Twins user env x y) (eventId : UUID) :
    ((publishEvent user eventId env).run x).2 = ((publishEvent user eventId env).run y).2 := by
  apply h.answer_of_event eventId
  · intro db hhidden
    simp only [Hefest.publishEvent, getOwnedDraft, bind_stmt, run_stmt, selectEvent, Stmt.select]
    cases hevent : db.event? eventId with
    | none => rfl
    | some event => simp [owner_of_hidden (hhidden event hevent)]
  · intro event hx hy _
    simp only [Hefest.publishEvent, getOwnedDraft, bind_stmt, run_stmt, selectEvent, Stmt.select,
      hx, hy]
    split_ifs <;> rfl

theorem Twins.listEventRegistrations (h : Twins user env x y) (eventId : UUID) (waitlistOnly : Bool)
    (limit offset : ℕ) :
    ((listEventRegistrations user eventId waitlistOnly limit offset).run x).2 =
      ((listEventRegistrations user eventId waitlistOnly limit offset).run y).2 := by
  apply h.answer_of_event eventId
  · intro db hhidden
    simp only [Hefest.listEventRegistrations, run_stmt, selectEvent, Stmt.select]
    cases hevent : db.event? eventId with
    | none => rfl
    | some event => simp [owner_of_hidden (hhidden event hevent)]
  · intro event hx hy hseen
    have hsummary : x.summary = y.summary := by
      funext reg
      simp only [Database.summary, Database.user?, h.differ.users]
    have hrows : ∀ status : RegistrationStatus,
        (selectEventRegistrations eventId status limit offset).result x =
          (selectEventRegistrations eventId status limit offset).result y := by
      intro status
      simp only [selectEventRegistrations, Stmt.select, hsummary]
      rw [h.filter_registrations hseen _ fun _ hr => (of_decide_eq_true hr).1]
    simp only [Hefest.listEventRegistrations, run_stmt, selectEvent, Stmt.select, hx, hy]
    split_ifs with howner hwaitlist
    · rfl
    · exact congrArg Except.ok (hrows _)
    · exact congrArg Except.ok (hrows _)

/-- What a call that writes jobs answers depends on the jobs alone. -/
theorem outcome_answer {α : Type} {jobs : List NotificationJob} {v w : Database} {a : α}
    (h : Hefest.jobsViolation x.notificationJobs jobs = Hefest.jobsViolation y.notificationJobs jobs) :
    (outcome x jobs v a).2 = (outcome y jobs w a).2 := by
  unfold outcome
  rw [h]
  cases Hefest.jobsViolation y.notificationJobs jobs <;> rfl

theorem Twins.cancelEvent (h : Twins user env x y) (eventId : UUID) :
    ((cancelEvent user eventId env).run x).2 = ((cancelEvent user eventId env).run y).2 := by
  apply h.answer_of_event eventId
  · intro db hhidden
    simp only [Hefest.cancelEvent, run_transaction, run_stmt, selectEventForUpdate]
    cases hevent : db.event? eventId with
    | none => rfl
    | some event => simp [owner_of_hidden (hhidden event hevent)]
  · intro event hx hy hseen
    by_cases howner : event.organizerId = user.id
    · by_cases hstatus : event.status = .cancelled
      · rw [cancelEvent_again hx howner hstatus, cancelEvent_again hy howner hstatus]
      · by_cases hstart : env.now 0 < event.startsAt
        · -- the keys are those of the event's own registrations
          have hkeys : ∀ db : Database, Stored db → db.seen? user eventId = some event →
              ∀ job ∈ eventCancelledJobs env eventId (db.activeRegistrations eventId),
                SeenSubject user db job.idempotencyKey := by
            intro db hdb hseen job hjob
            obtain ⟨r, hr, i, rfl⟩ := mem_eventCancelledJobs hjob
            obtain ⟨hmem, hevent, _⟩ := mem_activeRegistrations.mp hr
            exact seenSubject_of_mem hdb hmem (hevent ▸ hseen) .eventCancelled
          have hkeysLeft := hkeys x h.left hseen
          have hkeysRight := hkeys y h.right (by rw [← h.seen, hseen])
          rw [cancelEvent_run hx howner hstatus hstart, cancelEvent_run hy howner hstatus hstart,
            ← h.activeRegistrations hseen]
          rw [← h.activeRegistrations hseen] at hkeysRight
          apply outcome_answer
          refine h.jobsViolation _ ?_ hkeysLeft hkeysRight
          intro job hjob
          obtain ⟨r, _, i, rfl⟩ := mem_eventCancelledJobs hjob
          exact ⟨i, rfl⟩
        · simp [Hefest.cancelEvent, selectEventForUpdate, hx, hy, howner, hstatus, not_lt.mp hstart]
    · simp [Hefest.cancelEvent, selectEventForUpdate, hx, hy, howner]

theorem Twins.registrationViolation (h : Twins user env x y) (eventId : UUID)
    (status : RegistrationStatus) :
    registrationViolation x (newRegistration user eventId status env) =
      registrationViolation y (newRegistration user eventId status env) := by
  have hnew : ∀ db : Database, FreshIds env db →
      (db.registration? (newRegistration user eventId status env).id).isSome = false := by
    intro db hfresh
    rw [Option.isSome_eq_false_iff, Option.isNone_iff_eq_none]
    exact Table.lookup_eq_none.mpr (hfresh.registrations 0)
  have hactive : (∃ r ∈ x.registrations, r.eventId = eventId ∧ r.studentId = user.id ∧
      r.status.isActive = true) ↔ ∃ r ∈ y.registrations, r.eventId = eventId ∧
        r.studentId = user.id ∧ r.status.isActive = true := by
    have hrows := h.own_registrations
      (fun r => decide (r.eventId = eventId ∧ r.studentId = user.id ∧ r.status.isActive = true))
      fun r hr => (of_decide_eq_true hr).2.1
    have hmem : ∀ db : Database, (∃ r ∈ db.registrations, r.eventId = eventId ∧
        r.studentId = user.id ∧ r.status.isActive = true) ↔
          ∃ r, r ∈ db.registrations.filter fun r =>
            decide (r.eventId = eventId ∧ r.studentId = user.id ∧ r.status.isActive = true) := by
      intro db
      simp only [List.mem_filter, decide_eq_true_eq]
    rw [hmem, hmem, hrows]
  unfold Hefest.registrationViolation
  rw [hnew x h.freshLeft, hnew y h.freshRight]
  exact if_congr Iff.rfl rfl (if_congr (and_congr Iff.rfl hactive) rfl rfl)

theorem Twins.registerStudent (h : Twins user env x y) (eventId : UUID) :
    ((registerStudent user eventId env).run x).2 = ((registerStudent user eventId env).run y).2 := by
  apply h.answer_of_event eventId
  · intro db hhidden
    rcases registerStudent_cases user eventId env db with hrefused | ⟨event, hevent, hpublished⟩
    · rw [hrefused]
    · exact absurd hpublished (status_of_hidden (hhidden event hevent))
  · intro event hx hy hseen
    by_cases hpublished : event.status = .published
    · rw [registerStudent_run hx hpublished, registerStudent_run hy hpublished]
      simp only [h.seatOutcome hseen, h.registrationViolation]
      split_ifs
      · apply outcome_answer
        refine h.jobsViolation _ ?_ ?_ ?_
        · intro job hjob
          rw [List.mem_singleton.mp hjob]
          exact ⟨1, rfl⟩
        · intro job hjob
          rw [List.mem_singleton.mp hjob]
          exact h.freshLeft.seenSubject 0 _
        · intro job hjob
          rw [List.mem_singleton.mp hjob]
          exact h.freshRight.seenSubject 0 _
      · rfl
    · simp [Hefest.registerStudent, selectEventForUpdate, hx, hy, hpublished]

theorem mem_cancellationJobs {student : User} {event : Event} {reg : Registration}
    {next? : Option Registration} {job : NotificationJob}
    (h : job ∈ cancellationJobs student event reg next? env) :
    (∃ next, next? = some next ∧ job = waitlistPromotedJob event next reg.eventId env) ∨
      job = registrationCancelledJob student reg env := by
  rcases List.mem_append.mp h with hpromoted | hcancelled
  · obtain ⟨next, hnext, rfl⟩ := List.mem_map.mp hpromoted
    exact Or.inl ⟨next, Option.mem_toList.mp hnext, rfl⟩
  · exact Or.inr (List.mem_singleton.mp hcancelled)

def Database.ownHidden (db : Database) (user : User) (regId : UUID) : Prop :=
  ∃ reg ∈ db.registrations, reg.id = regId ∧ reg.studentId = user.id ∧ reg.status ≠ .cancelled ∧
    db.seen? user reg.eventId = none

theorem Twins.cancelRegistration (h : Twins user env x y) (regId : UUID)
    (hown : ¬ x.ownHidden user regId) :
    ((cancelRegistration user regId env).run x).2 =
      ((cancelRegistration user regId env).run y).2 := by
  have hsame := h.own_registration regId
  cases hreg : (x.registration? regId).filter fun r => decide (r.studentId = user.id) with
  | none =>
    rw [hreg] at hsame
    simp only [Hefest.cancelRegistration, run_transaction, run_stmt, selectOwnRegistration,
      Stmt.select, hreg, ← hsame, run_raise, settle_error]
  | some reg =>
    rw [hreg] at hsame
    obtain ⟨hx, howner⟩ := Option.filter_eq_some_iff.mp hreg
    obtain ⟨hy, _⟩ := Option.filter_eq_some_iff.mp hsame.symm
    have howner : reg.studentId = user.id := of_decide_eq_true howner
    have hmem : reg ∈ x.registrations := Table.lookup_mem hx
    have hmem' : reg ∈ y.registrations := Table.lookup_mem hy
    by_cases hactive : reg.status = .cancelled
    · simp [Hefest.cancelRegistration, selectOwnRegistration, Stmt.select, hx, hy,
        filter_own howner, hactive]
    · cases hseen : x.seen? user reg.eventId with
      | none => exact absurd ⟨reg, hmem, Table.lookup_key hx, howner, hactive, hseen⟩ hown
      | some event =>
        have hseen' : y.seen? user reg.eventId = some event := by rw [← h.seen, hseen]
        have hevent := (seen_eq_some.mp hseen).1
        have hevent' := (seen_eq_some.mp hseen').1
        by_cases hstart : env.now 0 < event.startsAt
        · rw [cancelRegistration_run hx howner hactive hevent hstart,
            cancelRegistration_run hy howner hactive hevent' hstart,
            ← h.promotion hseen hmem hmem']
          apply outcome_answer
          have hkeys : ∀ db : Database, Stored db → reg ∈ db.registrations →
              db.seen? user reg.eventId = some event →
                (∀ next, Hefest.promotion x reg env = some next → next ∈ db.registrations) →
                ∀ job ∈ cancellationJobs user event reg (Hefest.promotion x reg env) env,
                  SeenSubject user db job.idempotencyKey := by
            intro db hdb hreg hseen hnext job hjob
            rcases mem_cancellationJobs hjob with ⟨next, hpromoted, rfl⟩ | rfl
            · have hevent := (promotion_some h.left.registrations hmem hpromoted).2.2.1
              exact seenSubject_of_mem hdb (hnext next hpromoted) (hevent ▸ hseen) .waitlistPromoted
            · exact seenSubject_of_mem hdb hreg hseen .registrationCancelled
          refine h.jobsViolation _ ?_ ?_ ?_
          · intro job hjob
            rcases mem_cancellationJobs hjob with ⟨next, _, rfl⟩ | rfl
            · exact ⟨0, rfl⟩
            · exact ⟨1, rfl⟩
          · exact hkeys x h.left hmem hseen fun next hpromoted =>
              (promotion_some h.left.registrations hmem hpromoted).2.1
          · refine hkeys y h.right hmem' hseen' fun next hpromoted => ?_
            rw [h.promotion hseen hmem hmem'] at hpromoted
            exact (promotion_some h.right.registrations hmem' hpromoted).2.1
        · simp [Hefest.cancelRegistration, selectOwnRegistration, Stmt.select, hx, hy,
            filter_own howner, hactive, selectEventForUpdate, hevent, hevent', cancelUnderLock,
            selectRegistrationForUpdate, not_lt.mp hstart]

def Database.maskHidden (db : Database) (user : User) (entries : List MyRegistrationResponse) :
    List MyRegistrationResponse :=
  entries.map fun entry =>
    if (db.seen? user entry.eventId).isSome then entry else { entry with waitlistPosition := none }

theorem Twins.listMyRegistrations (h : Twins user env x y) :
    ((listMyRegistrations user).run x).2.map (x.maskHidden user) =
      ((listMyRegistrations user).run y).2.map (y.maskHidden user) := by
  rw [listMyRegistrations_run h.left.registrations, listMyRegistrations_run h.right.registrations,
    h.own_registrations _ fun _ hr => (of_decide_eq_true hr).1]
  simp only [Except.map, Database.maskHidden, List.map_map]
  apply congrArg Except.ok
  apply List.map_congr_left
  intro reg _
  change (if (x.seen? user reg.eventId).isSome then x.myView reg else
      { x.myView reg with waitlistPosition := none }) =
    if (y.seen? user reg.eventId).isSome then y.myView reg else
      { y.myView reg with waitlistPosition := none }
  have hsame := h.seen reg.eventId
  by_cases hseen : (x.seen? user reg.eventId).isSome = true
  · rw [if_pos hseen, if_pos (hsame ▸ hseen)]
    obtain ⟨event, hevent⟩ := Option.isSome_iff_exists.mp hseen
    have hposition : x.position reg = y.position reg := by
      unfold Database.position Database.waitlist
      rw [h.filter_registrations hevent _ fun _ hr => (of_decide_eq_true hr).1]
    rw [Database.myView, Database.myView, hposition]
  · rw [if_neg hseen, if_neg (hsame ▸ hseen)]
    rfl

theorem Twins.owned (h : Twins user env x y) (id : UUID) :
    (x.event? id).any (fun event => decide (event.organizerId = user.id)) =
      (y.event? id).any fun event => decide (event.organizerId = user.id) := by
  have hforeign : ∀ db : Database, (∀ event, db.event? id = some event →
      event.hiddenFrom user = true) →
        (db.event? id).any (fun event => decide (event.organizerId = user.id)) = false := by
    intro db hhidden
    cases hevent : db.event? id with
    | none => rfl
    | some event => simp [owner_of_hidden (hhidden event hevent)]
  rcases h.event_cases id with ⟨event, hx, hy, _⟩ | ⟨hx, hy⟩
  · rw [hx, hy]
  · rw [hforeign x hx, hforeign y hy]

/-- One's own events are not hidden. -/
theorem hides_of_owned {db : Database} {id : UUID}
    (h : (db.event? id).any (fun event => decide (event.organizerId = user.id)) = true) :
    db.hides user id = false := by
  unfold Database.hides
  cases hevent : db.event? id with
  | none => rfl
  | some event =>
    rw [hevent, Option.any_some] at h
    simp [Event.hiddenFrom, of_decide_eq_true h]

theorem ownsJob_eq (db : Database) (job : NotificationJob) : db.ownsJob user job =
    job.eventId.any fun id => (db.event? id).any fun event => decide (event.organizerId = user.id) := by
  unfold Database.ownsJob
  cases job.eventId with
  | none => rfl
  | some id =>
    rw [Option.bind_some, Option.any_some]
    cases db.event? id <;> rfl

theorem Twins.own_jobs (h : Twins user env x y) (p : NotificationJob → Bool) :
    x.notificationJobs.filter (fun job => x.ownsJob user job && p job) =
      y.notificationJobs.filter fun job => y.ownsJob user job && p job := by
  have hshared : ∀ db : Database,
      db.notificationJobs.filter (fun job => db.ownsJob user job && p job) =
        (db.sharedJobs user).filter fun job => db.ownsJob user job && p job := by
    intro db
    rw [Database.sharedJobs, List.filter_filter]
    apply List.filter_congr
    intro job _
    rw [ownsJob_eq]
    cases job.eventId with
    | none => rfl
    | some id =>
      simp only [Option.any_some]
      cases howned : (db.event? id).any fun event => decide (event.organizerId = user.id) with
      | false => rfl
      | true => simp [hides_of_owned howned]
  have hsame : x.ownsJob user = y.ownsJob user := by
    funext job
    rw [ownsJob_eq, ownsJob_eq]
    simp only [h.owned]
  rw [hshared x, hshared y, h.differ.jobs, hsame]

theorem Twins.listNotificationJobs (h : Twins user env x y) (eventId : Option UUID)
    (limit offset : ℕ) :
    ((listNotificationJobs user eventId limit offset).run x).2 =
      ((listNotificationJobs user eventId limit offset).run y).2 := by
  have hjobs : (selectOwnJobs user eventId limit offset).result x =
      (selectOwnJobs user eventId limit offset).result y := by
    simp only [selectOwnJobs, Stmt.select, h.own_jobs]
  unfold Hefest.listNotificationJobs requireRole
  split_ifs
  · simp only [run_stmt, hjobs, run_ret]
  · rfl

theorem Twins.getNotificationJob (h : Twins user env x y) (jobId : UUID) :
    ((getNotificationJob user jobId).run x).2 = ((getNotificationJob user jobId).run y).2 := by
  have hrows : x.notificationJobs.filter (x.ownsJob user) =
      y.notificationJobs.filter (y.ownsJob user) := by
    have hown := h.own_jobs fun _ => true
    simpa using hown
  have hjob : (selectOwnJob user jobId).result x = (selectOwnJob user jobId).result y := by
    simp only [selectOwnJob, Stmt.select]
    rw [← h.left.jobs.lookup_filter, ← h.right.jobs.lookup_filter, hrows]
  unfold Hefest.getNotificationJob requireRole
  split_ifs
  · simp only [run_stmt, hjob]
    cases (selectOwnJob user jobId).result y <;> rfl
  · rfl

theorem Twins.ownEvents (h : Twins user env x y) : x.ownEvents user.id = y.ownEvents user.id := by
  apply h.shown_events
  intro event howner
  simp [Event.hiddenFrom, of_decide_eq_true howner]

theorem Twins.ownRegistrations (h : Twins user env x y) :
    x.ownRegistrations user.id = y.ownRegistrations user.id := by
  have hshared : ∀ db : Database, db.ownRegistrations user.id =
      (db.sharedRegistrations user).filter fun r =>
        (db.event? r.eventId).any fun event => decide (event.organizerId = user.id) := by
    intro db
    rw [Database.sharedRegistrations, List.filter_filter]
    apply List.filter_congr
    intro r _
    cases howned : (db.event? r.eventId).any fun event => decide (event.organizerId = user.id) with
    | false => rfl
    | true => simp [hides_of_owned howned]
  rw [hshared x, hshared y, h.differ.registrations]
  simp only [h.owned]

theorem Twins.computeOrganizerStats (h : Twins user env x y) :
    ((computeOrganizerStats user env).run x).2 = ((computeOrganizerStats user env).run y).2 := by
  simp only [Hefest.computeOrganizerStats, run_stmt, run_ret, countOwnEvents, countOwnRegistrations,
    sumPublishedCapacity, Stmt.select, h.ownEvents, h.ownRegistrations]

end Agreement

section Reached
variable {settings : Settings} {c : Call} {db db' : Database}

theorem Change.stored (h : Change settings c db db') (hwf : Wf db) (hdb : Stored db) : Stored db' where
  events := h.events_unique hdb.events
  registrations := (h.wf hwf).registrations
  jobs := by
    obtain ⟨jobs, hjobs, hfresh, _⟩ := h.enqueues
    rw [hjobs]
    exact keyUnique_insertJobs hdb.jobs hfresh
  ownKey := by
    intro j hj id hid
    rcases h.new_jobs hwf hj with hold | ⟨r, hr, _, hkey, hevent, _⟩
    · obtain ⟨r, hr, hsubject, hevent⟩ := hdb.ownKey j hold id hid
      obtain ⟨r', hr', hsame⟩ := h.registration_kept hr
      obtain ⟨hid', hevent', _⟩ := Registration.identity_eq hsame
      exact ⟨r', hr', hid'.trans hsubject, hevent'.trans hevent⟩
    · rw [hevent] at hid
      exact ⟨r, hr, by rw [hkey], Option.some.inj hid⟩

theorem Initial.stored (h : Initial db) (hevents : Table.KeyUnique Event.id db.events)
    (hjobs : Table.KeyUnique NotificationJob.id db.notificationJobs) : Stored db where
  events := hevents
  registrations := h.wf.registrations
  jobs := hjobs
  ownKey := by
    intro j hj id hid
    rw [(h.accountScoped j hj).2.2.1] at hid
    cases hid

theorem stored_after (settings : Settings) {db₀ : Database} (h₀ : Initial db₀)
    (hevents : Table.KeyUnique Event.id db₀.events)
    (hjobs : Table.KeyUnique NotificationJob.id db₀.notificationJobs) (calls : List Call) :
    Stored (Transition.after (effect settings) db₀ calls) := by
  have hboth := Transition.after_invariant (effect settings) (fun db => Wf db ∧ Stored db)
    (fun _ => True) (fun c db _ h => ⟨(change settings c db).wf h.1, (change settings c db).stored h.1 h.2⟩)
    db₀ calls ⟨h₀.wf, h₀.stored hevents hjobs⟩ fun _ _ => trivial
  exact hboth.2

end Reached

inductive UserCall
  | listEvents (limit offset : ℕ)
  | getEventDetail (eventId : UUID)
  | updateEvent (eventId : UUID) (data : EventUpdateRequest)
  | publishEvent (eventId : UUID)
  | cancelEvent (eventId : UUID)
  | registerStudent (eventId : UUID)
  | cancelRegistration (regId : UUID)
  | listMyRegistrations
  | listEventRegistrations (eventId : UUID) (waitlistOnly : Bool) (limit offset : ℕ)
  | listNotificationJobs (eventId : Option UUID) (limit offset : ℕ)
  | getNotificationJob (jobId : UUID)
  | computeOrganizerStats

inductive UserResponse
  | events (events : List EventResponse)
  | detail (detail : EventDetailResponse)
  | event (event : Event)
  | registered (response : RegistrationResponse)
  | cancelled (reg : Registration)
  | mine (entries : List MyRegistrationResponse)
  | registrations (rows : List RegistrationSummary)
  | jobs (jobs : List NotificationJobResponse)
  | job (job : NotificationJobDetailResponse)
  | stats (stats : OrganizerStatsResponse)
deriving DecidableEq

def UserCall.prog (settings : Settings) (user : User) (env : Env) : UserCall → Service UserResponse
  | .listEvents limit offset => (Hefest.listEvents user limit offset).map .events
  | .getEventDetail eventId => (Hefest.getEventDetail user eventId).map .detail
  | .updateEvent eventId data => (Hefest.updateEvent settings user eventId data env).map .event
  | .publishEvent eventId => (Hefest.publishEvent user eventId env).map .event
  | .cancelEvent eventId => (Hefest.cancelEvent user eventId env).map .event
  | .registerStudent eventId => (Hefest.registerStudent user eventId env).map .registered
  | .cancelRegistration regId => (Hefest.cancelRegistration user regId env).map .cancelled
  | .listMyRegistrations => (Hefest.listMyRegistrations user).map .mine
  | .listEventRegistrations eventId waitlistOnly limit offset =>
    (Hefest.listEventRegistrations user eventId waitlistOnly limit offset).map .registrations
  | .listNotificationJobs eventId limit offset =>
    (Hefest.listNotificationJobs user eventId limit offset).map .jobs
  | .getNotificationJob jobId => (Hefest.getNotificationJob user jobId).map .job
  | .computeOrganizerStats => (Hefest.computeOrganizerStats user env).map .stats

def respond (settings : Settings) (user : User) (env : Env) (c : UserCall) (db : Database) :
    Except ApiError UserResponse := ((c.prog settings user env).run db).2

def UserResponse.mask (db : Database) (user : User) : UserResponse → UserResponse
  | .mine entries => .mine (db.maskHidden user entries)
  | response => response

theorem run_map_congr {α : Type} {p : Service α} {f : α → UserResponse} {x y : Database}
    (h : (p.run x).2 = (p.run y).2) : ((p.map f).run x).2 = ((p.map f).run y).2 := by
  rw [run_map, run_map, h]

/-- Hidden events are indistinguishable from absent ones, but for a student's own active
    registrations on them: cancelling one of those, and its waitlist position. -/
theorem hidden_events_indistinguishable (settings : Settings) (user : User) (env : Env)
    (x y : Database) (hdiffer : DifferInHidden user x y) (hx : Stored x) (hy : Stored y)
    (hfreshx : FreshIds env x) (hfreshy : FreshIds env y) :
    (∀ c : UserCall, c ≠ .listMyRegistrations →
        (∀ regId, c = .cancelRegistration regId → ¬ x.ownHidden user regId) →
          respond settings user env c x = respond settings user env c y) ∧
      (respond settings user env .listMyRegistrations x).map (UserResponse.mask x user) =
        (respond settings user env .listMyRegistrations y).map (UserResponse.mask y user) := by
  have h : Twins user env x y := ⟨hdiffer, hx, hy, hfreshx, hfreshy⟩
  constructor
  · intro c hmine hown
    unfold respond
    cases c with
    | listEvents limit offset => exact run_map_congr (h.listEvents limit offset)
    | getEventDetail eventId => exact run_map_congr (h.getEventDetail eventId)
    | updateEvent eventId data => exact run_map_congr (h.updateEvent settings eventId data)
    | publishEvent eventId => exact run_map_congr (h.publishEvent eventId)
    | cancelEvent eventId => exact run_map_congr (h.cancelEvent eventId)
    | registerStudent eventId => exact run_map_congr (h.registerStudent eventId)
    | cancelRegistration regId => exact run_map_congr (h.cancelRegistration regId (hown regId rfl))
    | listMyRegistrations => exact absurd rfl hmine
    | listEventRegistrations eventId waitlistOnly limit offset =>
      exact run_map_congr (h.listEventRegistrations eventId waitlistOnly limit offset)
    | listNotificationJobs eventId limit offset =>
      exact run_map_congr (h.listNotificationJobs eventId limit offset)
    | getNotificationJob jobId => exact run_map_congr (h.getNotificationJob jobId)
    | computeOrganizerStats => exact run_map_congr h.computeOrganizerStats
  · have hmasked := h.listMyRegistrations
    unfold respond UserCall.prog
    rw [run_map, run_map]
    cases hleft : ((Hefest.listMyRegistrations user).run x).2 with
    | error e =>
      cases hright : ((Hefest.listMyRegistrations user).run y).2 with
      | error e' =>
        rw [hleft, hright] at hmasked
        cases hmasked
        rfl
      | ok entries =>
        rw [hleft, hright] at hmasked
        cases hmasked
    | ok entries =>
      cases hright : ((Hefest.listMyRegistrations user).run y).2 with
      | error e' =>
        rw [hleft, hright] at hmasked
        cases hmasked
      | ok entries' =>
        rw [hleft, hright] at hmasked
        have hentries : x.maskHidden user entries = y.maskHidden user entries' := by
          simpa [Except.map] using hmasked
        simp [Except.map, UserResponse.mask, hentries]

section CancelledConcert

def cancelledConcert (startsAt : Time) : Event :=
  { tiedEvent with startsAt := startsAt, status := .cancelled }

def crowded : Database where
  events := [cancelledConcert (hours 10)]
  registrations := tiedWaitlist.registrations

def emptied : Database where
  events := [cancelledConcert (minutes 2)]
  registrations := [tiedRegistration 12 3 .waitlisted]

def halfHour : Env := ⟨fun n => minutes 30 + n, fun _ => 900⟩

theorem crowded_emptied : DifferInHidden bob crowded emptied where
  users := rfl
  refreshTokens := rfl
  oauthIdentities := rfl
  events := by decide
  registrations := by decide
  jobs := by decide

theorem crowded_stored : Stored crowded where
  events := by unfold Table.KeyUnique; decide
  registrations := by unfold Table.KeyUnique; decide
  jobs := List.nodup_nil
  ownKey j hj := by cases hj

theorem emptied_stored : Stored emptied where
  events := by unfold Table.KeyUnique; decide
  registrations := by unfold Table.KeyUnique; decide
  jobs := List.nodup_nil
  ownKey j hj := by cases hj

theorem crowded_fresh : FreshIds halfHour crowded where
  registrations _ := (by decide : ∀ r ∈ crowded.registrations, r.id ≠ 900)
  jobs _ j hj := by cases hj

theorem emptied_fresh : FreshIds halfHour emptied where
  registrations _ := (by decide : ∀ r ∈ emptied.registrations, r.id ≠ 900)
  jobs _ j hj := by cases hj

/-- `bob` sees the others in his position, and the start of the event in the answer to his
    cancellation. -/
theorem hidden_events_leak_to_registrants :
    DifferInHidden bob crowded emptied ∧ Stored crowded ∧ Stored emptied ∧
      FreshIds halfHour crowded ∧ FreshIds halfHour emptied ∧
      respond {} bob halfHour .listMyRegistrations crowded ≠
        respond {} bob halfHour .listMyRegistrations emptied ∧
      respond {} bob halfHour (.cancelRegistration 12) crowded ≠
        respond {} bob halfHour (.cancelRegistration 12) emptied :=
  ⟨crowded_emptied, crowded_stored, emptied_stored, crowded_fresh, emptied_fresh,
    by decide +kernel, by decide +kernel⟩

theorem hidden_events_indistinguishable_concert :
    respond {} bob halfHour (.getEventDetail 100) crowded =
      respond {} bob halfHour (.getEventDetail 100) emptied :=
  (hidden_events_indistinguishable {} bob halfHour crowded emptied crowded_emptied crowded_stored
    emptied_stored crowded_fresh emptied_fresh).1 _ (by simp) (by simp)

end CancelledConcert
end Hefest
