import Hefest.SeatRuns

set_option autoImplicit false

namespace Hefest
open Transition Transaction

section Capacity
variable {settings : Settings} {c : Call} {db db' : Database} {id : UUID} {event event' : Event}

theorem assign_capacity (data : EventUpdateRequest) (event : Event) :
    (data.assign event).capacity = event.capacity ∨
      ∃ cap : ℕ+, data.capacity = some (some cap) ∧ (data.assign event).capacity = cap := by
  rcases hcap : data.capacity with _ | _ | cap
  · left; simp [EventUpdateRequest.assign, hcap]
  · left; simp [EventUpdateRequest.assign, hcap]
  · right; exact ⟨cap, rfl, by simp [EventUpdateRequest.assign, hcap]⟩

/-- Only an accepted edit that carries a capacity changes one. -/
theorem Change.capacity (h : Change settings c db db') (hevent : db.event? id = some event)
    (hevent' : db'.event? id = some event') :
    event'.capacity = event.capacity ∨
      ∃ user data env, ∃ cap : ℕ+, c = .updateEvent user id data env ∧
        updateAccepted settings user event data env = true ∧ data.capacity = some (some cap) ∧
        event'.capacity = cap := by
  obtain ⟨event'', hfound, hmove⟩ := h.event_move hevent
  have hsame : event'' = event' := Option.some.inj (hfound.symm.trans hevent')
  subst hsame
  cases hmove with
  | kept => exact Or.inl rfl
  | publish draft => exact Or.inl rfl
  | @update user data env _ accepted =>
    rcases assign_capacity data event with hkept | ⟨cap, hcap, hnew⟩
    · exact Or.inl hkept
    · exact Or.inr ⟨user, data, env, cap, rfl, accepted, hcap, hnew⟩
  | cancel live => exact Or.inl rfl

theorem Change.updateEvent_registrations {user : User} {data : EventUpdateRequest} {env : Env}
    (h : Change settings (.updateEvent user id data env) db db') :
    db'.registrations = db.registrations := by
  cases h with
  | refused => rfl
  | updateEvent => rfl

/-- The rule for what holds of the ledger of every event: the seat steps keep it, a new event has
    it, and every accepted edit of a capacity restores it. -/
theorem Change.ledger_rule (h : Change settings c db db') (hwf : Wf db) (P : Ledger → Prop)
    (hstep : ∀ l l', Ledger.Step l l' → l'.capacity = l.capacity → P l → P l')
    (hnew : ∀ capacity, P ⟨capacity, 0, 0⟩)
    (hedit : ∀ user eventId data env, ∀ cap : ℕ+, ∀ event, c = .updateEvent user eventId data env →
      db.event? eventId = some event → updateAccepted settings user event data env = true →
      data.capacity = some (some cap) →
        P ⟨cap, db.count eventId .confirmed, db.count eventId .waitlisted⟩)
    (hP : ∀ id event, db.event? id = some event → P (db.ledger event)) (id : UUID) (event' : Event)
    (hevent' : db'.event? id = some event') : P (db'.ledger event') := by
  cases hevent : db.event? id with
  | none =>
    obtain ⟨hconfirmed, hwaiting⟩ := h.new_ledger hwf hevent hevent'
    have hempty : db'.ledger event' = ⟨event'.capacity, 0, 0⟩ := by
      change Ledger.mk event'.capacity (db'.ledger event').confirmed (db'.ledger event').waiting = _
      rw [hconfirmed, hwaiting]
    rw [hempty]
    exact hnew event'.capacity
  | some event =>
    rcases h.capacity hevent hevent' with hsame | ⟨user, data, env, cap, rfl, haccepted, hcap, hset⟩
    · obtain ⟨event'', hfound, hmove⟩ := h.ledger hwf hevent
      have heq : event'' = event' := Option.some.inj (hfound.symm.trans hevent')
      subst heq
      exact hstep _ _ hmove hsame (hP id event hevent)
    · have hrows := h.updateEvent_registrations
      have hledger : db'.ledger event' =
          ⟨cap, db.count id .confirmed, db.count id .waitlisted⟩ := by
        unfold Database.ledger
        rw [hset, event_lookup_id hevent', count_def, count_def, hrows]
        rfl
      rw [hledger]
      exact hedit user id data env cap event rfl hevent haccepted hcap

end Capacity

def Call.isCancelEvent : Call → Bool
  | .cancelEvent .. => true
  | _ => false

def SeatsPublished (db : Database) : Prop :=
  ∀ r ∈ db.registrations, ∀ event, db.event? r.eventId = some event → event.status = .published

theorem Change.seatsPublished {settings : Settings} {c : Call} {db db' : Database}
    (h : Change settings c db db') (hc : c.isCancelEvent = false) (hwf : Wf db)
    (hp : SeatsPublished db) : SeatsPublished db' := by
  have hkept : ∀ r ∈ db.registrations, ∀ event', db'.event? r.eventId = some event' →
      event'.status = .published := by
    intro r hr event' hevent'
    obtain ⟨event, hevent⟩ := Option.isSome_iff_exists.mp (hwf.eventOf r hr)
    have hold := hp r hr event hevent
    obtain ⟨event'', hfound, hmove⟩ := h.event_move hevent
    have hsame : event'' = event' := Option.some.inj (hfound.symm.trans hevent')
    subst hsame
    cases hmove with
    | kept => exact hold
    | publish draft => rfl
    | update accepted => exact hold
    | cancel live => cases hc
  cases h with
  | refused => exact hkept
  | createEvent => exact hkept
  | publishEvent => exact hkept
  | updateEvent => exact hkept
  | cancelEvent => cases hc
  | registerStudent found published =>
    intro r hr event' hevent'
    rcases List.mem_append.mp hr with hold | hnew
    · exact hkept r hold event' hevent'
    · rw [List.mem_singleton.mp hnew] at hevent'
      rw [← Option.some.inj (found.symm.trans hevent')]
      exact published
  | cancelRegistration =>
    intro r hr event' hevent'
    obtain ⟨r₀, hmem, hsame⟩ := mem_cancelledRows hr
    rw [← (Registration.identity_eq hsame).2.1] at hevent'
    exact hkept r₀ hmem event' hevent'

section Queue
variable (settings : Settings)

def QueueServed (db : Database) : Prop :=
  ∀ id event, db.event? id = some event → event.status = .published →
    db.count id .confirmed < event.capacity → db.count id .waitlisted = 0

def NewcomersWait (db : Database) : Prop :=
  ∀ student eventId env db' response,
    (registerStudent student eventId env).run db = (db', .ok response) →
    response.status = .confirmed → db.count eventId .waitlisted = 0

/-- The call is no edit that adds seats to an event on which somebody waits. -/
def KeepsServed (db : Database) : Call → Prop
  | .updateEvent user eventId data env =>
    ∀ event, db.event? eventId = some event → updateAccepted settings user event data env = true →
      ∀ cap : ℕ+, data.capacity = some (some cap) →
        (cap : ℕ) ≤ db.count eventId .confirmed ∨ db.count eventId .waitlisted = 0
  | _ => True

theorem QueueServed.newcomersWait {db : Database} (h : QueueServed db) : NewcomersWait db := by
  intro student eventId env db' response hrun hconfirmed
  obtain ⟨event, hevent, hstatus, hreg⟩ := registerStudent_ok hrun
  apply h eventId event hevent hstatus
  by_contra hfull
  have hseat : seatOutcome db event eventId =
      (.waitlisted, .registrationWaitlisted, some (db.count eventId .waitlisted + 1)) := by
    simp [seatOutcome, hfull]
  obtain ⟨_, _, hresponse, _⟩ := hreg
  rw [hresponse, hseat] at hconfirmed
  cases hconfirmed

structure Queued (db : Database) : Prop where
  wf : Wf db
  seats : SeatsPublished db
  served : ∀ id event, db.event? id = some event → (db.ledger event).Served

variable {settings} {c : Call} {db db' : Database}

theorem Change.served (h : Change settings c db db') (hk : KeepsServed settings db c)
    (hwf : Wf db) (hs : ∀ id event, db.event? id = some event → (db.ledger event).Served)
    (id : UUID) (event' : Event) (hevent' : db'.event? id = some event') :
    (db'.ledger event').Served := by
  apply h.ledger_rule hwf Ledger.Served (fun _ _ hstep => hstep.served) _ _ hs id event' hevent'
  · intro capacity _
    rfl
  · rintro user eventId data env cap event rfl hevent haccepted hcap
    have hkept := hk event hevent haccepted cap hcap
    unfold Ledger.Served
    dsimp only
    omega

theorem Queued.step (hk : c.isCancelEvent = false) (hserved : KeepsServed settings db c)
    (h : Queued db) : Queued (effect settings c db) where
  wf := (change settings c db).wf h.wf
  seats := (change settings c db).seatsPublished hk h.wf h.seats
  served := (change settings c db).served hserved h.wf h.served

theorem Queued.queueServed (h : Queued db) : QueueServed db := by
  intro id event hevent _ hfree
  have hs := h.served id event hevent
  rw [Ledger.Served, Database.ledger, event_lookup_id hevent] at hs
  exact hs hfree

/-- An edit that adds a seat while somebody waits leaves that seat idle. -/
theorem keepsServed_of_queueServed (hp : SeatsPublished db)
    (h : QueueServed (effect settings c db)) : KeepsServed settings db c := by
  cases c with
  | updateEvent user eventId data env =>
    intro event hevent haccepted cap hcap
    have hafter : effect settings (.updateEvent user eventId data env) db =
        { db with events := Table.update Event.id eventId data.assign db.events } := by
      unfold effect perform Call.prog
      rw [effect_map, updateEvent_run data hevent haccepted]
    rw [hafter] at h
    have hfound : Table.lookup Event.id eventId (Table.update Event.id eventId data.assign db.events)
        = some (data.assign event) := by
      rw [event_update (by intro _; rfl) hevent, if_pos rfl]
    have hnew : (data.assign event).capacity = cap := by simp [EventUpdateRequest.assign, hcap]
    by_contra hidle
    rw [not_or, not_le] at hidle
    apply hidle.2
    obtain ⟨r, hr, hwaits⟩ := List.countP_pos_iff.mp (Nat.pos_of_ne_zero hidle.2)
    have hof : r.eventId = eventId := (of_decide_eq_true hwaits).1
    have hpublished : event.status = .published := hp r hr event (by rw [hof]; exact hevent)
    exact h eventId (data.assign event) hfound hpublished (by rw [hnew]; exact hidle.1)
  | _ => trivial

end Queue

section Runs
variable (settings : Settings)

theorem Initial.queued {db : Database} (h : Initial db) : Queued db where
  wf := h.wf
  seats := by simp [SeatsPublished, h.registrations]
  served := by
    intro id event _ _
    exact h.count event.id .waitlisted

/-- A run without event cancellations keeps every queue served exactly if it contains no accepted
    edit that adds seats while somebody waits. -/
theorem queue_served_iff (db₀ : Database) (h₀ : Initial db₀) (calls : List Call)
    (hcalls : ∀ c ∈ calls, c.isCancelEvent = false) :
    (∀ n, QueueServed (after (effect settings) db₀ (calls.take n)) ∧
        NewcomersWait (after (effect settings) db₀ (calls.take n))) ↔
      ∀ n c, calls[n]? = some c →
        KeepsServed settings (after (effect settings) db₀ (calls.take n)) c := by
  constructor
  · intro h n c hc
    have hpair : Wf (after (effect settings) db₀ (calls.take n)) ∧
        SeatsPublished (after (effect settings) db₀ (calls.take n)) := by
      refine after_invariant (effect settings) (fun db => Wf db ∧ SeatsPublished db)
        (fun c => c.isCancelEvent = false) ?_ db₀ _ ⟨h₀.wf, h₀.queued.seats⟩
        (fun c hmem => hcalls c (List.mem_of_mem_take hmem))
      intro c db hkind hdb
      exact ⟨(change settings c db).wf hdb.1, (change settings c db).seatsPublished hkind hdb.1 hdb.2⟩
    have hnext := (h (n + 1)).1
    rw [after_take_succ (effect settings) db₀ calls n c hc] at hnext
    exact keepsServed_of_queueServed hpair.2 hnext
  · intro h n
    have hq : Queued (after (effect settings) db₀ (calls.take n)) := by
      refine take_invariant (effect settings) Queued
        (fun db c => c.isCancelEvent = false ∧ KeepsServed settings db c) ?_ db₀ calls h₀.queued ?_ n
      · intro c db hcond hdb
        exact hdb.step hcond.1 hcond.2
      · intro n c hc
        exact ⟨hcalls c (List.mem_of_getElem? hc), h n c hc⟩
    exact ⟨hq.queueServed, hq.queueServed.newcomersWait⟩

end Runs

section AddedSeat

def carol : User :=
  { id := 4, email := "carol@school.example", fullName := "Carol", role := .student }

def addedSeatCalls : List Call :=
  oneSeatCalls ++ [.updateEvent organizer 100 { capacity := some (some ⟨2, Nat.two_pos⟩) } (envAt 4 500)]

theorem added_seat_idles :
    (∀ c ∈ addedSeatCalls, c.isCancelEvent = false) ∧
      ¬ QueueServed (after (effect {}) {} addedSeatCalls) ∧
      ¬ NewcomersWait (after (effect {}) {} addedSeatCalls) := by
  refine ⟨by decide, ?_, ?_⟩
  · intro h
    have hzero := h 100 _ (show _ = some _ by rfl) (by decide) (by decide)
    revert hzero
    decide
  · intro h
    have hzero := h carol 100 (envAt 5 600) _ _ rfl (by decide)
    revert hzero
    decide

theorem queue_served_iff_oneSeat :
    QueueServed (after (effect {}) {} oneSeatCalls) ∧
      NewcomersWait (after (effect {}) {} oneSeatCalls) := by
  have hruns := (queue_served_iff {} {} initial_empty oneSeatCalls (by decide)).mpr (by
    intro n c hc
    have hmem := List.mem_of_getElem? hc
    simp only [oneSeatCalls, List.mem_cons, List.not_mem_nil, or_false] at hmem
    obtain rfl | rfl | rfl | rfl := hmem <;> trivial)
  exact hruns oneSeatCalls.length

end AddedSeat
end Hefest
