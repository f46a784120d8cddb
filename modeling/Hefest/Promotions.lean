import Hefest.CancelledEvents
import Hefest.Waitlist

set_option autoImplicit false

namespace Hefest
open Transition

def Database.released (db : Database) (regId : UUID) (now : Time) : Database :=
  { db with
    registrations := Table.update Registration.id regId (Registration.cancel now) db.registrations }

section Calls
variable {db db' : Database} {settings : Settings} {c : Call}

/-- The call promotes nobody unless the event has a free seat after the release. -/
def PromotesBelowCapacity (settings : Settings) (db : Database) : Call → Prop
  | .cancelRegistration student regId env =>
    ∀ r ∈ db.registrations, r.status = .waitlisted →
      ∀ r' ∈ (effect settings (.cancelRegistration student regId env) db).registrations,
        r'.id = r.id → r'.status = .confirmed →
        ∀ event, db.event? r.eventId = some event →
          (db.released regId (env.now 1)).count r.eventId .confirmed < event.capacity
  | _ => True

/-- The call does not give up a confirmed seat of an event that is filled beyond its capacity and
    on which somebody waits. -/
def LeavesNoExcess (db : Database) : Call → Prop
  | .cancelRegistration student regId env =>
    ∀ reg event, db.registration? regId = some reg → reg.studentId = student.id →
      reg.status = .confirmed → db.event? reg.eventId = some event →
      env.now 0 < event.startsAt → JobIdsFresh db env →
      db.count reg.eventId .confirmed ≤ event.capacity ∨ db.count reg.eventId .waitlisted = 0
  | _ => True

theorem released_count {reg : Registration} {env : Env}
    (hdb : Table.KeyUnique Registration.id db.registrations) (hreg : reg ∈ db.registrations)
    (hconfirmed : reg.status = .confirmed) :
    (db.released reg.id (env.now 1)).count reg.eventId .confirmed + 1 =
      db.count reg.eventId .confirmed := by
  have hmove := countP_cancelRows env hdb hreg reg.eventId .confirmed (by decide)
  rw [if_pos (by simp [isFor, hconfirmed])] at hmove
  exact hmove

theorem Change.promotesBelow {student : User} {regId : UUID} {env : Env}
    (h : Change settings (.cancelRegistration student regId env) db db') (hwf : Wf db)
    (hexcess : LeavesNoExcess db (.cancelRegistration student regId env)) {r r' : Registration}
    (hr : r ∈ db.registrations) (hwaits : r.status = .waitlisted) (hr' : r' ∈ db'.registrations)
    (hid : r'.id = r.id) (hconfirmed : r'.status = .confirmed) {event : Event}
    (hevent : db.event? r.eventId = some event) :
    (db.released regId (env.now 1)).count r.eventId .confirmed < event.capacity := by
  have hkept (hold : r' ∈ db.registrations) : False := by
    rw [hwf.registrations.eq_of_key hold hr hid, hwaits] at hconfirmed
    cases hconfirmed
  cases h with
  | refused => exact (hkept hr').elim
  | @cancelRegistration _ _ _ _ reg event₀ found owner active foundEvent ahead fresh =>
    have hreg := registration_mem found
    rcases mem_cancelledDatabase hwf.registrations hreg hr' with
      rfl | ⟨next, hnext, rfl⟩ | ⟨hold, _, _⟩
    · cases hconfirmed
    · obtain ⟨hseat, hmem, hof, _, _⟩ := promotion_some hwf.registrations hreg hnext
      have hsame : next = r := hwf.registrations.eq_of_key hmem hr hid
      subst hsame
      rw [hof] at hevent ⊢
      have hevent₀ : event₀ = event := Option.some.inj (foundEvent.symm.trans hevent)
      subst hevent₀
      rw [hnext] at fresh
      have hwaiting := promotion_waits hwf.registrations hreg hnext
      have hfree := hexcess reg event₀ found owner hseat foundEvent ahead
        (jobIdsFresh_of_inserted fresh)
      have hreleased : (db.released reg.id (env.now 1)).count reg.eventId .confirmed + 1 =
          db.count reg.eventId .confirmed := released_count hwf.registrations hreg hseat
      rw [Table.lookup_key found] at hreleased
      omega
    · exact (hkept hold).elim

theorem leavesNoExcess_of_promotesBelow (hlog : OutboxLog db)
    (h : PromotesBelowCapacity settings db c) : LeavesNoExcess db c := by
  cases c with
  | cancelRegistration student regId env =>
    intro reg event found owner hconfirmed foundEvent ahead hids
    have hreg := registration_mem found
    have hactive : reg.status ≠ .cancelled := by
      rw [hconfirmed]
      decide
    cases hnext : promotion db reg env with
    | none => exact Or.inr (promotion_none hlog.wf.registrations hreg hconfirmed hnext)
    | some next =>
      obtain ⟨_, hmem, hof, hwaits, _⟩ := promotion_some hlog.wf.registrations hreg hnext
      obtain ⟨hafter, hseated⟩ := cancelRegistration_promotes settings hlog found owner hactive
        foundEvent ahead hids hnext
      rw [← hafter] at hseated
      have hbelow := h next hmem hwaits next.confirm hseated rfl rfl event (by rw [hof]; exact foundEvent)
      have hreleased : (db.released reg.id (env.now 1)).count reg.eventId .confirmed + 1 =
          db.count reg.eventId .confirmed := released_count hlog.wf.registrations hreg hconfirmed
      rw [Table.lookup_key found] at hreleased
      rw [hof] at hbelow
      left
      omega
  | _ => trivial

theorem LeavesNoExcess.promotesBelow (hwf : Wf db) (h : LeavesNoExcess db c) :
    PromotesBelowCapacity settings db c := by
  cases c with
  | cancelRegistration student regId env =>
    intro r hr hwaits r' hr' hid hconfirmed event hevent
    exact (change settings _ _).promotesBelow hwf h hr hwaits hr' hid hconfirmed hevent
  | _ => trivial

end Calls

/-- In every reachable state a cancellation respects the capacity exactly if it gives up no seat of
    an overfull event. -/
theorem promotes_below_capacity_iff (settings : Settings) (db₀ : Database) (h₀ : Initial db₀)
    (calls : List Call) (c : Call) :
    PromotesBelowCapacity settings (after (effect settings) db₀ calls) c ↔
      LeavesNoExcess (after (effect settings) db₀ calls) c := by
  have hlog := outboxLog_after settings h₀ calls
  constructor
  · exact leavesNoExcess_of_promotesBelow hlog
  · exact LeavesNoExcess.promotesBelow hlog.wf

section Excess
variable {settings : Settings} {c : Call} {db db' : Database}

def NoExcess (db : Database) : Prop :=
  ∀ id event, db.event? id = some event → (db.ledger event).confirmed ≤ (db.ledger event).capacity

/-- The call is no edit that takes seats away from confirmed registrations. -/
def KeepsSeats (settings : Settings) (db : Database) : Call → Prop
  | .updateEvent user eventId data env =>
    ∀ event, db.event? eventId = some event → updateAccepted settings user event data env = true →
      ∀ cap : ℕ+, data.capacity = some (some cap) → db.count eventId .confirmed ≤ cap
  | _ => True

theorem Change.noExcess (h : Change settings c db db') (hk : KeepsSeats settings db c) (hwf : Wf db)
    (hs : NoExcess db) : NoExcess db' := by
  apply h.ledger_rule hwf (fun l => l.confirmed ≤ l.capacity)
    (fun _ _ hstep hsame => hstep.fits hsame.ge) _ _ hs
  · intro capacity
    exact Nat.zero_le capacity
  · rintro user eventId data env cap event rfl hevent haccepted hcap
    exact hk event hevent haccepted cap hcap

theorem NoExcess.leavesNoExcess (h : NoExcess db) (c : Call) : LeavesNoExcess db c := by
  cases c with
  | cancelRegistration student regId env =>
    intro reg event _ _ _ foundEvent _ _
    have hfits := h reg.eventId event foundEvent
    rw [Database.ledger, event_lookup_id foundEvent] at hfits
    exact Or.inl hfits
  | _ => trivial

/-- While no edit takes seats away from confirmed registrations, every promotion has its seat. -/
theorem promotes_below_capacity_of_keepsSeats (settings : Settings) (db₀ : Database)
    (h₀ : Initial db₀) (calls : List Call)
    (hcalls : ∀ n c, calls[n]? = some c →
      KeepsSeats settings (after (effect settings) db₀ (calls.take n)) c) (n : ℕ) (c : Call) :
    PromotesBelowCapacity settings (after (effect settings) db₀ (calls.take n)) c := by
  have hstart : Wf db₀ ∧ NoExcess db₀ := by
    refine ⟨h₀.wf, ?_⟩
    intro id event _
    change db₀.count event.id .confirmed ≤ event.capacity
    rw [h₀.count]
    exact Nat.zero_le _
  have hkept := take_invariant (effect settings) (fun db => Wf db ∧ NoExcess db)
    (KeepsSeats settings) (fun c db hk hdb =>
      ⟨(change settings c db).wf hdb.1, (change settings c db).noExcess hk hdb.1 hdb.2⟩)
    db₀ calls hstart hcalls n
  exact (hkept.2.leavesNoExcess c).promotesBelow hkept.1

end Excess

section TakenSeat

def twoSeats : EventCreateRequest := { oneSeat with capacity := ⟨2, Nat.two_pos⟩ }

def takenSeatCalls : List Call :=
  [.createEvent organizer twoSeats (envAt 0 100), .publishEvent organizer 100 (envAt 1 200),
    .registerStudent alice 100 (envAt 2 300), .registerStudent bob 100 (envAt 3 400),
    .registerStudent carol 100 (envAt 4 500),
    .updateEvent organizer 100 { capacity := some (some ⟨1, Nat.one_pos⟩) } (envAt 5 600)]

theorem taken_seat_promoted :
    ¬ PromotesBelowCapacity {} (after (effect {}) {} takenSeatCalls)
      (.cancelRegistration alice 300 (envAt 6 700)) := by
  intro h
  have hbelow := h ⟨500, 100, 4, .waitlisted, seconds 4, none⟩ (by decide) rfl
    ⟨500, 100, 4, .confirmed, seconds 4, none⟩ (by decide) rfl rfl _ (show _ = some _ by rfl)
  revert hbelow
  decide

theorem promotes_below_capacity_iff_oneSeat :
    PromotesBelowCapacity {} (after (effect {}) {} oneSeatCalls)
      (.cancelRegistration alice 300 (envAt 4 500)) := by
  apply (promotes_below_capacity_iff {} {} initial_empty oneSeatCalls _).mpr
  intro reg event found _ _ foundEvent _ _
  have hreg : reg = ⟨300, 100, 2, .confirmed, seconds 2, none⟩ :=
    Option.some.inj (found.symm.trans (show _ = some _ by rfl))
  subst hreg
  have hevent : event = (newEvent organizer oneSeat (envAt 0 100)).publish (seconds 1) :=
    Option.some.inj (foundEvent.symm.trans (show _ = some _ by rfl))
  subst hevent
  left
  decide

end TakenSeat
end Hefest
