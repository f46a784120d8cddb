import Mathlib.Algebra.Order.BigOperators.Group.List
import Mathlib.Algebra.Order.Group.Nat
import Hefest.OutboxLog
import Hefest.Stats

set_option autoImplicit false

namespace Hefest
open Transition Transaction

section Counts
variable {db : Database} {organizerId : UUID} {status : RegistrationStatus}

def Database.publishedEvents (db : Database) (organizerId : UUID) : List Event :=
  (db.ownEvents organizerId).filter fun event => event.status = .published

def Database.publishedCapacity (db : Database) (organizerId : UUID) : ℕ :=
  ((db.publishedEvents organizerId).map Event.capacity).sum

def Database.publishedCount (db : Database) (organizerId : UUID) (status : RegistrationStatus) : ℕ :=
  ((db.publishedEvents organizerId).map fun event => db.count event.id status).sum

def Database.ownCount (db : Database) (organizerId : UUID) (status : RegistrationStatus) : ℕ :=
  (db.ownRegistrations organizerId).countP fun r => r.status = status

theorem computeOrganizerStats_run (organizer : User) (env : Env) (db : Database) :
    ∃ stats, (computeOrganizerStats organizer env).run db = (db, .ok stats) ∧
      stats.totalConfirmed = db.ownCount organizer.id .confirmed ∧
      stats.totalWaitlisted = db.ownCount organizer.id .waitlisted ∧
      stats.totalCapacity = db.publishedCapacity organizer.id :=
  ⟨_, rfl, rfl, rfl, rfl⟩

theorem ownCount_eq (db : Database) (organizerId : UUID) (status : RegistrationStatus) :
    db.ownCount organizerId status = db.registrations.countP fun r =>
      ((db.event? r.eventId).any fun event => event.organizerId = organizerId) &&
        decide (r.status = status) := by
  unfold Database.ownCount Database.ownRegistrations
  rw [List.countP_filter]
  apply List.countP_congr
  intro r _
  rw [Bool.and_comm]

theorem publishedCount_eq (hevents : Table.KeyUnique Event.id db.events) (organizerId : UUID)
    (status : RegistrationStatus) :
    db.publishedCount organizerId status = db.registrations.countP fun r =>
      ((db.event? r.eventId).any fun event =>
        decide (event.organizerId = organizerId) && decide (event.status = .published)) &&
        decide (r.status = status) := by
  have hjoin := hevents.sum_countP_join (fun event => decide (event.organizerId = organizerId) &&
    decide (event.status = .published)) Registration.eventId (fun r => decide (r.status = status))
    db.registrations
  unfold Database.publishedCount Database.publishedEvents Database.ownEvents
  rw [List.filter_filter]
  have hcomm : (fun event : Event => decide (event.status = .published) &&
      decide (event.organizerId = organizerId)) = fun event =>
        decide (event.organizerId = organizerId) && decide (event.status = .published) := by
    funext event
    exact Bool.and_comm _ _
  rw [hcomm]
  refine Eq.trans ?_ hjoin
  congr 1
  apply List.map_congr_left
  intro event _
  apply List.countP_congr
  intro r _
  simp

def OnPublished (organizerId : UUID) (db : Database) : Prop :=
  ∀ r ∈ db.registrations, r.status ≠ .cancelled → ∀ event, db.event? r.eventId = some event →
    event.organizerId = organizerId → event.status = .published

theorem ownCount_eq_publishedCount_iff (hevents : Table.KeyUnique Event.id db.events) :
    db.ownCount organizerId status = db.publishedCount organizerId status ↔
      ∀ r ∈ db.registrations, r.status = status → ∀ event, db.event? r.eventId = some event →
        event.organizerId = organizerId → event.status = .published := by
  rw [ownCount_eq, publishedCount_eq hevents, Table.countP_eq_iff_of_imp]
  · constructor
    · intro h r hr hstatus event hevent howner
      have hrow := h r hr (by simp [hevent, howner, hstatus])
      simpa [hevent, howner, hstatus] using hrow
    · intro h r hr hown
      cases hevent : db.event? r.eventId with
      | none => simp [hevent] at hown
      | some event =>
        simp only [hevent, Option.any_some, Bool.and_eq_true, decide_eq_true_eq] at hown ⊢
        exact ⟨⟨hown.1, h r hr hown.2 event hevent hown.1⟩, hown.2⟩
  · intro r _ hpublished
    cases hevent : db.event? r.eventId with
    | none => simp [hevent] at hpublished
    | some event =>
      simp only [hevent, Option.any_some, Bool.and_eq_true, decide_eq_true_eq] at hpublished ⊢
      exact ⟨hpublished.1.1, hpublished.2⟩

theorem onPublished_iff (hevents : Table.KeyUnique Event.id db.events) :
    OnPublished organizerId db ↔
      db.ownCount organizerId .confirmed = db.publishedCount organizerId .confirmed ∧
        db.ownCount organizerId .waitlisted = db.publishedCount organizerId .waitlisted := by
  rw [ownCount_eq_publishedCount_iff hevents, ownCount_eq_publishedCount_iff hevents]
  constructor
  · intro h
    refine ⟨?_, ?_⟩
    · intro r hr hstatus
      exact h r hr (by rw [hstatus]; decide)
    · intro r hr hstatus
      exact h r hr (by rw [hstatus]; decide)
  · intro h r hr hactive
    cases hstatus : r.status with
    | confirmed => exact h.1 r hr hstatus
    | waitlisted => exact h.2 r hr hstatus
    | cancelled => exact absurd hstatus hactive

end Counts

section Steps
variable {settings : Settings} {organizer : User} {c : Call} {db db' : Database}

def CancelsEmptied (organizer : User) (db : Database) : Call → Prop
  | .cancelEvent user eventId env =>
    user.id = organizer.id → ∀ event, db.event? eventId = some event →
      event.organizerId = user.id → event.status ≠ .cancelled → env.now 0 < event.startsAt →
      jobsViolation db.notificationJobs
        (eventCancelledJobs env eventId (db.activeRegistrations eventId)) = none →
      db.activeRegistrations eventId = []
  | _ => True

theorem EventMove.published {id : UUID} {event event' : Event}
    (h : EventMove settings id c event event') (hp : event.status = .published) :
    event'.status = .published ∨
      ∃ user env, c = .cancelEvent user id env := by
  cases h with
  | kept => exact Or.inl hp
  | publish draft => exact Or.inl rfl
  | update accepted => exact Or.inl hp
  | cancel live => exact Or.inr ⟨_, _, rfl⟩

theorem EventMove.owner {id : UUID} {event event' : Event}
    (h : EventMove settings id c event event') : event'.organizerId = event.organizerId := by
  cases h <;> rfl

/-- A registration found after a call was found before it, unless it is the new one of a published
    event. -/
theorem Change.active_row (h : Change settings c db db') (hwf : Wf db) {r : Registration}
    (hr : r ∈ db'.registrations) (hactive : r.status ≠ .cancelled) :
    (∃ r₀ ∈ db.registrations, r₀.status ≠ .cancelled ∧ r₀.eventId = r.eventId) ∨
      ∃ event, db.event? r.eventId = some event ∧ event.status = .published := by
  cases h with
  | @registerStudent student eventId env _ event _ _ _ found published =>
    rcases List.mem_append.mp hr with hold | hnew
    · exact Or.inl ⟨r, hold, hactive, rfl⟩
    · rw [List.mem_singleton.mp hnew]
      exact Or.inr ⟨event, found, published⟩
  | cancelRegistration found owner active foundEvent =>
    have hreg := registration_mem found
    rcases mem_cancelledDatabase hwf.registrations hreg hr with
      rfl | ⟨next, hnext, rfl⟩ | ⟨hold, _, _⟩
    · exact absurd rfl hactive
    · obtain ⟨_, hmem, _, hwaits, _⟩ := promotion_some hwf.registrations hreg hnext
      exact Or.inl ⟨next, hmem, by rw [hwaits]; decide, rfl⟩
    · exact Or.inl ⟨r, hold, hactive, rfl⟩
  | _ => exact Or.inl ⟨r, hr, hactive, rfl⟩

theorem Change.onPublished (h : Change settings c db db') (hwf : Wf db)
    (hc : CancelsEmptied organizer db c) (hp : OnPublished organizer.id db) :
    OnPublished organizer.id db' := by
  intro r hr hactive event' hevent' howner
  -- the event of the row before the call, where it was published
  have hbefore : ∃ event, db.event? r.eventId = some event ∧
      (event.organizerId = organizer.id → event.status = .published) := by
    rcases h.active_row hwf hr hactive with ⟨r₀, hr₀, hactive₀, hsame⟩ | ⟨event, hevent, hstatus⟩
    · obtain ⟨event, hevent⟩ := Option.isSome_iff_exists.mp (hwf.eventOf r₀ hr₀)
      rw [← hsame]
      exact ⟨event, hevent, hp r₀ hr₀ hactive₀ event hevent⟩
    · exact ⟨event, hevent, fun _ => hstatus⟩
  obtain ⟨event, hevent, hpublished⟩ := hbefore
  obtain ⟨event'', hevent'', hmove⟩ := h.event_move hevent
  have hsame : event'' = event' := Option.some.inj (hevent''.symm.trans hevent')
  subst hsame
  rcases hmove.published (hpublished (hmove.owner.symm.trans howner)) with hstatus | ⟨user, env, rfl⟩
  · exact hstatus
  · cases h with
    | refused => exact (Option.some.inj (hevent''.symm.trans hevent)) ▸
        hpublished (hmove.owner.symm.trans howner)
    | cancelEvent found owner live ahead fresh =>
      have hsame := Option.some.inj (found.symm.trans hevent)
      subst hsame
      have hempty := hc (owner.symm.trans (hmove.owner.symm.trans howner)) _ found owner live ahead fresh
      have hmem : r ∈ db.activeRegistrations r.eventId :=
        mem_activeRegistrations.mpr ⟨hr, rfl, hactive⟩
      rw [hempty] at hmem
      cases hmem

/-- A cancellation that leaves somebody registered takes their event from the published ones. -/
theorem cancelsEmptied_of_onPublished (h : OnPublished organizer.id (effect settings c db)) :
    CancelsEmptied organizer db c := by
  cases c with
  | cancelEvent user eventId env =>
    intro huser event found owner live ahead fresh
    rw [List.eq_nil_iff_forall_not_mem]
    intro r hr
    obtain ⟨hmem, rfl, hactive⟩ := mem_activeRegistrations.mp hr
    unfold effect perform Call.prog at h
    rw [effect_map, cancelEvent_run found owner live ahead, outcome_fst, if_pos fresh] at h
    have hset : ∀ e, (Event.cancel (env.now 1) e).id = e.id := fun _ => rfl
    have hcancelled : Table.lookup Event.id r.eventId
        (Table.update Event.id r.eventId (Event.cancel (env.now 1)) db.events) = some _ :=
      event_update hset found
    rw [if_pos rfl] at hcancelled
    have hstatus := h r hmem hactive _ hcancelled (owner.trans huser)
    cases hstatus
  | _ => trivial

def SeatsCover (organizerId : UUID) (db : Database) : Prop :=
  ∀ id event, db.event? id = some event → event.organizerId = organizerId →
    db.count id .confirmed ≤ event.capacity

def KeepsCapacities (organizerId : UUID) (db db' : Database) : Prop :=
  ∀ id event event', db.event? id = some event → db'.event? id = some event' →
    event.organizerId = organizerId → event.capacity ≤ event'.capacity

theorem Change.seatsCover {organizerId : UUID} (h : Change settings c db db') (hwf : Wf db)
    (hkept : KeepsCapacities organizerId db db') (hs : SeatsCover organizerId db) :
    SeatsCover organizerId db' := by
  intro id event' hevent' howner
  cases hevent : db.event? id with
  | none =>
    obtain ⟨hzero, _⟩ := h.new_ledger hwf hevent hevent'
    have hcount : db'.count event'.id .confirmed = 0 := hzero
    rw [← event_lookup_id hevent', hcount]
    exact Nat.zero_le _
  | some event =>
    obtain ⟨moved, hmoved, hmove⟩ := h.event_move hevent
    have hsame : moved = event' := Option.some.inj (hmoved.symm.trans hevent')
    subst hsame
    obtain ⟨stepped, hstepped, hstep⟩ := h.ledger hwf hevent
    have hsame : stepped = moved := Option.some.inj (hstepped.symm.trans hevent')
    subst hsame
    have hown : event.organizerId = organizerId := hmove.owner.symm.trans howner
    have hfits := hstep.fits (hkept id event stepped hevent hevent' hown)
    simp only [Database.ledger, event_lookup_id hevent, event_lookup_id hevent'] at hfits
    exact hfits (hs id event hevent hown)

theorem SeatsCover.total {organizerId : UUID} (hs : SeatsCover organizerId db)
    (hevents : Table.KeyUnique Event.id db.events) :
    db.publishedCount organizerId .confirmed ≤ db.publishedCapacity organizerId := by
  unfold Database.publishedCount Database.publishedCapacity
  apply List.sum_le_sum
  intro event hevent
  have hown : event ∈ db.ownEvents organizerId := List.mem_of_mem_filter hevent
  obtain ⟨hmem, howner⟩ := List.mem_filter.mp hown
  exact hs event.id event (hevents.lookup_self hmem) (of_decide_eq_true howner)

end Steps

section Runs
variable (settings : Settings)

def CapacitiesKept (organizer : User) (db₀ : Database) (calls : List Call) : Prop :=
  ∀ m, KeepsCapacities organizer.id (after (effect settings) db₀ (calls.take m))
    (after (effect settings) db₀ (calls.take (m + 1)))

/-- In every state of the run the dashboard counts the registrations of the published events, and
    while no capacity is lowered it shows no more confirmed ones than seats. -/
def DashboardCoherent (db₀ : Database) (calls : List Call) (organizer : User) : Prop :=
  ∀ n env,
    let db := after (effect settings) db₀ (calls.take n)
    ∃ stats, (computeOrganizerStats organizer env).run db = (db, .ok stats) ∧
      stats.totalConfirmed = db.publishedCount organizer.id .confirmed ∧
      stats.totalWaitlisted = db.publishedCount organizer.id .waitlisted ∧
      stats.totalCapacity = db.publishedCapacity organizer.id ∧
      (CapacitiesKept settings organizer db₀ (calls.take n) →
        stats.totalConfirmed ≤ stats.totalCapacity)

variable {settings} {db₀ : Database} {organizer : User}

theorem events_unique_after (hevents : Table.KeyUnique Event.id db₀.events) (calls : List Call) :
    Table.KeyUnique Event.id (after (effect settings) db₀ calls).events :=
  after_invariant (effect settings) (fun db => Table.KeyUnique Event.id db.events) (fun _ => True)
    (fun c db _ h => (change settings c db).events_unique h) db₀ calls hevents fun _ _ => trivial

theorem Initial.onPublished (h₀ : Initial db₀) (organizerId : UUID) : OnPublished organizerId db₀ := by
  intro r hr
  rw [h₀.registrations] at hr
  cases hr

theorem seatsCover_after (h₀ : Initial db₀) (calls : List Call)
    (hkept : CapacitiesKept settings organizer db₀ calls) :
    SeatsCover organizer.id (after (effect settings) db₀ calls) := by
  have hstart : Wf db₀ ∧ SeatsCover organizer.id db₀ := by
    refine ⟨h₀.wf, ?_⟩
    intro id event _ _
    rw [h₀.count]
    exact Nat.zero_le _
  have hrun := take_invariant (effect settings)
    (fun db => Wf db ∧ SeatsCover organizer.id db)
    (fun db c => KeepsCapacities organizer.id db (effect settings c db))
    (fun c db hc h => ⟨(change settings c db).wf h.1, (change settings c db).seatsCover h.1 hc h.2⟩)
    db₀ calls hstart ?_ calls.length
  · rw [List.take_length] at hrun
    exact hrun.2
  · intro m c hm
    rw [← after_take_succ (effect settings) db₀ calls m c hm]
    exact hkept m

theorem onPublished_take (h₀ : Initial db₀) (calls : List Call)
    (hc : ∀ m c, calls[m]? = some c →
      CancelsEmptied organizer (after (effect settings) db₀ (calls.take m)) c) (n : ℕ) :
    OnPublished organizer.id (after (effect settings) db₀ (calls.take n)) :=
  (take_invariant (effect settings) (fun db => Wf db ∧ OnPublished organizer.id db)
    (CancelsEmptied organizer)
    (fun c db hc h => ⟨(change settings c db).wf h.1, (change settings c db).onPublished h.1 hc h.2⟩)
    db₀ calls ⟨h₀.wf, h₀.onPublished organizer.id⟩ hc n).2

end Runs

/-- The dashboard of an organizer is coherent throughout a run exactly if the run cancels no event
    of theirs on which somebody is still registered. -/
theorem dashboard_coherent_iff (settings : Settings) (db₀ : Database) (h₀ : Initial db₀)
    (hevents : Table.KeyUnique Event.id db₀.events) (calls : List Call) (organizer : User) :
    DashboardCoherent settings db₀ calls organizer ↔
      ∀ m c, calls[m]? = some c →
        CancelsEmptied organizer (after (effect settings) db₀ (calls.take m)) c := by
  constructor
  · intro h m c hm
    have hunique : Table.KeyUnique Event.id
        (after (effect settings) db₀ (calls.take (m + 1))).events := events_unique_after hevents _
    obtain ⟨stats, hrun, hconfirmed, hwaitlisted, _⟩ := h (m + 1) ⟨fun _ => 0, fun _ => 0⟩
    obtain ⟨stats', hrun', hown, hownWaiting, _⟩ := computeOrganizerStats_run organizer
      ⟨fun _ => 0, fun _ => 0⟩ (after (effect settings) db₀ (calls.take (m + 1)))
    rw [hrun] at hrun'
    cases hrun'
    have hpublished : OnPublished organizer.id (after (effect settings) db₀ (calls.take (m + 1))) :=
      (onPublished_iff hunique).mpr
        ⟨hown.symm.trans hconfirmed, hownWaiting.symm.trans hwaitlisted⟩
    rw [after_take_succ (effect settings) db₀ calls m c hm] at hpublished
    exact cancelsEmptied_of_onPublished hpublished
  · intro hc n env db
    have hunique : Table.KeyUnique Event.id db.events := events_unique_after hevents _
    obtain ⟨hconfirmed, hwaitlisted⟩ := (onPublished_iff hunique).mp (onPublished_take h₀ calls hc n)
    obtain ⟨stats, hrun, hown, hownWaiting, hcapacity⟩ := computeOrganizerStats_run organizer env db
    refine ⟨stats, hrun, hown.trans hconfirmed, hownWaiting.trans hwaitlisted, hcapacity, ?_⟩
    intro hkept
    rw [hown, hconfirmed, hcapacity]
    exact (seatsCover_after h₀ (calls.take n) hkept).total hunique

def seatedCancelCalls : List Call :=
  [.createEvent organizer oneSeat (envAt 0 100), .publishEvent organizer 100 (envAt 1 200),
    .registerStudent alice 100 (envAt 2 300), .cancelEvent organizer 100 (envAt 3 400)]

theorem cancelled_seat_counted : ¬ DashboardCoherent {} {} seatedCancelCalls organizer := by
  intro h
  obtain ⟨stats, hrun, hconfirmed, _⟩ := h 4 (envAt 4 500)
  obtain ⟨stats', hrun', hown, _⟩ := computeOrganizerStats_run organizer (envAt 4 500)
    (after (effect {}) {} (seatedCancelCalls.take 4))
  rw [hrun] at hrun'
  cases hrun'
  rw [hown] at hconfirmed
  revert hconfirmed
  decide

theorem dashboard_coherent_iff_oneSeat : DashboardCoherent {} {} oneSeatCalls organizer := by
  refine (dashboard_coherent_iff {} {} initial_empty List.nodup_nil oneSeatCalls organizer).mpr ?_
  intro m c hc
  have hmem := List.mem_of_getElem? hc
  simp only [oneSeatCalls, List.mem_cons, List.not_mem_nil, or_false] at hmem
  obtain rfl | rfl | rfl | rfl := hmem <;> trivial

end Hefest
