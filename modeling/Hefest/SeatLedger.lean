import Hefest.Calls

set_option autoImplicit false

/-!
# Seat accounting

The abstract ledger of one event is its capacity with the numbers of confirmed and waiting
registrations. `Change.ledger` shows that every call moves the ledger of every event by one
ledger step; the bounds on whole runs are then facts about ledgers.
-/
namespace Hefest

structure Ledger where
  capacity : ℕ
  confirmed : ℕ
  waiting : ℕ

namespace Ledger

inductive Step : Ledger → Ledger → Prop
  | stay (l : Ledger) : Step l l
  | resize (l : Ledger) (capacity : ℕ) : Step l { l with capacity := capacity }
  | seat (l : Ledger) (free : l.confirmed < l.capacity) :
      Step l { l with confirmed := l.confirmed + 1 }
  | queue (l : Ledger) (full : l.capacity ≤ l.confirmed) : Step l { l with waiting := l.waiting + 1 }
  /-- A confirmed seat is given up while nobody waits. -/
  | release (capacity confirmed : ℕ) : Step ⟨capacity, confirmed + 1, 0⟩ ⟨capacity, confirmed, 0⟩
  /-- The queue shortens: its first is promoted into a seat just given up, or one of it leaves. -/
  | shorten (capacity confirmed waiting : ℕ) :
      Step ⟨capacity, confirmed, waiting + 1⟩ ⟨capacity, confirmed, waiting⟩

/-- Nobody was seated above `hi`, and somebody waits only behind at least `lo` seated. -/
def Within (lo hi : ℕ) (l : Ledger) : Prop :=
  l.confirmed ≤ hi ∧ (l.waiting = 0 ∨ lo ≤ l.confirmed)

theorem Step.within {lo hi : ℕ} {l l' : Ledger} (h : Step l l') (hlo : lo ≤ l.capacity)
    (hhi : l.capacity ≤ hi) (hl : Within lo hi l) : Within lo hi l' := by
  unfold Within at hl ⊢
  cases h with
  | stay => exact hl
  | resize => exact hl
  | seat free => dsimp only; omega
  | queue full => dsimp only; omega
  | release => dsimp only at *; omega
  | shorten => dsimp only at *; omega

theorem Within.bounds {lo hi : ℕ} {l : Ledger} (h : Within lo hi l) :
    min lo (l.confirmed + l.waiting) ≤ l.confirmed ∧
      l.confirmed ≤ min hi (l.confirmed + l.waiting) := by
  unfold Within at h
  omega

def Served (l : Ledger) : Prop := l.confirmed < l.capacity → l.waiting = 0

/-- Apart from a change of capacity, every step keeps the queue served. -/
theorem Step.served {l l' : Ledger} (h : Step l l') (hsame : l'.capacity = l.capacity)
    (hl : Served l) : Served l' := by
  unfold Served at hl ⊢
  cases h with
  | stay => exact hl
  | resize => dsimp only at *; omega
  | seat free => dsimp only; omega
  | queue full => dsimp only; omega
  | release => dsimp only at *; omega
  | shorten => dsimp only at *; omega

/-- Unless the capacity is lowered, no step leaves more seated than it. -/
theorem Step.fits {l l' : Ledger} (h : Step l l') (hkept : l.capacity ≤ l'.capacity)
    (hl : l.confirmed ≤ l.capacity) : l'.confirmed ≤ l'.capacity := by
  cases h with
  | stay => exact hl
  | resize => exact hl.trans hkept
  | seat free => dsimp only; omega
  | queue full => exact hl
  | release => dsimp only at *; omega
  | shorten => exact hl

end Ledger

def Database.ledger (db : Database) (event : Event) : Ledger :=
  ⟨event.capacity, db.count event.id .confirmed, db.count event.id .waitlisted⟩

structure Wf (db : Database) : Prop where
  registrations : Table.KeyUnique Registration.id db.registrations
  eventOf : ∀ r ∈ db.registrations, (db.event? r.eventId).isSome

section Counts
variable {db : Database} {reg next : Registration} {t : List Registration}

def isFor (eventId : UUID) (status : RegistrationStatus) (r : Registration) : Bool :=
  decide (r.eventId = eventId ∧ r.status = status)

theorem count_def (db : Database) (eventId : UUID) (status : RegistrationStatus) :
    db.count eventId status = db.registrations.countP (isFor eventId status) := rfl

theorem registration_mem {id : UUID} (h : db.registration? id = some reg) :
    reg ∈ db.registrations := Table.lookup_mem h

theorem cancelRows_unique (reg : Registration) (env : Env) (h : Table.KeyUnique Registration.id t) :
    Table.KeyUnique Registration.id (cancelRows reg env t) :=
  Table.keyUnique_update h (fun _ => rfl)

theorem countP_cancelRows (env : Env) (h : Table.KeyUnique Registration.id t) (hreg : reg ∈ t)
    (eventId : UUID) (status : RegistrationStatus) (hstatus : status ≠ .cancelled) :
    (cancelRows reg env t).countP (isFor eventId status) +
        (if isFor eventId status reg then 1 else 0) = t.countP (isFor eventId status) := by
  have hmove := h.countP_update hreg rfl (isFor eventId status) (f := Registration.cancel (env.now 1))
  have hgone : isFor eventId status (reg.cancel (env.now 1)) = false := by
    simp [isFor, Registration.cancel, hstatus.symm]
  rw [hgone] at hmove
  simpa [cancelRows] using hmove

theorem countP_promoteRows (h : Table.KeyUnique Registration.id t) (hnext : next ∈ t)
    (eventId : UUID) (status : RegistrationStatus) :
    (promoteRows (some next) t).countP (isFor eventId status) +
        (if isFor eventId status next then 1 else 0) =
      t.countP (isFor eventId status) + (if isFor eventId status next.confirm then 1 else 0) :=
  h.countP_update hnext rfl (isFor eventId status)

theorem mem_waitlist {eventId : UUID} {r : Registration} :
    r ∈ db.waitlist eventId ↔
      r ∈ db.registrations ∧ r.eventId = eventId ∧ r.status = .waitlisted := by
  simp [Database.waitlist]

theorem waitlist_length (db : Database) (eventId : UUID) :
    (db.waitlist eventId).length = db.count eventId .waitlisted :=
  List.countP_eq_length_filter.symm

/-- Cancelling a confirmed registration does not touch the waitlist. -/
theorem waitlist_cancelRows (env : Env) (hdb : Table.KeyUnique Registration.id db.registrations)
    (hreg : reg ∈ db.registrations) (hconfirmed : reg.status = .confirmed) (eventId : UUID) :
    ({ db with registrations := cancelRows reg env db.registrations } : Database).waitlist eventId =
      db.waitlist eventId := by
  unfold Database.waitlist cancelRows Table.update
  dsimp only
  generalize hp : (fun r : Registration =>
    decide (r.eventId = eventId ∧ r.status = .waitlisted)) = p
  have hrow : ∀ r ∈ db.registrations, r.id = reg.id →
      p r = false ∧ p (r.cancel (env.now 1)) = false := by
    intro r hr hid
    have hsame : r = reg := hdb.eq_of_key hr hreg hid
    subst hsame hp
    simp [hconfirmed, Registration.cancel]
  generalize db.registrations = t at hrow
  induction t with
  | nil => rfl
  | cons r t ih =>
    have htail := ih (fun s hs => hrow s (by simp [hs]))
    by_cases hid : r.id = reg.id
    · obtain ⟨h1, h2⟩ := hrow r (by simp) hid
      simp [hid, h1, h2, htail]
    · simp [hid, List.filter_cons, htail]

theorem promotion_of_confirmed (env : Env) (hdb : Table.KeyUnique Registration.id db.registrations)
    (hreg : reg ∈ db.registrations) (hconfirmed : reg.status = .confirmed) :
    promotion db reg env = db.nextWaitlisted reg.eventId := by
  unfold promotion Database.nextWaitlisted
  rw [if_pos hconfirmed, waitlist_cancelRows env hdb hreg hconfirmed]

theorem promotion_some {env : Env} (hdb : Table.KeyUnique Registration.id db.registrations)
    (hreg : reg ∈ db.registrations) (h : promotion db reg env = some next) :
    reg.status = .confirmed ∧ next ∈ db.registrations ∧ next.eventId = reg.eventId ∧
      next.status = .waitlisted ∧ next.id ≠ reg.id := by
  have hconfirmed : reg.status = .confirmed := by
    unfold promotion at h
    split at h
    · assumption
    · cases h
  rw [promotion_of_confirmed env hdb hreg hconfirmed] at h
  obtain ⟨hmem, hevent, hstatus⟩ := mem_waitlist.mp (Table.first_mem _ h)
  refine ⟨hconfirmed, hmem, hevent, hstatus, ?_⟩
  intro hid
  have hsame : next = reg := hdb.eq_of_key hmem hreg hid
  rw [hsame, hconfirmed] at hstatus
  cases hstatus

theorem promotion_none {env : Env} (hdb : Table.KeyUnique Registration.id db.registrations)
    (hreg : reg ∈ db.registrations) (hconfirmed : reg.status = .confirmed)
    (h : promotion db reg env = none) : db.count reg.eventId .waitlisted = 0 := by
  rw [promotion_of_confirmed env hdb hreg hconfirmed] at h
  have hempty : db.waitlist reg.eventId = [] := (Table.first_eq_none _).mp h
  rw [← waitlist_length, hempty]
  rfl

theorem mem_cancelRows_of_ne (env : Env) (hmem : next ∈ t) (hid : next.id ≠ reg.id) :
    next ∈ cancelRows reg env t :=
  Table.mem_update.mpr (Or.inl ⟨hmem, hid⟩)

end Counts

section Refinement
variable {settings : Settings} {c : Call} {db db' : Database}

theorem event_lookup_id {id : UUID} {event : Event} (h : db.event? id = some event) :
    event.id = id := Table.lookup_key h

theorem event_update {eventId : UUID} {set : Event → Event} (hset : ∀ e, (set e).id = e.id)
    {id : UUID} {event : Event} (h : db.event? id = some event) :
    Table.lookup Event.id id (Table.update Event.id eventId set db.events) =
      some (if id = eventId then set event else event) := by
  have hl : Table.lookup Event.id id db.events = some event := h
  rw [Table.lookup_update hset, hl]
  rfl

inductive EventMove (settings : Settings) (id : UUID) : Call → Event → Event → Prop
  | kept (c : Call) (event : Event) : EventMove settings id c event event
  | publish {user : User} {env : Env} {event : Event} (draft : event.status = .draft) :
      EventMove settings id (.publishEvent user id env) event (event.publish (env.now 0))
  | update {user : User} {data : EventUpdateRequest} {env : Env} {event : Event}
      (accepted : updateAccepted settings user event data env = true) :
      EventMove settings id (.updateEvent user id data env) event (data.assign event)
  | cancel {user : User} {env : Env} {event : Event} (live : event.status ≠ .cancelled) :
      EventMove settings id (.cancelEvent user id env) event (event.cancel (env.now 1))

theorem EventMove.cancelled {id : UUID} {event event' : Event}
    (h : EventMove settings id c event event') (hc : event.status = .cancelled) :
    event'.status = .cancelled := by
  cases h with
  | kept => exact hc
  | publish draft => rw [hc] at draft; cases draft
  | update accepted => exact hc
  | cancel live => rfl

theorem Change.event_move (h : Change settings c db db') {id : UUID} {event : Event}
    (hevent : db.event? id = some event) :
    ∃ event', db'.event? id = some event' ∧ EventMove settings id c event event' := by
  have same : ∀ {e : Event}, db.event? id = some e → e = event := by
    intro e he
    exact Option.some.inj (he.symm.trans hevent)
  cases h with
  | refused => exact ⟨event, hevent, .kept _ _⟩
  | createEvent => exact ⟨event, Table.lookup_append_of_some hevent, .kept _ _⟩
  | publishEvent found owner draft =>
    refine ⟨_, event_update (by intro _; rfl) hevent, ?_⟩
    split_ifs with hid
    · subst hid
      exact .publish (same found ▸ draft)
    · exact .kept _ _
  | updateEvent found accepted =>
    refine ⟨_, event_update (by intro _; rfl) hevent, ?_⟩
    split_ifs with hid
    · subst hid
      exact .update (same found ▸ accepted)
    · exact .kept _ _
  | cancelEvent found owner live ahead fresh =>
    refine ⟨_, event_update (by intro _; rfl) hevent, ?_⟩
    split_ifs with hid
    · subst hid
      exact .cancel (same found ▸ live)
    · exact .kept _ _
  | registerStudent => exact ⟨event, hevent, .kept _ _⟩
  | cancelRegistration => exact ⟨event, hevent, .kept _ _⟩

theorem cancelledDatabase_ledger (hdb : Table.KeyUnique Registration.id db.registrations)
    {student : User} {reg : Registration} {event : Event} {env : Env} (hreg : reg ∈ db.registrations)
    (hactive : reg.status ≠ .cancelled) (e : Event) :
    Ledger.Step (db.ledger e) ((cancelledDatabase student event reg env db).ledger e) := by
  have hc := countP_cancelRows env hdb hreg e.id .confirmed (by decide)
  have hw := countP_cancelRows env hdb hreg e.id .waitlisted (by decide)
  have hrows : (cancelledDatabase student event reg env db).registrations =
      promoteRows (promotion db reg env) (cancelRows reg env db.registrations) := rfl
  unfold Database.ledger
  rw [count_def, count_def, count_def, count_def, hrows]
  cases hnext : promotion db reg env with
  | none =>
    simp only [promoteRows]
    by_cases he : reg.eventId = e.id
    · cases hs : reg.status with
      | cancelled => exact absurd hs hactive
      | confirmed =>
        have hzero := promotion_none hdb hreg hs hnext
        rw [he, count_def] at hzero
        simp only [isFor, he, hs, and_self, decide_true, if_true, reduceCtorEq, and_false,
          decide_false, Bool.false_eq_true, if_false] at hc hw hzero ⊢
        have hzero' : (cancelRows reg env db.registrations).countP (isFor e.id .waitlisted) = 0 := by
          omega
        rw [← hc, hzero, hzero']
        exact .release _ _
      | waitlisted =>
        simp only [isFor, he, hs, and_self, decide_true, if_true, reduceCtorEq, and_false,
          decide_false, Bool.false_eq_true, if_false, Nat.add_zero] at hc hw ⊢
        rw [← hc, ← hw]
        exact .shorten _ _ _
    · simp only [isFor, he, false_and, decide_false, Bool.false_eq_true, if_false,
        Nat.add_zero] at hc hw ⊢
      rw [hc, hw]
      exact .stay _
  | some next =>
    obtain ⟨hs, hmem, hevent, hstatus, hid⟩ := promotion_some hdb hreg hnext
    have hu := cancelRows_unique reg env hdb
    have hmem' := mem_cancelRows_of_ne env hmem hid
    have hc' := countP_promoteRows hu hmem' e.id .confirmed
    have hw' := countP_promoteRows hu hmem' e.id .waitlisted
    by_cases he : reg.eventId = e.id
    · simp only [isFor, he, hs, hevent, hstatus, Registration.confirm, and_self, decide_true,
        if_true, reduceCtorEq, and_false, decide_false, Bool.false_eq_true, if_false,
        Nat.add_zero] at hc hw hc' hw' ⊢
      rw [hc', hc, ← hw, ← hw']
      exact .shorten _ _ _
    · simp only [isFor, he, hevent, Registration.confirm, false_and, decide_false,
        Bool.false_eq_true, if_false, Nat.add_zero] at hc hw hc' hw' ⊢
      rw [hc', hw', hc, hw]
      exact .stay _

theorem register_ledger {event : Event} {eventId : UUID} {status : RegistrationStatus}
    {eventType : EventType} {position : Option ℕ} {reg : Registration}
    (hreg : reg.eventId = eventId) (hstatus : reg.status = status)
    (hfound : db.event? eventId = some event)
    (hseat : seatOutcome db event eventId = (status, eventType, position)) (e : Event)
    (he : db.event? e.id = some e) (jobs : List NotificationJob) :
    Ledger.Step (db.ledger e)
      (({ db with
        registrations := db.registrations ++ [reg]
        notificationJobs := jobs } : Database).ledger e) := by
  unfold Database.ledger
  rw [count_def, count_def, count_def, count_def]
  simp only [List.countP_append, List.countP_singleton]
  by_cases hid : eventId = e.id
  · have hsame : event = e := by
      rw [hid, he] at hfound
      exact (Option.some.inj hfound).symm
    subst hsame
    unfold seatOutcome at hseat
    rw [hid, count_def, count_def] at hseat
    split_ifs at hseat with hfree
    · simp only [Prod.mk.injEq] at hseat
      rw [← hseat.1] at hstatus
      simp only [isFor, hreg, hid, hstatus, and_self, decide_true, if_true, reduceCtorEq, and_false,
        decide_false, Bool.false_eq_true, if_false, Nat.add_zero]
      exact .seat _ hfree
    · simp only [Prod.mk.injEq] at hseat
      rw [← hseat.1] at hstatus
      simp only [isFor, hreg, hid, hstatus, and_self, decide_true, if_true, reduceCtorEq, and_false,
        decide_false, Bool.false_eq_true, if_false, Nat.add_zero]
      exact .queue _ (Nat.le_of_not_lt hfree)
  · simp only [isFor, hreg, hid, false_and, decide_false, Bool.false_eq_true, if_false, Nat.add_zero]
    exact .stay _

/-- The refinement: a call moves the ledger of every event by one ledger step. -/
theorem Change.ledger (h : Change settings c db db') (hwf : Wf db) {id : UUID} {event : Event}
    (hevent : db.event? id = some event) :
    ∃ event', db'.event? id = some event' ∧ Ledger.Step (db.ledger event) (db'.ledger event') := by
  have hid := event_lookup_id hevent
  cases h with
  | refused => exact ⟨event, hevent, .stay _⟩
  | createEvent fresh => exact ⟨event, Table.lookup_append_of_some hevent, .stay _⟩
  | publishEvent found owner draft =>
    refine ⟨_, event_update (by intro _; rfl) hevent, ?_⟩
    split_ifs <;> exact .stay _
  | @updateEvent _ _ data _ _ _ found accepted =>
    refine ⟨_, event_update (by intro _; rfl) hevent, ?_⟩
    split_ifs
    · exact .resize (db.ledger event) (data.assign event).capacity
    · exact .stay _
  | cancelEvent found owner live ahead fresh =>
    refine ⟨_, event_update (by intro _; rfl) hevent, ?_⟩
    split_ifs <;> exact .stay _
  | @registerStudent student eventId env _ _ status _ _ found published seat unregistered fresh =>
    refine ⟨event, hevent, ?_⟩
    refine register_ledger ?_ ?_ found seat event (hid ▸ hevent) _
    · rfl
    · rfl
  | cancelRegistration found owner active foundEvent ahead fresh =>
    exact ⟨event, hevent, cancelledDatabase_ledger hwf.registrations (registration_mem found) active
      event⟩

theorem Change.event_found (h : Change settings c db db') {id : UUID}
    (hfound : (db.event? id).isSome) : (db'.event? id).isSome := by
  obtain ⟨event, hevent⟩ := Option.isSome_iff_exists.mp hfound
  obtain ⟨event', hevent', _⟩ := h.event_move hevent
  exact Option.isSome_iff_exists.mpr ⟨event', hevent'⟩

theorem promoteRows_unique {next? : Option Registration} {t : List Registration}
    (h : Table.KeyUnique Registration.id t) :
    Table.KeyUnique Registration.id (promoteRows next? t) := by
  cases next? with
  | none => exact h
  | some next => exact Table.keyUnique_update h (fun _ => rfl)

/-- The columns of a registration that no service ever changes. -/
def Registration.identity (r : Registration) : UUID × UUID × UUID := (r.id, r.eventId, r.studentId)

theorem cancelledRows_identity (reg : Registration) (next? : Option Registration) (env : Env)
    (t : List Registration) :
    (promoteRows next? (cancelRows reg env t)).map Registration.identity =
      t.map Registration.identity := by
  have hcancel : (cancelRows reg env t).map Registration.identity = t.map Registration.identity := by
    unfold cancelRows
    rw [Table.map_update]
    intro r
    rfl
  cases next? with
  | none => exact hcancel
  | some next =>
    unfold promoteRows
    rw [Table.map_update, hcancel]
    intro r
    rfl

theorem mem_cancelledRows {reg r : Registration} {next? : Option Registration} {env : Env}
    {t : List Registration} (h : r ∈ promoteRows next? (cancelRows reg env t)) :
    ∃ r₀ ∈ t, r₀.identity = r.identity := by
  have hmem := List.mem_map_of_mem (f := Registration.identity) h
  rw [cancelledRows_identity] at hmem
  exact List.mem_map.mp hmem

theorem cancelledRows_mem (reg : Registration) (next? : Option Registration) (env : Env)
    {r : Registration} {t : List Registration} (h : r ∈ t) :
    ∃ r' ∈ promoteRows next? (cancelRows reg env t), r'.identity = r.identity := by
  have hmem := List.mem_map_of_mem (f := Registration.identity) h
  rw [← cancelledRows_identity reg next? env t] at hmem
  exact List.mem_map.mp hmem

theorem Registration.identity_eq {r s : Registration} (h : r.identity = s.identity) :
    r.id = s.id ∧ r.eventId = s.eventId ∧ r.studentId = s.studentId := by
  simpa [Registration.identity] using h

/-- A cancellation changes its own row, the row it promotes, and no other. -/
theorem mem_cancelledDatabase (hdb : Table.KeyUnique Registration.id db.registrations)
    {student : User} {event : Event} {reg r : Registration} {env : Env}
    (hreg : reg ∈ db.registrations)
    (h : r ∈ (cancelledDatabase student event reg env db).registrations) :
    r = reg.cancel (env.now 1) ∨ (∃ next, promotion db reg env = some next ∧ r = next.confirm) ∨
      (r ∈ db.registrations ∧ r.id ≠ reg.id ∧
        ∀ next, promotion db reg env = some next → r.id ≠ next.id) := by
  have hcancel : ∀ r ∈ cancelRows reg env db.registrations, r = reg.cancel (env.now 1) ∨
      (r ∈ db.registrations ∧ r.id ≠ reg.id) := by
    intro r hr
    rcases Table.mem_update.mp hr with hold | ⟨r₀, hmem, hid, rfl⟩
    · exact Or.inr hold
    · exact Or.inl (by rw [hdb.eq_of_key hmem hreg hid])
  have hrows : r ∈ promoteRows (promotion db reg env) (cancelRows reg env db.registrations) := h
  cases hnext : promotion db reg env with
  | none =>
    rw [hnext] at hrows
    rcases hcancel r hrows with hc | ⟨hmem, hid⟩
    · exact Or.inl hc
    · exact Or.inr (Or.inr ⟨hmem, hid, by simp⟩)
  | some next =>
    rw [hnext] at hrows
    obtain ⟨_, hmem, _, _, hne⟩ := promotion_some hdb hreg hnext
    rcases Table.mem_update.mp hrows with ⟨hr, hid⟩ | ⟨r₀, hr, hid, rfl⟩
    · rcases hcancel r hr with hc | ⟨hold, hreg'⟩
      · exact Or.inl hc
      · exact Or.inr (Or.inr ⟨hold, hreg', by simpa using hid⟩)
    · have hsame : r₀ = next :=
        (cancelRows_unique reg env hdb).eq_of_key hr (mem_cancelRows_of_ne env hmem hne) hid
      exact Or.inr (Or.inl ⟨next, rfl, by rw [hsame]⟩)

theorem registration_fresh {reg : Registration} (h : registrationViolation db reg = none) :
    ∀ r ∈ db.registrations, r.id ≠ reg.id := by
  unfold registrationViolation at h
  split_ifs at h with hfound
  exact Table.lookup_eq_none.mp (Option.not_isSome_iff_eq_none.mp hfound)

theorem Change.wf (h : Change settings c db db') (hwf : Wf db) : Wf db' := by
  have hfound : ∀ id, (db.event? id).isSome → (db'.event? id).isSome := fun _ => h.event_found
  cases h with
  | refused => exact hwf
  | createEvent => exact ⟨hwf.registrations, fun r hr => hfound _ (hwf.eventOf r hr)⟩
  | publishEvent => exact ⟨hwf.registrations, fun r hr => hfound _ (hwf.eventOf r hr)⟩
  | updateEvent => exact ⟨hwf.registrations, fun r hr => hfound _ (hwf.eventOf r hr)⟩
  | cancelEvent => exact ⟨hwf.registrations, fun r hr => hfound _ (hwf.eventOf r hr)⟩
  | @registerStudent student eventId env _ event status _ _ found published seat unregistered fresh =>
    refine ⟨Table.keyUnique_insert hwf.registrations ?_, ?_⟩
    · exact registration_fresh unregistered
    · intro r hr
      rcases List.mem_append.mp hr with hold | hnew
      · exact hfound _ (hwf.eventOf r hold)
      · rw [List.mem_singleton.mp hnew]
        exact hfound _ (Option.isSome_iff_exists.mpr ⟨event, found⟩)
  | cancelRegistration =>
    refine ⟨promoteRows_unique (cancelRows_unique _ _ hwf.registrations), ?_⟩
    intro r hr
    obtain ⟨r₀, hmem, hsame⟩ := mem_cancelledRows hr
    rw [← (Registration.identity_eq hsame).2.1]
    exact hfound _ (hwf.eventOf r₀ hmem)

theorem Change.events_unique (h : Change settings c db db')
    (hdb : Table.KeyUnique Event.id db.events) : Table.KeyUnique Event.id db'.events := by
  cases h with
  | createEvent fresh =>
    apply Table.keyUnique_insert hdb
    unfold eventViolation at fresh
    split_ifs at fresh with hfound
    rw [Option.not_isSome_iff_eq_none] at hfound
    exact Table.lookup_eq_none.mp hfound
  | publishEvent => exact Table.keyUnique_update hdb fun _ => rfl
  | updateEvent => exact Table.keyUnique_update hdb fun _ => rfl
  | cancelEvent => exact Table.keyUnique_update hdb fun _ => rfl
  | _ => exact hdb

theorem Change.new_ledger (h : Change settings c db db') (hwf : Wf db) {id : UUID} {event' : Event}
    (hnone : db.event? id = none) (hsome : db'.event? id = some event') :
    (db'.ledger event').confirmed = 0 ∧ (db'.ledger event').waiting = 0 := by
  have hempty : ∀ status, db'.count event'.id status = 0 := by
    have hid := event_lookup_id hsome
    have habsent : ∀ r ∈ db.registrations, r.eventId ≠ id := by
      intro r hr hr'
      have hfound := hwf.eventOf r hr
      rw [hr', hnone] at hfound
      cases hfound
    have hzero : ∀ t : List Registration, (∀ r ∈ t, r.eventId ≠ id) → ∀ status,
        t.countP (isFor id status) = 0 := by
      intro t ht status
      rw [List.countP_eq_zero]
      intro r hr
      simp [isFor, ht r hr]
    intro status
    rw [hid, count_def]
    refine hzero _ ?_ status
    cases h with
    | refused => exact habsent
    | createEvent => exact habsent
    | publishEvent => exact habsent
    | updateEvent => exact habsent
    | cancelEvent => exact habsent
    | @registerStudent student eventId env _ event status _ _ found =>
      intro r hr
      rcases List.mem_append.mp hr with hold | hnew
      · exact habsent r hold
      · rw [List.mem_singleton.mp hnew]
        rintro rfl
        have hfound : db.event? eventId = some event := found
        change db.event? eventId = none at hnone
        rw [hnone] at hfound
        cases hfound
    | cancelRegistration =>
      intro r hr
      obtain ⟨r₀, hmem, hsame⟩ := mem_cancelledRows hr
      rw [← (Registration.identity_eq hsame).2.1]
      exact habsent r₀ hmem
  exact ⟨hempty _, hempty _⟩

end Refinement
end Hefest
