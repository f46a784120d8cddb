import Hefest.Lib.Components
import Hefest.Requests
import Hefest.SeatRuns

set_option autoImplicit false

namespace Hefest
open Transition

def Endpoint.edits (eventId : UUID) : Endpoint → Prop
  | .updateEvent id _ | .publishEvent id | .cancelEvent id => id = eventId
  | _ => False

def EditsOwn (db : Database) (c : ApiCall) (event : Event) : Prop :=
  ∃ endpoint env user, c = .service event.organizerId endpoint env ∧ endpoint.edits event.id ∧
    db.user? event.organizerId = some user ∧ user.role = .organizer

def CancelsOwn (c : ApiCall) (r : Registration) : Prop :=
  r.status ≠ .cancelled ∧ ∃ env, c = .service r.studentId (.cancelRegistration r.id) env

/-- A request by which a student gives up a confirmed seat of the event, for whose first waiting
    student it becomes free. -/
def FreesSeatFor (db : Database) (c : ApiCall) (r : Registration) : Prop :=
  db.nextWaitlisted r.eventId = some r ∧ ∃ seat env, seat ∈ db.registrations ∧
    seat.status = .confirmed ∧ seat.eventId = r.eventId ∧
    c = .service seat.studentId (.cancelRegistration seat.id) env

inductive SeatMove (db : Database) (c : ApiCall) (r : Registration) : Registration → Prop
  | stays : SeatMove db c r r
  | cancelled (now : Time) (own : CancelsOwn c r) : SeatMove db c r (r.cancel now)
  | promoted (frees : FreesSeatFor db c r) : SeatMove db c r r.confirm

section Step
variable {settings : Settings} {accounts : AccountLib} {db db' : Database} {c : ApiCall}

theorem user?_id {id : UUID} {user : User} (h : db.user? id = some user) : user.id = id :=
  Table.lookup_key h

theorem event?_of_events (h : db'.events = db.events) (id : UUID) :
    db'.event? id = db.event? id := by
  unfold Database.event?
  rw [h]

/-- An edit of one row by the caller who owns it. -/
theorem edit_custody {userId eventId id : UUID} {endpoint : Endpoint} {env : Env} {user : User}
    {set : Event → Event} {stored e : Event} (hset : ∀ x, (set x).id = x.id)
    (hcolumns : ∀ x, (set x).organizerId = x.organizerId ∧ (set x).createdAt = x.createdAt)
    (hedits : endpoint.edits eventId) (hrole : endpoint.role = .organizer)
    (found : db.user? userId = some user) (role : user.role = endpoint.role)
    (stored? : db.event? eventId = some stored) (owner : stored.organizerId = user.id)
    (he : db.event? id = some e) :
    ∃ e', Table.lookup Event.id id (Table.update Event.id eventId set db.events) = some e' ∧
      e'.organizerId = e.organizerId ∧ e'.createdAt = e.createdAt ∧
      (e' = e ∨ EditsOwn db (.service userId endpoint env) e) := by
  refine ⟨_, event_update hset he, ?_⟩
  by_cases hid : id = eventId
  · subst hid
    obtain rfl := Option.some.inj (stored?.symm.trans he)
    rw [if_pos rfl]
    have howner : stored.organizerId = userId := owner.trans (user?_id found)
    refine ⟨(hcolumns stored).1, (hcolumns stored).2, .inr ⟨endpoint, env, user, ?_, ?_, ?_, ?_⟩⟩
    · rw [howner]
    · rw [event_lookup_id he]
      exact hedits
    · rw [howner]
      exact found
    · exact role.trans hrole
  · rw [if_neg hid]
    exact ⟨rfl, rfl, .inl rfl⟩

theorem ApiChange.keeps_event (h : ApiChange settings accounts db c db') {id : UUID} {e : Event}
    (he : db.event? id = some e) :
    ∃ e', db'.event? id = some e' ∧ e'.organizerId = e.organizerId ∧ e'.createdAt = e.createdAt ∧
      (e' = e ∨ EditsOwn db c e) := by
  have hkept : ∀ {c : ApiCall} {y : Database}, y.events = db.events → ∃ e', y.event? id = some e' ∧
      e'.organizerId = e.organizerId ∧ e'.createdAt = e.createdAt ∧ (e' = e ∨ EditsOwn db c e) := by
    intro c y hy
    exact ⟨e, (event?_of_events hy id).trans he, rfl, rfl, .inl rfl⟩
  cases h with
  | accounts only => exact hkept only.events
  | registers => exact hkept rfl
  | @service userId endpoint env user _ found role change =>
    cases endpoint with
    | createEvent body =>
      cases change with
      | refused => exact hkept rfl
      | createEvent fresh => exact ⟨e, Table.lookup_append_of_some he, rfl, rfl, .inl rfl⟩
    | updateEvent eventId body =>
      cases change with
      | refused => exact hkept rfl
      | updateEvent stored? accepted =>
        have howner := accepted
        simp only [updateAccepted, Bool.and_eq_true, beq_iff_eq] at howner
        exact edit_custody (fun _ => rfl) (fun _ => ⟨rfl, rfl⟩) rfl rfl found role stored?
          howner.1.1.1 he
    | publishEvent eventId =>
      cases change with
      | refused => exact hkept rfl
      | publishEvent stored? owner _ =>
        exact edit_custody (fun _ => rfl) (fun _ => ⟨rfl, rfl⟩) rfl rfl found role stored? owner he
    | cancelEvent eventId =>
      cases change with
      | refused => exact hkept rfl
      | cancelEvent stored? owner _ _ _ =>
        exact edit_custody (fun _ => rfl) (fun _ => ⟨rfl, rfl⟩) rfl rfl found role stored? owner he
    | registerForEvent eventId =>
      cases change with
      | refused => exact hkept rfl
      | registerStudent => exact hkept rfl
    | cancelRegistration regId =>
      cases change with
      | refused => exact hkept rfl
      | cancelRegistration => exact hkept rfl

end Step

section Seats
variable {settings : Settings} {accounts : AccountLib} {db db' : Database} {c : ApiCall}
  {r : Registration}

theorem cancel_seatMove {student : User} {userId regId : UUID} {env env' : Env} {event : Event}
    {reg : Registration} (hwf : Wf db) (hstudent : student.id = userId)
    (found : db.registration? regId = some reg) (owner : reg.studentId = student.id)
    (active : reg.status ≠ .cancelled) (hr : r ∈ db.registrations) :
    ∃ r' ∈ (cancelledDatabase student event reg env db).registrations,
      SeatMove db (.service userId (.cancelRegistration regId) env') r r' := by
  have hreg : reg ∈ db.registrations := registration_mem found
  have hid : reg.id = regId := Table.lookup_key found
  obtain ⟨r', hr', hsame⟩ := cancelledRows_mem reg (promotion db reg env) env hr
  refine ⟨r', hr', ?_⟩
  have hsameId : r'.id = r.id := (Registration.identity_eq hsame).1
  have hrow : r' ∈ (cancelledDatabase student event reg env db).registrations := hr'
  rcases mem_cancelledDatabase hwf.registrations hreg hrow with
    rfl | ⟨next, hnext, rfl⟩ | ⟨hold, _, _⟩
  · obtain rfl : reg = r := hwf.registrations.eq_of_key hreg hr hsameId
    refine .cancelled _ ⟨active, env', ?_⟩
    rw [← hstudent, ← owner, ← hid]
  · obtain ⟨hconfirmed, hmem, hevent, _, _⟩ := promotion_some hwf.registrations hreg hnext
    obtain rfl : next = r := hwf.registrations.eq_of_key hmem hr hsameId
    rw [promotion_of_confirmed env hwf.registrations hreg hconfirmed] at hnext
    refine .promoted ⟨?_, reg, env', hreg, hconfirmed, hevent.symm, ?_⟩
    · rw [hevent]
      exact hnext
    · rw [← hstudent, ← owner, hid]
  · rw [hwf.registrations.eq_of_key hold hr hsameId]
    exact .stays

theorem ApiChange.seat_move (h : ApiChange settings accounts db c db') (hwf : Wf db)
    (hr : r ∈ db.registrations) : ∃ r' ∈ db'.registrations, SeatMove db c r r' := by
  have hkept : ∀ {c : ApiCall} {y : Database}, y.registrations = db.registrations →
      ∃ r' ∈ y.registrations, SeatMove db c r r' := by
    intro c y hy
    exact ⟨r, hy ▸ hr, .stays⟩
  cases h with
  | accounts only => exact hkept only.registrations
  | registers => exact hkept rfl
  | @service userId endpoint env user _ found role change =>
    cases endpoint with
    | createEvent body => cases change <;> exact hkept rfl
    | updateEvent eventId body => cases change <;> exact hkept rfl
    | publishEvent eventId => cases change <;> exact hkept rfl
    | cancelEvent eventId => cases change <;> exact hkept rfl
    | registerForEvent eventId =>
      cases change with
      | refused => exact hkept rfl
      | registerStudent => exact ⟨r, List.mem_append_left _ hr, .stays⟩
    | cancelRegistration regId =>
      cases change with
      | refused => exact hkept rfl
      | cancelRegistration stored owner active _ _ _ =>
        exact cancel_seatMove hwf (user?_id found) stored owner active hr

theorem ApiChange.new_seat (h : ApiChange settings accounts db c db')
    (hr : r ∈ db'.registrations) :
    (∃ r₀ ∈ db.registrations, r₀.identity = r.identity) ∨
      ∃ env user, c = .service r.studentId (.registerForEvent r.eventId) env ∧
        db.user? r.studentId = some user ∧ user.role = .student := by
  cases h with
  | accounts only => exact .inl ⟨r, only.registrations ▸ hr, rfl⟩
  | registers => exact .inl ⟨r, hr, rfl⟩
  | @service userId endpoint env user _ found role change =>
    cases endpoint with
    | createEvent body => cases change <;> exact .inl ⟨r, hr, rfl⟩
    | updateEvent eventId body => cases change <;> exact .inl ⟨r, hr, rfl⟩
    | publishEvent eventId => cases change <;> exact .inl ⟨r, hr, rfl⟩
    | cancelEvent eventId => cases change <;> exact .inl ⟨r, hr, rfl⟩
    | registerForEvent eventId =>
      cases change with
      | refused => exact .inl ⟨r, hr, rfl⟩
      | registerStudent =>
        rcases List.mem_append.mp hr with hold | hnew
        · exact .inl ⟨r, hold, rfl⟩
        · right
          obtain rfl := List.mem_singleton.mp hnew
          have hid : user.id = userId := user?_id found
          refine ⟨env, user, ?_, ?_, role⟩
          · simp [newRegistration, hid]
          · simpa [newRegistration, hid] using found
    | cancelRegistration regId =>
      cases change with
      | refused => exact .inl ⟨r, hr, rfl⟩
      | cancelRegistration => exact .inl (mem_cancelledRows hr)

theorem ApiChange.wf (h : ApiChange settings accounts db c db') (hwf : Wf db) : Wf db' := by
  have hkept : ∀ {y : Database}, y.registrations = db.registrations → y.events = db.events →
      Wf y := by
    intro y hregs hevents
    refine ⟨by rw [hregs]; exact hwf.registrations, ?_⟩
    intro r hr
    rw [event?_of_events hevents]
    exact hwf.eventOf r (hregs ▸ hr)
  cases h with
  | accounts only => exact hkept only.registrations only.events
  | registers => exact hkept rfl rfl
  | service _ _ change => exact change.wf hwf

theorem SeatMove.identity {r' : Registration} (h : SeatMove db c r r') :
    r'.identity = r.identity ∧ r'.registeredAt = r.registeredAt := by
  cases h <;> exact ⟨rfl, rfl⟩

end Seats

section Runs
variable (settings : Settings) (accounts : AccountLib) (lib : TokenLib) (db₀ : Database)
  (calls : List ApiCall)

def databaseAt (n : ℕ) : Database := after (handle settings accounts lib) db₀ (calls.take n)

variable {settings accounts lib db₀ calls}

theorem databaseAt_wf (h₀ : Wf db₀) (n : ℕ) : Wf (databaseAt settings accounts lib db₀ calls n) :=
  after_invariant (handle settings accounts lib) Wf (fun _ => True)
    (fun c db _ h => (handle_change settings accounts lib c db).wf h) _ _ h₀ (fun _ _ => trivial)

/-- An event never goes away and never changes its organizer, and as long as its organizer does not
    edit it, every column stays as it is, whatever anybody requests. -/
theorem event_custody (settings : Settings) (accounts : AccountLib) (lib : TokenLib)
    (db₀ : Database) (calls : List ApiCall) {n m : ℕ} (hnm : n ≤ m) {id : UUID} {e : Event}
    (he : (databaseAt settings accounts lib db₀ calls n).event? id = some e) :
    ∃ e', (databaseAt settings accounts lib db₀ calls m).event? id = some e' ∧
      e'.organizerId = e.organizerId ∧ e'.createdAt = e.createdAt ∧
      (e' = e ∨ ∃ k c, n ≤ k ∧ k < m ∧ calls[k]? = some c ∧
        EditsOwn (databaseAt settings accounts lib db₀ calls k) c e) := by
  have hstored : ∃ e', (databaseAt settings accounts lib db₀ calls m).event? id = some e' ∧
      e'.organizerId = e.organizerId ∧ e'.createdAt = e.createdAt := by
    apply take_stable (handle settings accounts lib)
      (fun db => ∃ e', db.event? id = some e' ∧ e'.organizerId = e.organizerId ∧
        e'.createdAt = e.createdAt) ?_ db₀ calls hnm ⟨e, he, rfl, rfl⟩
    rintro c db ⟨e', hfound, howner, hcreated⟩
    obtain ⟨e'', hfound', howner', hcreated', _⟩ :=
      (handle_change settings accounts lib c db).keeps_event hfound
    exact ⟨e'', hfound', howner'.trans howner, hcreated'.trans hcreated⟩
  obtain ⟨e', hfound, howner, hcreated⟩ := hstored
  refine ⟨e', hfound, howner, hcreated, ?_⟩
  by_cases hsame : e' = e
  · exact .inl hsame
  · right
    have hleft : ¬ (databaseAt settings accounts lib db₀ calls m).event? id = some e := by
      rw [hfound]
      intro heq
      exact hsame (Option.some.inj heq)
    obtain ⟨k, c, hk, hkm, hc, hbefore, hafter⟩ := exists_leave (handle settings accounts lib)
      (fun db => db.event? id = some e) db₀ calls hnm he hleft
    obtain ⟨e'', hfound'', _, _, hedit⟩ := (handle_change settings accounts lib c
      (databaseAt settings accounts lib db₀ calls k)).keeps_event hbefore
    rcases hedit with rfl | hedit
    · exact absurd hfound'' hafter
    · exact ⟨k, c, hk, hkm, hc, hedit⟩

/-- A registration stays as it is until its own student cancels it, or until it is promoted: at a
    request by which a student gives up a confirmed seat of the event, and as the first to wait. It
    is there because its student asked for it, and it never goes away. -/
theorem seat_custody (settings : Settings) (accounts : AccountLib) (lib : TokenLib) (db₀ : Database)
    (h₀ : Wf db₀) (calls : List ApiCall) (n m : ℕ) (hnm : n ≤ m) (r : Registration)
    (hr : r ∈ (databaseAt settings accounts lib db₀ calls n).registrations) :
    (∃ r' ∈ (databaseAt settings accounts lib db₀ calls m).registrations,
      r'.identity = r.identity ∧ r'.registeredAt = r.registeredAt) ∧
    (r ∈ (databaseAt settings accounts lib db₀ calls m).registrations ∨
      ∃ k c, n ≤ k ∧ k < m ∧ calls[k]? = some c ∧
        (CancelsOwn c r ∨ FreesSeatFor (databaseAt settings accounts lib db₀ calls k) c r)) ∧
    ((∃ r₀ ∈ db₀.registrations, r₀.identity = r.identity) ∨
      ∃ k env user, k < n ∧
        calls[k]? = some (.service r.studentId (.registerForEvent r.eventId) env) ∧
        (databaseAt settings accounts lib db₀ calls k).user? r.studentId = some user ∧
        user.role = .student) := by
  refine ⟨?_, ?_, ?_⟩
  · have hrun : Wf (databaseAt settings accounts lib db₀ calls m) ∧
        ∃ r' ∈ (databaseAt settings accounts lib db₀ calls m).registrations,
          r'.identity = r.identity ∧ r'.registeredAt = r.registeredAt := by
      apply take_stable (handle settings accounts lib)
        (fun db => Wf db ∧ ∃ r' ∈ db.registrations, r'.identity = r.identity ∧
          r'.registeredAt = r.registeredAt) ?_ db₀ calls hnm
        ⟨databaseAt_wf h₀ n, r, hr, rfl, rfl⟩
      rintro c db ⟨hwf, r', hr', hidentity, hstamp⟩
      have hchange := handle_change settings accounts lib c db
      obtain ⟨r'', hr'', hmove⟩ := hchange.seat_move hwf hr'
      exact ⟨hchange.wf hwf, r'', hr'', hmove.identity.1.trans hidentity,
        hmove.identity.2.trans hstamp⟩
    exact hrun.2
  · by_cases hstays : r ∈ (databaseAt settings accounts lib db₀ calls m).registrations
    · exact .inl hstays
    · right
      obtain ⟨k, c, hk, hkm, hc, hbefore, hafter⟩ := exists_leave (handle settings accounts lib)
        (fun db => r ∈ db.registrations) db₀ calls hnm hr hstays
      obtain ⟨r', hr', hmove⟩ := (handle_change settings accounts lib c
        (databaseAt settings accounts lib db₀ calls k)).seat_move (databaseAt_wf h₀ k) hbefore
      refine ⟨k, c, hk, hkm, hc, ?_⟩
      cases hmove with
      | stays => exact absurd hr' hafter
      | cancelled now own => exact .inl own
      | promoted frees => exact .inr frees
  · by_cases hold : ∃ r₀ ∈ db₀.registrations, r₀.identity = r.identity
    · exact .inl hold
    · right
      have hnow : ¬ ¬ ∃ r₀ ∈ (databaseAt settings accounts lib db₀ calls n).registrations,
          r₀.identity = r.identity := not_not.mpr ⟨r, hr, rfl⟩
      obtain ⟨k, c, _, hkn, hc, hbefore, hafter⟩ := exists_leave (handle settings accounts lib)
        (fun db => ¬ ∃ r₀ ∈ db.registrations, r₀.identity = r.identity) db₀ calls
        (Nat.zero_le n) hold hnow
      obtain ⟨r₁, hr₁, hsame⟩ := not_not.mp hafter
      obtain ⟨_, hevent, hstudent⟩ := Registration.identity_eq hsame
      rcases (handle_change settings accounts lib c
          (databaseAt settings accounts lib db₀ calls k)).new_seat hr₁ with
        ⟨r₀, hr₀, hsame₀⟩ | ⟨env, user, hcall, huser, hrole⟩
      · exact absurd ⟨r₀, hr₀, hsame₀.trans hsame⟩ hbefore
      · rw [hstudent] at hcall huser
        rw [hevent] at hcall
        exact ⟨k, env, user, hkn, hcall ▸ hc, huser, hrole⟩

end Runs

section SeatHandedOn

def school : Database := { users := [organizer, alice, bob] }

def seatHandedOn : List ApiCall :=
  [.service 1 (.createEvent oneSeat) (envAt 0 100), .service 1 (.publishEvent 100) (envAt 1 200),
    .service 2 (.registerForEvent 100) (envAt 2 300),
    .service 3 (.registerForEvent 100) (envAt 3 400), .service 3 (.publishEvent 100) (envAt 4 500),
    .service 2 (.cancelRegistration 300) (envAt 5 600)]

def seatHandedOnAt (n : ℕ) : Database := databaseAt {} plainAccounts plainLib school seatHandedOn n

theorem event_custody_published :
    ∃ e e', (seatHandedOnAt 1).event? 100 = some e ∧ (seatHandedOnAt 6).event? 100 = some e' ∧
      e.status = .draft ∧ e'.status = .published ∧ e'.organizerId = e.organizerId ∧
      ∃ k c, 1 ≤ k ∧ k < 6 ∧ seatHandedOn[k]? = some c ∧ EditsOwn (seatHandedOnAt k) c e := by
  have hdraft : ((seatHandedOnAt 1).event? 100).map Event.status = some .draft := by decide +kernel
  have hpublished : ((seatHandedOnAt 6).event? 100).map Event.status = some .published := by
    decide +kernel
  obtain ⟨e, he, hstatus⟩ := Option.map_eq_some_iff.mp hdraft
  obtain ⟨e', he', howner, _, hedit⟩ := event_custody {} plainAccounts plainLib school seatHandedOn
    (n := 1) (m := 6) (by decide) he
  have hstatus' : e'.status = .published := by
    have hfound : (seatHandedOnAt 6).event? 100 = some e' := he'
    rw [hfound] at hpublished
    exact Option.some.inj hpublished
  refine ⟨e, e', he, he', hstatus, hstatus', howner, ?_⟩
  rcases hedit with rfl | hedit
  · rw [hstatus] at hstatus'
    cases hstatus'
  · exact hedit

theorem school_wf : Wf school where
  registrations := List.nodup_nil
  eventOf := by simp [school]

theorem seat_custody_promoted :
    ∃ r ∈ (seatHandedOnAt 4).registrations, r.studentId = 3 ∧ r.status = .waitlisted ∧
      r ∉ (seatHandedOnAt 6).registrations ∧
      ∃ k c, 4 ≤ k ∧ k < 6 ∧ seatHandedOn[k]? = some c ∧
        (CancelsOwn c r ∨ FreesSeatFor (seatHandedOnAt k) c r) := by
  let r : Registration := newRegistration bob 100 .waitlisted (envAt 3 400)
  have hr : r ∈ (seatHandedOnAt 4).registrations := by decide +kernel
  have hgone : r ∉ (seatHandedOnAt 6).registrations := by decide +kernel
  refine ⟨r, hr, rfl, rfl, hgone, ?_⟩
  have hmoved :=
    (seat_custody {} plainAccounts plainLib school school_wf seatHandedOn 4 6 (by decide) r hr).2.1
  exact hmoved.resolve_left hgone

end SeatHandedOn
end Hefest
