import Hefest.CancelledEvents
import Hefest.Waitlist

set_option autoImplicit false

namespace Hefest
open Transition

def Database.announcements (db : Database) (id : UUID) : List NotificationJob :=
  db.notificationJobs.filter fun j => j.eventType = .eventCancelled ∧ j.payload.registrationId = some id

def Announced (db : Database) (id : UUID) : Prop := .eventCancelled ∈ logOf db.notificationJobs id

/-- Between the two states the event is cancelled, while the registration is confirmed or
    waitlisted. -/
def CancelledWhileActive (db db' : Database) (eventId id : UUID) : Prop :=
  ¬ EventCancelled eventId db ∧ EventCancelled eventId db' ∧
    ∃ r ∈ db.registrations, r.id = id ∧ r.status ≠ .cancelled

section Announcements
variable {db : Database} {id : UUID}

theorem announcements_length :
    (db.announcements id).length = (logOf db.notificationJobs id).count .eventCancelled := by
  unfold Database.announcements logOf
  rw [List.count_eq_countP, List.countP_map, List.countP_filter, ← List.countP_eq_length_filter]
  apply List.countP_congr
  intro j _
  simp

end Announcements

section Steps
variable {settings : Settings} {c : Call} {db db' : Database} {eventId id : UUID}

theorem Change.new_event (h : Change settings c db db') (hnone : db.event? id = none) {event : Event}
    (hsome : db'.event? id = some event) : event.status = .draft := by
  have hlookup : Table.lookup Event.id id db.events = none := hnone
  have hupdate (k : UUID) (set : Event → Event) (hset : ∀ e, (set e).id = e.id) :
      Table.lookup Event.id id (Table.update Event.id k set db.events) = none := by
    rw [Table.lookup_update hset, hlookup]
    rfl
  cases h with
  | refused => rw [hnone] at hsome; cases hsome
  | @createEvent organizer data env _ fresh =>
    have hnew : Table.lookup Event.id id [newEvent organizer data env] = some event := by
      rw [← Table.lookup_append_of_none hlookup]
      exact hsome
    have hmem := Table.lookup_mem hnew
    rw [List.mem_singleton.mp hmem]
    rfl
  | publishEvent => cases (hupdate _ _ (by intro _; rfl)).symm.trans hsome
  | updateEvent => cases (hupdate _ _ (by intro _; rfl)).symm.trans hsome
  | cancelEvent => cases (hupdate _ _ (by intro _; rfl)).symm.trans hsome
  | registerStudent => cases hnone.symm.trans hsome
  | cancelRegistration => cases hnone.symm.trans hsome

/-- Only `cancel_event` cancels an event. -/
theorem Change.cancels (h : Change settings c db db') (hbefore : ¬ EventCancelled id db)
    (hafter : EventCancelled id db') : ∃ user env, c = .cancelEvent user id env := by
  obtain ⟨event', hevent', hcancelled⟩ := hafter
  cases hevent : db.event? id with
  | none =>
    have hdraft := h.new_event hevent hevent'
    rw [hcancelled] at hdraft
    cases hdraft
  | some event =>
    obtain ⟨event'', hfound, hmove⟩ := h.event_move hevent
    have hsame : event'' = event' := Option.some.inj (hfound.symm.trans hevent')
    subst hsame
    cases hmove with
    | kept => exact absurd ⟨event, hevent, hcancelled⟩ hbefore
    | publish draft => cases hcancelled
    | update accepted => exact absurd ⟨event, hevent, hcancelled⟩ hbefore
    | @cancel user env _ live => exact ⟨user, env, rfl⟩

theorem logOf_cancelEvent {env : Env} (hwf : Wf db) {r : Registration} (hr : r ∈ db.registrations)
    (hof : r.eventId = eventId) :
    .eventCancelled ∈ logOf (eventCancelledJobs env eventId (db.activeRegistrations eventId)) r.id ↔
      r.status ≠ .cancelled := by
  rw [logOf_eventCancelledJobs env eventId (activeRegistrations_unique hwf.registrations eventId)]
  constructor
  · intro hmem
    split_ifs at hmem with hid
    · obtain ⟨s, hs, hsid⟩ := List.mem_map.mp hid
      obtain ⟨hold, _, hactive⟩ := mem_activeRegistrations.mp hs
      rwa [hwf.registrations.eq_of_key hold hr hsid] at hactive
    · cases hmem
  · intro hactive
    rw [if_pos (List.mem_map.mpr ⟨r, mem_activeRegistrations.mpr ⟨hr, hof, hactive⟩, rfl⟩)]
    exact List.mem_singleton_self _

theorem not_mem_logOf_cancelEvent {env : Env} (hwf : Wf db)
    (hother : ∀ r ∈ db.registrations, r.id = id → r.eventId ≠ eventId) :
    .eventCancelled ∉ logOf (eventCancelledJobs env eventId (db.activeRegistrations eventId)) id := by
  rw [logOf_eventCancelledJobs env eventId (activeRegistrations_unique hwf.registrations eventId)]
  have hid : id ∉ (db.activeRegistrations eventId).map Registration.id := by
    intro hmem
    obtain ⟨s, hs, hsid⟩ := List.mem_map.mp hmem
    obtain ⟨hold, hof, _⟩ := mem_activeRegistrations.mp hs
    exact hother s hold hsid hof
  rw [if_neg hid]
  exact List.not_mem_nil

theorem Appends.quiet {jobs : List NotificationJob} (h : Appends c db jobs)
    (hc : ∀ user eventId env, c ≠ .cancelEvent user eventId env) :
    .eventCancelled ∉ logOf jobs id := by
  cases h with
  | cancelEvent => exact absurd rfl (hc _ _ _)
  | @registerStudent student eventId env _ event _ eventType position seat _ =>
    rw [logOf_singleton]
    have htype : eventType ≠ .eventCancelled := by
      rcases seatOutcome_cases db event eventId with ⟨_, hseat⟩ | ⟨_, hseat⟩
      all_goals
        rw [hseat] at seat
        rw [← (Prod.mk.inj (Prod.mk.inj seat).2).1]
        decide
    split_ifs
    · simpa [registrationJob, newJob] using htype.symm
    · exact List.not_mem_nil
  | cancelRegistration =>
    rw [logOf_cancellationJobs]
    split_ifs <;> simp

theorem cancelEvent_announces {user : User} {k : UUID} {env : Env} (hwf : Wf db)
    (h : Change settings (.cancelEvent user k env) db db') (hbefore : ¬ EventCancelled k db)
    (hafter : EventCancelled k db') (hof : ∀ r ∈ db.registrations, r.id = id → r.eventId = eventId) :
    .eventCancelled ∈ logOf (eventCancelledJobs env k (db.activeRegistrations k)) id ↔
      CancelledWhileActive db db' eventId id := by
  by_cases hrow : ∃ r ∈ db.registrations, r.id = id
  · obtain ⟨r, hr, rfl⟩ := hrow
    have hevent := hof r hr rfl
    by_cases hk : k = eventId
    · subst hk
      rw [logOf_cancelEvent hwf hr hevent]
      constructor
      · intro hactive
        exact ⟨hbefore, hafter, r, hr, rfl, hactive⟩
      · rintro ⟨_, _, r₀, hr₀, hid, hactive⟩
        rwa [hwf.registrations.eq_of_key hr₀ hr hid] at hactive
    · apply iff_of_false
      · apply not_mem_logOf_cancelEvent hwf
        intro s hs hid
        rw [hof s hs hid]
        exact Ne.symm hk
      · rintro ⟨hlive, hcancelled, _⟩
        obtain ⟨_, _, hcall⟩ := h.cancels hlive hcancelled
        cases hcall
        exact hk rfl
  · apply iff_of_false
    · apply not_mem_logOf_cancelEvent hwf
      intro s hs hid
      exact absurd ⟨s, hs, hid⟩ hrow
    · rintro ⟨_, _, r, hr, hid, _⟩
      exact hrow ⟨r, hr, hid⟩

/-- One call announces the cancellation to exactly the registrations it finds active while it
    cancels their event. -/
theorem Change.announces (h : Change settings c db db') (hwf : Wf db)
    (hof : ∀ r ∈ db.registrations, r.id = id → r.eventId = eventId) :
    Announced db' id ↔ Announced db id ∨ CancelledWhileActive db db' eventId id := by
  obtain ⟨jobs, hjobs, happends⟩ := h.appends
  have hsplit : Announced db' id ↔ Announced db id ∨ .eventCancelled ∈ logOf jobs id := by
    unfold Announced
    rw [hjobs, logOf_append, List.mem_append]
  rw [hsplit]
  apply or_congr Iff.rfl
  by_cases hcall : ∃ user k env, c = .cancelEvent user k env
  · obtain ⟨user, k, env, rfl⟩ := hcall
    have hself := h
    cases h with
    | refused =>
      have hnil : jobs = [] := by simpa using hjobs
      subst hnil
      apply iff_of_false List.not_mem_nil
      rintro ⟨hbefore, hafter, _⟩
      exact hbefore hafter
    | @cancelEvent _ _ _ _ event found owner live ahead fresh =>
      have hsame : jobs = eventCancelledJobs env k (db.activeRegistrations k) :=
        (List.append_cancel_left hjobs).symm
      rw [hsame]
      apply cancelEvent_announces hwf hself _ _ hof
      · rintro ⟨e, he, hcancelled⟩
        rw [Option.some.inj (he.symm.trans found)] at hcancelled
        exact live hcancelled
      · refine ⟨event.cancel (env.now 1), ?_, rfl⟩
        exact (event_update (by intro _; rfl) found).trans (by rw [if_pos rfl])
  · apply iff_of_false
    · rcases happends with rfl | happends
      · exact List.not_mem_nil
      · exact happends.quiet (fun user k env hc => hcall ⟨user, k, env, hc⟩)
    · rintro ⟨hbefore, hafter, _⟩
      obtain ⟨user, env, hc⟩ := h.cancels hbefore hafter
      exact hcall ⟨user, eventId, env, hc⟩

/-- A repeated `cancel_event` changes nothing at all. -/
theorem cancelEvent_repeated (user : User) (env : Env) (h : EventCancelled eventId db) :
    effect settings (.cancelEvent user eventId env) db = db := by
  obtain ⟨event, hevent, hcancelled⟩ := h
  have hchange := change settings (.cancelEvent user eventId env) db
  generalize effect settings (.cancelEvent user eventId env) db = db' at hchange
  cases hchange with
  | refused => rfl
  | cancelEvent found owner live =>
    rw [Option.some.inj (found.symm.trans hevent)] at live
    exact absurd hcancelled live

/-- A registration that is active after a call was so before, or is new and its event published. -/
theorem Change.active_origin (h : Change settings c db db') (hwf : Wf db) {r : Registration}
    (hr : r ∈ db'.registrations) (hactive : r.status ≠ .cancelled) :
    (∃ r₀ ∈ db.registrations, r₀.identity = r.identity ∧ r₀.status ≠ .cancelled) ∨
      ¬ EventCancelled r.eventId db' := by
  cases h with
  | refused => exact Or.inl ⟨r, hr, rfl, hactive⟩
  | createEvent => exact Or.inl ⟨r, hr, rfl, hactive⟩
  | publishEvent => exact Or.inl ⟨r, hr, rfl, hactive⟩
  | updateEvent => exact Or.inl ⟨r, hr, rfl, hactive⟩
  | cancelEvent => exact Or.inl ⟨r, hr, rfl, hactive⟩
  | @registerStudent student k env _ event status _ _ found published =>
    rcases List.mem_append.mp hr with hold | hnew
    · exact Or.inl ⟨r, hold, rfl, hactive⟩
    · right
      rw [List.mem_singleton.mp hnew]
      rintro ⟨e, he, hcancelled⟩
      rw [Option.some.inj (he.symm.trans found), published] at hcancelled
      cases hcancelled
  | @cancelRegistration student regId env _ reg event found owner active =>
    have hreg := registration_mem found
    rcases mem_cancelledDatabase hwf.registrations hreg hr with
      rfl | ⟨next, hnext, rfl⟩ | ⟨hold, _, _⟩
    · exact absurd rfl hactive
    · obtain ⟨_, hmem, _, hwaits, _⟩ := promotion_some hwf.registrations hreg hnext
      refine Or.inl ⟨next, hmem, rfl, ?_⟩
      rw [hwaits]
      decide
    · exact Or.inl ⟨r, hold, rfl, hactive⟩

end Steps

/-- No active registration of a cancelled event has been left out. -/
structure FannedOut (db : Database) : Prop where
  log : OutboxLog db
  complete : ∀ r ∈ db.registrations, EventCancelled r.eventId db → r.status ≠ .cancelled →
    Announced db r.id

section Runs
variable {settings : Settings} {db db₀ : Database}

theorem FannedOut.step (h : FannedOut db) (c : Call) : FannedOut (effect settings c db) := by
  have hchange := change settings c db
  refine ⟨hchange.outboxLog h.log, ?_⟩
  intro r hr hcancelled hactive
  rcases hchange.active_origin h.log.wf hr hactive with ⟨r₀, hr₀, hsame, hactive₀⟩ | hlive
  · obtain ⟨hid, hevent, _⟩ := Registration.identity_eq hsame
    have hof : ∀ s ∈ db.registrations, s.id = r.id → s.eventId = r.eventId := by
      intro s hs hsid
      rw [h.log.wf.registrations.eq_of_key hs hr₀ (hsid.trans hid.symm), hevent]
    apply (hchange.announces h.log.wf hof).mpr
    by_cases hbefore : EventCancelled r.eventId db
    · left
      rw [← hid]
      rw [← hevent] at hbefore
      exact h.complete r₀ hr₀ hbefore hactive₀
    · exact Or.inr ⟨hbefore, hcancelled, r₀, hr₀, hid, hactive₀⟩
  · exact absurd hcancelled hlive

theorem fannedOut_after (h₀ : Initial db₀) (calls : List Call) :
    FannedOut (after (effect settings) db₀ calls) := by
  have hstart : FannedOut db₀ := by
    refine ⟨h₀.outboxLog, ?_⟩
    intro r hr
    rw [h₀.registrations] at hr
    cases hr
  exact after_invariant (effect settings) FannedOut (fun _ => True) (fun c _ _ h => h.step c) db₀
    calls hstart (fun _ _ => trivial)

theorem announced_iff_cancelledWhileActive (h₀ : Initial db₀) (calls : List Call) {eventId id : UUID}
    (hof : ∀ r ∈ (after (effect settings) db₀ calls).registrations, r.id = id → r.eventId = eventId) :
    Announced (after (effect settings) db₀ calls) id ↔
      ∃ n < calls.length, CancelledWhileActive (after (effect settings) db₀ (calls.take n))
        (after (effect settings) db₀ (calls.take (n + 1))) eventId id := by
  induction calls using List.reverseRecOn with
  | nil =>
    apply iff_of_false
    · have hnone : logOf db₀.notificationJobs id = [] :=
        h₀.outboxLog.absent (by simp [h₀.registrations])
      change .eventCancelled ∉ logOf db₀.notificationJobs id
      rw [hnone]
      exact List.not_mem_nil
    · rintro ⟨n, hn, _⟩
      exact absurd hn (Nat.not_lt_zero n)
  | append_singleton calls c ih =>
    have hchange := change settings c (after (effect settings) db₀ calls)
    rw [after_concat] at hof ⊢
    have hbefore : ∀ r ∈ (after (effect settings) db₀ calls).registrations, r.id = id →
        r.eventId = eventId := by
      intro r hr hid
      obtain ⟨r', hr', hsame⟩ := hchange.registration_kept hr
      obtain ⟨hid', hevent, _⟩ := Registration.identity_eq hsame
      rw [← hevent]
      exact hof r' hr' (hid'.trans hid)
    rw [hchange.announces (outboxLog_after settings h₀ calls).wf hbefore, ih hbefore,
      exists_step_concat (effect settings) (fun x y => CancelledWhileActive x y eventId id)]

/-- The fan-out is exact, in every state that calls can reach. -/
theorem fan_out_exact (settings : Settings) (db₀ : Database) (h₀ : Initial db₀) (calls : List Call) :
    let db := after (effect settings) db₀ calls
    (∀ r ∈ db.registrations,
      (db.announcements r.id ≠ [] ↔ EventCancelled r.eventId db ∧
        ∃ n < calls.length, CancelledWhileActive (after (effect settings) db₀ (calls.take n))
          (after (effect settings) db₀ (calls.take (n + 1))) r.eventId r.id) ∧
      (db.announcements r.id).length ≤ 1 ∧
      (∀ j ∈ db.announcements r.id, j.payload.studentId = some r.studentId ∧
        j.payload.eventId = some r.eventId ∧ j.eventId = some r.eventId) ∧
      (EventCancelled r.eventId db → r.status ≠ .cancelled → db.announcements r.id ≠ [])) ∧
    ∀ user eventId env, EventCancelled eventId db →
      effect settings (.cancelEvent user eventId env) db = db := by
  intro db
  have hfan : FannedOut db := fannedOut_after h₀ calls
  have hwf := hfan.log.wf
  refine ⟨?_, fun user eventId env => cancelEvent_repeated user env⟩
  intro r hr
  have hne : db.announcements r.id ≠ [] ↔ Announced db r.id := by
    rw [← List.length_pos_iff, announcements_length, List.count_pos_iff]
    rfl
  have hof : ∀ s ∈ db.registrations, s.id = r.id → s.eventId = r.eventId := by
    intro s hs hid
    rw [hwf.registrations.eq_of_key hs hr hid]
  have hiff : Announced db r.id ↔ _ := announced_iff_cancelledWhileActive h₀ calls hof
  refine ⟨?_, ?_, ?_, ?_⟩
  · rw [hne, hiff]
    constructor
    · rintro ⟨n, hn, hcancels⟩
      refine ⟨?_, n, hn, hcancels⟩
      have hstable : EventCancelled r.eventId (after (effect settings) db₀ (calls.take calls.length)) :=
        take_stable (effect settings) (EventCancelled r.eventId) (fun _ _ h => h.step) db₀ calls
          (Nat.succ_le_of_lt hn) hcancels.2.1
      rwa [List.take_length] at hstable
    · rintro ⟨_, hcancels⟩
      exact hcancels
  · obtain ⟨told, htally, _⟩ := hfan.log.tally hr
    have hcount := htally.told
    rw [announcements_length, hcount]
    split_ifs <;> omega
  · intro j hj
    obtain ⟨hmem, hkind⟩ := List.mem_filter.mp hj
    exact (hfan.log.determines hr).columns j hmem (of_decide_eq_true hkind).2
  · intro hcancelled hactive
    exact hne.mpr (hfan.complete r hr hcancelled hactive)

end Runs

def announcedCalls : List Call :=
  oneSeatCalls ++
    [.cancelRegistration bob 400 (envAt 4 500), .registerStudent carol 100 (envAt 5 600),
      .cancelEvent organizer 100 (envAt 6 700), .cancelEvent organizer 100 (envAt 7 800)]

theorem fan_out_exact_announced :
    let db := after (effect {}) {} announcedCalls
    db.registrations.map (fun r => (r.id, (db.announcements r.id).length)) =
        [(300, 1), (400, 0), (600, 1)] ∧
      ∀ r ∈ db.registrations, (db.announcements r.id).length ≤ 1 := by
  intro db
  refine ⟨by decide +kernel, ?_⟩
  intro r hr
  exact ((fan_out_exact {} {} initial_empty announcedCalls).1 r hr).2.1

end Hefest
