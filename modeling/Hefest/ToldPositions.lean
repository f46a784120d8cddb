import Hefest.Waitlist
import Hefest.WaitlistViews

set_option autoImplicit false

/-!
# The waitlist position a student is told

`register_student` counts everybody who waits; `list_my_registrations` counts those who come no
later by `registered_at` and `id`. The two agree when the new registration is the last of the queue,
which the clock of the process that serves the request decides.
-/
namespace Hefest
open Transition Ranking

/-- The position in the job that tells the student of the waitlisting. -/
def Database.notifiedPosition (db : Database) (regId : UUID) : Option ℕ :=
  (Table.lookup NotificationJob.idempotencyKey ⟨regId, .registrationWaitlisted⟩
    db.notificationJobs).bind fun job => job.payload.waitlistPosition

/-- The position in the response and the one in the job are the position that the student is shown
    in the tables `db`. -/
structure ToldTruly (student : User) (response : RegistrationResponse) (db : Database) : Prop where
  returned : response.waitlistPosition = listedPosition db student response.id
  notified : db.notifiedPosition response.id = listedPosition db student response.id

section Told
variable {db db' : Database} {student : User} {eventId : UUID} {env : Env}
  {response : RegistrationResponse}

theorem lookup_insertedJob {t : List NotificationJob} {job : NotificationJob}
    (h : jobsViolation t [job] = none) :
    Table.lookup NotificationJob.idempotencyKey job.idempotencyKey (t ++ [job]) = some job := by
  have hfresh : Table.lookup NotificationJob.idempotencyKey job.idempotencyKey t = none := by
    rw [Table.lookup_eq_none]
    intro j hj hkey
    have htaken : jobsViolation t [job] = some .idempotencyKey := if_pos ⟨j, hj, hkey⟩
    rw [h] at htaken
    cases htaken
  rw [Table.lookup_append_of_none hfresh]
  simp [Table.lookup]

theorem registerStudent_waitlisted
    (hok : (registerStudent student eventId env).run db = (db', .ok response))
    (hwait : response.status = .waitlisted) :
    let reg := newRegistration student eventId .waitlisted env
    registrationViolation db reg = none ∧ db'.registrations = db.registrations ++ [reg] ∧
      response.id = reg.id ∧
      response.waitlistPosition = some ((db.waitlist eventId).length + 1) ∧
      db'.notifiedPosition reg.id = some ((db.waitlist eventId).length + 1) := by
  obtain ⟨event, _, _, hviolation, hjobs, rfl, rfl⟩ := registerStudent_ok hok
  have hseat : seatOutcome db event eventId =
      (.waitlisted, .registrationWaitlisted, some ((db.waitlist eventId).length + 1)) := by
    unfold seatOutcome at hwait ⊢
    by_cases hfree : db.count eventId .confirmed < event.capacity
    · rw [if_pos hfree] at hwait
      cases hwait
    · rw [if_neg hfree, waitlist_length]
  rw [hseat] at hviolation hjobs ⊢
  refine ⟨hviolation, rfl, rfl, rfl, ?_⟩
  unfold Database.notifiedPosition
  exact congrArg (fun job? => job?.bind fun job => job.payload.waitlistPosition)
    (lookup_insertedJob hjobs)

theorem registrationViolation_fresh {reg : Registration} (h : registrationViolation db reg = none) :
    ∀ r ∈ db.registrations, r.id ≠ reg.id := by
  intro r hr hid
  have hfound : (db.registration? reg.id).isSome := Table.lookup_isSome.mpr ⟨r, hr, hid⟩
  unfold registrationViolation at h
  rw [if_pos hfound] at h
  cases h

/-- What the student is shown right after the commit: one more than the number of those whom the
    order of the queue puts before. -/
theorem listedPosition_waitlisted (hdb : Table.KeyUnique Registration.id db.registrations)
    (hstudent : student.id = (newRegistration student eventId .waitlisted env).studentId)
    (hfresh : registrationViolation db (newRegistration student eventId .waitlisted env) = none)
    (hrows : db'.registrations =
      db.registrations ++ [newRegistration student eventId .waitlisted env]) :
    listedPosition db' student (env.uuid 0) =
      some (rank Registration.fifo (db.waitlist eventId)
        (newRegistration student eventId .waitlisted env) + 1) := by
  generalize hreg : newRegistration student eventId .waitlisted env = reg at hstudent hfresh hrows ⊢
  have hid : env.uuid 0 = reg.id := by rw [← hreg]; rfl
  have hevent : reg.eventId = eventId := by rw [← hreg]; rfl
  have hwaits : reg.status = .waitlisted := by rw [← hreg]; rfl
  have hunique : Table.KeyUnique Registration.id db'.registrations := by
    rw [hrows]
    exact Table.keyUnique_insert hdb (registrationViolation_fresh hfresh)
  have hwaitlist : db'.waitlist eventId = db.waitlist eventId ++ [reg] := by
    unfold Database.waitlist
    rw [hrows, List.filter_append, List.filter_singleton]
    simp [hevent, hwaits]
  have hmem : reg ∈ db'.waitlist eventId := by
    rw [hwaitlist]
    exact List.mem_append_right _ List.mem_cons_self
  rw [hid, listedPosition_eq hunique hmem hstudent, Database.position, hevent, hwaitlist,
    rank_concat_self]

theorem toldTruly_iff (hdb : Table.KeyUnique Registration.id db.registrations)
    (hok : (registerStudent student eventId env).run db = (db', .ok response))
    (hwait : response.status = .waitlisted) :
    ToldTruly student response db' ↔
      ∀ r ∈ db.waitlist eventId, Registration.fifo r
        (newRegistration student eventId .waitlisted env) := by
  obtain ⟨hfresh, hrows, hid, hreturned, hnotified⟩ := registerStudent_waitlisted hok hwait
  have hlisted := listedPosition_waitlisted hdb rfl hfresh hrows
  rw [← rank_eq_length_iff]
  constructor
  · intro h
    have hsame := h.returned
    rw [hid, hreturned] at hsame
    have hplaces := Option.some.inj (hsame.trans hlisted)
    omega
  · intro h
    rw [h] at hlisted
    refine ⟨?_, ?_⟩
    · rw [hid, hreturned]
      exact hlisted.symm
    · rw [hid, hnotified]
      exact hlisted.symm

end Told

/-- The position a student is told is the one the student is shown right after the commit, exactly
    if everybody who waits has an earlier `registered_at`, or the same one and a smaller id. -/
theorem told_position_iff (settings : Settings) (db₀ : Database) (h₀ : Initial db₀)
    (calls : List Call) (student : User) (eventId : UUID) (env : Env) (db' : Database)
    (response : RegistrationResponse)
    (hok : (registerStudent student eventId env).run (after (effect settings) db₀ calls) =
      (db', .ok response))
    (hwait : response.status = .waitlisted) :
    ToldTruly student response db' ↔
      ∀ r ∈ (after (effect settings) db₀ calls).waitlist eventId,
        r.registeredAt < env.now 0 ∨ (r.registeredAt = env.now 0 ∧ r.id ≤ env.uuid 0) :=
  toldTruly_iff (after_wf settings h₀ calls).registrations hok hwait

theorem told_position_iff_oneSeat :
    ∃ db' response, (registerStudent carol 100 (envAt 4 500)).run
        (after (effect {}) {} oneSeatCalls) = (db', .ok response) ∧
      ToldTruly carol response db' := by
  refine ⟨_, _, rfl, ?_⟩
  refine (told_position_iff {} {} initial_empty oneSeatCalls carol 100 (envAt 4 500) _ _ rfl
    (by decide)).mpr ?_
  decide

/-- The process that serves `carol` is two seconds behind: she is told that she is second, and shown
    that she is first. -/
theorem told_position_clockBehind :
    ∃ db' response, (registerStudent carol 100 (envAt 1 500)).run
        (after (effect {}) {} oneSeatCalls) = (db', .ok response) ∧
      response.status = .waitlisted ∧ response.waitlistPosition = some 2 ∧
      db'.notifiedPosition response.id = some 2 ∧
      listedPosition db' carol response.id = some 1 ∧ ¬ ToldTruly carol response db' := by
  refine ⟨_, _, rfl, rfl, by decide, by decide, by decide, ?_⟩
  intro h
  have hsame := h.returned
  revert hsame
  decide

end Hefest
