import Hefest.SiteRuns

set_option autoImplicit false

/-!
# What the students are told

An e-mail that the mail server has accepted tells the student of its job something about a
registration. What each of them says stays so while requests run one after the other, and once all
jobs about a registration are completed they say exactly what its status is.
-/
namespace Hefest
open Transition

section Sends
variable {settings : Settings} {tr : List Obs} {W : World}

theorem Recorded.started {n : ℕ} {xs : List Note} {s : TaskState} (h : Recorded settings n xs s)
    (hmem : .returned ∈ xs) : .sendStarted ∈ xs := by
  have hfailed : ∀ {xs : List Note} {last : Note}, xs = [] ∨ xs = [.sendStarted] →
      .returned ∈ xs ++ [last] → .sendStarted ∈ xs ++ [last] ∨ last = .returned := by
    rintro xs last (rfl | rfl) hmem
    · exact .inr (List.mem_singleton.mp hmem).symm
    · exact .inl List.mem_cons_self
  have hout : ∀ {f : Finalizer} {xs : List Note}, Outcome settings n f xs → .returned ∈ xs →
      .sendStarted ∈ xs := by
    intro f xs hout hmem
    cases hout with
    | completed => exact List.mem_cons_self
    | permanent before => exact (hfailed before hmem).resolve_right (by decide)
    | exhausted before => exact (hfailed before hmem).resolve_right (by decide)
    | retry before => exact (hfailed before hmem).resolve_right (by decide)
  cases h with
  | queued => cases hmem
  | loading => cases hmem
  | sending => exact List.mem_cons_self
  | pushing => exact List.mem_cons_self
  | finalizing h => exact hout h hmem
  | interrupted h => exact hout h hmem
  | abandoned h =>
    obtain ⟨rest, hrest⟩ := h
    cases xs with
    | nil => cases hmem
    | cons x xs =>
      rw [List.cons_append, List.cons.injEq] at hrest
      rw [hrest.1]
      exact List.mem_cons_self

theorem Delivers.started (h : Delivers settings tr W) {id : UUID} {w : WorkerId} {n : ℕ}
    (hmem : (id, .noted w n .returned) ∈ tr) : (id, n) ∈ sends tr := by
  obtain ⟨xs, s, hxs, hdoes⟩ := (delivers_runs h id).told.past n
  have hreturned : .returned ∈ xs := by
    rw [← hxs]
    have hnote : (w, Note.returned) ∈ Lease.notes n (project id tr) :=
      List.mem_filterMap.mpr ⟨_, (mem_project id).mpr hmem, by simp [Lease.Event.note?]⟩
    exact List.mem_map_of_mem hnote
  have hstarted := (recorded hdoes).started hreturned
  rw [← hxs] at hstarted
  obtain ⟨⟨v, note⟩, hnote, rfl⟩ := List.mem_map.mp hstarted
  obtain ⟨e, he, hsame⟩ := List.mem_filterMap.mp hnote
  have hevent : e = .noted v n .sendStarted := by
    cases e with
    | noted v' m note' =>
      simp only [Lease.Event.note?] at hsame
      split_ifs at hsame with hm
      cases hsame
      rw [hm]
    | _ => cases hsame
  rw [hevent] at he
  exact List.mem_filterMap.mpr ⟨_, (mem_project id).mp he, rfl⟩

theorem Delivers.returned (h : Delivers settings tr W) {j : NotificationJob} (hj : j ∈ W.jobs)
    (hdone : j.status = .completed) : ∃ w, (j.id, .noted w j.attempts .returned) ∈ tr := by
  obtain ⟨w, tr₁, tr₂, htr, last, hlast, hbacked⟩ :=
    h.backed hj (v := .completed) (congrArg JobStatus.lease hdone)
  cases hbacked
  obtain ⟨e, he, hsame⟩ := List.mem_filterMap.mp (List.mem_of_getLast? hlast)
  have hevent : e = .noted w j.attempts .returned := by
    cases e with
    | noted v' m note' =>
      simp only [Lease.Event.note?] at hsame
      split_ifs at hsame with hm
      cases hsame
      rw [hm]
    | _ => cases hsame
  rw [hevent] at he
  have hmem := (mem_project j.id).mp he
  exact ⟨w, by rw [htr]; exact List.mem_append_left _ hmem⟩

end Sends

/-- The mail server has accepted an e-mail of this type about `r`, for its student's address. -/
def Told (tr : List SiteEvent) (db : Database) (r : Registration) (type : EventType) : Prop :=
  ∃ j ∈ db.notificationJobs, j.payload.registrationId = some r.id ∧ j.eventType = type ∧
    ∃ m ∈ mails tr, m.jobId = j.id ∧ (∃ w, (j.id, .noted w m.attempts .returned) ∈ leases tr) ∧
      ∃ student, db.user? r.studentId = some student ∧ m.address = student.email

/-- What each e-mail about `r` that was accepted says of it from then on. -/
structure ToldTruth (tr : List SiteEvent) (db : Database) (r : Registration) : Prop where
  cancelled : Told tr db r .registrationCancelled → r.status = .cancelled
  seated : Told tr db r .registrationConfirmed ∨ Told tr db r .waitlistPromoted →
    r.status ≠ .waitlisted
  queued : Told tr db r .registrationWaitlisted → r.status = .waitlisted ∨ r.status = .cancelled ∨
    0 < db.typeCount r .waitlistPromoted
  promoted : Told tr db r .waitlistPromoted → 0 < db.typeCount r .registrationWaitlisted
  once : Told tr db r .registrationConfirmed →
    ¬ Told tr db r .registrationWaitlisted ∧ ¬ Told tr db r .waitlistPromoted
  eventCancelled : Told tr db r .eventCancelled →
    ∃ event, db.event? r.eventId = some event ∧ event.status = .cancelled

/-- What was told about `r` is all there is to know about its status. -/
structure ToldAll (tr : List SiteEvent) (db : Database) (r : Registration) : Prop where
  cancelled : r.status = .cancelled ↔ Told tr db r .registrationCancelled
  confirmed : r.status = .confirmed ↔
    (Told tr db r .registrationConfirmed ∨ Told tr db r .waitlistPromoted) ∧
      ¬ Told tr db r .registrationCancelled
  waitlisted : r.status = .waitlisted ↔ Told tr db r .registrationWaitlisted ∧
    ¬ Told tr db r .waitlistPromoted ∧ ¬ Told tr db r .registrationCancelled

section Truth
variable {settings : Settings} {accounts : AccountLib} {lib : TokenLib} {db₀ : Database}
  {tr : List SiteEvent} {S : Site} {r : Registration} {type : EventType}

theorem Told.counted {db : Database} (h : Told tr db r type) : 0 < db.typeCount r type := by
  obtain ⟨j, hj, hsubject, rfl, _⟩ := h
  exact List.count_pos_iff.mpr (mem_logOf hj hsubject)

theorem mem_of_logged {db : Database} (h : 0 < db.typeCount r type) :
    ∃ j ∈ db.notificationJobs, j.payload.registrationId = some r.id ∧ j.eventType = type := by
  obtain ⟨j, hj, htype⟩ := List.mem_map.mp (List.count_pos_iff.mp h)
  obtain ⟨hmem, hsubject⟩ := List.mem_filter.mp hj
  exact ⟨j, hmem, of_decide_eq_true hsubject, htype⟩

/-- A completed job has told its student. -/
theorem told_of_completed (hregs : db₀.registrations = []) (hjobs : db₀.notificationJobs = [])
    (h : Serves settings accounts lib db₀ tr S) (hr : r ∈ S.db.registrations)
    {j : NotificationJob} (hj : j ∈ S.db.notificationJobs)
    (hsubject : j.payload.registrationId = some r.id) (hdone : j.status = .completed) :
    Told tr S.db r j.eventType := by
  have hserved := h.served hregs hjobs
  have hdelivers := h.delivers hregs hjobs
  obtain ⟨w, hreturned⟩ := hdelivers.returned hj hdone
  have hsent := hdelivers.started hreturned
  rw [← hserved.counted] at hsent
  obtain ⟨m, hm, hsame⟩ := List.mem_map.mp hsent
  obtain ⟨hid, hattempts⟩ := Prod.mk.inj hsame
  refine ⟨j, hj, hsubject, rfl, m, hm, hid, ⟨w, by rw [hattempts]; exact hreturned⟩, ?_⟩
  obtain ⟨j', hj', hid', hmail⟩ := hserved.mailed m hm
  obtain rfl : j' = j := hserved.ok.ids.eq_of_key hj' hj (hid'.trans hid)
  cases hmail with
  | rendered user event now student address about content =>
    obtain ⟨hstudent, stored, hstored, haccount⟩ := student
    have hcolumn := ((hserved.ok.log.determines hr).columns j' hj hsubject).1
    rw [hstudent] at hcolumn
    rw [Option.some.inj hcolumn] at hstored
    refine ⟨stored, hstored, address.trans ?_⟩
    exact (congrArg (fun a : UUID × String × UserRole => a.2.1) haccount).symm

theorem told_iff (hregs : db₀.registrations = []) (hjobs : db₀.notificationJobs = [])
    (h : Serves settings accounts lib db₀ tr S) (hr : r ∈ S.db.registrations)
    (hdone : ∀ j ∈ S.db.notificationJobs, j.payload.registrationId = some r.id →
      j.status = .completed) :
    Told tr S.db r type ↔ 0 < S.db.typeCount r type := by
  refine ⟨Told.counted, ?_⟩
  intro hcount
  obtain ⟨j, hj, hsubject, rfl⟩ := mem_of_logged hcount
  exact told_of_completed hregs hjobs h hr hj hsubject (hdone j hj hsubject)

theorem OutboxLog.told_truth {db : Database} (hlog : OutboxLog db) (hr : r ∈ db.registrations) :
    ToldTruth tr db r where
  cancelled := by
    intro htold
    have hcount := htold.counted
    rw [(hlog.determines hr).cancelled] at hcount
    by_contra hstatus
    rw [if_neg hstatus] at hcount
    exact Nat.lt_irrefl 0 hcount
  seated := by
    intro htold hwaits
    obtain ⟨hqueued, hpromoted, _⟩ := (hlog.determines hr).waitlisted.mp hwaits
    have horigin := (hlog.determines hr).origin
    rcases htold with htold | htold
    · have hcount := htold.counted
      omega
    · have hcount := htold.counted
      omega
  queued := by
    intro htold
    have hcount := htold.counted
    have horigin := (hlog.determines hr).origin
    cases hstatus : r.status with
    | waitlisted => exact .inl rfl
    | cancelled => exact .inr (.inl rfl)
    | confirmed =>
      obtain ⟨_, hseated⟩ := (hlog.determines hr).confirmed.mp hstatus
      exact .inr (.inr (hseated.resolve_left (by omega)))
  promoted := by
    intro htold
    have hqueued := (hlog.determines hr).promotedFrom htold.counted
    omega
  once := by
    intro htold
    have hcount := htold.counted
    have horigin := (hlog.determines hr).origin
    refine ⟨?_, ?_⟩
    · intro hqueued
      have hwaits := hqueued.counted
      omega
    · intro hpromoted
      have hwaits := (hlog.determines hr).promotedFrom hpromoted.counted
      omega
  eventCancelled := by
    intro htold
    obtain ⟨event, hevent⟩ := Option.isSome_iff_exists.mp (hlog.wf.eventOf r hr)
    obtain ⟨told, htally, hcancelled⟩ := hlog.tally hr
    have hcount := htold.counted
    unfold Database.typeCount at hcount
    rw [htally.told] at hcount
    cases told with
    | false => cases hcount
    | true => exact ⟨event, hevent, hcancelled rfl event hevent⟩

/-- A job that was never taken back was accepted by the mail server once. -/
theorem Delivers.returned_once {settings : Settings} {tr : List Obs} {W : World}
    (h : Delivers settings tr W) {j : NotificationJob} (hj : j ∈ W.jobs)
    (hdone : j.status = .completed) (hkept : ∀ n, (j.id, .reclaimed n) ∉ tr) :
    tr.countP (Obs.about j.id (Lease.Event.isNote .returned)) = 1 := by
  have hupper : (project j.id tr).countP (Lease.Event.isNote .returned) ≤
      1 + (project j.id tr).countP Lease.Event.isReclaim := by
    apply (delivers_runs h j.id).notes_le_reclaims (deliveryWork_once .returned)
    intro n xs s hdoes hfinish
    obtain ⟨f, hf, hout⟩ := (recorded hdoes).outcome hfinish
    exact (hout.retried hf).2
  have hnone : (project j.id tr).countP Lease.Event.isReclaim = 0 := by
    apply List.countP_eq_zero.mpr
    intro e he hreclaim
    cases e with
    | reclaimed n => exact hkept n ((mem_project j.id).mp he)
    | _ => cases hreclaim
  obtain ⟨w, hreturned⟩ := h.returned hj hdone
  have hlower : 0 < tr.countP (Obs.about j.id (Lease.Event.isNote .returned)) := by
    apply List.countP_pos_iff.mpr
    exact ⟨_, hreturned, by simp [Obs.about, Lease.Event.isNote]⟩
  rw [countP_project] at hupper
  omega

/-- While requests run one after the other, what a student was told about a registration holds at
    any time. Once the jobs about it are completed, its status can be read off the e-mails, and where
    no lease was taken back the mail server has accepted each of them exactly once. -/
theorem site_tells_truth (settings : Settings) (accounts : AccountLib) (lib : TokenLib)
    (db₀ : Database) (hregs : db₀.registrations = []) (hjobs : db₀.notificationJobs = [])
    (tr : List SiteEvent) (S : Site) (h : Serves settings accounts lib db₀ tr S) (r : Registration)
    (hr : r ∈ S.db.registrations) :
    ToldTruth tr S.db r ∧
    ((∀ j ∈ S.db.notificationJobs, j.payload.registrationId = some r.id → j.status = .completed) →
      ToldAll tr S.db r ∧
      ∀ j ∈ S.db.notificationJobs, j.payload.registrationId = some r.id →
        (∀ n, (j.id, .reclaimed n) ∉ leases tr) →
        (leases tr).countP (Obs.about j.id (Lease.Event.isNote .returned)) = 1) := by
  have hlog : OutboxLog S.db := (h.served hregs hjobs).ok.log
  refine ⟨hlog.told_truth hr, ?_⟩
  intro hdone
  have hdetermines := hlog.determines hr
  have htold : ∀ {type}, Told tr S.db r type ↔ 0 < S.db.typeCount r type :=
    told_iff hregs hjobs h hr hdone
  refine ⟨⟨?_, ?_, ?_⟩, ?_⟩
  · rw [htold, hdetermines.cancelled]
    by_cases hstatus : r.status = .cancelled <;> simp [hstatus]
  · rw [hdetermines.confirmed, htold, htold, htold]
    omega
  · rw [hdetermines.waitlisted, htold, htold, htold]
    omega
  · intro j hj hsubject hkept
    exact (h.delivers hregs hjobs).returned_once hj (hdone j hj hsubject) hkept

end Truth

theorem site_tells_truth_waitlisted :
    ∃ (S : Site) (tr : List SiteEvent), ∃ r ∈ S.db.registrations, r.status = .waitlisted ∧
      Told tr S.db r .registrationWaitlisted ∧ ToldTruth tr S.db r := by
  obtain ⟨S, tr, h, _, hregistrations, hjobs⟩ := bothTold_serves
  have hmem : ((400 : UUID), RegistrationStatus.waitlisted) ∈
      S.db.registrations.map fun r => (r.id, r.status) := by
    rw [hregistrations]
    decide
  obtain ⟨r, hr, hsame⟩ := List.mem_map.mp hmem
  have hwaits : r.status = .waitlisted := (Prod.mk.inj hsame).2
  have hdone : ∀ j ∈ S.db.notificationJobs, j.payload.registrationId = some r.id →
      j.status = .completed := by
    intro j hj _
    have hj' := List.mem_map_of_mem (f := fun j : NotificationJob =>
      (j.payload.registrationId, j.status)) hj
    rw [hjobs] at hj'
    rcases List.mem_cons.mp hj' with hfirst | hsecond
    · exact (Prod.mk.inj hfirst).2
    · exact (Prod.mk.inj (List.mem_singleton.mp hsecond)).2
  obtain ⟨htruth, hall⟩ := site_tells_truth {} plainAccounts plainLib school rfl rfl tr S h r hr
  exact ⟨S, tr, r, hr, hwaits, ((hall hdone).1.waitlisted.mp hwaits).1, htruth⟩

end Hefest
