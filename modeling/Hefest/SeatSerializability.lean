import Hefest.SeatRuns

set_option autoImplicit false

/-!
# Concurrent seat allocation is serializable

Every call on one event takes the event's row lock before it writes; `cancel_registration` reads
its registration once before. `SeatOrder` is what it may rely on between the two reads.
-/
namespace Hefest
open Transition Transaction

/-- How the calls on event `e` move the committed tables: registrations stay, and new ones are on
    `e`. -/
structure SeatOrder (e : UUID) (db db' : Database) : Prop where
  event : (db.event? e).isSome → (db'.event? e).isSome
  kept : ∀ id r, db.registration? id = some r →
    ∃ r', db'.registration? id = some r' ∧ r'.identity = r.identity
  born : ∀ id r', db'.registration? id = some r' →
    r'.eventId = e ∨ ∃ r, db.registration? id = some r ∧ r'.identity = r.identity

inductive OnEvent (db₀ : Database) (e : UUID) : Call → Prop
  | register (student : User) (env : Env) : OnEvent db₀ e (.registerStudent student e env)
  | cancelEvent (user : User) (env : Env) : OnEvent db₀ e (.cancelEvent user e env)
  | cancel (student : User) (regId : UUID) (env : Env)
      (of : ∀ r, db₀.registration? regId = some r → r.eventId = e) :
      OnEvent db₀ e (.cancelRegistration student regId env)

def eventLock (e : UUID) : RowLock := ⟨.event e, .forUpdate⟩

theorem eventLock_exclusive (e : UUID) : Lock.conflict (eventLock e) (eventLock e) = true := by
  simp [Lock.conflict, eventLock, LockMode.conflict]

namespace SeatOrder
variable {e : UUID} {db db' db'' : Database}

theorem refl (db : Database) : SeatOrder e db db where
  event h := h
  kept _ r h := ⟨r, h, rfl⟩
  born _ r h := Or.inr ⟨r, h, rfl⟩

theorem trans (h : SeatOrder e db db') (h' : SeatOrder e db' db'') : SeatOrder e db db'' where
  event hdb := h'.event (h.event hdb)
  kept id r hr := by
    obtain ⟨r', hr', hsame⟩ := h.kept id r hr
    obtain ⟨r'', hr'', hsame'⟩ := h'.kept id r' hr'
    exact ⟨r'', hr'', hsame'.trans hsame⟩
  born id r'' hr'' := by
    rcases h'.born id r'' hr'' with hnew | ⟨r', hr', hsame'⟩
    · exact Or.inl hnew
    · rcases h.born id r' hr' with hnew | ⟨r, hr, hsame⟩
      · exact Or.inl ((Registration.identity_eq hsame').2.1.trans hnew)
      · exact Or.inr ⟨r, hr, hsame'.trans hsame⟩

theorem of_registrations (hevent : (db.event? e).isSome → (db'.event? e).isSome)
    (hrows : db'.registrations = db.registrations) : SeatOrder e db db' where
  event := hevent
  kept id r hr := ⟨r, by rw [Database.registration?, hrows]; exact hr, rfl⟩
  born id r hr := Or.inr ⟨r, by rw [Database.registration?, ← hrows]; exact hr, rfl⟩

end SeatOrder

section Calls
variable {settings : Settings} {db₀ db db' : Database} {e : UUID} {c : Call}

theorem lookup_update_identity (key : UUID) (set : Registration → Registration)
    (hset : ∀ r, (set r).identity = r.identity) (id : UUID) (t : List Registration) :
    (Table.lookup Registration.id id (Table.update Registration.id key set t)).map
        Registration.identity = (Table.lookup Registration.id id t).map Registration.identity := by
  rw [Table.lookup_update (fun r => (Registration.identity_eq (hset r)).1)]
  cases Table.lookup Registration.id id t with
  | none => rfl
  | some r =>
    simp only [Option.map_some, Option.some.injEq]
    split_ifs
    · exact hset r
    · rfl

theorem cancelledDatabase_lookup (student : User) (event : Event) (reg : Registration) (env : Env)
    (id : UUID) :
    ((cancelledDatabase student event reg env db).registration? id).map Registration.identity =
      (db.registration? id).map Registration.identity := by
  have hcancel := lookup_update_identity reg.id (Registration.cancel (env.now 1)) (fun _ => rfl) id
    db.registrations
  change (Table.lookup Registration.id id
    (promoteRows (promotion db reg env) (cancelRows reg env db.registrations))).map _ = _
  cases promotion db reg env with
  | none => exact hcancel
  | some next =>
    exact (lookup_update_identity next.id Registration.confirm (fun _ => rfl) id _).trans hcancel

theorem SeatOrder.of_lookup (hevent : (db.event? e).isSome → (db'.event? e).isSome)
    (hrows : ∀ id, (db'.registration? id).map Registration.identity =
      (db.registration? id).map Registration.identity) : SeatOrder e db db' where
  event := hevent
  kept id r hr := by
    have hsame := hrows id
    rw [hr, Option.map_some, Option.map_eq_some_iff] at hsame
    exact hsame
  born id r' hr' := by
    have hsame := hrows id
    rw [hr', Option.map_some] at hsame
    obtain ⟨r, hr, hid⟩ := Option.map_eq_some_iff.mp hsame.symm
    exact Or.inr ⟨r, hr, hid.symm⟩

theorem OnEvent.seatOrder (hc : OnEvent db₀ e c) (h : Change settings c db db') :
    SeatOrder e db db' := by
  have hevent : (db.event? e).isSome → (db'.event? e).isSome := fun hdb => h.event_found hdb
  cases h with
  | refused => exact .refl _
  | createEvent => cases hc
  | publishEvent => cases hc
  | updateEvent => cases hc
  | cancelEvent => exact .of_registrations hevent rfl
  | registerStudent found published seat unregistered =>
    cases hc
    refine ⟨hevent, ?_, ?_⟩
    · intro id r hr
      exact ⟨r, Table.lookup_append_of_some hr, rfl⟩
    · intro id r' hr'
      cases hold : db.registration? id with
      | some r =>
        have hsame := (Table.lookup_append_of_some hold).symm.trans hr'
        exact Or.inr ⟨r, rfl, by rw [Option.some.inj hsame]⟩
      | none =>
        have hnew := (Table.lookup_append_of_none hold).symm.trans hr'
        have hmem := Table.lookup_mem hnew
        rw [List.mem_singleton.mp hmem]
        exact Or.inl rfl
  | cancelRegistration => exact .of_lookup hevent (cancelledDatabase_lookup _ _ _ _)

theorem eventLock_mem (hfound : (db.event? e).isSome) :
    eventLock e ∈ (selectEventForUpdate e).locks db := by
  simp [selectEventForUpdate, hfound, eventLock]

theorem registerStudent_guarded (hevent : (db.event? e).isSome) (student : User) (env : Env) :
    ∃ body, (Call.registerStudent student e env).prog settings = .transaction body ∧
      Guarded (eventLock e) (SeatOrder e) ((Call.registerStudent student e env).prog settings) db
        body := by
  refine ⟨_, rfl, .acquire ?_ ?_⟩
  · intro db' hle
    exact eventLock_mem (hle.event hevent)
  · intro db' _
    rfl

theorem cancelEvent_guarded (hevent : (db.event? e).isSome) (user : User) (env : Env) :
    ∃ body, (Call.cancelEvent user e env).prog settings = .transaction body ∧
      Guarded (eventLock e) (SeatOrder e) ((Call.cancelEvent user e env).prog settings) db
        body := by
  refine ⟨_, rfl, .acquire ?_ ?_⟩
  · intro db' hle
    exact eventLock_mem (hle.event hevent)
  · intro db' _
    rfl

/-- What the call still does after it has seen its active registration. -/
def afterLook (student : User) (regId : UUID) (env : Env) (eventId : UUID) :
    Service Registration :=
  .stmt (selectEventForUpdate eventId) fun event? =>
    match event? with
    | none => .raise (notFound "event not found")
    | some event => cancelUnderLock student regId event env

/-- The second look, under the lock, makes up for whatever happened since the first. -/
theorem afterLook_run {student : User} {regId : UUID} (env : Env) {reg : Registration}
    (hreg : db.registration? regId = some reg) (howner : reg.studentId = student.id)
    (hevent : (db.event? reg.eventId).isSome) :
    settle db ((afterLook student regId env reg.eventId).run db) =
      (cancelRegistration student regId env).run db := by
  obtain ⟨event, hfound⟩ := Option.isSome_iff_exists.mp hevent
  by_cases hactive : reg.status = .cancelled
  · simp [cancelRegistration, selectOwnRegistration, Stmt.select, hreg, filter_own howner, hactive,
      afterLook, selectEventForUpdate, hfound, cancelUnderLock, selectRegistrationForUpdate]
  · simp only [cancelRegistration, run_transaction, run_stmt, selectOwnRegistration, Stmt.select,
      hreg, filter_own howner, hactive, if_false]
    rfl

theorem cancelRegistration_guarded (hevent : (db.event? e).isSome) (student : User) (regId : UUID)
    (env : Env) (hof : ∀ r, db.registration? regId = some r → r.eventId = e) :
    ∃ body, (Call.cancelRegistration student regId env).prog settings = .transaction body ∧
      Guarded (eventLock e) (SeatOrder e)
        ((Call.cancelRegistration student regId env).prog settings) db body := by
  refine ⟨_, rfl, .look (fun _ => rfl) (fun _ _ => rfl) ?_⟩
  intro db₁ hle₁
  cases hreg : db₁.registration? regId with
  | none =>
    simp only [selectOwnRegistration, Stmt.select, hreg, Option.filter_none, bind_raise]
    apply Guarded.giveUp
    rw [Call.prog, run_map]
    simp [cancelRegistration, selectOwnRegistration, Stmt.select, hreg, Except.map]
  | some reg =>
    by_cases howner : reg.studentId = student.id
    · simp only [selectOwnRegistration, Stmt.select, hreg, filter_own howner]
      have hreg_e : reg.eventId = e := by
        rcases hle₁.born regId reg hreg with hnew | ⟨r, hr, hsame⟩
        · exact hnew
        · exact (Registration.identity_eq hsame).2.1.trans (hof r hr)
      by_cases hactive : reg.status = .cancelled
      · rw [if_pos hactive, bind_raise]
        apply Guarded.giveUp
        rw [Call.prog, run_map]
        simp [cancelRegistration, selectOwnRegistration, Stmt.select, hreg, filter_own howner,
          hactive, Except.map]
      · rw [if_neg hactive]
        refine Guarded.acquire ?_ ?_
        · intro db₂ hle₂
          rw [hreg_e]
          exact eventLock_mem (hle₂.event (hle₁.event hevent))
        · intro db₂ hle₂
          obtain ⟨reg', hreg', hsame⟩ := hle₂.kept regId reg hreg
          obtain ⟨_, hevent', hstudent'⟩ := Registration.identity_eq hsame
          have hafter := afterLook_run env hreg' (hstudent'.trans howner)
            (by rw [hevent', hreg_e]; exact hle₂.event (hle₁.event hevent))
          rw [hevent'] at hafter
          rw [Call.prog, run_map, ← hafter]
          change settle db₂ (((afterLook student regId env reg.eventId).map Response.cancelled).run db₂)
            = _
          rw [run_map]
          rcases (afterLook student regId env reg.eventId).run db₂ with ⟨v, r⟩
          cases r <;> rfl
    · have hother : (some reg).filter (fun r => decide (r.studentId = student.id)) = none := by
        simp [howner]
      simp only [selectOwnRegistration, Stmt.select, hreg, hother, bind_raise]
      apply Guarded.giveUp
      rw [Call.prog, run_map]
      simp [cancelRegistration, selectOwnRegistration, Stmt.select, hreg, hother, Except.map]

theorem singleLock {ι : Type} {calls : ι → Call} (hevent : (db₀.event? e).isSome)
    (hcalls : ∀ i, OnEvent db₀ e (calls i)) :
    SingleLock (eventLock e) (SeatOrder e) (fun i => (calls i).prog settings) db₀ where
  refl := .refl
  trans _ _ _ := .trans
  exclusive := eventLock_exclusive e
  mono i db _ := (hcalls i).seatOrder (change settings (calls i) db)
  guarded i db hle := by
    have hfound := hle.event hevent
    have hi := hcalls i
    generalize calls i = c at hi
    cases hi with
    | register student env => exact registerStudent_guarded hfound student env
    | cancelEvent user env => exact cancelEvent_guarded hfound user env
    | cancel student regId env hof =>
      refine cancelRegistration_guarded hfound student regId env ?_
      intro r hr
      rcases hle.born regId r hr with hnew | ⟨r₀, hr₀, hsame⟩
      · exact hnew
      · exact (Registration.identity_eq hsame).2.1.trans (hof r₀ hr₀)

end Calls

section Once
variable {settings : Settings} {db db' : Database} {regId : UUID}

def Spent (regId : UUID) (db : Database) : Prop :=
  ∃ r, db.registration? regId = some r ∧ r.status = .cancelled

def Call.Cancels (regId : UUID) (c : Call) : Prop :=
  ∃ student env, c = .cancelRegistration student regId env

theorem Spent.refuses (settings : Settings) {c : Call} (h : Spent regId db) (hc : c.Cancels regId) :
    ∃ err, perform settings c db = (db, .error err) := by
  obtain ⟨student, env, rfl⟩ := hc
  obtain ⟨r, hr, hcancelled⟩ := h
  rcases cancelRegistration_cases student regId env db with
    ⟨err, herr, _⟩ | ⟨reg, _, hreg, _, hactive, _⟩
  · refine ⟨err, ?_⟩
    rw [perform, Call.prog, run_map, herr]
    rfl
  · rw [Option.some.inj (hreg.symm.trans hr)] at hactive
    exact absurd hcancelled hactive

/-- A row that is not the promoted one is found after the cancellation as the cancellation itself
    left it. -/
theorem cancelledDatabase_lookup_kept (hwf : Wf db) {student : User} {event : Event}
    {reg r : Registration} {env : Env} (hr : r ∈ cancelRows reg env db.registrations)
    (hother : ∀ next, promotion db reg env = some next → r.id ≠ next.id) :
    (cancelledDatabase student event reg env db).registration? r.id = some r := by
  have hunique : Table.KeyUnique Registration.id
      (cancelledDatabase student event reg env db).registrations :=
    promoteRows_unique (cancelRows_unique reg env hwf.registrations)
  apply hunique.lookup_self
  change r ∈ promoteRows (promotion db reg env) (cancelRows reg env db.registrations)
  cases hnext : promotion db reg env with
  | none => exact hr
  | some next => exact Table.mem_update.mpr (Or.inl ⟨hr, hother next hnext⟩)

theorem Spent.step {c : Call} (h : Spent regId db) (hwf : Wf db) (hc : Change settings c db db') :
    Spent regId db' := by
  obtain ⟨r, hr, hcancelled⟩ := h
  have hmem := registration_mem hr
  have hid : r.id = regId := Table.lookup_key hr
  cases hc with
  | refused => exact ⟨r, hr, hcancelled⟩
  | createEvent => exact ⟨r, hr, hcancelled⟩
  | publishEvent => exact ⟨r, hr, hcancelled⟩
  | updateEvent => exact ⟨r, hr, hcancelled⟩
  | cancelEvent => exact ⟨r, hr, hcancelled⟩
  | registerStudent => exact ⟨r, Table.lookup_append_of_some hr, hcancelled⟩
  | @cancelRegistration student regId' env _ reg event found owner active foundEvent ahead fresh =>
    have hreg := registration_mem found
    have hne : r.id ≠ reg.id := by
      intro heq
      rw [hwf.registrations.eq_of_key hmem hreg heq] at hcancelled
      exact active hcancelled
    refine ⟨r, ?_, hcancelled⟩
    rw [← hid]
    refine cancelledDatabase_lookup_kept hwf (Table.mem_update.mpr (Or.inl ⟨hmem, hne⟩)) ?_
    intro next hnext heq
    obtain ⟨_, hnextmem, _, hwaits, _⟩ := promotion_some hwf.registrations hreg hnext
    rw [hwf.registrations.eq_of_key hmem hnextmem heq, hwaits] at hcancelled
    cases hcancelled

theorem spent_of_ok {c : Call} {response : Response} (hwf : Wf db) (hc : c.Cancels regId)
    (h : perform settings c db = (db', .ok response)) : Spent regId db' := by
  obtain ⟨student, env, rfl⟩ := hc
  rw [perform, Call.prog, run_map] at h
  rcases cancelRegistration_cases student regId env db with
    ⟨err, herr, _⟩ | ⟨reg, event, found, owner, active, foundEvent, ahead⟩
  · rw [herr] at h
    cases (Prod.mk.inj h).2
  · have hreg := registration_mem found
    have hid : reg.id = regId := Table.lookup_key found
    rcases hrun : (cancelRegistration student regId env).run db with ⟨v, r⟩
    rw [hrun] at h
    cases r with
    | error err => cases (Prod.mk.inj h).2
    | ok a =>
      have hv : v = db' := (Prod.mk.inj h).1
      rw [cancelRegistration_run found owner active foundEvent ahead] at hrun
      obtain ⟨_, hdb, _⟩ := outcome_ok hrun
      rw [← hv, hdb]
      refine ⟨reg.cancel (env.now 1), ?_, rfl⟩
      rw [← hid]
      have hmem : reg.cancel (env.now 1) ∈ cancelRows reg env db.registrations :=
        Table.mem_update.mpr (Or.inr ⟨reg, hreg, rfl, rfl⟩)
      refine cancelledDatabase_lookup_kept hwf hmem ?_
      intro next hnext heq
      obtain ⟨_, _, _, _, hne⟩ := promotion_some hwf.registrations hreg hnext
      exact hne heq.symm

variable {ι : Type} (settings) (calls : ι → Call)

theorem serial_spent (order : List ι) (hwf : Wf db) (h : Spent regId db) :
    ∀ i response, (calls i).Cancels regId →
      (i, .ok response) ∉ (serial (fun i => (calls i).prog settings) order db).2 := by
  induction order generalizing db with
  | nil => simp [serial]
  | cons j order ih =>
    intro i response hi hmem
    rcases List.mem_cons.mp hmem with hfirst | hrest
    · obtain ⟨rfl, hresponse⟩ := Prod.mk.inj hfirst
      obtain ⟨err, herr⟩ := h.refuses settings hi
      rw [perform] at herr
      rw [herr] at hresponse
      cases hresponse
    · have hchange := change settings (calls j) db
      exact ih (hchange.wf hwf) (h.step hwf hchange) i response hi hrest

/-- Among any serial calls at most one cancels a given registration successfully. -/
theorem serial_cancels_once (order : List ι) (hwf : Wf db) {i j : ι} {a b : Response}
    (hi : (calls i).Cancels regId) (hj : (calls j).Cancels regId)
    (hia : (i, .ok a) ∈ (serial (fun i => (calls i).prog settings) order db).2)
    (hjb : (j, .ok b) ∈ (serial (fun i => (calls i).prog settings) order db).2) : i = j := by
  induction order generalizing db with
  | nil => simp [serial] at hia
  | cons k order ih =>
    have hchange := change settings (calls k) db
    have hspent : ∀ response, (calls k).Cancels regId →
        ((calls k).prog settings).run db =
          (effect settings (calls k) db, .ok response) → Spent regId (effect settings (calls k) db) :=
      fun response hk hrun => spent_of_ok hwf hk hrun
    rcases List.mem_cons.mp hia with hia | hia
    · obtain ⟨rfl, ha⟩ := Prod.mk.inj hia
      have hs := hspent a hi (Prod.ext rfl ha.symm)
      rcases List.mem_cons.mp hjb with hjb | hjb
      · exact (Prod.mk.inj hjb).1.symm
      · exact absurd hjb (serial_spent settings calls order (hchange.wf hwf) hs j b hj)
    · rcases List.mem_cons.mp hjb with hjb | hjb
      · obtain ⟨rfl, hb⟩ := Prod.mk.inj hjb
        have hs := hspent b hj (Prod.ext rfl hb.symm)
        exact absurd hia (serial_spent settings calls order (hchange.wf hwf) hs i a hi)
      · exact ih (hchange.wf hwf) hia hjb

theorem serial_refused (order : List ι) (h : Spent regId db)
    (hall : ∀ i, (calls i).Cancels regId) :
    (serial (fun i => (calls i).prog settings) order db).1 = db := by
  induction order with
  | nil => rfl
  | cons k order ih =>
    obtain ⟨err, herr⟩ := h.refuses settings (hall k)
    rw [perform] at herr
    simp only [serial]
    rw [herr]
    exact ih

/-- Serial cancellations of one registration have the effect of at most one of them. -/
theorem serial_cancels_effect (order : List ι) (hwf : Wf db)
    (hall : ∀ i, (calls i).Cancels regId) :
    (serial (fun i => (calls i).prog settings) order db).1 = db ∨
      ∃ i, (serial (fun i => (calls i).prog settings) order db).1 = effect settings (calls i) db := by
  induction order with
  | nil => exact Or.inl rfl
  | cons k order ih =>
    simp only [serial]
    rcases hrun : ((calls k).prog settings).run db with ⟨db', r⟩
    have heffect : effect settings (calls k) db = db' := congrArg Prod.fst hrun
    cases r with
    | error err =>
      have hsame : db' = db := by
        rw [← heffect]
        exact perform_error (congrArg Prod.snd hrun)
      subst hsame
      exact ih
    | ok a =>
      right
      refine ⟨k, ?_⟩
      rw [heffect]
      exact serial_refused settings calls order (spent_of_ok hwf (hall k) hrun) hall

def Promoted (db db' : Database) (r : Registration) : Prop :=
  r ∈ db'.registrations ∧ r.status = .confirmed ∧
    ∃ r₀ ∈ db.registrations, r₀.id = r.id ∧ r₀.status = .waitlisted

def Database.promotionJobs (db : Database) : ℕ :=
  db.notificationJobs.countP (fun j => j.eventType = .waitlistPromoted)

def PromotesAtMostOne (db db' : Database) : Prop :=
  (∀ r s, Promoted db db' r → Promoted db db' s → r = s) ∧
    db'.promotionJobs ≤ db.promotionJobs + 1

theorem not_promoted_self (hwf : Wf db) {r : Registration} : ¬ Promoted db db r := by
  rintro ⟨hr, hconfirmed, r₀, hr₀, hid, hwaits⟩
  rw [hwf.registrations.eq_of_key hr₀ hr hid, hconfirmed] at hwaits
  cases hwaits

theorem promotesAtMostOne_refl (hwf : Wf db) : PromotesAtMostOne db db :=
  ⟨fun _ _ hr _ => absurd hr (not_promoted_self hwf), Nat.le_succ _⟩

variable {settings}

theorem Change.promotesAtMostOne {c : Call} (h : Change settings c db db') (hwf : Wf db)
    (hc : c.Cancels regId) : PromotesAtMostOne db db' := by
  obtain ⟨student, env, rfl⟩ := hc
  cases h with
  | refused => exact promotesAtMostOne_refl hwf
  | @cancelRegistration _ _ _ _ reg event found owner active foundEvent ahead fresh =>
    have hreg := registration_mem found
    have hnext : ∀ r, Promoted db (cancelledDatabase student event reg env db) r →
        ∃ next, promotion db reg env = some next ∧ r = next.confirm := by
      rintro r ⟨hr, hconfirmed, r₀, hr₀, hid, hwaits⟩
      rcases mem_cancelledDatabase hwf.registrations hreg hr with rfl | hnext | ⟨hold, _, _⟩
      · cases hconfirmed
      · exact hnext
      · rw [hwf.registrations.eq_of_key hr₀ hold hid, hconfirmed] at hwaits
        cases hwaits
    refine ⟨?_, ?_⟩
    · intro r s hr hs
      obtain ⟨next, hn, rfl⟩ := hnext r hr
      obtain ⟨next', hn', rfl⟩ := hnext s hs
      rw [Option.some.inj (hn.symm.trans hn')]
    · change (db.notificationJobs ++ cancellationJobs student event reg (promotion db reg env)
        env).countP _ ≤ db.notificationJobs.countP _ + 1
      rw [List.countP_append]
      cases promotion db reg env with
      | none => simp [cancellationJobs, registrationCancelledJob, newJob]
      | some next =>
        simp [cancellationJobs, registrationCancelledJob, waitlistPromotedJob, newJob]

end Once

section Interleavings
variable {ι : Type} [Fintype ι] [DecidableEq ι]

/-- Concurrent calls on one event never deadlock, and what they leave and answer is what they
    would in some serial order. One registration is cancelled at most once, and its concurrent
    cancellations promote at most one other. -/
theorem seat_calls_serializable (settings : Settings) (db₀ : Database) (hwf : Wf db₀) (e : UUID)
    (hevent : (db₀.event? e).isSome) (calls : ι → Call) (hcalls : ∀ i, OnEvent db₀ e (calls i))
    (S : System Database RowLock ApiError Response ι) (tr : List ι)
    (h : Run step (start (fun i => (calls i).prog settings) db₀) tr S) :
    (∀ i, ¬ Relation.TransGen (Waits S) i i) ∧
      (∀ i, (S.session i).isFinished = false → ∃ j S' os, step S j = some (S', os)) ∧
      ((∀ i, (S.session i).isFinished = true) →
        (∃ order : List ι, order.Nodup ∧ (∀ i, i ∈ order) ∧ ∃ responses,
          serial (fun i => (calls i).prog settings) order db₀ = (S.committed, responses) ∧
            ∀ i r, (i, r) ∈ responses ↔ S.session i = .finished r) ∧
        ∀ regId,
          (∀ i j a b, (calls i).Cancels regId → (calls j).Cancels regId →
            S.session i = .finished (.ok a) → S.session j = .finished (.ok b) → i = j) ∧
          ((∀ i, (calls i).Cancels regId) → PromotesAtMostOne db₀ S.committed)) := by
  obtain ⟨log, hlog⟩ := serialized_run (singleLock hevent hcalls) h
  refine ⟨hlog.no_cycle, fun i => hlog.progress, ?_⟩
  intro hall
  obtain ⟨hmem, hresponses⟩ := hlog.complete hall
  have hserial := hlog.serial
  refine ⟨⟨log.map Prod.fst, hlog.nodup, hmem, log, hserial, hresponses⟩, ?_⟩
  intro regId
  refine ⟨?_, ?_⟩
  · intro i j a b hi hj hia hjb
    apply serial_cancels_once settings calls (log.map Prod.fst) hwf hi hj
      (a := a) (b := b)
    · rw [hserial]
      exact (hresponses i _).mpr hia
    · rw [hserial]
      exact (hresponses j _).mpr hjb
  · intro hcancels
    have heffect := serial_cancels_effect settings calls (log.map Prod.fst) hwf hcancels
    rw [hserial] at heffect
    rcases heffect with hsame | ⟨i, hone⟩
    · rw [show S.committed = db₀ from hsame]
      exact promotesAtMostOne_refl hwf
    · rw [show S.committed = effect settings (calls i) db₀ from hone]
      exact (change settings (calls i) db₀).promotesAtMostOne hwf (hcancels i)

def doubleCancel (i : Fin 2) : Call :=
  .cancelRegistration alice 300 (envAt (5 + i) (500 + 100 * i))

def doubleCancelSchedule : List (Fin 2) :=
  [0, 1, 0, 1, 0, 0, 0, 0, 0, 0, 0, 0, 1, 1, 1]

theorem seat_calls_serializable_doubleCancel :
    ∃ S tr, Run step (start (fun i => (doubleCancel i).prog {}) (after (effect {}) {} oneSeatCalls))
        tr S ∧ (∀ i, (S.session i).isFinished = true) ∧
      PromotesAtMostOne (after (effect {}) {} oneSeatCalls) S.committed := by
  have hdone : ((execute step (start (fun i => (doubleCancel i).prog {})
      (after (effect {}) {} oneSeatCalls)) doubleCancelSchedule).map fun p =>
        decide (∀ i, (p.1.session i).isFinished = true)) = some true := by decide
  obtain ⟨⟨S, tr⟩, hexec, hfinished⟩ := Option.map_eq_some_iff.mp hdone
  have hrun := execute_run hexec
  have hwf : Wf (after (effect {}) {} oneSeatCalls) := after_wf {} initial_empty oneSeatCalls
  have hall : ∀ i, (S.session i).isFinished = true := of_decide_eq_true hfinished
  refine ⟨S, tr, hrun, hall, ?_⟩
  refine ((seat_calls_serializable {} _ hwf 100 (by decide) doubleCancel ?_ S tr hrun).2.2 hall).2
    300 |>.2 (fun i => ⟨alice, _, rfl⟩)
  intro i
  refine .cancel alice 300 _ ?_
  decide

end Interleavings
end Hefest
