import Hefest.Lib.Isolation
import Hefest.OutboxLog
import Hefest.Templates

set_option autoImplicit false

namespace Hefest
open Transaction

inductive ProducerCall
  | register (body : RegisterRequest) (salt : String) (env : Env)
  | call (c : Call)

def ProducerCall.prog (settings : Settings) (lib : AccountLib) : ProducerCall → Service Unit
  | .register body salt env => (Hefest.register settings lib body salt env).map fun _ => ()
  | .call c => (c.prog settings).map fun _ => ()

structure Retains (x y : Database) : Prop where
  registrations : x.registrations.map Registration.identity ⊆
    y.registrations.map Registration.identity
  users : x.users.map User.id ⊆ y.users.map User.id

theorem Retains.refl (x : Database) : Retains x x := ⟨fun _ h => h, fun _ h => h⟩

theorem Retains.trans (x y z : Database) (h : Retains x y) (h' : Retains y z) : Retains x z :=
  ⟨fun _ hr => h'.registrations (h.registrations hr), fun _ hu => h'.users (h.users hu)⟩

/-- Where the student of a job comes from: the account the job verifies, or the registration it is
    about. -/
inductive Addressed (accountJobs : Set NotificationJob) (db : Database) (j : NotificationJob)
    (studentId : UUID) : Prop
  | account (known : j ∈ accountJobs) (stored : ∃ user ∈ db.users, user.id = studentId)
  | registration (r : Registration) (stored : r ∈ db.registrations) (owner : r.studentId = studentId)
      (subject : j.payload.registrationId = some r.id)

inductive Shaped (j : NotificationJob) : Prop
  | account (type : j.eventType = .emailVerify) (scope : j.eventId = none)
      (noEvent : j.payload.eventId = none)
  | event (type : j.eventType.isEventScoped = true) (eventId : UUID)
      (scope : j.eventId = some eventId) (named : j.payload.eventId = some eventId)

structure Meant (accountJobs : Set NotificationJob) (db : Database) (j : NotificationJob) : Prop where
  addressed : ∃ studentId, j.payload.studentId = some studentId ∧
    Addressed accountJobs db j studentId
  shaped : Shaped j

def AllMeant (accountJobs : Set NotificationJob) (old : List NotificationJob) (db : Database) : Prop :=
  ∀ j ∈ db.notificationJobs, j ∈ old ∨ Meant accountJobs db j

section Writes
variable {accountJobs : Set NotificationJob} {old : List NotificationJob} {u v x y : Database}

theorem Retains.registration (h : Retains x y) {r : Registration} (hr : r ∈ x.registrations) :
    ∃ r' ∈ y.registrations, r'.identity = r.identity :=
  List.mem_map.mp (h.registrations (List.mem_map_of_mem hr))

theorem Meant.mono {j : NotificationJob} (h : Meant accountJobs x j) (hxy : Retains x y) :
    Meant accountJobs y j := by
  obtain ⟨⟨studentId, hstudent, haddressed⟩, hshaped⟩ := h
  refine ⟨⟨studentId, hstudent, ?_⟩, hshaped⟩
  cases haddressed with
  | account known stored =>
    obtain ⟨user, huser, hid⟩ := stored
    exact .account known (List.mem_map.mp (hxy.users (List.mem_map.mpr ⟨user, huser, hid⟩)))
  | registration r stored owner subject =>
    obtain ⟨r', hr', hsame⟩ := hxy.registration stored
    obtain ⟨hid, _, hstudentId⟩ := Registration.identity_eq hsame
    exact .registration r' hr' (hstudentId.trans owner) (by rw [hid]; exact subject)

structure Neutral (w : Database → Database) : Prop where
  registrations : ∀ x, (w x).registrations.map Registration.identity =
    x.registrations.map Registration.identity
  users : ∀ x, (w x).users = x.users
  jobs : ∀ x, (w x).notificationJobs = x.notificationJobs

theorem Neutral.retains {w : Database → Database} (h : Neutral w) (x : Database) :
    Retains x (w x) where
  registrations := by rw [h.registrations]; exact fun _ hr => hr
  users := by rw [h.users]; exact fun _ hu => hu

theorem Neutral.replays {w : Database → Database} (h : Neutral w) :
    Replays Retains (AllMeant accountJobs old) u w where
  grows x _ _ := h.retains x
  ok x _ hx := by
    intro j hj
    rw [h.jobs] at hj
    rcases hx j hj with hold | hmeant
    · exact Or.inl hold
    · exact Or.inr (hmeant.mono (h.retains x))
  mono x y _ hxy := by
    refine ⟨?_, ?_⟩
    · rw [h.registrations, h.registrations]
      exact hxy.registrations
    · rw [h.users, h.users]
      exact hxy.users

theorem neutral_id : Neutral fun x => x := ⟨fun _ => rfl, fun _ => rfl, fun _ => rfl⟩

theorem neutral_saveEvent (id : UUID) (set : Event → Event) (seen : Database) :
    Neutral ((saveEvent id set).write seen) := ⟨fun _ => rfl, fun _ => rfl, fun _ => rfl⟩

theorem neutral_saveRegistration (id : UUID) {set : Registration → Registration}
    (hset : ∀ r, (set r).identity = r.identity) (seen : Database) :
    Neutral ((saveRegistration id set).write seen) where
  registrations _ := Table.map_update _ hset
  users _ := rfl
  jobs _ := rfl

theorem neutral_insertEvent (event : Event) (seen : Database) :
    Neutral ((insertEvent event).write seen) := by
  refine ⟨?_, ?_, ?_⟩ <;>
  · intro x
    simp only [insertEvent]
    split_ifs <;> rfl

theorem replays_grow {w : Database → Database}
    (hrows : ∃ rows, ∀ x, (w x).registrations = x.registrations ++ rows)
    (husers : ∃ rows, ∀ x, (w x).users = x.users ++ rows)
    (hjobs : ∀ x, (w x).notificationJobs = x.notificationJobs) :
    Replays Retains (AllMeant accountJobs old) u w := by
  obtain ⟨rows, hrows⟩ := hrows
  obtain ⟨users, husers⟩ := husers
  have hgrow : ∀ x, Retains x (w x) := by
    intro x
    refine ⟨?_, ?_⟩
    · rw [hrows, List.map_append]
      exact List.subset_append_left _ _
    · rw [husers, List.map_append]
      exact List.subset_append_left _ _
  refine ⟨fun x _ _ => hgrow x, ?_, ?_⟩
  · intro x _ hx j hj
    rw [hjobs] at hj
    rcases hx j hj with hold | hmeant
    · exact Or.inl hold
    · exact Or.inr (hmeant.mono (hgrow x))
  · intro x y _ hxy
    refine ⟨?_, ?_⟩
    · rw [hrows, hrows, List.map_append, List.map_append]
      exact List.append_subset.mpr ⟨List.subset_append_of_subset_left _ hxy.registrations,
        List.subset_append_right _ _⟩
    · rw [husers, husers, List.map_append, List.map_append]
      exact List.append_subset.mpr ⟨List.subset_append_of_subset_left _ hxy.users,
        List.subset_append_right _ _⟩

theorem replays_insertJobs {jobs : List NotificationJob}
    (h : ∀ j ∈ jobs, Meant accountJobs u j) :
    Replays Retains (AllMeant accountJobs old) u ((insertJobs jobs).write u) := by
  simp only [insertJobs]
  by_cases hfresh : jobsViolation u.notificationJobs jobs = none
  · simp only [if_pos hfresh]
    have hrows : ∀ x : Database,
        Retains x { x with notificationJobs := x.notificationJobs ++ jobs } :=
      fun x => ⟨fun _ hr => hr, fun _ hu => hu⟩
    refine ⟨fun x _ _ => hrows x, ?_, fun x y _ hxy => ⟨hxy.registrations, hxy.users⟩⟩
    intro x hux hx j hj
    rcases List.mem_append.mp hj with hj | hj
    · rcases hx j hj with hold | hmeant
      · exact Or.inl hold
      · exact Or.inr (hmeant.mono (hrows x))
    · exact Or.inr (((h j hj).mono hux).mono (hrows x))
  · simp only [if_neg hfresh]
    exact neutral_id.replays

end Writes

section Services
variable {α : Type} {accountJobs : Set NotificationJob} {old : List NotificationJob} {v : Database}

variable (accountJobs old) in
/-- Whatever other calls commit in between, the program inserts only jobs meant for somebody. -/
def KeepsContract (p : Service α) (v : Database) : Prop :=
  p.Keeps Retains (AllMeant accountJobs old) v

theorem KeepsContract.mono {p : Service α} {u : Database} (h : KeepsContract accountJobs old p v)
    (hvu : Retains v u) : KeepsContract accountJobs old p u :=
  Prog.Keeps.mono Retains.trans h hvu

theorem keeps_neutral {ρ : Type} {s : Query ρ} {k : ρ → Service α}
    (hs : ∀ seen, Neutral (s.write seen))
    (hk : ∀ u, Retains v u → KeepsContract accountJobs old (k (s.result u)) u) :
    KeepsContract accountJobs old (.stmt s k) v := by
  intro u hu _
  exact ⟨(hs u).replays, (hk u hu).mono ((hs u).retains u)⟩

theorem keeps_findEvent {s : Query (Option Event)} {k : Option Event → Service α}
    (hs : ∀ seen, Neutral (s.write seen)) (hnone : ∃ e, k none = .raise e)
    (hsome : ∀ u event, KeepsContract accountJobs old (k (some event)) u) :
    KeepsContract accountJobs old (.stmt s k) v := by
  refine keeps_neutral hs ?_
  intro u _
  cases s.result u with
  | none =>
    obtain ⟨e, he⟩ := hnone
    rw [he]
    trivial
  | some event => exact hsome u event

theorem keeps_createJobs {jobs : List NotificationJob} {next : Service α}
    (hjobs : ∀ j ∈ jobs, Meant accountJobs v j) (hnext : KeepsContract accountJobs old next v) :
    KeepsContract accountJobs old (createJobs jobs next) v := by
  intro u hu hok
  have hwrite : Replays Retains (AllMeant accountJobs old) u ((insertJobs jobs).write u) :=
    replays_insertJobs fun j hj => (hjobs j hj).mono hu
  refine ⟨hwrite, ?_⟩
  cases (insertJobs jobs).result u with
  | some violated => trivial
  | none => exact hnext.mono (hu.trans _ _ _ (hwrite.grows u (Retains.refl u) hok))

theorem keeps_register (settings : Settings) (lib : AccountLib) (body : RegisterRequest)
    (salt : String) (env : Env)
    (hjob : ∀ hash, hashPassword lib body.password salt = .ok hash →
      emailVerifyJob env (registeredUser body env hash) ∈ accountJobs) :
    KeepsContract accountJobs old (register settings lib body salt env) v := by
  refine keeps_neutral (fun _ => neutral_id) ?_
  intro u _
  cases (existsUserWithEmail body.email).result u with
  | true => trivial
  | false =>
    change KeepsContract accountJobs old (registerInTransaction settings lib body salt env) _
    unfold registerInTransaction
    cases hhash : hashPassword lib body.password salt with
    | error message => trivial
    | ok hash =>
      intro u' _ _
      by_cases hfree : userViolation u' (registeredUser body env hash) = none
      · refine ⟨?_, ?_⟩
        · simp only [insertUser, if_pos hfree]
          exact replays_grow ⟨[], fun x => (List.append_nil _).symm⟩ ⟨_, fun _ => rfl⟩ fun _ => rfl
        · simp only [insertUser, if_pos hfree]
          rw [hfree]
          refine keeps_createJobs ?_ trivial
          intro j hj
          rw [List.mem_singleton.mp hj]
          refine ⟨⟨_, rfl, .account (hjob hash hhash) ?_⟩, .account rfl rfl rfl⟩
          exact ⟨_, List.mem_append_right _ (List.mem_singleton_self _), rfl⟩
      · obtain ⟨violated, hviolated⟩ := Option.ne_none_iff_exists'.mp hfree
        refine ⟨?_, ?_⟩
        · simp only [insertUser, if_neg hfree]
          exact neutral_id.replays
        · simp only [insertUser, hviolated]
          trivial

theorem keeps_transaction {p : Service α} (h : KeepsContract accountJobs old p v) :
    KeepsContract accountJobs old (.transaction p) v := h

theorem keeps_insertRegistration {reg : Registration} {k : Option Constraint → Service α}
    (hrefused : ∀ violated u, KeepsContract accountJobs old (k (some violated)) u)
    (hnew : ∀ u : Database, reg ∈ u.registrations → KeepsContract accountJobs old (k none) u) :
    KeepsContract accountJobs old (.stmt (insertRegistration reg) k) v := by
  intro u _ _
  by_cases hfree : registrationViolation u reg = none
  · refine ⟨?_, ?_⟩
    · simp only [insertRegistration, if_pos hfree]
      exact replays_grow ⟨_, fun _ => rfl⟩ ⟨[], fun x => (List.append_nil _).symm⟩ fun _ => rfl
    · simp only [insertRegistration, if_pos hfree]
      rw [hfree]
      exact hnew _ (List.mem_append_right _ (List.mem_singleton_self _))
  · obtain ⟨violated, hviolated⟩ := Option.ne_none_iff_exists'.mp hfree
    refine ⟨?_, ?_⟩
    · simp only [insertRegistration, if_neg hfree]
      exact neutral_id.replays
    · simp only [insertRegistration, hviolated]
      exact hrefused violated _

theorem meant_registrationJob {student : User} {event : Event} {eventId : UUID}
    {status : RegistrationStatus} {eventType : EventType} {position : Option ℕ} {env : Env}
    (hreg : newRegistration student eventId status env ∈ v.registrations)
    (htype : eventType.isEventScoped = true) :
    Meant accountJobs v (registrationJob student event eventId eventType position env) where
  addressed := ⟨student.id, rfl, .registration _ hreg rfl rfl⟩
  shaped := .event htype eventId rfl rfl

theorem keeps_registerStudent (student : User) (eventId : UUID) (env : Env) :
    KeepsContract accountJobs old (registerStudent student eventId env) v := by
  refine keeps_transaction (keeps_findEvent (fun _ => neutral_id) ⟨_, rfl⟩ ?_)
  intro u event
  simp only
  split_ifs
  · trivial
  · refine keeps_neutral (fun _ => neutral_id) ?_
    intro u₁ _
    unfold allocateSeat
    split_ifs
    · refine keeps_insertRegistration (fun _ _ => trivial) ?_
      intro u₂ hreg
      refine keeps_createJobs ?_ trivial
      intro j hj
      rw [List.mem_singleton.mp hj]
      exact meant_registrationJob hreg rfl
    · refine keeps_neutral (fun _ => neutral_id) ?_
      intro u₂ _
      refine keeps_insertRegistration (fun _ _ => trivial) ?_
      intro u₃ hreg
      refine keeps_createJobs ?_ trivial
      intro j hj
      rw [List.mem_singleton.mp hj]
      exact meant_registrationJob hreg rfl

theorem keeps_promoteNext {event : Event} {eventId : UUID} {env : Env} {k : Service α}
    (hk : KeepsContract accountJobs old k v) :
    KeepsContract accountJobs old (promoteNext event eventId env k) v := by
  refine keeps_neutral (fun _ => neutral_id) ?_
  intro u hu
  cases hnext : (selectNextWaitlisted eventId).result u with
  | none => exact hk.mono hu
  | some next =>
    have hmem : next ∈ u.registrations :=
      (mem_waitlist.mp (Table.first_mem Registration.fifo hnext)).1
    refine keeps_neutral (neutral_saveRegistration next.id fun _ => rfl) ?_
    intro u₁ hu₁
    obtain ⟨r, hr, hsame⟩ := hu₁.registration hmem
    obtain ⟨hid, _, hstudent⟩ := Registration.identity_eq hsame
    refine keeps_createJobs ?_ (hk.mono (hu.trans _ _ _ hu₁))
    intro j hj
    rw [List.mem_singleton.mp hj]
    refine ⟨⟨next.studentId, rfl, .registration r hr hstudent ?_⟩, .event rfl eventId rfl rfl⟩
    rw [hid]
    rfl

/-- The caller owns the row found first, and the row read again under the lock has its id. -/
theorem keeps_cancelUnderLock {student : User} {regId : UUID} {event : Event} {env : Env}
    (howned : ∃ r ∈ v.registrations, r.id = regId ∧ r.studentId = student.id) :
    KeepsContract accountJobs old (cancelUnderLock student regId event env) v := by
  obtain ⟨own, hown, hid, hstudent⟩ := howned
  refine keeps_neutral (fun _ => neutral_id) ?_
  intro u hu
  cases hreg : (selectRegistrationForUpdate regId).result u with
  | none => trivial
  | some reg =>
    have hregId : reg.id = regId := Table.lookup_key hreg
    simp only
    split_ifs with hcancelled hstarted hconfirmed
    · trivial
    · trivial
    all_goals
      refine keeps_neutral (neutral_saveRegistration reg.id fun _ => rfl) ?_
      intro u₁ hu₁
      obtain ⟨r, hr, hsame⟩ := (hu.trans _ _ _ hu₁).registration hown
      obtain ⟨hid', _, hstudent'⟩ := Registration.identity_eq hsame
      have hfinish : KeepsContract accountJobs old
          (createJobs [registrationCancelledJob student reg env] (.ret (reg.cancel (env.now 1)))) u₁ := by
        refine keeps_createJobs ?_ trivial
        intro j hj
        rw [List.mem_singleton.mp hj]
        refine ⟨⟨student.id, rfl, .registration r hr (hstudent'.trans hstudent) ?_⟩,
          .event rfl reg.eventId rfl rfl⟩
        rw [hid', hid, ← hregId]
        rfl
    · exact keeps_promoteNext hfinish
    · exact hfinish

theorem keeps_cancelRegistration (student : User) (regId : UUID) (env : Env) :
    KeepsContract accountJobs old (cancelRegistration student regId env) v := by
  refine keeps_transaction (keeps_neutral (fun _ => neutral_id) ?_)
  intro u _
  cases hreg : (selectOwnRegistration regId student.id).result u with
  | none => trivial
  | some reg =>
    obtain ⟨hfound, howner⟩ := Option.filter_eq_some_iff.mp hreg
    simp only
    split_ifs
    · trivial
    · refine keeps_neutral (fun _ => neutral_id) ?_
      intro u₁ hu₁
      cases (selectEventForUpdate reg.eventId).result u₁ with
      | none => trivial
      | some event =>
        obtain ⟨r, hr, hsame⟩ := hu₁.registration (registration_mem hfound)
        obtain ⟨hid, _, hstudent⟩ := Registration.identity_eq hsame
        refine keeps_cancelUnderLock ⟨r, hr, hid.trans (Table.lookup_key hfound), ?_⟩
        exact hstudent.trans (of_decide_eq_true howner)

theorem keeps_createEvent (organizer : User) (data : EventCreateRequest) (env : Env) :
    KeepsContract accountJobs old (createEvent organizer data env) v := by
  unfold createEvent
  split_ifs
  · refine keeps_neutral (neutral_insertEvent _) ?_
    intro u _
    cases (insertEvent (newEvent organizer data env)).result u <;> trivial
  · trivial

theorem keeps_publishEvent (user : User) (eventId : UUID) (env : Env) :
    KeepsContract accountJobs old (publishEvent user eventId env) v := by
  refine keeps_findEvent (fun _ => neutral_id) ⟨_, rfl⟩ ?_
  intro u event
  simp only
  split_ifs
  · trivial
  · trivial
  · exact keeps_neutral (neutral_saveEvent eventId _) fun _ _ => trivial

theorem keeps_updateEvent (settings : Settings) (user : User) (eventId : UUID)
    (data : EventUpdateRequest) (env : Env) :
    KeepsContract accountJobs old (updateEvent settings user eventId data env) v := by
  refine keeps_findEvent (fun _ => neutral_id) ⟨_, rfl⟩ ?_
  intro u event
  simp only
  split_ifs
  · trivial
  · trivial
  · trivial
  · trivial
  · exact keeps_neutral (neutral_saveEvent eventId _) fun _ _ => trivial
  · trivial

theorem keeps_cancelEvent (user : User) (eventId : UUID) (env : Env) :
    KeepsContract accountJobs old (cancelEvent user eventId env) v := by
  refine keeps_transaction (keeps_findEvent (fun _ => neutral_id) ⟨_, rfl⟩ ?_)
  intro u event
  simp only
  split_ifs
  · trivial
  · trivial
  · trivial
  · refine keeps_neutral (neutral_saveEvent eventId _) ?_
    intro u₁ _
    refine keeps_neutral (fun _ => neutral_id) ?_
    intro u₂ _
    split_ifs
    · trivial
    · refine keeps_createJobs ?_ trivial
      intro j hj
      obtain ⟨r, hr, i, rfl⟩ := mem_eventCancelledJobs hj
      have hmem : r ∈ u₂.registrations := (mem_activeRegistrations.mp hr).1
      exact ⟨⟨r.studentId, rfl, .registration r hmem rfl rfl⟩, .event rfl eventId rfl rfl⟩

theorem keeps_call (settings : Settings) (c : Call) :
    KeepsContract accountJobs old (c.prog settings) v := by
  cases c with
  | createEvent => exact Prog.Keeps.map (keeps_createEvent _ _ _) _
  | publishEvent => exact Prog.Keeps.map (keeps_publishEvent _ _ _) _
  | updateEvent => exact Prog.Keeps.map (keeps_updateEvent _ _ _ _ _) _
  | cancelEvent => exact Prog.Keeps.map (keeps_cancelEvent _ _ _) _
  | registerStudent => exact Prog.Keeps.map (keeps_registerStudent _ _ _) _
  | cancelRegistration => exact Prog.Keeps.map (keeps_cancelRegistration _ _ _) _

end Services

section Delivery
variable {accountJobs : Set NotificationJob} {db users events : Database} {j : NotificationJob}

/-- A job of the right shape is loaded and rendered while its user and its event exist. -/
theorem Shaped.prepare (h : Shaped j) (settings : Settings) (lib : AccountLib) (now : Time)
    {job : ClaimedJob} (htype : job.eventType = j.eventType) (hpayload : job.payload = j.payload)
    {studentId : UUID} {user : User} (hstudent : j.payload.studentId = some studentId)
    (huser : users.user? studentId = some user)
    (hevent : ∀ eventId, j.payload.eventId = some eventId → (events.event? eventId).isSome) :
    ∃ recipient content,
      prepare settings lib users events now job = .ok (recipient, content) ∧
      recipient.user = user ∧
      (j.eventId.isSome → ∃ push,
        PushTemplates.render job.eventType recipient.event job.payload = .ok push) := by
  cases h with
  | account type scope noEvent =>
    have hload : Recipients.load users events job.payload = .ok ⟨user, none⟩ :=
      load_account (by rw [hpayload]; exact hstudent) huser (by rw [hpayload]; exact noEvent)
    obtain ⟨content, hcontent⟩ := render_account settings lib now user none job.payload
    refine ⟨⟨user, none⟩, content, prepare_of_load hload ?_, rfl, ?_⟩
    · rw [htype, type]
      exact hcontent
    · intro hscope
      rw [scope] at hscope
      cases hscope
  | event type eventId scope named =>
    obtain ⟨event, hfound⟩ := Option.isSome_iff_exists.mp (hevent eventId named)
    have hload : Recipients.load users events job.payload = .ok ⟨user, some event⟩ :=
      load_event (by rw [hpayload]; exact hstudent) huser (by rw [hpayload]; exact named) hfound
    obtain ⟨content, hcontent⟩ := render_event type user event job.payload
      (verifyLink settings lib j.eventType user now)
    refine ⟨⟨user, some event⟩, content, prepare_of_load hload ?_, rfl, ?_⟩
    · rw [htype]
      exact hcontent
    · intro _
      rw [htype]
      exact render_push type event job.payload

end Delivery

def verifyJobs {ι : Type} (lib : AccountLib) (calls : ι → ProducerCall) : Set NotificationJob :=
  {j | ∃ i body salt env hash, calls i = .register body salt env ∧
    hashPassword lib body.password salt = .ok hash ∧ j = emailVerifyJob env (registeredUser body env hash)}

theorem keeps_producer {ι : Type} (settings : Settings) (lib : AccountLib)
    (calls : ι → ProducerCall) (old : List NotificationJob) (db : Database) (i : ι) :
    KeepsContract (verifyJobs lib calls) old ((calls i).prog settings lib) db := by
  cases hcall : calls i with
  | register body salt env =>
    have hjob : ∀ hash, hashPassword lib body.password salt = .ok hash →
        emailVerifyJob env (registeredUser body env hash) ∈ verifyJobs lib calls := by
      intro hash hhash
      exact ⟨i, body, salt, env, hash, hcall, hhash, rfl⟩
    exact Prog.Keeps.map (keeps_register settings lib body salt env hjob) _
  | call c => exact Prog.Keeps.map (keeps_call settings c) _

/-- Whatever interleaving of calls inserted the job, once its user and its event are found it is
    loaded and rendered, as an e-mail and if event-scoped as a push notification, for the student
    who owns the registration or for the new account. -/
theorem producer_consumer_agree {ι : Type} [Fintype ι] [DecidableEq ι] (settings : Settings)
    (lib : AccountLib) (db₀ : Database) (calls : ι → ProducerCall)
    {S : System Database RowLock ApiError Unit ι} {tr : List ι}
    (hrun : Transition.Run step (start (fun i => (calls i).prog settings lib) db₀) tr S)
    (j : NotificationJob) (hj : j ∈ S.committed.notificationJobs)
    (hnew : j ∉ db₀.notificationJobs) :
    ∃ studentId, j.payload.studentId = some studentId ∧
      Addressed (verifyJobs lib calls) S.committed j studentId ∧
      ∀ (job : ClaimedJob) (users events : Database) (now : Time) (user : User),
        job.eventType = j.eventType → job.payload = j.payload →
        users.user? studentId = some user →
        (∀ eventId, j.payload.eventId = some eventId → (events.event? eventId).isSome) →
        ∃ recipient content,
          prepare settings lib users events now job = .ok (recipient, content) ∧
          recipient.user = user ∧
          (j.eventId.isSome → ∃ push,
            PushTemplates.render job.eventType recipient.event job.payload = .ok push) := by
  have hstart : AllMeant (verifyJobs lib calls) db₀.notificationJobs db₀ := fun _ hold => Or.inl hold
  obtain ⟨_, hmeant, _⟩ := keeps_run Retains.refl Retains.trans hstart
    (keeps_producer settings lib calls db₀.notificationJobs db₀) hrun
  rcases hmeant j hj with hold | ⟨⟨studentId, hstudent, haddressed⟩, hshaped⟩
  · exact absurd hold hnew
  · refine ⟨studentId, hstudent, haddressed, ?_⟩
    intro job users events now user htype hpayload huser hevent
    exact hshaped.prepare settings lib now htype hpayload hstudent huser hevent

section TwoProducers

def openEvent : Database :=
  { Transition.after (effect {}) {} (oneSeatCalls.take 2) with users := [alice] }

def danaBody : RegisterRequest where
  email := "dana@school.example"
  password := "correct horse battery"
  fullName := "Dana"
  password_length := by decide

def twoProducers : Fin 2 → ProducerCall
  | 0 => .register danaBody "salt" (envAt 3 700)
  | 1 => .call (.registerStudent alice 100 (envAt 4 800))

def twoProducersStart : System Database RowLock ApiError Unit (Fin 2) :=
  start (fun i => (twoProducers i).prog {} plainAccounts) openEvent

theorem producer_consumer_agree_twoProducers :
    ∃ (S : System Database RowLock ApiError Unit (Fin 2)) (tr : List (Fin 2)),
      Transition.Run step twoProducersStart tr S ∧ S.committed.notificationJobs.length = 2 ∧
      ∀ j ∈ S.committed.notificationJobs, ∃ recipient content,
        prepare {} plainAccounts S.committed S.committed (seconds 9) j.claimed =
          .ok (recipient, content) := by
  have hrun : (Transition.execute step twoProducersStart [0, 1, 0, 1, 0, 1, 0, 1, 0, 1, 1]).map
      (fun p => decide (p.1.committed.notificationJobs.length = 2 ∧
        ∀ j ∈ p.1.committed.notificationJobs,
          (j.payload.studentId.bind p.1.committed.user?).isSome = true ∧
          (j.payload.eventId.all fun id => (p.1.committed.event? id).isSome) = true)) = some true := by
    decide +kernel
  obtain ⟨S, tr, h, hend⟩ := Transition.execute_map hrun
  obtain ⟨hlength, hfound⟩ := of_decide_eq_true hend
  refine ⟨S, tr, h, hlength, ?_⟩
  intro j hj
  obtain ⟨huser, hevent⟩ := hfound j hj
  obtain ⟨studentId, hstudent, _, hdeliver⟩ := producer_consumer_agree {} plainAccounts openEvent
    twoProducers h j hj (by intro hold; cases hold)
  rw [hstudent] at huser
  obtain ⟨user, huser⟩ := Option.isSome_iff_exists.mp huser
  obtain ⟨recipient, content, hprepare, _⟩ := hdeliver j.claimed S.committed S.committed (seconds 9)
    user rfl rfl huser (by intro id hid; rw [hid] at hevent; exact hevent)
  exact ⟨recipient, content, hprepare⟩

end TwoProducers
end Hefest
