import Hefest.Site

set_option autoImplicit false

namespace Hefest
open Transition Recipients Templates

structure Grows (x y : Database) : Prop where
  users : x.users.map User.account <+: y.users.map User.account
  messages : x.notificationJobs.map NotificationJob.message <+:
    y.notificationJobs.map NotificationJob.message

theorem Grows.refl (x : Database) : Grows x x := ⟨List.prefix_rfl, List.prefix_rfl⟩

theorem ApiChange.grows {settings : Settings} {accounts : AccountLib} {db db' : Database}
    {c : ApiCall} (h : ApiChange settings accounts db c db') : Grows db db' where
  users := h.users
  messages := by
    obtain ⟨jobs, happend, _, _⟩ := h.enqueues
    rw [happend, List.map_append]
    exact List.prefix_append _ _

section Growth
variable {x y : Database}

theorem user?_account (db : Database) (id : UUID) :
    (db.user? id).map User.account =
      Table.lookup (fun a : UUID × String × UserRole => a.1) id (db.users.map User.account) :=
  (Table.lookup_map User.account (by intro u; rfl) id db.users).symm

theorem Grows.user? (h : Grows x y) {id : UUID} {user : User} (huser : x.user? id = some user) :
    ∃ user', y.user? id = some user' ∧ user'.account = user.account := by
  have hbefore : Table.lookup (fun a : UUID × String × UserRole => a.1) id
      (x.users.map User.account) = some user.account := by
    rw [← user?_account, huser]
    rfl
  obtain ⟨more, hmore⟩ := h.users
  have hafter := Table.lookup_append_of_some hbefore (u := more)
  rw [hmore, ← user?_account] at hafter
  exact Option.map_eq_some_iff.mp hafter

theorem Grows.job (h : Grows x y) {j : NotificationJob} (hj : j ∈ x.notificationJobs) :
    ∃ j' ∈ y.notificationJobs, j'.message = j.message :=
  List.mem_map.mp (h.messages.subset (List.mem_map_of_mem hj))

def StudentOf (db : Database) (j : NotificationJob) (user : User) : Prop :=
  j.payload.studentId = some user.id ∧
    ∃ stored, db.user? user.id = some stored ∧ stored.account = user.account

theorem StudentOf.mono {j j' : NotificationJob} {user : User} (h : StudentOf x j user)
    (hxy : Grows x y) (hsame : j'.message = j.message) : StudentOf y j' user := by
  obtain ⟨hstudent, stored, hstored, haccount⟩ := h
  obtain ⟨stored', hstored', haccount'⟩ := hxy.user? hstored
  obtain ⟨_, _, _, hpayload, _⟩ := Message.mk.inj hsame
  exact ⟨by rw [hpayload]; exact hstudent, stored', hstored', haccount'.trans haccount⟩

inductive MailOf (settings : Settings) (accounts : AccountLib) (db : Database) (j : NotificationJob)
    (m : Mail) : Prop
  | rendered (user : User) (event : Option Event) (now : Time) (student : StudentOf db j user)
      (address : m.address = user.email) (about : event.map Event.id = j.payload.eventId)
      (content : render j.eventType user event j.payload
        (verifyLink settings accounts j.eventType user now) = .ok m.content)

theorem MailOf.mono {settings : Settings} {accounts : AccountLib} {j j' : NotificationJob}
    {m : Mail} (h : MailOf settings accounts x j m) (hxy : Grows x y)
    (hsame : j'.message = j.message) :
    MailOf settings accounts y j' m := by
  cases h with
  | rendered user event now student address about content =>
    refine .rendered user event now (student.mono hxy hsame) address ?_ ?_
    all_goals
      obtain ⟨_, _, htype, hpayload, _⟩ := Message.mk.inj hsame
      rw [hpayload]
    · exact about
    · rw [htype]
      exact content

end Growth

theorem Replay.scoped {log : List EventType} {status : RegistrationStatus} {told : Bool}
    (h : Replay log status told) : ∀ type ∈ log, type.isEventScoped = true := by
  induction h with
  | seated => decide
  | queued => decide
  | promoted _ ih =>
    intro type htype
    rcases List.mem_append.mp htype with hold | hnew
    · exact ih type hold
    · rw [List.mem_singleton.mp hnew]
      rfl
  | cancelled _ _ ih =>
    intro type htype
    rcases List.mem_append.mp htype with hold | hnew
    · exact ih type hold
    · rw [List.mem_singleton.mp hnew]
      rfl
  | announced _ _ ih =>
    intro type htype
    rcases List.mem_append.mp htype with hold | hnew
    · exact ih type hold
    · rw [List.mem_singleton.mp hnew]
      rfl

/-- A load that succeeds has read the student and the event that the payload names. -/
theorem prepare_ok {settings : Settings} {accounts : AccountLib} {users events : Database}
    {now : Time} {job : ClaimedJob} {recipient : Recipient} {content : EmailContent}
    (h : prepare settings accounts users events now job = .ok (recipient, content)) :
    recipient.event.map Event.id = job.payload.eventId ∧
      render job.eventType recipient.user recipient.event job.payload
        (verifyLink settings accounts job.eventType recipient.user now) = .ok content := by
  unfold prepare at h
  cases hload : load users events job.payload with
  | error failure =>
    rw [hload] at h
    cases h
  | ok found =>
    rw [hload] at h
    change (render job.eventType found.user found.event job.payload
      (verifyLink settings accounts job.eventType found.user now)).bind _ = _ at h
    cases hrender : render job.eventType found.user found.event job.payload
        (verifyLink settings accounts job.eventType found.user now) with
    | error failure =>
      rw [hrender] at h
      cases h
    | ok rendered =>
      rw [hrender] at h
      cases h
      refine ⟨?_, hrender⟩
      unfold load at hload
      split at hload
      · cases hload
      · split at hload
        · cases hload
        · split at hload
          · rename_i hnone
            cases hload
            rw [hnone]
            rfl
          · rename_i eventId hsome
            split at hload
            · cases hload
            · rename_i event hevent
              cases hload
              rw [hsome]
              exact congrArg some (Table.lookup_key hevent)

structure VerifiesStored (db : Database) (j : NotificationJob) : Prop where
  type : j.eventType = .emailVerify
  scope : j.eventId = none
  noEvent : j.payload.eventId = none
  student : ∃ studentId, j.payload.studentId = some studentId ∧ (db.user? studentId).isSome

structure Site.Ok (S : Site) : Prop where
  log : OutboxLog S.db
  ids : Table.KeyUnique NotificationJob.id S.db.notificationJobs
  students : ∀ r ∈ S.db.registrations, (S.db.user? r.studentId).isSome
  verifications : ∀ j ∈ S.db.notificationJobs, j.payload.registrationId = none →
    VerifiesStored S.db j
  copies : ∀ w, ∀ task ∈ (S.worker w).tasks, ∃ j ∈ S.db.notificationJobs, task.job.CopyOf j
  read : ∀ w id users, S.read w id = some users → ∃ j ∈ S.db.notificationJobs, j.id = id ∧
    ∃ user, users.user? user.id = some user ∧ StudentOf S.db j user

section Loads
variable {S : Site}

theorem Site.Ok.shaped (h : S.Ok) {j : NotificationJob} (hj : j ∈ S.db.notificationJobs) :
    Shaped j ∧ (∃ user, j.payload.studentId = some user.id ∧ S.db.user? user.id = some user) ∧
      ∀ eventId, j.payload.eventId = some eventId → (S.db.event? eventId).isSome := by
  rcases h.log.jobs j hj with ⟨hnone, _⟩ | ⟨r, hr, habout⟩
  · obtain ⟨htype, hscope, hevent, studentId, hstudent, hsome⟩ := h.verifications j hj hnone
    obtain ⟨stored, hstored⟩ := Option.isSome_iff_exists.mp hsome
    have hid : stored.id = studentId := user?_id hstored
    refine ⟨.account htype hscope hevent, ⟨stored, ?_, ?_⟩, ?_⟩
    · rw [hid]
      exact hstudent
    · rw [hid]
      exact hstored
    · intro eventId hsome
      rw [hevent] at hsome
      cases hsome
  · obtain ⟨hsubject, _, hscope, hevent, hstudent⟩ := habout
    obtain ⟨told, hreplay, _⟩ := h.log.logs r hr
    obtain ⟨stored, hstored⟩ := Option.isSome_iff_exists.mp (h.students r hr)
    have hid : stored.id = r.studentId := user?_id hstored
    refine ⟨.event (hreplay.scoped _ (mem_logOf hj hsubject)) r.eventId hscope hevent,
      ⟨stored, ?_, ?_⟩, ?_⟩
    · rw [hid]
      exact hstudent
    · rw [hid]
      exact hstored
    · intro eventId hsome
      rw [hevent] at hsome
      rw [← Option.some.inj hsome]
      exact h.log.wf.eventOf r hr

/-- A load raises none of its errors, nor does the rendering of a push notification, and what is
    sent goes to the student of the job. -/
theorem Site.Ok.prepares (h : S.Ok) (settings : Settings) (accounts : AccountLib) {w : WorkerId}
    {id : UUID} {task : Task} {users : Database} (htask : (S.worker w).task? id = some task)
    (hread : S.read w id = some users) (now : Time) :
    ∃ recipient content,
      prepare settings accounts users S.db now task.job = .ok (recipient, content) ∧
      (recipient.event.isSome → ∃ push,
        PushTemplates.render task.job.eventType recipient.event task.job.payload = .ok push) ∧
      ∃ j ∈ S.db.notificationJobs, j.id = id ∧ MailOf settings accounts S.db j
        ⟨id, task.job.attempts, recipient.user.email, content⟩ := by
  obtain ⟨j, hj, hid, htype, hpayload⟩ := h.copies w task (Table.lookup_mem htask)
  obtain ⟨j', hj', hid', user, huser, hstudent⟩ := h.read w id users hread
  have htaskId : task.jobId = id := Table.lookup_key htask
  have hjob : j.id = id := hid.symm.trans htaskId
  obtain rfl : j' = j := h.ids.eq_of_key hj' hj (hid'.trans hjob.symm)
  obtain ⟨hshaped, _, hevent⟩ := h.shaped hj
  obtain ⟨recipient, content, hprepare, rfl, hpush⟩ :=
    hshaped.prepare settings accounts now htype hpayload hstudent.1 huser hevent
  obtain ⟨habout, hrender⟩ := prepare_ok hprepare
  rw [hpayload] at habout
  refine ⟨recipient, content, hprepare, ?_, j', hj, hjob, ?_⟩
  · intro hsome
    apply hpush
    cases hshaped with
    | account _ _ noEvent =>
      rw [noEvent, Option.map_eq_none_iff] at habout
      rw [habout] at hsome
      cases hsome
    | event _ eventId scope _ =>
      rw [scope]
      rfl
  · rw [htype, hpayload] at hrender
    exact .rendered recipient.user recipient.event now hstudent rfl habout hrender

end Loads

def sendOf? : Obs → Option (UUID × ℕ)
  | (id, .noted _ n .sendStarted) => some (id, n)
  | _ => none

def sends (tr : List Obs) : List (UUID × ℕ) := tr.filterMap sendOf?

/-- What one step keeps, what it is for the outbox and the workers, and what it hands over. -/
structure Site.Advances (settings : Settings) (accounts : AccountLib) (S : Site)
    (os : List SiteEvent) (T : Site) : Prop where
  ok : T.Ok
  grows : Grows S.db T.db
  moves : (T.world = S.world ∧ leases os = []) ∨
    ∃ b, S.world.step settings b = some (T.world, leases os)
  mailed : ∀ m ∈ mails os, ∃ j ∈ T.db.notificationJobs, j.id = m.jobId ∧
    MailOf settings accounts T.db j m
  counted : (mails os).map (fun m => (m.jobId, m.attempts)) = sends (leases os)

section Steps
variable {settings : Settings} {accounts : AccountLib} {lib : TokenLib} {S T : Site}
  {os : List SiteEvent}

theorem leases_map (obs : List Obs) : leases (obs.map .lease) = obs := by
  unfold leases
  rw [List.filterMap_map]
  exact List.filterMap_some

theorem mails_map (obs : List Obs) : mails (obs.map .lease) = [] := by
  unfold mails
  rw [List.filterMap_map]
  exact List.filterMap_none obs

theorem leases_sent (obs : List Obs) (m : Mail) : leases (obs.map .lease ++ [.mail m]) = obs := by
  unfold leases
  rw [List.filterMap_append]
  exact (List.append_nil _).trans (leases_map obs)

theorem mails_sent (obs : List Obs) (m : Mail) : mails (obs.map .lease ++ [.mail m]) = [m] := by
  unfold mails
  rw [List.filterMap_append]
  exact congrArg (fun l => l ++ [m]) (mails_map obs)

theorem work_spec {w : WorkerId} {a : WorkerAction} (h : S.work settings w a = some (T, os)) :
    ∃ y jobs obs, workerStep settings w (S.worker w) S.db.notificationJobs a = some (y, jobs, obs) ∧
      T = { S with
        db := { S.db with notificationJobs := jobs }
        worker := Function.update S.worker w y } ∧ os = obs.map .lease ∧
      S.world.step settings (.worker w a) = some (T.world, obs) := by
  obtain ⟨⟨W, obs⟩, hstep, heq⟩ := Option.map_eq_some_iff.mp h
  cases heq
  have hworld := hstep
  simp only [World.step] at hstep
  split at hstep
  · cases hstep
  · rename_i y jobs obs' hworker
    cases hstep
    exact ⟨y, jobs, obs, hworker, rfl, rfl, hworld⟩

theorem Site.Ok.work (h : S.Ok) {w : WorkerId} {a : WorkerAction}
    (hwork : S.work settings w a = some (T, os)) : T.Ok ∧ Grows S.db T.db := by
  obtain ⟨y, jobs, obs, hstep, rfl, _, _⟩ := work_spec hwork
  obtain ⟨hmessages, htasks⟩ := workerStep_frame hstep
  have hgrows : Grows S.db { S.db with notificationJobs := jobs } :=
    ⟨List.prefix_rfl, hmessages ▸ List.prefix_rfl⟩
  refine ⟨⟨h.log.of_messages rfl rfl hmessages, ?_, h.students, ?_, ?_, ?_⟩, hgrows⟩
  · have hids : jobs.map NotificationJob.id = S.db.notificationJobs.map NotificationJob.id :=
      map_of_messages hmessages Message.id
    unfold Table.KeyUnique
    rw [hids]
    exact h.ids
  · intro j hj hnone
    obtain ⟨j₀, hj₀, hsame⟩ := exists_message hmessages.symm hj
    obtain ⟨_, hscope, htype, hpayload, _⟩ := Message.mk.inj hsame
    rw [← hpayload] at hnone
    obtain ⟨htype', hscope', hevent', hstudent'⟩ := h.verifications j₀ hj₀ hnone
    rw [htype] at htype'
    rw [hscope] at hscope'
    rw [hpayload] at hevent' hstudent'
    exact ⟨htype', hscope', hevent', hstudent'⟩
  · have hcopy : ∀ job : ClaimedJob, (∃ j ∈ S.db.notificationJobs, job.CopyOf j) →
        ∃ j ∈ jobs, job.CopyOf j := by
      rintro job ⟨j, hj, hof⟩
      obtain ⟨j', hj', hsame⟩ := exists_message hmessages hj
      exact ⟨j', hj', hof.of_message hsame⟩
    intro v task htask
    apply hcopy
    change task ∈ (Function.update S.worker w y v).tasks at htask
    by_cases hv : v = w
    · subst hv
      rw [Function.update_self] at htask
      rcases htasks task htask with ⟨t₀, ht₀, hsame⟩ | hnew
      · rw [← hsame]
        exact h.copies v t₀ ht₀
      · exact hnew
    · rw [Function.update_of_ne hv] at htask
      exact h.copies v task htask
  · intro v id users hread
    obtain ⟨j, hj, hid, user, huser, hstudent⟩ := h.read v id users hread
    obtain ⟨j', hj', hsame⟩ := exists_message hmessages hj
    exact ⟨j', hj', (congrArg Message.id hsame).trans hid, user, huser, hstudent.mono hgrows hsame⟩

theorem Site.Ok.request (h : S.Ok) {c : ApiCall} {db : Database}
    (hchange : ApiChange settings accounts S.db c db) : Site.Ok { S with db := db } where
  log := hchange.outboxLog h.log
  ids := by
    obtain ⟨jobs, happend, hfresh, _⟩ := hchange.enqueues
    rw [happend]
    exact keyUnique_insertJobs h.ids hfresh
  students := by
    have hkept : ∀ id, (S.db.user? id).isSome → (db.user? id).isSome := by
      intro id hsome
      obtain ⟨user, huser⟩ := Option.isSome_iff_exists.mp hsome
      obtain ⟨user', huser', _⟩ := hchange.grows.user? huser
      exact Option.isSome_iff_exists.mpr ⟨user', huser'⟩
    intro r hr
    rcases hchange.new_seat hr with ⟨r₀, hr₀, hsame⟩ | ⟨env, user, _, huser, _⟩
    · apply hkept
      rw [← (Registration.identity_eq hsame).2.2]
      exact h.students r₀ hr₀
    · exact hkept _ (Option.isSome_iff_exists.mpr ⟨user, huser⟩)
  verifications := by
    have hkept : ∀ j, VerifiesStored S.db j → VerifiesStored db j := by
      rintro j ⟨htype, hscope, hevent, studentId, hstudent, hsome⟩
      obtain ⟨user, huser⟩ := Option.isSome_iff_exists.mp hsome
      obtain ⟨user', huser', _⟩ := hchange.grows.user? huser
      exact ⟨htype, hscope, hevent, studentId, hstudent,
        Option.isSome_iff_exists.mpr ⟨user', huser'⟩⟩
    intro j hj hnone
    cases hchange with
    | accounts only => exact hkept j (h.verifications j (only.jobs ▸ hj) hnone)
    | registers unused fresh =>
      rcases List.mem_append.mp hj with hold | hnew
      · exact hkept j (h.verifications j hold hnone)
      · rw [List.mem_singleton.mp hnew]
        refine ⟨rfl, rfl, rfl, _, rfl, ?_⟩
        exact Table.lookup_isSome.mpr ⟨_, List.mem_append_right _ (List.mem_singleton_self _), rfl⟩
    | service _ _ change =>
      rcases change.new_jobs h.log.wf hj with hold | ⟨r, _, habout⟩
      · exact hkept j (h.verifications j hold hnone)
      · rw [habout.1] at hnone
        cases hnone
  copies := by
    intro w task htask
    obtain ⟨j, hj, hof⟩ := h.copies w task htask
    obtain ⟨j', hj', hsame⟩ := hchange.grows.job hj
    exact ⟨j', hj', hof.of_message hsame⟩
  read := by
    intro w id users hread
    obtain ⟨j, hj, hid, user, huser, hstudent⟩ := h.read w id users hread
    obtain ⟨j', hj', hsame⟩ := hchange.grows.job hj
    exact ⟨j', hj', (congrArg Message.id hsame).trans hid, user, huser,
      hstudent.mono hchange.grows hsame⟩

theorem Site.Ok.selectUser (h : S.Ok) {w : WorkerId} {jobId : UUID} {task : Task}
    (htask : (S.worker w).task? jobId = some task) :
    Site.Ok { S with
      read := fun v id => if v = w ∧ id = jobId then some S.db else S.read v id } where
  log := h.log
  ids := h.ids
  students := h.students
  verifications := h.verifications
  copies := h.copies
  read := by
    intro v id users hread
    dsimp only at hread
    split_ifs at hread with hsame
    · obtain ⟨rfl, rfl⟩ := hsame
      cases hread
      obtain ⟨j, hj, hid, _, _⟩ := h.copies v task (Table.lookup_mem htask)
      obtain ⟨_, ⟨user, hstudent, huser⟩, _⟩ := h.shaped hj
      have htaskId : task.jobId = id := Table.lookup_key htask
      exact ⟨j, hj, hid.symm.trans htaskId, user, huser, hstudent, user, huser, rfl⟩
    · exact h.read v id users hread

theorem sends_nil {obs : List Obs} (h : ∀ id v n, (id, .noted v n .sendStarted) ∉ obs) :
    sends obs = [] := by
  apply List.filterMap_eq_nil_iff.mpr
  rintro ⟨id, e⟩ hmem
  cases e with
  | noted v n note =>
    cases note with
    | sendStarted => exact absurd hmem (h id v n)
    | _ => rfl
  | _ => rfl

theorem Site.Ok.advances_work (h : S.Ok) {w : WorkerId} {a : WorkerAction}
    (hwork : S.work settings w a = some (T, os))
    (hquiet : ∀ y jobs obs, workerStep settings w (S.worker w) S.db.notificationJobs a =
      some (y, jobs, obs) → sends obs = []) : S.Advances settings accounts os T := by
  obtain ⟨hok, hgrows⟩ := h.work hwork
  obtain ⟨y, jobs, obs, hstep, _, rfl, hworld⟩ := work_spec hwork
  refine ⟨hok, hgrows, .inr ⟨.worker w a, ?_⟩, ?_, ?_⟩
  · rw [leases_map]
    exact hworld
  · rw [mails_map]
    intro m hm
    cases hm
  · rw [mails_map, leases_map, hquiet y jobs obs hstep]
    rfl

theorem Site.Ok.advances_load (h : S.Ok) {w : WorkerId} {jobId : UUID} {now : Time}
    (hstep : S.step settings accounts lib (.load w jobId now) = some (T, os)) :
    S.Advances settings accounts os T := by
  simp only [Site.step] at hstep
  split at hstep
  · rename_i task users htask hread
    obtain ⟨recipient, content, hprepare, _, j, hj, hid, hmail⟩ :=
      h.prepares settings accounts htask hread now
    rw [hprepare] at hstep
    obtain ⟨⟨T', os'⟩, hwork, heq⟩ := Option.map_eq_some_iff.mp hstep
    cases heq
    obtain ⟨hok, hgrows⟩ := h.work hwork
    obtain ⟨y, jobs, obs, htaken, _, rfl, hworld⟩ := work_spec hwork
    have hobs : obs = [(jobId, .noted w task.job.attempts .sendStarted)] := by
      have htaskId : task.jobId = jobId := Table.lookup_key htask
      simp only [workerStep, htask] at htaken
      obtain ⟨_, hnext⟩ := Option.ite_none_right_eq_some.mp htaken
      cases hnext
      rw [htaskId]
    obtain ⟨j', hj', hsame⟩ := hgrows.job hj
    refine ⟨hok, hgrows, .inr ⟨.worker w (.task jobId (.load none)), ?_⟩, ?_, ?_⟩
    · rw [leases_sent]
      exact hworld
    · rw [mails_sent]
      intro m hm
      obtain rfl := List.mem_singleton.mp hm
      exact ⟨j', hj', (congrArg Message.id hsame).trans hid, hmail.mono hgrows hsame⟩
    · rw [mails_sent, leases_sent, hobs]
      rfl
  · cases hstep

theorem Site.Ok.advances (h : S.Ok) {a : SiteAction}
    (hstep : S.step settings accounts lib a = some (T, os)) :
    S.Advances settings accounts os T := by
  cases a with
  | request c =>
    cases hstep
    have hchange := handle_change settings accounts lib c S.db
    obtain ⟨jobs, happend, hfresh, hnew⟩ := hchange.enqueues
    have hdrop : (handle settings accounts lib c S.db).notificationJobs.drop
        S.db.notificationJobs.length = jobs := by
      rw [happend, List.drop_left]
    have hos : ((handle settings accounts lib c S.db).notificationJobs.drop
        S.db.notificationJobs.length).map (fun j => SiteEvent.lease (j.id, .enqueued)) =
          (jobs.map fun j => ((j.id, .enqueued) : Obs)).map .lease := by
      rw [hdrop, List.map_map]
      rfl
    rw [hos]
    refine ⟨h.request hchange, hchange.grows, .inr ⟨.enqueue jobs, ?_⟩, ?_, ?_⟩
    · rw [leases_map]
      unfold Site.world
      rw [happend]
      exact if_pos ⟨hfresh, hnew⟩
    · rw [mails_map]
      intro m hm
      cases hm
    · rw [mails_map, leases_map, sends_nil]
      · rfl
      · intro id v n hmem
        simp at hmem
  | selectUser w jobId =>
    obtain ⟨hloading, hnext⟩ := Option.ite_none_right_eq_some.mp hstep
    obtain ⟨task, htask, _⟩ := Option.map_eq_some_iff.mp hloading
    cases hnext
    refine ⟨h.selectUser htask, .refl _, .inl ⟨rfl, rfl⟩, ?_, rfl⟩
    intro m hm
    cases hm
  | load w jobId now => exact h.advances_load hstep
  | worker w a =>
    simp only [Site.step] at hstep
    split_ifs at hstep with hloads
    apply h.advances_work hstep
    intro y jobs obs htaken
    apply sends_nil
    intro id v n hmem
    exact hloads (workerStep_sendStarted htaken hmem)

end Steps

section Runs
variable {settings : Settings} {accounts : AccountLib} {lib : TokenLib} {db₀ : Database}
  {tr : List SiteEvent} {S : Site}

theorem Site.Ok.start (hregs : db₀.registrations = []) (hjobs : db₀.notificationJobs = []) :
    Site.Ok { db := db₀ } where
  log := by
    have hinitial : Initial db₀ := ⟨hregs, by rw [hjobs]; exact List.nodup_nil, by simp [hjobs]⟩
    exact hinitial.outboxLog
  ids := by
    rw [hjobs]
    exact List.nodup_nil
  students := by simp [hregs]
  verifications := by simp [hjobs]
  copies := by simp
  read := by simp

structure Site.Served (settings : Settings) (accounts : AccountLib) (tr : List SiteEvent)
    (S : Site) : Prop where
  ok : S.Ok
  mailed : ∀ m ∈ mails tr, ∃ j ∈ S.db.notificationJobs, j.id = m.jobId ∧
    MailOf settings accounts S.db j m
  counted : (mails tr).map (fun m => (m.jobId, m.attempts)) = sends (leases tr)

theorem Serves.served (hregs : db₀.registrations = []) (hjobs : db₀.notificationJobs = [])
    (h : Serves settings accounts lib db₀ tr S) : S.Served settings accounts tr := by
  have hstart : Site.Served settings accounts [] { db := db₀ } := by
    refine ⟨.start hregs hjobs, ?_, rfl⟩
    intro m hm
    cases hm
  refine h.invariant (fun tr S => S.Served settings accounts tr) hstart ?_
  intro tr T a U os hT hstep
  obtain ⟨hok, hgrows, _, hmailed, hcounted⟩ := hT.ok.advances hstep
  refine ⟨hok, ?_, ?_⟩
  · intro m hm
    unfold mails at hm
    rw [List.filterMap_append] at hm
    rcases List.mem_append.mp hm with hold | hnew
    · obtain ⟨j, hj, hid, hmail⟩ := hT.mailed m hold
      obtain ⟨j', hj', hsame⟩ := hgrows.job hj
      exact ⟨j', hj', (congrArg Message.id hsame).trans hid, hmail.mono hgrows hsame⟩
    · exact hmailed m hnew
  · unfold mails sends leases at hcounted ⊢
    have hbefore := hT.counted
    unfold mails sends leases at hbefore
    rw [List.filterMap_append, List.map_append, List.filterMap_append, List.filterMap_append,
      hbefore, hcounted]

theorem Serves.delivers (hregs : db₀.registrations = []) (hjobs : db₀.notificationJobs = [])
    (h : Serves settings accounts lib db₀ tr S) : Delivers settings (leases tr) S.world := by
  have hproject := h.project Site.world SiteEvent.lease? Site.Ok (.start hregs hjobs) (by
    intro u a v os hu hstep
    have hadvances := hu.advances hstep
    exact ⟨hadvances.ok, hadvances.moves⟩)
  have hstart : Site.world { db := db₀ } = {} := by
    unfold Site.world
    rw [hjobs]
  rw [hstart] at hproject
  exact hproject.2

/-- Whatever is requested and however the workers run, they deliver the outbox that the API fills:
    no load and no template raises, and every e-mail that is handed over, once for each start of a
    send, goes to the student of its job and is about the event of its job. -/
theorem site_delivers (settings : Settings) (accounts : AccountLib) (lib : TokenLib)
    (db₀ : Database) (hregs : db₀.registrations = []) (hjobs : db₀.notificationJobs = [])
    (tr : List SiteEvent) (S : Site) (h : Serves settings accounts lib db₀ tr S) :
    Delivers settings (leases tr) S.world ∧
    (∀ w id task users now, (S.worker w).task? id = some task → S.read w id = some users →
      ∃ recipient content,
        prepare settings accounts users S.db now task.job = .ok (recipient, content) ∧
        (recipient.event.isSome → ∃ push,
          PushTemplates.render task.job.eventType recipient.event task.job.payload = .ok push)) ∧
    (mails tr).map (fun m => (m.jobId, m.attempts)) = sends (leases tr) ∧
    ∀ m ∈ mails tr, ∃ j ∈ S.db.notificationJobs, j.id = m.jobId ∧
      MailOf settings accounts S.db j m := by
  have hserved := h.served hregs hjobs
  refine ⟨h.delivers hregs hjobs, ?_, hserved.counted, hserved.mailed⟩
  intro w id task users now htask hread
  obtain ⟨recipient, content, hprepare, hpush, _⟩ :=
    hserved.ok.prepares settings accounts htask hread now
  exact ⟨recipient, content, hprepare, hpush⟩

end Runs

section BothTold

def workAt (a : WorkerAction) : SiteAction := .worker "host:1" a

def deliverJob (jobId : UUID) (now : Time) : List SiteAction :=
  [workAt (.task jobId .start), .selectUser "host:1" jobId, .load "host:1" jobId now,
    workAt (.task jobId (.send none)), workAt (.task jobId .push),
    workAt (.task jobId (.finalize now true .returned))]

def bothTold : List SiteAction :=
  (seatHandedOn.take 4).map .request ++
    [workAt .wake, workAt (.reap (seconds 10) fun _ => false), workAt .check,
      workAt (.claim (seconds 10) fun _ => false)] ++
    deliverJob 301 (seconds 10) ++ deliverJob 401 (seconds 11)

theorem bothTold_serves : ∃ S tr, Serves {} plainAccounts plainLib school tr S ∧
    (mails tr).map (fun m => (m.jobId, m.address)) = [(301, alice.email), (401, bob.email)] ∧
    S.db.registrations.map (fun r => (r.id, r.status)) = [(300, .confirmed), (400, .waitlisted)] ∧
    S.db.notificationJobs.map (fun j => (j.payload.registrationId, j.status)) =
      [(some 300, .completed), (some 400, .completed)] := by
  have hrun : (execute (Site.step {} plainAccounts plainLib) { db := school } bothTold).map (fun r =>
      ((mails r.2).map (fun m => (m.jobId, m.address)),
        r.1.db.registrations.map (fun r => (r.id, r.status)),
        r.1.db.notificationJobs.map (fun j => (j.payload.registrationId, j.status)))) =
      some ([(301, alice.email), (401, bob.email)], [(300, .confirmed), (400, .waitlisted)],
        [(some 300, .completed), (some 400, .completed)]) := by
    decide +kernel
  obtain ⟨S, tr, h, heq⟩ := execute_map hrun
  obtain ⟨hmails, hrest⟩ := Prod.mk.inj heq
  obtain ⟨hregistrations, hstatus⟩ := Prod.mk.inj hrest
  exact ⟨S, tr, h, hmails, hregistrations, hstatus⟩

theorem site_delivers_bothTold :
    ∃ (S : Site) (tr : List SiteEvent),
      (mails tr).map (fun m => (m.jobId, m.address)) = [(301, alice.email), (401, bob.email)] ∧
      Delivers {} (leases tr) S.world ∧ ∀ m ∈ mails tr, ∃ j ∈ S.db.notificationJobs,
        j.id = m.jobId ∧ MailOf {} plainAccounts S.db j m := by
  obtain ⟨S, tr, h, hmails, _⟩ := bothTold_serves
  obtain ⟨hdelivers, _, _, hmailed⟩ :=
    site_delivers {} plainAccounts plainLib school rfl rfl tr S h
  exact ⟨S, tr, hmails, hdelivers, hmailed⟩

end BothTold
end Hefest
