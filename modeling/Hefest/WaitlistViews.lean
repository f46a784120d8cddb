import Hefest.Listings
import Hefest.SeatRuns

set_option autoImplicit false

namespace Hefest
open Transaction Ranking

instance : Std.Total Registration.fifo where
  total r s := by
    unfold Registration.fifo
    rcases lt_trichotomy r.registeredAt s.registeredAt with h | h | h
    · exact Or.inl (Or.inl h)
    · rcases le_total r.id s.id with hid | hid
      · exact Or.inl (Or.inr ⟨h, hid⟩)
      · exact Or.inr (Or.inr ⟨h.symm, hid⟩)
    · exact Or.inr (Or.inl h)

instance : IsTrans Registration Registration.fifo where
  trans r s u hrs hsu := by
    rcases hrs with hrs | ⟨hrs, hid⟩
    · rcases hsu with hsu | ⟨hsu, _⟩
      · exact Or.inl (hrs.trans hsu)
      · exact Or.inl (hsu ▸ hrs)
    · rcases hsu with hsu | ⟨hsu, hid'⟩
      · exact Or.inl (hrs ▸ hsu)
      · exact Or.inr ⟨hrs.trans hsu, hid.trans hid'⟩

def Database.position (db : Database) (reg : Registration) : ℕ :=
  rank Registration.fifo (db.waitlist reg.eventId) reg

section Order
variable {db : Database} {eventId : UUID}

theorem waitlist_unique (hdb : Table.KeyUnique Registration.id db.registrations) :
    Table.KeyUnique Registration.id (db.waitlist eventId) :=
  hdb.filter _

theorem waitlist_nodup (hdb : Table.KeyUnique Registration.id db.registrations) :
    (db.waitlist eventId).Nodup :=
  List.Nodup.of_map _ (waitlist_unique hdb)

/-- Ties are broken by the id, which is the primary key. -/
theorem waitlist_separates (hdb : Table.KeyUnique Registration.id db.registrations) :
    Separates Registration.fifo (db.waitlist eventId) := by
  intro r hr s hs hrs hsr
  apply (waitlist_unique hdb).eq_of_key hr hs
  rcases hrs with hlt | ⟨heq, hid⟩
  · rcases hsr with hlt' | ⟨heq', _⟩
    · exact absurd (hlt.trans hlt') (lt_irrefl _)
    · exact absurd hlt (by rw [heq']; exact lt_irrefl _)
  · rcases hsr with hlt' | ⟨_, hid'⟩
    · exact absurd hlt' (by rw [heq]; exact lt_irrefl _)
    · exact le_antisymm hid hid'

def Database.queue (db : Database) (eventId : UUID) : List Registration :=
  Table.orderBy Registration.fifo (db.waitlist eventId)

theorem mem_queue {r : Registration} : r ∈ db.queue eventId ↔ r ∈ db.waitlist eventId :=
  Table.mem_orderBy _

theorem queue_positions (hdb : Table.KeyUnique Registration.id db.registrations) :
    (db.queue eventId).map db.position = List.range' 1 (db.waitlist eventId).length := by
  rw [← map_rank_insertionSort (waitlist_nodup hdb) (waitlist_separates hdb)]
  apply List.map_congr_left
  intro r hr
  have hevent : r.eventId = eventId := (mem_waitlist.mp (mem_queue.mp hr)).2.1
  unfold Database.position
  rw [hevent]

end Order

section Mine
variable {db : Database} {student : User}

theorem countAhead_result (reg : Registration) : (countAhead reg).result db = db.position reg := by
  change db.registrations.countP _ = _
  unfold Database.position rank Database.waitlist
  rw [List.countP_filter]
  apply List.countP_congr
  intro r _
  rw [Bool.and_eq_true, decide_eq_true_iff, decide_eq_true_iff, decide_eq_true_iff]
  exact and_comm

theorem waitlistPositions_run (db : Database) (regs : List Registration) (positions : UUID → Option ℕ)
    (hunique : Table.KeyUnique Registration.id regs) :
    ∃ positions', (waitlistPositions regs positions).run db = (db, .ok positions') ∧
      (∀ reg ∈ regs, positions' reg.id =
        if reg.status = .waitlisted then some (db.position reg) else positions reg.id) ∧
      ∀ id ∉ regs.map Registration.id, positions' id = positions id := by
  induction regs generalizing positions with
  | nil => exact ⟨positions, rfl, by simp, by simp⟩
  | cons reg regs ih =>
    obtain ⟨hfresh, htail⟩ := List.nodup_cons.mp hunique
    by_cases hstatus : reg.status = .waitlisted
    · obtain ⟨positions', hrun, hmem, hother⟩ :=
        ih (Function.update positions reg.id (some (db.position reg))) htail
      refine ⟨positions', ?_, ?_, ?_⟩
      · simp only [waitlistPositions, hstatus, if_true, run_stmt, countAhead_result]
        exact hrun
      · intro r hr
        rcases List.mem_cons.mp hr with rfl | hr
        · rw [if_pos hstatus, hother r.id hfresh, Function.update_self]
        · have hne : r.id ≠ reg.id := by
            intro heq
            exact hfresh (heq ▸ List.mem_map_of_mem hr)
          rw [hmem r hr, Function.update_of_ne hne]
      · intro id hid
        rw [List.map_cons, List.mem_cons, not_or] at hid
        rw [hother id hid.2, Function.update_of_ne hid.1]
    · obtain ⟨positions', hrun, hmem, hother⟩ := ih positions htail
      refine ⟨positions', ?_, ?_, ?_⟩
      · simp only [waitlistPositions, hstatus, if_false]
        exact hrun
      · intro r hr
        rcases List.mem_cons.mp hr with rfl | hr
        · rw [if_neg hstatus, hother r.id hfresh]
        · exact hmem r hr
      · intro id hid
        rw [List.map_cons, List.mem_cons, not_or] at hid
        exact hother id hid.2

def Database.myView (db : Database) (reg : Registration) : MyRegistrationResponse :=
  ⟨reg.id, reg.eventId, reg.status, reg.registeredAt, reg.cancelledAt,
    if reg.status = .waitlisted then some (db.position reg) else none⟩

/-- The position that `list_my_registrations` shows the student for a registration. -/
def listedPosition (db : Database) (student : User) (regId : UUID) : Option ℕ :=
  match ((listMyRegistrations student).run db).2 with
  | .ok entries =>
    (Table.lookup MyRegistrationResponse.id regId entries).bind
      MyRegistrationResponse.waitlistPosition
  | .error _ => none

theorem listMyRegistrations_run (hdb : Table.KeyUnique Registration.id db.registrations) :
    (listMyRegistrations student).run db =
      (db, .ok ((db.registrations.filter fun r =>
        r.studentId = student.id ∧ r.status ≠ .cancelled).map db.myView)) := by
  obtain ⟨positions, hrun, hmem, _⟩ := waitlistPositions_run db
    (db.registrations.filter fun r => r.studentId = student.id ∧ r.status ≠ .cancelled)
    (fun _ => none) (hdb.filter _)
  simp only [listMyRegistrations, run_stmt, selectMyRegistrations, Stmt.select]
  rw [run_map, hrun]
  have hview : ∀ reg ∈ db.registrations.filter (fun r =>
      r.studentId = student.id ∧ r.status ≠ .cancelled), myRegistration positions reg = db.myView reg := by
    intro reg hreg
    unfold myRegistration Database.myView
    rw [hmem reg hreg]
  exact congrArg (fun l => (db, Except.ok l)) (List.map_congr_left hview)

theorem listedPosition_eq (hdb : Table.KeyUnique Registration.id db.registrations) {eventId : UUID}
    {reg : Registration} (hreg : reg ∈ db.waitlist eventId) (hstudent : student.id = reg.studentId) :
    listedPosition db student reg.id = some (db.position reg) := by
  obtain ⟨hmem, _, hstatus⟩ := mem_waitlist.mp hreg
  have hmine : reg ∈ db.registrations.filter fun r =>
      r.studentId = student.id ∧ r.status ≠ .cancelled := by
    simp [hmem, hstudent, hstatus]
  have hfound := (hdb.filter _).lookup_self hmine
  unfold listedPosition
  rw [listMyRegistrations_run hdb]
  dsimp only
  have hview : ∀ r, MyRegistrationResponse.id (db.myView r) = r.id := by
    intro r
    rfl
  rw [Table.lookup_map _ hview, hfound]
  simp [Database.myView, hstatus]

end Mine

section Pages
variable {db : Database} {organizer : User} {eventId : UUID} {event : Event}

theorem listEventRegistrations_run (hevent : db.event? eventId = some event)
    (howner : event.organizerId = organizer.id) (limit offset : ℕ) :
    (listEventRegistrations organizer eventId true limit offset).run db =
      (db, .ok ((((db.queue eventId).drop offset).take limit).map db.summary)) := by
  simp only [listEventRegistrations, run_stmt, selectEvent, Stmt.select, hevent, howner, ne_eq,
    not_true_eq_false, if_false]
  rfl

/-- The pages of the waitlist, one after the other, are the queue. -/
theorem pages_queue {limit pages : ℕ} (hpages : (db.waitlist eventId).length ≤ pages * limit) :
    (List.range pages).flatMap (fun k =>
        (((db.queue eventId).drop (k * limit)).take limit).map db.summary) =
      (db.queue eventId).map db.summary := by
  have hmap : (List.range pages).flatMap (fun k =>
        (((db.queue eventId).drop (k * limit)).take limit).map db.summary) =
      ((List.range pages).flatMap fun k =>
        ((db.queue eventId).drop (k * limit)).take limit).map db.summary :=
    List.map_flatMap.symm
  have hlength : (db.queue eventId).length ≤ pages * limit := by
    have hperm : (db.queue eventId).Perm (db.waitlist eventId) := Table.orderBy_perm _ _
    rw [hperm.length_eq]
    exact hpages
  rw [hmap, flatMap_pages, List.take_of_length_le hlength]

end Pages

section Promotion
variable {db db' : Database} {student : User} {regId eventId : UUID} {env : Env}
  {reg response first : Registration}

theorem cancelRegistration_ok (h : (cancelRegistration student regId env).run db = (db', .ok response))
    (hreg : db.registration? regId = some reg) :
    ∃ event, reg.studentId = student.id ∧ reg.status ≠ .cancelled ∧
      db' = cancelledDatabase student event reg env db := by
  rcases cancelRegistration_cases student regId env db with
    ⟨e, herror, _⟩ | ⟨found, event, hfound, howner, hactive, hevent, hstart⟩
  · rw [herror] at h
    cases h
  · rw [hreg] at hfound
    cases hfound
    rw [cancelRegistration_run hreg howner hactive hevent hstart] at h
    exact ⟨event, howner, hactive, (outcome_ok h).2.1⟩

theorem waitlist_promoteRows (next : Registration) (t : List Registration) (eventId : UUID) :
    (promoteRows (some next) t).filter (fun r => r.eventId = eventId ∧ r.status = .waitlisted) =
      (t.filter fun r => r.eventId = eventId ∧ r.status = .waitlisted).filter
        fun r => r.id ≠ next.id := by
  induction t with
  | nil => rfl
  | cons r t ih =>
    have hcons : promoteRows (some next) (r :: t) =
        (if r.id = next.id then r.confirm else r) :: promoteRows (some next) t := rfl
    rw [hcons, List.filter_cons, List.filter_cons, ih]
    by_cases hid : r.id = next.id
    · by_cases hwaits : r.eventId = eventId ∧ r.status = .waitlisted <;>
        simp [hid, hwaits, Registration.confirm]
    · by_cases hwaits : r.eventId = eventId ∧ r.status = .waitlisted <;> simp [hid, hwaits]

theorem waitlist_cancelledDatabase {event : Event}
    (hdb : Table.KeyUnique Registration.id db.registrations) (hreg : reg ∈ db.registrations)
    (hconfirmed : reg.status = .confirmed) (hfirst : db.nextWaitlisted reg.eventId = some first) :
    (cancelledDatabase student event reg env db).waitlist reg.eventId =
      (db.waitlist reg.eventId).filter fun r => r.id ≠ first.id := by
  have hpromoted := promotion_of_confirmed env hdb hreg hconfirmed
  rw [hfirst] at hpromoted
  have hrows : (cancelledDatabase student event reg env db).registrations =
      promoteRows (some first) (cancelRows reg env db.registrations) := by
    rw [← hpromoted]
    rfl
  have hkept := waitlist_cancelRows env hdb hreg hconfirmed reg.eventId
  unfold Database.waitlist at hkept ⊢
  rw [hrows, waitlist_promoteRows, hkept]

theorem cancelledDatabase_unique {event : Event}
    (hdb : Table.KeyUnique Registration.id db.registrations) :
    Table.KeyUnique Registration.id (cancelledDatabase student event reg env db).registrations :=
  promoteRows_unique (cancelRows_unique reg env hdb)

theorem queue_rest {rest : List Registration}
    (hdb : Table.KeyUnique Registration.id db.registrations)
    (hqueue : db.queue eventId = first :: rest) :
    ((db.waitlist eventId).filter fun r => r.id ≠ first.id).Perm rest := by
  have hperm : (db.queue eventId).Perm (db.waitlist eventId) := Table.orderBy_perm _ _
  have hfilter := (hperm.filter fun r => decide (r.id ≠ first.id)).symm
  rw [hqueue] at hperm hfilter
  have hunique : Table.KeyUnique Registration.id (first :: rest) :=
    (hperm.map _).nodup_iff.mpr (waitlist_unique hdb)
  obtain ⟨hfresh, _⟩ := List.nodup_cons.mp hunique
  have hrest : (first :: rest).filter (fun r => decide (r.id ≠ first.id)) = rest := by
    rw [List.filter_cons_of_neg (by simp), List.filter_eq_self]
    intro r hr
    rw [decide_eq_true_iff]
    intro hid
    exact hfresh (hid ▸ List.mem_map_of_mem hr)
  rwa [hrest] at hfilter

/-- Places in the queue: one for its first registration, and for the others one more than in the
    rest of the queue. -/
theorem queue_places {rest : List Registration}
    (hdb : Table.KeyUnique Registration.id db.registrations)
    (hqueue : db.queue eventId = first :: rest) :
    db.position first = 1 ∧
      ∀ r ∈ rest, 1 ≤ rank Registration.fifo rest r ∧
        db.position r = rank Registration.fifo rest r + 1 := by
  have hperm : (db.queue eventId).Perm (db.waitlist eventId) := Table.orderBy_perm _ _
  have hsorted : (db.queue eventId).Pairwise Registration.fifo := List.pairwise_insertionSort _ _
  have hplace : ∀ r ∈ db.queue eventId, db.position r = rank Registration.fifo (db.queue eventId) r := by
    intro r hr
    have hevent : r.eventId = eventId := (mem_waitlist.mp (mem_queue.mp hr)).2.1
    unfold Database.position
    rw [hevent]
    exact rank_perm hperm.symm r
  have hnd : (db.queue eventId).Nodup := hperm.nodup_iff.mpr (waitlist_nodup hdb)
  have hsep := (waitlist_separates hdb).perm hperm.symm
  rw [hqueue] at hsorted hplace hnd hsep
  obtain ⟨hleast, _⟩ := List.pairwise_cons.mp hsorted
  obtain ⟨hfresh, _⟩ := List.nodup_cons.mp hnd
  refine ⟨?_, ?_⟩
  · rw [hplace first List.mem_cons_self]
    exact rank_head hleast hfresh hsep
  · intro r hr
    refine ⟨?_, ?_⟩
    · exact List.countP_pos_iff.mpr ⟨r, hr, decide_eq_true (Std.Refl.refl r)⟩
    · rw [hplace r (List.mem_cons_of_mem first hr)]
      exact rank_cons_of_le (hleast r hr)

theorem lookup_cancelledDatabase {event : Event} {r : Registration}
    (hdb : Table.KeyUnique Registration.id db.registrations) (hreg : reg ∈ db.registrations)
    (hconfirmed : reg.status = .confirmed) (hfirst : db.nextWaitlisted reg.eventId = some first)
    (hr : r ∈ db.waitlist reg.eventId) :
    (cancelledDatabase student event reg env db).registration? r.id =
      some (if r.id = first.id then r.confirm else r) := by
  have hpromoted := promotion_of_confirmed env hdb hreg hconfirmed
  rw [hfirst] at hpromoted
  obtain ⟨hmem, _, hwaits⟩ := mem_waitlist.mp hr
  have hne : r.id ≠ reg.id := by
    intro hid
    have hsame := hdb.eq_of_key hmem hreg hid
    rw [hsame, hconfirmed] at hwaits
    cases hwaits
  change Table.lookup Registration.id r.id (promoteRows (promotion db reg env) _) = _
  rw [hpromoted]
  unfold promoteRows cancelRows
  rw [Table.lookup_update (by intro; rfl), Table.lookup_update (by intro; rfl),
    hdb.lookup_self hmem, Option.map_some, if_neg hne, Option.map_some]

theorem positions_cancelledDatabase {event : Event} {r : Registration}
    (hdb : Table.KeyUnique Registration.id db.registrations) (hreg : reg ∈ db.registrations)
    (hconfirmed : reg.status = .confirmed) (hr : r ∈ db.waitlist reg.eventId) :
    (db.position r = 1 →
      (cancelledDatabase student event reg env db).registration? r.id = some r.confirm) ∧
    (db.position r ≠ 1 →
      (cancelledDatabase student event reg env db).registration? r.id = some r ∧
      r ∈ (cancelledDatabase student event reg env db).waitlist reg.eventId ∧
      db.position r = (cancelledDatabase student event reg env db).position r + 1) := by
  cases hq : db.queue reg.eventId with
  | nil =>
    have hmem := mem_queue.mpr hr
    rw [hq] at hmem
    cases hmem
  | cons first rest =>
    have hfirst : db.nextWaitlisted reg.eventId = some first := by
      change (db.queue reg.eventId).head? = some first
      rw [hq]
      rfl
    obtain ⟨hone, hmore⟩ := queue_places hdb hq
    have hlookup : (cancelledDatabase student event reg env db).registration? r.id = _ :=
      lookup_cancelledDatabase hdb hreg hconfirmed hfirst hr
    rw [hlookup]
    by_cases hid : r.id = first.id
    · have hsame : r = first := by
        apply (waitlist_unique hdb).eq_of_key hr _ hid
        rw [← mem_queue, hq]
        exact List.mem_cons_self
      subst hsame
      rw [hone, if_pos rfl]
      exact ⟨fun _ => rfl, fun h => absurd rfl h⟩
    · have hrest : r ∈ rest := by
        have hmem := mem_queue.mpr hr
        rw [hq] at hmem
        rcases List.mem_cons.mp hmem with heq | hrest
        · exact absurd (congrArg Registration.id heq) hid
        · exact hrest
      obtain ⟨hpos, hplace⟩ := hmore r hrest
      -- The waitlist that is left is the rest of the queue.
      have hwaitlist : (cancelledDatabase student event reg env db).waitlist reg.eventId =
          (db.waitlist reg.eventId).filter fun r => r.id ≠ first.id :=
        waitlist_cancelledDatabase hdb hreg hconfirmed hfirst
      rw [if_neg hid]
      refine ⟨?_, fun _ => ⟨rfl, ?_, ?_⟩⟩
      · intro h
        omega
      · rw [hwaitlist, List.mem_filter, decide_eq_true_iff]
        exact ⟨hr, hid⟩
      · have hevent : r.eventId = reg.eventId := (mem_waitlist.mp hr).2.1
        have hleft : (cancelledDatabase student event reg env db).position r =
            rank Registration.fifo rest r := by
          unfold Database.position
          rw [hevent, hwaitlist]
          exact rank_perm (queue_rest hdb hq) r
        rw [hleft, hplace]

end Promotion

/-- The three views of the waitlist agree, and a promotion moves everybody else up by one. -/
theorem waitlist_views_agree {db : Database}
    (hdb : Table.KeyUnique Registration.id db.registrations) (eventId : UUID)
    (student : Registration → User) (hstudent : ∀ r, (student r).id = r.studentId) :
    ((db.waitlist eventId).map fun r => listedPosition db (student r) r.id).Perm
        ((List.range' 1 (db.waitlist eventId).length).map some) ∧
    (∀ organizer event limit pages, db.event? eventId = some event →
      event.organizerId = organizer.id → (db.waitlist eventId).length ≤ pages * limit →
      ∃ page : ℕ → List RegistrationSummary,
        (∀ k, (listEventRegistrations organizer eventId true limit (k * limit)).run db =
          (db, .ok (page k))) ∧
        ∃ rows : List Registration, rows.Perm (db.waitlist eventId) ∧
          (rows.map fun r => listedPosition db (student r) r.id) =
            (List.range' 1 (db.waitlist eventId).length).map some ∧
          (List.range pages).flatMap page = rows.map db.summary) ∧
    (∀ caller regId env reg db' response,
      (cancelRegistration caller regId env).run db = (db', .ok response) →
      db.registration? regId = some reg → reg.status = .confirmed → reg.eventId = eventId →
      ∀ r ∈ db.waitlist eventId,
        (listedPosition db (student r) r.id = some 1 → db'.registration? r.id = some r.confirm) ∧
        (listedPosition db (student r) r.id ≠ some 1 → db'.registration? r.id = some r ∧
          ∃ p, listedPosition db (student r) r.id = some (p + 1) ∧
            listedPosition db' (student r) r.id = some p)) := by
  have hlisted : ∀ r ∈ db.waitlist eventId,
      listedPosition db (student r) r.id = some (db.position r) :=
    fun r hr => listedPosition_eq hdb hr (hstudent r)
  have hperm : (db.queue eventId).Perm (db.waitlist eventId) := Table.orderBy_perm _ _
  have hqueue : ((db.queue eventId).map fun r => listedPosition db (student r) r.id) =
      (List.range' 1 (db.waitlist eventId).length).map some := by
    rw [← queue_positions hdb, List.map_map]
    apply List.map_congr_left
    intro r hr
    exact hlisted r (mem_queue.mp hr)
  refine ⟨?_, ?_, ?_⟩
  · rw [← hqueue]
    exact (hperm.map _).symm
  · intro organizer event limit pages hevent howner hpages
    refine ⟨fun k => (((db.queue eventId).drop (k * limit)).take limit).map db.summary, ?_, ?_⟩
    · intro k
      exact listEventRegistrations_run hevent howner limit (k * limit)
    · exact ⟨db.queue eventId, hperm, hqueue, pages_queue hpages⟩
  · intro caller regId env reg db' response hok hfound hconfirmed hevent r hr
    subst hevent
    have hreg := registration_mem hfound
    obtain ⟨event, _, _, rfl⟩ := cancelRegistration_ok hok hfound
    obtain ⟨hone, hmore⟩ := positions_cancelledDatabase hdb hreg hconfirmed hr
    rw [hlisted r hr]
    refine ⟨fun h => hone (Option.some.inj h), fun h => ?_⟩
    have hplace : db.position r ≠ 1 := fun heq => h (congrArg some heq)
    obtain ⟨hlookup, hleft, hmoved⟩ := hmore hplace
    refine ⟨hlookup, _, congrArg some hmoved, ?_⟩
    exact listedPosition_eq (cancelledDatabase_unique hdb) hleft (hstudent r)

def tiedEvent : Event where
  id := 100
  organizerId := 1
  title := "Concert"
  description := ""
  startsAt := hours 10
  endsAt := none
  location := "Hall"
  capacity := 1
  status := .published
  createdAt := 0
  updatedAt := 0

def tiedRegistration (id studentId : UUID) (status : RegistrationStatus) : Registration :=
  ⟨id, 100, studentId, status, minutes 1, none⟩

def tiedWaitlist : Database where
  events := [tiedEvent]
  registrations :=
    [tiedRegistration 10 2 .confirmed, tiedRegistration 12 3 .waitlisted,
      tiedRegistration 11 4 .waitlisted]

def studentOf (reg : Registration) : User :=
  { id := reg.studentId, email := "student@example.org", fullName := "Student", role := .student }

theorem waitlist_views_agree_tied :
    let seat := tiedRegistration 10 2 .confirmed
    ((tiedWaitlist.waitlist 100).map fun r => listedPosition tiedWaitlist (studentOf r) r.id).Perm
      [some 1, some 2] ∧
    ∃ db' response,
      (cancelRegistration (studentOf seat) 10 (envAt 60 500)).run tiedWaitlist =
        (db', .ok response) ∧
      db'.registration? 11 = some (tiedRegistration 11 4 .confirmed) ∧
      db'.registration? 12 = some (tiedRegistration 12 3 .waitlisted) := by
  intro seat
  have hdb : Table.KeyUnique Registration.id tiedWaitlist.registrations := by
    unfold Table.KeyUnique
    decide
  obtain ⟨hpositions, _, hpromotes⟩ := waitlist_views_agree hdb 100 studentOf fun _ => rfl
  have hpromoted := hpromotes (studentOf seat) 10 (envAt 60 500) seat _ _ rfl rfl rfl rfl
  refine ⟨hpositions, _, _, rfl, ?_, ?_⟩
  · exact (hpromoted (tiedRegistration 11 4 .waitlisted) (by decide +kernel)).1 (by decide +kernel)
  · exact ((hpromoted (tiedRegistration 12 3 .waitlisted) (by decide +kernel)).2
      (by decide +kernel)).1

end Hefest
