import Hefest.Lib.Pages
import Hefest.WaitlistViews

set_option autoImplicit false

namespace Hefest
open Transaction Ranking

instance : Std.Total Event.latestFirst where
  total e f := le_total f.startsAt e.startsAt

instance : IsTrans Event Event.latestFirst where
  trans _ _ _ hef hfg := le_trans hfg hef

instance : Std.Total NotificationJob.newestFirst where
  total i j := le_total j.createdAt i.createdAt

instance : IsTrans NotificationJob NotificationJob.newestFirst where
  trans _ _ _ hij hjk := le_trans hjk hij

section Rows
variable (db : Database) (user : User)

def Database.visibleEvents : List Event :=
  db.events.filter fun event =>
    if user.role = .student then event.status = .published
    else event.organizerId = user.id ∨ event.status = .published

def Database.visibleJobs (eventId : Option UUID) : List NotificationJob :=
  db.notificationJobs.filter fun job =>
    db.ownsJob user job && (eventId.isNone || job.eventId = eventId)

def eventPage (order : List Event) (limit offset : ℕ) : List EventResponse :=
  ((order.drop offset).take limit).map fun event => ⟨event, db.count event.id .confirmed⟩

def jobPage (order : List NotificationJob) (limit offset : ℕ) : List NotificationJobResponse :=
  ((order.drop offset).take limit).map NotificationJob.response

end Rows

section Services
variable {db : Database} {user : User}

theorem listEvents_run (limit offset : ℕ) :
    (listEvents user limit offset).run db =
      (db, .ok (eventPage db (Table.orderBy Event.latestFirst (db.visibleEvents user)) limit
        offset)) := by
  unfold listEvents Database.visibleEvents
  by_cases hstudent : user.role = .student
  · simp only [hstudent, if_true]
    rfl
  · simp only [hstudent, if_false]
    rfl

theorem listNotificationJobs_run (horganizer : user.role = .organizer) (eventId : Option UUID)
    (limit offset : ℕ) :
    (listNotificationJobs user eventId limit offset).run db =
      (db, .ok (jobPage (Table.orderBy NotificationJob.newestFirst (db.visibleJobs user eventId))
        limit offset)) := by
  unfold listNotificationJobs requireRole
  rw [if_pos horganizer]
  rfl

end Services

/-- The pages of `list_events` at `0, limit, 2 * limit, …` hold every visible event once, whatever
    order the database chooses for each query. -/
def EventPagesExact (db : Database) (user : User) (limit : ℕ) : Prop :=
  ∀ orders : ℕ → List Event,
    (∀ k, Ordered Event.latestFirst (db.visibleEvents user) (orders k)) →
    ∀ n, (db.visibleEvents user).length ≤ n * limit →
      (((List.range n).flatMap fun k => eventPage db (orders k) limit (k * limit)).map
        fun response => response.event.id).Perm ((db.visibleEvents user).map Event.id)

def JobPagesExact (db : Database) (user : User) (eventId : Option UUID) (limit : ℕ) : Prop :=
  ∀ orders : ℕ → List NotificationJob,
    (∀ k, Ordered NotificationJob.newestFirst (db.visibleJobs user eventId) (orders k)) →
    ∀ n, (db.visibleJobs user eventId).length ≤ n * limit →
      (((List.range n).flatMap fun k => jobPage (orders k) limit (k * limit)).map
        NotificationJobResponse.id).Perm ((db.visibleJobs user eventId).map NotificationJob.id)

/-- The last row of a page and the first one of the next have different keys. -/
def PageEndsApart {α : Type} (key : α → Time) (rows : List α) (limit : ℕ) : Prop :=
  ∀ k x y, rows[(k + 1) * limit - 1]? = some x → rows[(k + 1) * limit]? = some y → key x ≠ key y

section Ties
variable {α : Type} {le : α → α → Prop} {key : α → Time} {l : List α} {limit : ℕ}

/-- In an order by descending keys, two neighbours are tied if they have one key. -/
theorem pageEndsApart_iff (hle : ∀ x y, le x y ↔ key y ≤ key x) (hsorted : l.Pairwise le)
    (hlimit : 1 ≤ limit) : PageEndsApart key l limit ↔ ∀ k, NoTieAt le l ((k + 1) * limit) := by
  have hneighbours : ∀ k x y, l[(k + 1) * limit - 1]? = some x → l[(k + 1) * limit]? = some y →
      (key x ≠ key y ↔ ¬ le y x) := by
    intro k x y hx hy
    obtain ⟨hb, rfl⟩ := List.getElem?_eq_some_iff.mp hx
    obtain ⟨hb', rfl⟩ := List.getElem?_eq_some_iff.mp hy
    have hpos : 0 < (k + 1) * limit := Nat.mul_pos (Nat.succ_pos k) hlimit
    have horder := List.pairwise_iff_getElem.mp hsorted ((k + 1) * limit - 1) ((k + 1) * limit) hb
      hb' (by omega)
    rw [hle] at horder ⊢
    constructor
    · intro hne hback
      exact hne (le_antisymm hback horder)
    · intro hback heq
      exact hback heq.le
  constructor
  · intro h k x y hx hy
    exact (hneighbours k x y hx hy).mp (h k x y hx hy)
  · intro h k x y hx hy
    exact (hneighbours k x y hx hy).mpr (h k x y hx hy)

end Ties

/-- The pages of both listings are exact for every tie-breaking, exactly if no tie of `starts_at`, or
    of `created_at`, reaches across the end of a page. -/
theorem listing_pages_exact_iff (db : Database) (hevents : Table.KeyUnique Event.id db.events)
    (hjobs : Table.KeyUnique NotificationJob.id db.notificationJobs) (user : User)
    (eventId : Option UUID) (limit : ℕ) (hlimit : 1 ≤ limit) :
    (EventPagesExact db user limit ↔
      PageEndsApart Event.startsAt
        (Table.orderBy Event.latestFirst (db.visibleEvents user)) limit) ∧
      (JobPagesExact db user eventId limit ↔
        PageEndsApart NotificationJob.createdAt
          (Table.orderBy NotificationJob.newestFirst (db.visibleJobs user eventId)) limit) := by
  have hvisible : ((db.visibleEvents user).map Event.id).Nodup := hevents.filter _
  have hown : ((db.visibleJobs user eventId).map NotificationJob.id).Nodup := hjobs.filter _
  have hevent := ordered_insertionSort Event.latestFirst (db.visibleEvents user)
  have hjob := ordered_insertionSort NotificationJob.newestFirst (db.visibleJobs user eventId)
  have hlatest : ∀ e f, Event.latestFirst e f ↔ f.startsAt ≤ e.startsAt := fun _ _ => Iff.rfl
  have hnewest : ∀ i j, NotificationJob.newestFirst i j ↔ j.createdAt ≤ i.createdAt :=
    fun _ _ => Iff.rfl
  refine ⟨?_, ?_⟩
  · unfold Table.orderBy
    rw [pageEndsApart_iff hlatest hevent.sorted hlimit,
      ← pages_exact_iff hvisible hevent hlimit]
    unfold EventPagesExact pages eventPage
    simp only [List.map_flatMap, List.map_map]
    rfl
  · unfold Table.orderBy
    rw [pageEndsApart_iff hnewest hjob.sorted hlimit,
      ← pages_exact_iff hown hjob hlimit]
    unfold JobPagesExact pages jobPage
    simp only [List.map_flatMap, List.map_map]
    rfl

def twoConcerts : Database where
  events := [tiedEvent, { tiedEvent with id := 101 }]

theorem listing_pages_exact_iff_twoConcerts :
    EventPagesExact twoConcerts alice 2 ∧ JobPagesExact twoConcerts organizer none 2 := by
  have hevents : Table.KeyUnique Event.id twoConcerts.events := by
    unfold Table.KeyUnique
    decide
  have hnever : ∀ {α : Type} (key : α → Time) (l : List α), l.length ≤ 2 → PageEndsApart key l 2 := by
    intro α key l hl k x y _ hy
    rw [List.getElem?_eq_none (by omega)] at hy
    cases hy
  refine ⟨?_, ?_⟩
  · exact (listing_pages_exact_iff twoConcerts hevents List.nodup_nil alice none 2
      (by decide)).1.mpr (hnever _ _ (by decide))
  · exact (listing_pages_exact_iff twoConcerts hevents List.nodup_nil organizer none 2
      (by decide)).2.mpr (hnever _ _ (by decide))

/-- One event a page, and the two queries sort the tie differently: the first page and the second
    one show the same event. -/
theorem concert_listed_twice : ¬ EventPagesExact twoConcerts alice 1 := by
  intro h
  have hpages := h (fun k => if k = 0 then [tiedEvent, { tiedEvent with id := 101 }]
    else [{ tiedEvent with id := 101 }, tiedEvent]) ?_ 2 (by decide)
  · revert hpages
    decide
  · intro k
    dsimp only
    split_ifs
    · exact ⟨by decide, by decide⟩
    · exact ⟨by decide, by decide⟩

end Hefest
