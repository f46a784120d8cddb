import Hefest.Listings

set_option autoImplicit false

namespace Hefest
open Transaction

structure OrganizerStatsResponse where
  eventsTotal : ℕ
  eventsDraft : ℕ
  eventsPublished : ℕ
  eventsUpcoming : ℕ
  totalCapacity : ℕ
  totalConfirmed : ℕ
  totalWaitlisted : ℕ
  newRegistrations7d : ℕ
deriving DecidableEq

def newRegistrationWindow : Time := days 7

/-- `Event.filter(organizer_id=...)`. -/
def Database.ownEvents (db : Database) (organizerId : UUID) : List Event :=
  db.events.filter fun event => event.organizerId = organizerId

/-- `Registration.filter(event__organizer_id=...)`, over the join with the event. -/
def Database.ownRegistrations (db : Database) (organizerId : UUID) : List Registration :=
  db.registrations.filter fun r => (db.event? r.eventId).any fun event => event.organizerId = organizerId

def countOwnEvents (organizerId : UUID) (p : Event → Bool) : Query ℕ :=
  .select fun db => (db.ownEvents organizerId).countP p

def countOwnRegistrations (organizerId : UUID) (p : Registration → Bool) : Query ℕ :=
  .select fun db => (db.ownRegistrations organizerId).countP p

/-- The SUM over no row is `NULL`, for which the service puts 0. -/
def sumPublishedCapacity (organizerId : UUID) : Query ℕ :=
  .select fun db =>
    (((db.ownEvents organizerId).filter fun event => event.status = .published).map
      Event.capacity).sum

/-- Eight independent queries. -/
def computeOrganizerStats (organizer : User) (env : Env) : Service OrganizerStatsResponse :=
  .stmt (countOwnEvents organizer.id fun _ => true) fun eventsTotal =>
  .stmt (countOwnEvents organizer.id fun event => event.status = .draft) fun eventsDraft =>
  .stmt (countOwnEvents organizer.id fun event => event.status = .published) fun eventsPublished =>
  .stmt (countOwnEvents organizer.id fun event =>
    event.status = .published ∧ env.now 0 < event.startsAt) fun eventsUpcoming =>
  .stmt (sumPublishedCapacity organizer.id) fun totalCapacity =>
  .stmt (countOwnRegistrations organizer.id fun r => r.status = .confirmed) fun totalConfirmed =>
  .stmt (countOwnRegistrations organizer.id fun r => r.status = .waitlisted) fun totalWaitlisted =>
  .stmt (countOwnRegistrations organizer.id fun r =>
    r.status = .confirmed ∧ env.now 0 - newRegistrationWindow ≤ r.registeredAt)
    fun newRegistrations7d =>
  .ret ⟨eventsTotal, eventsDraft, eventsPublished, eventsUpcoming, totalCapacity, totalConfirmed,
    totalWaitlisted, newRegistrations7d⟩

end Hefest
