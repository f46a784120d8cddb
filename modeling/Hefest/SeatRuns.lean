import Mathlib.Order.Bounds.Basic
import Hefest.SeatLedger

set_option autoImplicit false

namespace Hefest
open Transition

/-- A database before the first registration: any events, and only account-scoped jobs. -/
structure Initial (db : Database) : Prop where
  registrations : db.registrations = []
  jobs : Table.KeyUnique NotificationJob.idempotencyKey db.notificationJobs
  accountScoped : ∀ j ∈ db.notificationJobs, j.idempotencyKey.eventType = .emailVerify ∧
    j.eventType = .emailVerify ∧ j.eventId = none ∧ j.payload.registrationId = none

theorem initial_empty : Initial {} where
  registrations := rfl
  jobs := List.nodup_nil
  accountScoped := by simp

theorem Initial.wf {db : Database} (h : Initial db) : Wf db where
  registrations := by simp [Table.KeyUnique, h.registrations]
  eventOf := by simp [h.registrations]

theorem Initial.count {db : Database} (h : Initial db) (eventId : UUID)
    (status : RegistrationStatus) : db.count eventId status = 0 := by
  simp [Database.count, h.registrations]

theorem after_wf (settings : Settings) {db₀ : Database} (h₀ : Initial db₀) (calls : List Call) :
    Wf (after (effect settings) db₀ calls) :=
  after_invariant (effect settings) Wf (fun _ => True) (fun c db _ hdb => (change settings c db).wf hdb)
    db₀ calls h₀.wf fun _ _ => trivial

section Overbooking
variable (settings : Settings)

def capacityHistory (db : Database) (calls : List Call) (id : UUID) : List ℕ :=
  (history (effect settings) db calls).filterMap fun d => (d.event? id).map Event.capacity

def Booked (lo hi : ℕ) (id : UUID) (db : Database) : Prop :=
  Wf db ∧ ∀ event, db.event? id = some event → (db.ledger event).Within lo hi

theorem Change.booked {c : Call} {db db' : Database} {lo hi : ℕ} {id : UUID}
    (h : Change settings c db db')
    (hcap : ∀ event, db.event? id = some event → lo ≤ event.capacity ∧ event.capacity ≤ hi)
    (hb : Booked lo hi id db) : Booked lo hi id db' := by
  refine ⟨h.wf hb.1, ?_⟩
  intro event' hevent'
  cases hevent : db.event? id with
  | none =>
    obtain ⟨hc, hw⟩ := h.new_ledger hb.1 hevent hevent'
    exact ⟨by omega, Or.inl hw⟩
  | some event =>
    obtain ⟨event'', hfound, hstep⟩ := h.ledger hb.1 hevent
    have hsame : event' = event'' := by
      rw [hevent'] at hfound
      exact Option.some.inj hfound
    subst hsame
    obtain ⟨hlo, hhi⟩ := hcap event hevent
    exact hstep.within hlo hhi (hb.2 event hevent)

/-- In every run the confirmed registrations of an event lie between `min m active` and
    `min M active`, where `m` and `M` are the smallest and largest capacity it has had; with one
    capacity throughout they are `min capacity active`. -/
theorem confirmed_within_capacities (db₀ : Database) (h₀ : Initial db₀) (calls : List Call)
    (id : UUID) (event : Event) (m M : ℕ)
    (hm : IsLeast {c | c ∈ capacityHistory settings db₀ calls id} m)
    (hM : IsGreatest {c | c ∈ capacityHistory settings db₀ calls id} M)
    (hevent : (after (effect settings) db₀ calls).event? id = some event) :
    let db := after (effect settings) db₀ calls
    let confirmed := db.count id .confirmed
    let active := confirmed + db.count id .waitlisted
    (min m active ≤ confirmed ∧ confirmed ≤ min M active) ∧
      (m = M → confirmed = min event.capacity active) := by
  have hcap : ∀ db ∈ history (effect settings) db₀ calls, ∀ e, db.event? id = some e →
      m ≤ e.capacity ∧ e.capacity ≤ M := by
    intro db hdb e he
    have hmem : e.capacity ∈ capacityHistory settings db₀ calls id :=
      List.mem_filterMap.mpr ⟨db, hdb, by rw [he]; rfl⟩
    exact ⟨hm.2 hmem, hM.2 hmem⟩
  have hstart : Booked m M id db₀ := by
    refine ⟨h₀.wf, ?_⟩
    intro e _
    exact ⟨by simp [Database.ledger, h₀.count], Or.inl (h₀.count _ _)⟩
  have hend : Booked m M id (after (effect settings) db₀ calls) :=
    history_invariant (effect settings) (Booked m M id)
      (fun db => ∀ e, db.event? id = some e → m ≤ e.capacity ∧ e.capacity ≤ M)
      (fun c db hgood _ hb => (change settings c db).booked settings hgood hb) db₀ calls hstart hcap
  have hbounds := (hend.2 event hevent).bounds
  obtain ⟨hlow, hhigh⟩ := hcap _ (mem_history_last (effect settings) db₀ calls) event hevent
  rw [Database.ledger, event_lookup_id hevent] at hbounds
  refine ⟨hbounds, ?_⟩
  intro hmM
  dsimp only at hbounds ⊢
  omega

end Overbooking

section OneSeat

def organizer : User :=
  { id := 1, email := "office@school.example", fullName := "Office", role := .organizer }

def alice : User :=
  { id := 2, email := "alice@school.example", fullName := "Alice", role := .student }

def bob : User := { id := 3, email := "bob@school.example", fullName := "Bob", role := .student }

def envAt (t : ℕ) (u : ℕ) : Env := ⟨fun n => seconds t + n, fun n => Fin.ofNat _ (u + n)⟩

def oneSeat : EventCreateRequest where
  title := "Defence"
  startsAt := days 1
  location := "Aula"
  capacity := ⟨1, Nat.one_pos⟩
  endsAfterStarts := by simp

def oneSeatCalls : List Call :=
  [.createEvent organizer oneSeat (envAt 0 100), .publishEvent organizer 100 (envAt 1 200),
    .registerStudent alice 100 (envAt 2 300), .registerStudent bob 100 (envAt 3 400)]

theorem confirmed_within_capacities_oneSeat :
    let db := after (effect {}) {} oneSeatCalls
    let confirmed := db.count 100 .confirmed
    let active := confirmed + db.count 100 .waitlisted
    (min 1 active ≤ confirmed ∧ confirmed ≤ min 1 active) ∧
      ((1 : ℕ) = 1 → confirmed = min 1 active) := by
  have hcap : capacityHistory {} {} oneSeatCalls 100 = [1, 1, 1, 1] := by decide
  have hone : {c | c ∈ capacityHistory {} {} oneSeatCalls 100} = {1} := by
    rw [hcap]
    ext c
    simp
  exact confirmed_within_capacities {} {} initial_empty oneSeatCalls 100
    ((newEvent organizer oneSeat (envAt 0 100)).publish (seconds 1)) 1 1
    (by rw [hone]; exact isLeast_singleton) (by rw [hone]; exact isGreatest_singleton) (by decide)

end OneSeat
end Hefest
