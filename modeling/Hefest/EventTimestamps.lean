import Hefest.EventUpdates

set_option autoImplicit false

namespace Hefest
open Transition

def Call.env : Call → Env
  | .createEvent _ _ env => env
  | .publishEvent _ _ env => env
  | .updateEvent _ _ _ env => env
  | .cancelEvent _ _ env => env
  | .registerStudent _ _ env => env
  | .cancelRegistration _ _ env => env

def Event.SameColumns (old new : Event) : Prop := { new with updatedAt := old.updatedAt } = old

/-- Where a column changes, the time is one that the call has read; elsewhere it stays. -/
def TimeTracked (c : Call) (old new : Option Event) : Prop :=
  ∀ event ∈ new,
    (∀ before ∈ old, before.SameColumns event → event.updatedAt = before.updatedAt) ∧
    ((∀ before ∈ old, ¬ before.SameColumns event) → ∃ k, event.updatedAt = c.env.now k)

def UpdateIsIdle (settings : Settings) (db : Database) (c : Call) : Prop :=
  ∀ user eventId data env event, c = .updateEvent user eventId data env →
    db.event? eventId = some event → updateAccepted settings user event data env = true →
    data.assign event = event

def ReadInOrder (calls : List Call) : Prop :=
  ∀ (m n : ℕ) (c d : Call), m < n → calls[m]? = some c → calls[n]? = some d →
    ∀ j k, c.env.now j < d.env.now k

inductive RowChange (settings : Settings) (db : Database) (c : Call) :
    Option Event → Option Event → Prop
  | kept (row : Option Event) : RowChange settings db c row row
  | created (event : Event) (stamp : event.updatedAt = c.env.now 1) :
      RowChange settings db c none (some event)
  | published (event : Event) (draft : event.status = .draft) :
      RowChange settings db c (some event) (some (event.publish (c.env.now 0)))
  | cancelled (event : Event) (live : event.status ≠ .cancelled) :
      RowChange settings db c (some event) (some (event.cancel (c.env.now 1)))
  | updated (user : User) (eventId : UUID) (data : EventUpdateRequest) (env : Env) (event : Event)
      (call : c = .updateEvent user eventId data env) (found : db.event? eventId = some event)
      (accepted : updateAccepted settings user event data env = true) :
      RowChange settings db c (some event) (some (data.assign event))

section Rows
variable {settings : Settings} {db db' : Database} {c : Call}

theorem row_update (set : Event → Event) (hset : ∀ event, (set event).id = event.id)
    {eventId : UUID} {event : Event} (found : db.event? eventId = some event)
    (h : RowChange settings db c (some event) (some (set event))) (id : UUID) :
    RowChange settings db c (db.event? id)
      (Table.lookup Event.id id (Table.update Event.id eventId set db.events)) := by
  rw [Table.lookup_update hset]
  change RowChange settings db c (db.event? id) ((db.event? id).map _)
  by_cases hid : id = eventId
  · subst hid
    rw [found, Option.map_some, if_pos rfl]
    exact h
  · simp only [if_neg hid, Option.map_id']
    exact .kept _

theorem Change.row (h : Change settings c db db') (id : UUID) :
    RowChange settings db c (db.event? id) (db'.event? id) := by
  cases h with
  | refused => exact .kept _
  | registerStudent => exact .kept _
  | cancelRegistration => exact .kept _
  | @createEvent organizer data env _ fresh =>
    cases hold : db.event? id with
    | some event =>
      have hnew : Table.lookup Event.id id (db.events ++ [newEvent organizer data env]) =
          some event := Table.lookup_append_of_some hold
      change RowChange settings db _ (some event) (Table.lookup Event.id id _)
      rw [hnew]
      exact .kept _
    | none =>
      have hnew : Table.lookup Event.id id (db.events ++ [newEvent organizer data env]) =
          Table.lookup Event.id id [newEvent organizer data env] :=
        Table.lookup_append_of_none hold
      change RowChange settings db _ none (Table.lookup Event.id id _)
      rw [hnew]
      cases hrow : Table.lookup Event.id id [newEvent organizer data env] with
      | none => exact .kept _
      | some event =>
        have hevent : event = newEvent organizer data env :=
          List.mem_singleton.mp (Table.lookup_mem hrow)
        subst hevent
        exact .created _ rfl
  | @publishEvent user eventId env _ event found owner draft =>
    have hrow : RowChange settings db (.publishEvent user eventId env) (some event)
        (some (event.publish (env.now 0))) := .published event draft
    exact row_update (Event.publish (env.now 0)) (fun _ => rfl) found hrow id
  | @cancelEvent user eventId env _ event found owner live ahead fresh =>
    have hrow : RowChange settings db (.cancelEvent user eventId env) (some event)
        (some (event.cancel (env.now 1))) := .cancelled event live
    exact row_update (Event.cancel (env.now 1)) (fun _ => rfl) found hrow id
  | @updateEvent user eventId data env _ event found accepted =>
    have hrow : RowChange settings db (.updateEvent user eventId data env) (some event)
        (some (data.assign event)) := .updated user eventId data env event rfl found accepted
    exact row_update data.assign (fun _ => rfl) found hrow id

theorem timeTracked_kept (row : Option Event) : TimeTracked c row row := by
  intro event hevent
  refine ⟨fun before hbefore _ => ?_, fun hnone => ?_⟩
  · rw [Option.mem_unique hbefore hevent]
  · exact absurd rfl (hnone event hevent)

theorem timeTracked_restamped {before event : Event} {k : ℕ}
    (hstamp : event.updatedAt = c.env.now k) (hstatus : event.status ≠ before.status) :
    TimeTracked c (some before) (some event) := by
  intro event' hevent'
  cases hevent'
  refine ⟨fun before' hbefore' hsame => ?_, fun _ => ⟨k, hstamp⟩⟩
  cases hbefore'
  exact absurd (congrArg Event.status hsame) hstatus

theorem RowChange.timeTracked {old new : Option Event} (h : RowChange settings db c old new)
    (hc : UpdateIsIdle settings db c) : TimeTracked c old new := by
  cases h with
  | kept => exact timeTracked_kept _
  | created event stamp =>
    intro event' hevent'
    cases hevent'
    refine ⟨fun before hbefore => ?_, fun _ => ⟨1, stamp⟩⟩
    cases hbefore
  | published event draft =>
    refine timeTracked_restamped rfl ?_
    rw [draft]
    change EventStatus.published ≠ EventStatus.draft
    decide
  | cancelled event live => exact timeTracked_restamped rfl (fun heq => live heq.symm)
  | updated user eventId data env event call found accepted =>
    rw [hc user eventId data env event call found accepted]
    exact timeTracked_kept _

theorem RowChange.stamp {old new : Option Event} (h : RowChange settings db c old new) :
    ∀ event ∈ new, (∃ before ∈ old, event.updatedAt = before.updatedAt) ∨
      ∃ k, event.updatedAt = c.env.now k := by
  intro event hevent
  cases h with
  | kept row => exact Or.inl ⟨event, hevent, rfl⟩
  | created row stamp =>
    cases hevent
    exact Or.inr ⟨1, stamp⟩
  | published row draft =>
    cases hevent
    exact Or.inr ⟨0, rfl⟩
  | cancelled row live =>
    cases hevent
    exact Or.inr ⟨1, rfl⟩
  | updated user eventId data env row call found accepted =>
    cases hevent
    exact Or.inl ⟨row, rfl, rfl⟩

end Rows

section Runs
variable {settings : Settings} {db₀ : Database} {calls : List Call}

/-- A stored time was read by a call of the run so far. -/
theorem stamped_before (h₀ : db₀.events = []) (n : ℕ) (id : UUID) :
    ∀ event ∈ (after (effect settings) db₀ (calls.take n)).event? id,
      ∃ (m : ℕ) (c : Call) (k : ℕ), m < n ∧ calls[m]? = some c ∧ event.updatedAt = c.env.now k := by
  induction n with
  | zero =>
    intro event hevent
    rw [List.take_zero, after_nil, Database.event?, h₀] at hevent
    cases hevent
  | succ n ih =>
    intro event hevent
    cases hc : calls[n]? with
    | none =>
      have hn : calls.length ≤ n := List.getElem?_eq_none_iff.mp hc
      rw [List.take_of_length_le (by omega)] at hevent
      rw [List.take_of_length_le hn] at ih
      obtain ⟨m, c, k, hm, hcall, hstamp⟩ := ih event hevent
      exact ⟨m, c, k, by omega, hcall, hstamp⟩
    | some c =>
      rw [after_take_succ (effect settings) db₀ calls n c hc] at hevent
      rcases ((change settings c _).row id).stamp event hevent with ⟨before, hbefore, heq⟩ | ⟨k, hk⟩
      · obtain ⟨m, d, k, hm, hcall, hstamp⟩ := ih before hbefore
        exact ⟨m, d, k, by omega, hcall, heq.trans hstamp⟩
      · exact ⟨n, c, k, by omega, hc, hk⟩

theorem idle_of_timeTracked (h₀ : db₀.events = []) (order : ReadInOrder calls) {n : ℕ} {c : Call}
    (hcall : calls[n]? = some c)
    (h : ∀ id, TimeTracked c ((after (effect settings) db₀ (calls.take n)).event? id)
      ((after (effect settings) db₀ (calls.take (n + 1))).event? id)) :
    UpdateIsIdle settings (after (effect settings) db₀ (calls.take n)) c := by
  intro user eventId data env event hc found accepted
  by_contra hchanges
  have hnew : (after (effect settings) db₀ (calls.take (n + 1))).event? eventId =
      some (data.assign event) := by
    rw [after_take_succ (effect settings) db₀ calls n c hcall, hc,
      effect_updateEvent found accepted]
    have hid (e : Event) : (data.assign e).id = e.id := rfl
    have hwritten (db : Database) : ((saveEvent eventId data.assign).write db db).event? eventId =
        (db.event? eventId).map data.assign := saveEvent_event? hid db db
    exact (hwritten _).trans (congrArg (Option.map data.assign) found)
  have hdifferent : ∀ before ∈ (after (effect settings) db₀ (calls.take n)).event? eventId,
      ¬ before.SameColumns (data.assign event) := by
    intro before hbefore hsame
    rw [found, Option.mem_some_iff] at hbefore
    subst hbefore
    exact hchanges hsame
  obtain ⟨k, hk⟩ := (h eventId (data.assign event) hnew).2 hdifferent
  have hkept : (data.assign event).updatedAt = event.updatedAt := rfl
  obtain ⟨m, d, j, hm, hd, hj⟩ := stamped_before h₀ n eventId event found
  have hlt : d.env.now j < c.env.now k := order m n d c hm hd hcall j k
  rw [← hj, ← hkept, hk] at hlt
  exact lt_irrefl _ hlt

end Runs

/-- In a run from an empty table of events `updated_at` follows every change, exactly if no accepted
    update changes a column. -/
theorem updated_at_tracked_iff (settings : Settings) (db₀ : Database) (h₀ : db₀.events = [])
    (calls : List Call) (order : ReadInOrder calls) :
    (∀ (n : ℕ) (c : Call), calls[n]? = some c → ∀ id,
      TimeTracked c ((after (effect settings) db₀ (calls.take n)).event? id)
        ((after (effect settings) db₀ (calls.take (n + 1))).event? id)) ↔
      ∀ (n : ℕ) (c : Call), calls[n]? = some c →
        UpdateIsIdle settings (after (effect settings) db₀ (calls.take n)) c := by
  constructor
  · intro h n c hcall
    exact idle_of_timeTracked h₀ order hcall (h n c hcall)
  · intro h n c hcall id
    rw [after_take_succ (effect settings) db₀ calls n c hcall]
    exact ((change settings c _).row id).timeTracked (h n c hcall)

def stoppedAt (t : ℕ) (u : ℕ) : Env := ⟨fun _ => seconds t, fun n => Fin.ofNat _ (u + n)⟩

def created : Call := .createEvent organizer oneSeat (stoppedAt 0 100)

theorem readInOrder_pair {c d : Call} (h : ∀ j k, c.env.now j < d.env.now k) :
    ReadInOrder [c, d] := by
  intro m n first second hmn hfirst hsecond
  obtain ⟨hlt, -⟩ := List.getElem?_eq_some_iff.mp hsecond
  have hn : n < 2 := hlt
  have hm : m = 0 := by omega
  have hone : n = 1 := by omega
  subst hm hone
  cases hfirst
  cases hsecond
  exact h

theorem seconds_zero_lt_one : seconds 0 < seconds 1 := by decide

def retitled : List Call :=
  [created, .updateEvent organizer 100 { title := some (some "Rehearsal") } (stoppedAt 1 200)]

theorem retitled_event_keeps_its_time :
    ReadInOrder retitled ∧
    ∃ event, (after (effect {}) {} retitled).event? 100 = some event ∧
      event.title = "Rehearsal" ∧ event.updatedAt = seconds 0 := by
  exact ⟨readInOrder_pair (fun _ _ => seconds_zero_lt_one), _, rfl, rfl, rfl⟩

def createdAndPublished : List Call := [created, .publishEvent organizer 100 (stoppedAt 1 200)]

theorem updated_at_tracked_iff_published :
    ((after (effect {}) {} createdAndPublished).event? 100).map Event.updatedAt =
        some (seconds 1) ∧
      ∀ (n : ℕ) (c : Call), createdAndPublished[n]? = some c → ∀ id,
        TimeTracked c ((after (effect {}) {} (createdAndPublished.take n)).event? id)
          ((after (effect {}) {} (createdAndPublished.take (n + 1))).event? id) := by
  have order : ReadInOrder createdAndPublished :=
    readInOrder_pair (fun _ _ => seconds_zero_lt_one)
  refine ⟨rfl, (updated_at_tracked_iff {} {} rfl createdAndPublished order).mpr ?_⟩
  intro n c hcall user eventId data env event hc
  subst hc
  have hmem := List.mem_of_getElem? hcall
  simp [createdAndPublished, created] at hmem

end Hefest
