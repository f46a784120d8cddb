import Hefest.Dashboard
import Hefest.EventLifecycle

set_option autoImplicit false

namespace Hefest
open Transition Transaction

def Event.EndsAfterStart (event : Event) : Prop := ∀ e, event.endsAt = some e → event.startsAt < e

/-- The start and the end that the event has after the body has been merged are in order: both from
    the body, or one of them from the body and the other one as it is stored. -/
structure MergesInOrder (data : EventUpdateRequest) (event : Event) : Prop where
  both : ∀ s e, data.startsAt = some (some s) → data.endsAt = some (some e) → s < e
  startAlone : ∀ s e, data.startsAt = some (some s) → data.endsAt = none → event.endsAt = some e → s < e
  endAlone : ∀ e, data.startsAt.join = none → data.endsAt = some (some e) → event.startsAt < e

def UpdatesInOrder (settings : Settings) (db : Database) (c : Call) : Prop :=
  ∀ user eventId data env event, c = .updateEvent user eventId data env →
    db.event? eventId = some event → updateAccepted settings user event data env = true →
      MergesInOrder data event

section Times
variable {settings : Settings} {data : EventUpdateRequest} {event : Event} {db db' : Database}

theorem assign_endsAfterStart_iff (hevent : event.EndsAfterStart) :
    (data.assign event).EndsAfterStart ↔ MergesInOrder data event := by
  have hstart : (data.assign event).startsAt = data.startsAt.join.getD event.startsAt := rfl
  have hend : (data.assign event).endsAt = data.endsAt.getD event.endsAt := rfl
  unfold Event.EndsAfterStart
  rw [hstart, hend]
  constructor
  · intro h
    refine ⟨?_, ?_, ?_⟩
    · intro s e hs he
      rw [hs, he] at h
      exact h e rfl
    · intro s e hs hnone he
      rw [hs, hnone] at h
      exact h e he
    · intro e hs he
      rw [hs, he] at h
      exact h e rfl
  · intro h e he
    cases hs : data.startsAt.join with
    | some s =>
      have hbody := Option.join_eq_some_iff.mp hs
      cases hsent : data.endsAt with
      | none =>
        rw [hsent] at he
        exact h.startAlone s e hbody hsent he
      | some end? =>
        rw [hsent] at he
        exact h.both s e hbody (hsent.trans (congrArg some he))
    | none =>
      cases hsent : data.endsAt with
      | none =>
        rw [hsent] at he
        exact hevent e he
      | some end? =>
        rw [hsent] at he
        exact h.endAlone e hs (hsent.trans (congrArg some he))

theorem effect_updateEvent {user : User} {eventId : UUID} {env : Env}
    (hfound : db.event? eventId = some event)
    (haccepted : updateAccepted settings user event data env = true) :
    effect settings (.updateEvent user eventId data env) db =
      { db with events := Table.update Event.id eventId data.assign db.events } := by
  unfold effect perform Call.prog
  rw [effect_map, updateEvent_run data hfound haccepted]

/-- Created events are in order, and of the other calls only an update touches the times. -/
theorem Change.endsAfterStart {c : Call} (h : Change settings c db db')
    (hevents : Table.KeyUnique Event.id db.events) (hc : UpdatesInOrder settings db c)
    (hdb : ∀ event ∈ db.events, event.EndsAfterStart) :
    ∀ event ∈ db'.events, event.EndsAfterStart := by
  cases h with
  | refused => exact hdb
  | registerStudent => exact hdb
  | cancelRegistration => exact hdb
  | @createEvent organizer data env =>
    intro event hevent
    rcases List.mem_append.mp hevent with hold | hnew
    · exact hdb event hold
    · rw [List.mem_singleton.mp hnew]
      exact data.endsAfterStarts
  | publishEvent =>
    intro event hevent
    rcases Table.mem_update.mp hevent with ⟨hold, _⟩ | ⟨old, hold, _, rfl⟩
    · exact hdb event hold
    · exact hdb old hold
  | cancelEvent =>
    intro event hevent
    rcases Table.mem_update.mp hevent with ⟨hold, _⟩ | ⟨old, hold, _, rfl⟩
    · exact hdb event hold
    · exact hdb old hold
  | @updateEvent user eventId data env _ found hfound haccepted =>
    intro event hevent
    rcases Table.mem_update.mp hevent with ⟨hold, _⟩ | ⟨old, hold, hid, rfl⟩
    · exact hdb event hold
    · have hsame : old = found :=
        hevents.eq_of_key hold (Table.lookup_mem hfound) (hid.trans (Table.lookup_key hfound).symm)
      subst hsame
      exact (assign_endsAfterStart_iff (hdb old hold)).mpr
        (hc user eventId data env old rfl hfound haccepted)

end Times

/-- In a run from an empty table of events every stored event ends after it starts, exactly if the
    body of every accepted update merges in order with the event it finds. -/
theorem ends_after_starts_iff (settings : Settings) (db₀ : Database) (h₀ : db₀.events = [])
    (calls : List Call) :
    (∀ n, ∀ event ∈ (after (effect settings) db₀ (calls.take n)).events, event.EndsAfterStart) ↔
      ∀ n c, calls[n]? = some c →
        UpdatesInOrder settings (after (effect settings) db₀ (calls.take n)) c := by
  have hunique₀ : Table.KeyUnique Event.id db₀.events := by
    rw [h₀]
    exact List.nodup_nil
  have hunique : ∀ n, Table.KeyUnique Event.id
      (after (effect settings) db₀ (calls.take n)).events :=
    fun n => events_unique_after hunique₀ (calls.take n)
  constructor
  · intro h n c hc user eventId data env event hcall hfound haccepted
    subst hcall
    have hmem := Table.lookup_mem hfound
    apply (assign_endsAfterStart_iff (h n event hmem)).mp
    apply h (n + 1)
    rw [after_take_succ (effect settings) db₀ calls n _ hc, effect_updateEvent hfound haccepted]
    exact Table.mem_update.mpr (Or.inr ⟨event, hmem, Table.lookup_key hfound, rfl⟩)
  · intro h n
    refine (take_invariant (effect settings)
      (fun db => Table.KeyUnique Event.id db.events ∧ ∀ event ∈ db.events, event.EndsAfterStart)
      (UpdatesInOrder settings) ?_ db₀ calls ⟨hunique₀, ?_⟩ h n).2
    · intro c db hc hdb
      exact ⟨(change settings c db).events_unique hdb.1,
        (change settings c db).endsAfterStart hdb.1 hc hdb.2⟩
    · intro event hevent
      rw [h₀] at hevent
      cases hevent

def startBehindEnd : List Call :=
  [.createEvent organizer oneSeat (envAt 0 100),
    .updateEvent organizer 100 { endsAt := some (some (days 2)) } (envAt 1 200),
    .updateEvent organizer 100 { startsAt := some (some (days 3)) } (envAt 2 300)]

theorem event_ends_before_start :
    ∃ event, (after (effect {}) {} startBehindEnd).event? 100 = some event ∧
      event.startsAt = days 3 ∧ event.endsAt = some (days 2) ∧ ¬ event.EndsAfterStart := by
  refine ⟨_, rfl, rfl, rfl, ?_⟩
  intro h
  have hlt : days 3 < days 2 := h (days 2) rfl
  revert hlt
  decide

def movedTogether : List Call :=
  [.createEvent organizer oneSeat (envAt 0 100),
    .updateEvent organizer 100
      { startsAt := some (some (days 3)), endsAt := some (some (days 4)) } (envAt 2 300)]

theorem ends_after_starts_iff_together :
    (after (effect {}) {} movedTogether).events.map Event.endsAt = [some (days 4)] ∧
      ∀ n, ∀ event ∈ (after (effect {}) {} (movedTogether.take n)).events,
        event.EndsAfterStart := by
  refine ⟨by decide, (ends_after_starts_iff {} {} rfl movedTogether).mpr ?_⟩
  intro n c hc user eventId data env event hcall _ _
  subst hcall
  cases n with
  | zero => cases hc
  | succ n =>
    cases n with
    | zero =>
      cases hc
      refine ⟨?_, ?_, ?_⟩
      · intro s e hs he
        cases hs
        cases he
        decide
      · intro s e _ hnone
        cases hnone
      · intro e hnone
        cases hnone
    | succ n => cases hc

def Replaced {α : Type} (sent : Option (Option α)) (old new : α) : Prop :=
  (∀ a, sent = some (some a) → new = a) ∧ (sent.join = none → new = old)

/-- The merge that the schema describes: `null` clears the end and is ignored everywhere else. -/
structure MergesIgnoringNulls (data : EventUpdateRequest) (old new : Event) : Prop where
  title : Replaced data.title old.title new.title
  description : Replaced data.description old.description new.description
  startsAt : Replaced data.startsAt old.startsAt new.startsAt
  endsAt : (∀ end?, data.endsAt = some end? → new.endsAt = end?) ∧
    (data.endsAt = none → new.endsAt = old.endsAt)
  location : Replaced data.location old.location new.location
  capacity : Replaced (data.capacity.map (Option.map PNat.val)) old.capacity new.capacity
  others : new.id = old.id ∧ new.organizerId = old.organizerId ∧ new.status = old.status ∧
    new.createdAt = old.createdAt ∧ new.updatedAt = old.updatedAt

theorem replaced_getD {α : Type} (sent : Option (Option α)) (old : α) :
    Replaced sent old (sent.join.getD old) := by
  refine ⟨?_, ?_⟩
  · intro a ha
    rw [ha]
    rfl
  · intro hnone
    rw [hnone]
    rfl

theorem assign_merges (data : EventUpdateRequest) (event : Event) :
    MergesIgnoringNulls data event (data.assign event) where
  title := replaced_getD data.title event.title
  description := replaced_getD data.description event.description
  startsAt := replaced_getD data.startsAt event.startsAt
  endsAt := by
    refine ⟨?_, ?_⟩
    · intro end? hsent
      simp [EventUpdateRequest.assign, hsent]
    · intro hnone
      simp [EventUpdateRequest.assign, hnone]
  location := replaced_getD data.location event.location
  capacity := by
    have hvalue : (data.assign event).capacity =
        (data.capacity.map (Option.map PNat.val)).join.getD event.capacity := by
      unfold EventUpdateRequest.assign
      rcases data.capacity with _ | _ | n <;> rfl
    rw [hvalue]
    exact replaced_getD _ event.capacity
  others := ⟨rfl, rfl, rfl, rfl, rfl⟩

/-- A body that changes no location passes if it sends `null` for no field but the end, its texts are
    without NUL, its times of the years 1 to 9999 and its capacity is an `int4`. -/
structure Writable (data : EventUpdateRequest) : Prop where
  title : data.title ≠ some none
  description : data.description ≠ some none
  startsAt : data.startsAt ≠ some none
  location : data.location ≠ some none
  capacity : data.capacity ≠ some none
  titleText : ∀ s, data.title = some (some s) → Char.ofNat 0 ∉ s.toList
  descriptionText : ∀ s, data.description = some (some s) → Char.ofNat 0 ∉ s.toList
  startYear : ∀ t, data.startsAt = some (some t) → -days 719162 ≤ t ∧ t < days 2932897
  endYear : ∀ t, data.endsAt = some (some t) → -days 719162 ≤ t ∧ t < days 2932897
  capacityInt : ∀ n, data.capacity = some (some n) → n.val ≤ 2147483647

theorem join_all_iff {α : Type} {sent : Option (Option α)} {p : α → Bool} :
    sent.join.all p = true ↔ ∀ a, sent = some (some a) → p a = true := by
  rcases sent with _ | _ | a <;> simp

theorem writable_iff {data : EventUpdateRequest} (hlocation : data.location.join = none) :
    Writable data ↔ data.nullsColumn = false ∧ data.fitsColumns = true := by
  have hnulls : data.nullsColumn = false ↔ data.title ≠ some none ∧ data.description ≠ some none ∧
      data.startsAt ≠ some none ∧ data.location ≠ some none ∧ data.capacity ≠ some none := by
    simp [EventUpdateRequest.nullsColumn, and_assoc]
  have hfits : data.fitsColumns = true ↔
      (∀ s, data.title = some (some s) → textColumn s = true) ∧
      (∀ s, data.description = some (some s) → textColumn s = true) ∧
      (∀ t, data.startsAt = some (some t) → datetimeColumn t = true) ∧
      (∀ t, data.endsAt = some (some t) → datetimeColumn t = true) ∧
      ∀ n : ℕ+, data.capacity = some (some n) → intColumn n.val = true := by
    unfold EventUpdateRequest.fitsColumns
    rw [hlocation]
    simp only [Bool.and_eq_true, join_all_iff, Option.all_none, and_true, and_assoc]
  have htext (s : String) : textColumn s = true ↔ Char.ofNat 0 ∉ s.toList := by simp [textColumn]
  have hyear (t : Time) : datetimeColumn t = true ↔ -days 719162 ≤ t ∧ t < days 2932897 := by
    simp [datetimeColumn]
  have hint (n : ℕ) : intColumn n = true ↔ n ≤ 2147483647 := decide_eq_true_iff
  simp only [htext, hyear, hint] at hfits
  rw [hnulls, hfits]
  constructor
  · intro h
    exact ⟨⟨h.title, h.description, h.startsAt, h.location, h.capacity⟩, h.titleText,
      h.descriptionText, h.startYear, h.endYear, h.capacityInt⟩
  · rintro ⟨⟨h1, h2, h3, h4, h5⟩, h6, h7, h8, h9, h10⟩
    exact ⟨h1, h2, h3, h4, h5, h6, h7, h8, h9, h10⟩

/-- An update by the owner that leaves the location alone succeeds as the described merge, exactly if
    its body is writable. -/
theorem update_merges_iff (settings : Settings) (db : Database) (user : User) (eventId : UUID)
    (data : EventUpdateRequest) (env : Env) (event : Event) (hevent : db.event? eventId = some event)
    (howner : event.organizerId = user.id) (hlocation : data.location.join = none) :
    (∃ db' new, (updateEvent settings user eventId data env).run db = (db', .ok new) ∧
      db'.event? eventId = some new ∧ MergesIgnoringNulls data event new) ↔ Writable data := by
  constructor
  · rintro ⟨db', new, hok, _, _⟩
    obtain ⟨old, hold, haccepted, _, _⟩ := updateEvent_ok hok
    simp only [updateAccepted, Bool.and_eq_true, Bool.not_eq_true'] at haccepted
    exact (writable_iff hlocation).mpr ⟨haccepted.1.2, haccepted.2⟩
  · intro hwritable
    have hnone : data.location = none := by
      cases hsent : data.location with
      | none => rfl
      | some location? =>
        rw [hsent] at hlocation
        have hnull : location? = none := hlocation
        exact absurd (hsent.trans (congrArg some hnull)) hwritable.location
    obtain ⟨hnulls, hfits⟩ := (writable_iff hlocation).mp hwritable
    have haccepted : updateAccepted settings user event data env = true := by
      simp [updateAccepted, howner, hnone, hnulls, hfits]
    refine ⟨_, data.assign event, updateEvent_run data hevent haccepted, ?_,
      assign_merges data event⟩
    have hid : ∀ e : Event, (data.assign e).id = e.id := fun _ => rfl
    have hsaved : ((saveEvent eventId data.assign).write db db).event? eventId =
        (db.event? eventId).map data.assign := saveEvent_event? hid db db
    rw [hevent, Option.map_some] at hsaved
    exact hsaved

theorem update_merges_iff_endCleared :
    ∃ db' new, (updateEvent {} organizer 100
        { title := some (some "Defence, part 2"), endsAt := some none } (envAt 4 500)).run
          draftEvent = (db', .ok new) ∧ db'.event? 100 = some new ∧
      MergesIgnoringNulls { title := some (some "Defence, part 2"), endsAt := some none }
        (newEvent organizer oneSeat (envAt 0 100)) new :=
  (update_merges_iff {} draftEvent organizer 100 _ (envAt 4 500)
    (newEvent organizer oneSeat (envAt 0 100)) rfl rfl rfl).mpr
      ((writable_iff rfl).mpr (by decide))

theorem update_null_title :
    (updateEvent {} organizer 100 { title := some none } (envAt 4 500)).run draftEvent =
        (draftEvent, .error (.valueError "null for a non nullable field")) ∧
      ¬ ∃ db' new, (updateEvent {} organizer 100 { title := some none } (envAt 4 500)).run
          draftEvent = (db', .ok new) ∧ db'.event? 100 = some new ∧
        MergesIgnoringNulls { title := some none } (newEvent organizer oneSeat (envAt 0 100)) new := by
  have hfails : (updateEvent {} organizer 100 { title := some none } (envAt 4 500)).run draftEvent =
      (draftEvent, .error (.valueError "null for a non nullable field")) := rfl
  refine ⟨hfails, ?_⟩
  rintro ⟨db', new, hok, _⟩
  rw [hfails] at hok
  cases (Prod.mk.inj hok).2

end Hefest
