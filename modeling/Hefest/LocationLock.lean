import Hefest.EventLifecycle

set_option autoImplicit false

/-!
# The location lock under concurrent updates

`update_event` checks the start of the event it has read, and its UPDATE is another statement of its
own transaction: the row lock of the SELECT is gone by then. The same body may move the start, and
so may another call between the two statements.
-/
namespace Hefest
open Transition Transaction

structure UpdateCall where
  user : User
  data : EventUpdateRequest
  env : Env

def UpdateCall.request (c : UpdateCall) : EventRequest := .update c.user c.data c.env

/-- The time that the start has to be after. -/
def UpdateCall.cutoff (settings : Settings) (c : UpdateCall) : Time :=
  c.env.now 0 + hours settings.eventLocationLockHours

section Steps
variable (settings : Settings) (eventId : UUID) (c : UpdateCall)

def HasChecked (s : ServiceSession) : Prop :=
  ∃ event : Event, s = .auto (.stmt (saveEvent eventId c.data.assign)
    fun _ => .ret (.event (c.data.assign event)))

inductive UpdateStage : ServiceSession → Prop
  | asking : UpdateStage (.auto (c.request.prog settings eventId))
  | checked (event : Event) : UpdateStage (.auto (.stmt (saveEvent eventId c.data.assign)
      fun _ => .ret (.event (c.data.assign event))))
  | answered (r : Response) : UpdateStage (.auto (.ret r))
  | refused (e : ApiError) : UpdateStage (.auto (.raise e))
  | ended (r : Except ApiError Response) : UpdateStage (.finished r)

theorem not_hasChecked_start : ¬ HasChecked eventId c (.auto (c.request.prog settings eventId)) := by
  rintro ⟨event, h⟩
  -- the SELECT asks for the row exclusively, the UPDATE does not
  have hwants := congrArg (Session.wants { events := [{ event with id := eventId }] }) h
  simp [Session.wants, saveEvent, Database.event?, Table.lookup, EventRequest.prog, Call.prog,
    updateEvent, Prog.map, selectEventForUpdate, UpdateCall.request] at hwants

/-- The call is its SELECT, and then a refusal, an answer or the UPDATE; who changes the location
    gets to the UPDATE only with a start after the cutoff. -/
theorem update_prog : ∃ k : Option Event → Service Response,
    c.request.prog settings eventId = .stmt (selectEventForUpdate eventId) k ∧
      ∀ event?, (∃ e, k event? = .raise e) ∨ (∃ r, k event? = .ret r) ∨
        ∃ event, event? = some event ∧
          (c.data.location.isSome → c.cutoff settings < event.startsAt) ∧
          k event? = .stmt (saveEvent eventId c.data.assign)
            fun _ => .ret (.event (c.data.assign event)) := by
  refine ⟨_, rfl, ?_⟩
  intro event?
  cases event? with
  | none => exact Or.inl ⟨_, rfl⟩
  | some event =>
    simp only
    split_ifs with howner hlocked hempty hnull hfits
    · exact Or.inl ⟨_, rfl⟩
    · exact Or.inl ⟨_, rfl⟩
    · exact Or.inr (Or.inl ⟨_, rfl⟩)
    · exact Or.inl ⟨_, rfl⟩
    · refine Or.inr (Or.inr ⟨event, rfl, ?_, rfl⟩)
      intro hlocation
      have hunlocked : locationLocked settings (c.env.now 0) event = false := by
        simpa [hlocation] using hlocked
      unfold locationLocked at hunlocked
      exact not_le.mp (of_decide_eq_false hunlocked)
    · exact Or.inl ⟨_, rfl⟩

inductive Past : ServiceSession → Prop
  | answered (r : Response) : Past (.auto (.ret r))
  | refused (e : ApiError) : Past (.auto (.raise e))
  | ended (r : Except ApiError Response) : Past (.finished r)

variable {s : ServiceSession}

theorem Past.apart (h : Past s) :
    s ≠ .auto (c.request.prog settings eventId) ∧ ¬ HasChecked eventId c s := by
  obtain ⟨k, hprog, _⟩ := update_prog settings eventId c
  rw [hprog]
  constructor
  · rintro rfl
    cases h
  · rintro ⟨event, rfl⟩
    cases h

theorem update_select (db : Database) :
    let next := (Session.auto (c.request.prog settings eventId)).advance db
    next.1 = db ∧ UpdateStage settings eventId c next.2 ∧
      next.2 ≠ .auto (c.request.prog settings eventId) ∧
      (HasChecked eventId c next.2 → ∃ event, db.event? eventId = some event ∧
        (c.data.location.isSome → c.cutoff settings < event.startsAt)) := by
  have hstart := not_hasChecked_start settings eventId c
  obtain ⟨k, hprog, hk⟩ := update_prog settings eventId c
  have hnext : (Session.auto (c.request.prog settings eventId)).advance db =
      (db, .auto (k (db.event? eventId))) := by
    rw [hprog]
    rfl
  rw [hnext]
  dsimp only
  rcases hk (db.event? eventId) with ⟨e, he⟩ | ⟨r, hr⟩ | ⟨event, hevent, hahead, hupdate⟩
  · have hpast := (Past.refused e).apart settings eventId c
    rw [he]
    exact ⟨rfl, .refused e, hpast.1, fun h => absurd h hpast.2⟩
  · have hpast := (Past.answered r).apart settings eventId c
    rw [hr]
    exact ⟨rfl, .answered r, hpast.1, fun h => absurd h hpast.2⟩
  · rw [hupdate]
    refine ⟨rfl, .checked event, ?_, fun _ => ⟨event, hevent, hahead⟩⟩
    intro h
    exact hstart ⟨event, h.symm⟩

variable {settings eventId c}

theorem UpdateStage.advance (h : UpdateStage settings eventId c s) (db : Database) :
    UpdateStage settings eventId c (s.advance db).2 ∧
      (s.advance db).2 ≠ .auto (c.request.prog settings eventId) ∧
      ((s.advance db).1 = db ∨ HasChecked eventId c s) ∧
      (HasChecked eventId c (s.advance db).2 → s = .auto (c.request.prog settings eventId)) := by
  cases h with
  | asking =>
    obtain ⟨hsame, hstage, hother, _⟩ := update_select settings eventId c db
    exact ⟨hstage, hother, Or.inl hsame, fun _ => rfl⟩
  | checked event =>
    have hpast := (Past.answered (.event (c.data.assign event))).apart settings eventId c
    exact ⟨.answered _, hpast.1, Or.inr ⟨event, rfl⟩, fun h => absurd h hpast.2⟩
  | answered r =>
    have hpast := (Past.ended (.ok r)).apart settings eventId c
    exact ⟨.ended _, hpast.1, Or.inl rfl, fun h => absurd h hpast.2⟩
  | refused e =>
    have hpast := (Past.ended (.error e)).apart settings eventId c
    exact ⟨.ended _, hpast.1, Or.inl rfl, fun h => absurd h hpast.2⟩
  | ended r =>
    have hpast := (Past.ended r).apart settings eventId c
    exact ⟨.ended r, hpast.1, Or.inl rfl, fun h => absurd h hpast.2⟩

/-- The UPDATE assigns what the body gives to the row as it is stored by then. -/
theorem HasChecked.write (h : HasChecked eventId c s) (db : Database) :
    (s.advance db).1.event? eventId = (db.event? eventId).map c.data.assign := by
  obtain ⟨event, rfl⟩ := h
  have hid : ∀ e : Event, (c.data.assign e).id = e.id := fun _ => rfl
  exact saveEvent_event? hid db db

end Steps

section Runs
variable {ι : Type} [Fintype ι] [DecidableEq ι] (settings : Settings) (db : Database)
  (eventId : UUID) (calls : ι → UpdateCall) (schedule : List ι)

def updatesAt (n : ℕ) : System Database RowLock ApiError Response ι :=
  lifecycleAt settings db eventId (fun i => (calls i).request) schedule n

def eventAt (n : ℕ) : Option Event :=
  (updatesAt settings db eventId calls schedule n).committed.event? eventId

def CheckedAt (n : ℕ) (i : ι) : Prop :=
  HasChecked eventId (calls i) ((updatesAt settings db eventId calls schedule n).session i)

structure WritesAt (n : ℕ) (i : ι) : Prop where
  turn : schedule[n]? = some i
  checked : CheckedAt settings db eventId calls schedule n i
  goes : step (updatesAt settings db eventId calls schedule n) i ≠ none

def StartMoved (n : ℕ) (s : Time) : Prop :=
  ∃ j, WritesAt settings db eventId calls schedule n j ∧ (calls j).data.startsAt = some (some s)

/-- Whoever changes the stored location leaves a start after the cutoff. -/
def LocationLockHolds : Prop :=
  ∀ n i, WritesAt settings db eventId calls schedule n i → ∀ old new,
    eventAt settings db eventId calls schedule n = some old →
    eventAt settings db eventId calls schedule (n + 1) = some new →
    new.location ≠ old.location → (calls i).cutoff settings < new.startsAt

/-- Since the check of call `i` no start at or before its cutoff was written to stay until turn
    `n`. -/
def NotMovedBack (n : ℕ) (i : ι) : Prop :=
  ∀ k s, k < n → CheckedAt settings db eventId calls schedule k i →
    StartMoved settings db eventId calls schedule k s → s ≤ (calls i).cutoff settings →
      ∃ m s', k < m ∧ m < n ∧ StartMoved settings db eventId calls schedule m s' ∧
        (calls i).cutoff settings < s'

/-- A call that writes another location brings a start after its cutoff in the same body, or brings
    none and the start has not been moved back since its check. -/
def NotBypassed : Prop :=
  ∀ n i, WritesAt settings db eventId calls schedule n i → ∀ old location,
    eventAt settings db eventId calls schedule n = some old →
    (calls i).data.location = some (some location) → location ≠ old.location →
      (∀ s, (calls i).data.startsAt = some (some s) → (calls i).cutoff settings < s) ∧
        ((calls i).data.startsAt.join = none → NotMovedBack settings db eventId calls schedule n i)

theorem updates_stage (n : ℕ) (i : ι) : UpdateStage settings eventId (calls i)
    ((updatesAt settings db eventId calls schedule n).session i) := by
  induction n with
  | zero => exact .asking
  | succ n ih =>
    rcases session_succ settings db eventId (fun i => (calls i).request) schedule n i with
      hsame | ⟨_, hnext⟩
    · unfold updatesAt
      rw [hsame]
      exact ih
    · unfold updatesAt
      rw [hnext]
      exact (ih.advance _).1

theorem eventAt_succ (n : ℕ) :
    (eventAt settings db eventId calls schedule (n + 1) =
        eventAt settings db eventId calls schedule n ∧
      ∀ i, ¬ WritesAt settings db eventId calls schedule n i) ∨
    ∃ i, WritesAt settings db eventId calls schedule n i ∧
      eventAt settings db eventId calls schedule (n + 1) =
        (eventAt settings db eventId calls schedule n).map (calls i).data.assign := by
  cases hn : schedule[n]? with
  | none =>
    left
    refine ⟨?_, ?_⟩
    · unfold eventAt updatesAt
      rw [lifecycleAt_over hn]
    · intro i hi
      rw [hi.turn] at hn
      cases hn
  | some i =>
    have hsucc : updatesAt settings db eventId calls schedule (n + 1) =
        offer i (updatesAt settings db eventId calls schedule n) := lifecycleAt_succ hn
    have hstage := updates_stage settings db eventId calls schedule n i
    rcases offer_cases (updatesAt settings db eventId calls schedule n) i with
      ⟨hnone, hsame⟩ | ⟨_, _, hsome, hcommitted, _⟩
    · left
      refine ⟨?_, ?_⟩
      · rw [eventAt, hsucc, hsame]
        rfl
      · intro j hj
        have hji : j = i := Option.some.inj (hj.turn.symm.trans hn)
        exact hj.goes (hji ▸ hnone)
    · by_cases hchecked : CheckedAt settings db eventId calls schedule n i
      · right
        refine ⟨i, ⟨hn, hchecked, Option.isSome_iff_ne_none.mp hsome⟩, ?_⟩
        rw [eventAt, hsucc, hcommitted]
        exact hchecked.write _
      · left
        refine ⟨?_, ?_⟩
        · rw [eventAt, hsucc, hcommitted]
          rcases (hstage.advance _).2.2.1 with hsame | hwrites
          · rw [hsame]
            rfl
          · exact absurd hwrites hchecked
        · intro j hj
          have hji : j = i := Option.some.inj (hj.turn.symm.trans hn)
          exact hchecked (hji ▸ hj.checked)

variable {settings db eventId calls schedule} {n : ℕ} {i : ι}

theorem WritesAt.eventAt (h : WritesAt settings db eventId calls schedule n i) :
    Hefest.eventAt settings db eventId calls schedule (n + 1) =
      (Hefest.eventAt settings db eventId calls schedule n).map (calls i).data.assign := by
  rcases eventAt_succ settings db eventId calls schedule n with ⟨_, hnone⟩ | ⟨j, hj, hevent⟩
  · exact absurd h (hnone i)
  · have hji : j = i := Option.some.inj (hj.turn.symm.trans h.turn)
    rwa [hji] at hevent

theorem StartMoved.unique {s s' : Time} (h : StartMoved settings db eventId calls schedule n s)
    (h' : StartMoved settings db eventId calls schedule n s') : s = s' := by
  obtain ⟨i, hi, hs⟩ := h
  obtain ⟨j, hj, hs'⟩ := h'
  have hji : j = i := Option.some.inj (hj.turn.symm.trans hi.turn)
  rw [hji, hs] at hs'
  exact Option.some.inj (Option.some.inj hs')

theorem startAt_succ {new : Event}
    (hnew : eventAt settings db eventId calls schedule (n + 1) = some new) :
    ∃ old, eventAt settings db eventId calls schedule n = some old ∧
      (StartMoved settings db eventId calls schedule n new.startsAt ∨
        (∀ s, ¬ StartMoved settings db eventId calls schedule n s) ∧
          new.startsAt = old.startsAt) := by
  rcases eventAt_succ settings db eventId calls schedule n with ⟨hsame, hnone⟩ | ⟨j, hj, hevent⟩
  · rw [hsame] at hnew
    refine ⟨new, hnew, Or.inr ⟨?_, rfl⟩⟩
    rintro s ⟨j, hj, _⟩
    exact hnone j hj
  · rw [hnew] at hevent
    obtain ⟨old, hold, hassign⟩ := Option.map_eq_some_iff.mp hevent.symm
    refine ⟨old, hold, ?_⟩
    have hstart : new.startsAt = (calls j).data.startsAt.join.getD old.startsAt := by
      rw [← hassign]
      rfl
    cases hs : (calls j).data.startsAt.join with
    | some s =>
      left
      rw [hs, Option.getD_some] at hstart
      rw [hstart]
      exact ⟨j, hj, Option.join_eq_some_iff.mp hs⟩
    | none =>
      right
      rw [hs, Option.getD_none] at hstart
      refine ⟨?_, hstart⟩
      rintro s ⟨k, hk, hmoved⟩
      have hkj : k = j := Option.some.inj (hk.turn.symm.trans hj.turn)
      rw [hkj] at hmoved
      rw [hmoved] at hs
      cases hs

/-- While a call waits between its check and its UPDATE, a turn that writes a start decides, and any
    other leaves the question as it was. -/
theorem notMovedBack_succ (hchecked : CheckedAt settings db eventId calls schedule n i) :
    (∀ s, StartMoved settings db eventId calls schedule n s →
      (NotMovedBack settings db eventId calls schedule (n + 1) i ↔ (calls i).cutoff settings < s)) ∧
    ((∀ s, ¬ StartMoved settings db eventId calls schedule n s) →
      (NotMovedBack settings db eventId calls schedule (n + 1) i ↔
        NotMovedBack settings db eventId calls schedule n i)) := by
  refine ⟨?_, ?_⟩
  · intro s hs
    constructor
    · intro h
      by_contra hback
      obtain ⟨m, _, hnm, hm, _⟩ := h n s (by omega) hchecked hs (not_lt.mp hback)
      omega
    · intro hahead k s' hk hk' hmoved hback
      rcases Nat.lt_or_ge k n with hlt | hge
      · exact ⟨n, s, hlt, by omega, hs, hahead⟩
      · have hkn : k = n := by omega
        subst hkn
        rw [hs.unique hmoved] at hahead
        exact absurd hahead (not_lt.mpr hback)
  · intro hnone
    constructor
    · intro h k s hk hk' hmoved hback
      obtain ⟨m, s', hkm, hmn, hm, hahead⟩ := h k s (by omega) hk' hmoved hback
      refine ⟨m, s', hkm, ?_, hm, hahead⟩
      rcases Nat.lt_or_ge m n with hlt | hge
      · exact hlt
      · have hmn' : m = n := by omega
        subst hmn'
        exact absurd hm (hnone s')
    · intro h k s hk hk' hmoved hback
      have hkn : k < n := by
        rcases Nat.lt_or_ge k n with hlt | hge
        · exact hlt
        · have hkn' : k = n := by omega
          subst hkn'
          exact absurd hmoved (hnone s)
      obtain ⟨m, s', hkm, hmn, hm, hahead⟩ := h k s hkn hk' hmoved hback
      exact ⟨m, s', hkm, by omega, hm, hahead⟩

theorem asking_before
    (h : (updatesAt settings db eventId calls schedule n).session i =
      .auto ((calls i).request.prog settings eventId)) :
    ∀ k ≤ n, ¬ CheckedAt settings db eventId calls schedule k i := by
  induction n with
  | zero =>
    intro k hk
    have hk0 : k = 0 := by omega
    subst hk0
    exact not_hasChecked_start settings eventId (calls i)
  | succ n ih =>
    intro k hk
    rcases Nat.lt_or_ge k (n + 1) with hlt | hge
    · rcases session_succ settings db eventId (fun i => (calls i).request) schedule n i with
        hsame | ⟨_, hnext⟩
      · exact ih (hsame.symm.trans h) k (by omega)
      · have hother := ((updates_stage settings db eventId calls schedule n i).advance
          (updatesAt settings db eventId calls schedule n).committed).2.1
        exact absurd (hnext.symm.trans h) hother
    · have hkn : k = n + 1 := by omega
      subst hkn
      unfold CheckedAt
      rw [h]
      exact not_hasChecked_start settings eventId (calls i)

/-- Between its check and its UPDATE a call that changes the location finds the start after its
    cutoff, unless it has been moved back. -/
theorem start_ahead_iff (hlocation : (calls i).data.location.isSome) {event : Event}
    (hchecked : CheckedAt settings db eventId calls schedule n i)
    (hevent : eventAt settings db eventId calls schedule n = some event) :
    (calls i).cutoff settings < event.startsAt ↔
      NotMovedBack settings db eventId calls schedule n i := by
  induction n generalizing event with
  | zero => exact absurd hchecked (not_hasChecked_start settings eventId (calls i))
  | succ n ih =>
    rcases session_succ settings db eventId (fun i => (calls i).request) schedule n i with
      hsame | ⟨hturn, hnext⟩
    · have hbefore : CheckedAt settings db eventId calls schedule n i := by
        unfold CheckedAt updatesAt at hchecked ⊢
        rwa [hsame] at hchecked
      obtain ⟨hmoves, hstays⟩ := notMovedBack_succ hbefore
      obtain ⟨old, hold, hmoved | ⟨hnone, hstart⟩⟩ := startAt_succ hevent
      · exact (hmoves _ hmoved).symm
      · rw [hstays hnone, hstart]
        exact ih hbefore hold
    · -- turn `n` was the SELECT
      unfold CheckedAt updatesAt at hchecked
      rw [hnext] at hchecked
      have hasking := ((updates_stage settings db eventId calls schedule n i).advance _).2.2.2
        hchecked
      have hnever := asking_before hasking
      unfold updatesAt at hasking
      rw [hasking] at hchecked
      obtain ⟨found, hfound, hahead⟩ :=
        (update_select settings eventId (calls i) _).2.2.2 hchecked
      have hsame : eventAt settings db eventId calls schedule (n + 1) = some found := by
        rcases eventAt_succ settings db eventId calls schedule n with ⟨hsame, _⟩ | ⟨j, hj, _⟩
        · rw [hsame]
          exact hfound
        · have hji : j = i := Option.some.inj (hj.turn.symm.trans hturn)
          exact absurd (hji ▸ hj.checked) (hnever n le_rfl)
      rw [hevent, Option.some.injEq] at hsame
      rw [hsame]
      constructor
      · intro _ k s hk hk' _ _
        exact absurd hk' (hnever k (by omega))
      · intro _
        exact hahead hlocation

end Runs

/-- The lock holds in a run of concurrent updates, exactly if every call that writes another location
    brings a start after its cutoff or leaves the start alone, and then finds it not moved back since
    its check. -/
theorem location_lock_iff {ι : Type} [Fintype ι] [DecidableEq ι] (settings : Settings)
    (db : Database) (eventId : UUID) (calls : ι → UpdateCall) (schedule : List ι) :
    LocationLockHolds settings db eventId calls schedule ↔
      NotBypassed settings db eventId calls schedule := by
  constructor
  · intro h n i hi old location hold hgiven hother
    have hnew := hi.eventAt
    rw [hold, Option.map_some] at hnew
    have hlocation : ((calls i).data.assign old).location = location := by
      simp [EventUpdateRequest.assign, hgiven]
    have hahead := h n i hi old _ hold hnew (by rw [hlocation]; exact hother)
    have hstart : ((calls i).data.assign old).startsAt =
        (calls i).data.startsAt.join.getD old.startsAt := rfl
    rw [hstart] at hahead
    refine ⟨?_, ?_⟩
    · intro s hs
      rw [hs] at hahead
      exact hahead
    · intro hnone
      rw [hnone] at hahead
      exact (start_ahead_iff (by rw [hgiven]; rfl) hi.checked hold).mp hahead
  · intro h n i hi old new hold hnew hmoved
    have hassign := hi.eventAt
    rw [hold, hnew, Option.map_some, Option.some.injEq] at hassign
    have hlocation : new.location = (calls i).data.location.join.getD old.location := by
      rw [hassign]
      rfl
    have hstart : new.startsAt = (calls i).data.startsAt.join.getD old.startsAt := by
      rw [hassign]
      rfl
    cases hgiven : (calls i).data.location.join with
    | none =>
      rw [hgiven] at hlocation
      exact absurd hlocation hmoved
    | some location =>
      rw [hgiven, Option.getD_some] at hlocation
      rw [Option.join_eq_some_iff] at hgiven
      obtain ⟨hbody, hstored⟩ := h n i hi old location hold hgiven (hlocation ▸ hmoved)
      rw [hstart]
      cases hs : (calls i).data.startsAt.join with
      | some s => exact hbody s (Option.join_eq_some_iff.mp hs)
      | none => exact (start_ahead_iff (by rw [hgiven]; rfl) hi.checked hold).mpr (hstored hs)

def moveAndRelocate : UpdateCall where
  user := organizer
  data := { startsAt := some (some (hours 1)), location := some (some "Annex") }
  env := envAt 10 500

def relocate : UpdateCall where
  user := organizer
  data := { location := some (some "Annex") }
  env := envAt 10 500

def moveForward : UpdateCall where
  user := organizer
  data := { startsAt := some (some (hours 1)) }
  env := envAt 10 600

def relocateWhileMoved : Fin 2 → UpdateCall
  | 0 => relocate
  | 1 => moveForward

theorem location_lock_bypassed :
    ¬ LocationLockHolds {} draftEvent 100 (fun _ : Fin 1 => moveAndRelocate) [0, 0] ∧
      ¬ LocationLockHolds {} draftEvent 100 relocateWhileMoved [0, 1, 1, 0] := by
  refine ⟨?_, ?_⟩
  · intro h
    have hwrites : WritesAt {} draftEvent 100 (fun _ : Fin 1 => moveAndRelocate) [0, 0] 1 0 :=
      ⟨rfl, ⟨_, rfl⟩, Option.isSome_iff_ne_none.mp rfl⟩
    have hahead := h 1 0 hwrites _ _ rfl rfl (by decide)
    revert hahead
    decide
  · intro h
    have hwrites : WritesAt {} draftEvent 100 relocateWhileMoved [0, 1, 1, 0] 3 0 :=
      ⟨rfl, ⟨_, rfl⟩, Option.isSome_iff_ne_none.mp rfl⟩
    have hahead := h 3 0 hwrites _ _ rfl rfl (by decide)
    revert hahead
    decide

end Hefest
