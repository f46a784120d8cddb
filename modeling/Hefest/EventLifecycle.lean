import Mathlib.Logic.Relation
import Hefest.Lib.Isolation
import Hefest.SeatRuns

set_option autoImplicit false

/-!
# The status of an event under concurrent organizer requests

`publish_event` tests the status in one statement and writes it in a second one, with no lock in
between. `lifecycle_monotone_iff` says in which interleavings this matters.
-/
namespace Hefest
open Transition Transaction

/-- One of the three requests an organizer makes on an event. -/
inductive EventRequest
  | publish (user : User) (env : Env)
  | update (user : User) (data : EventUpdateRequest) (env : Env)
  | cancel (user : User) (env : Env)

def EventRequest.prog (settings : Settings) (eventId : UUID) : EventRequest → Service Response
  | .publish user env => (Call.publishEvent user eventId env).prog settings
  | .update user data env => (Call.updateEvent user eventId data env).prog settings
  | .cancel user env => (Call.cancelEvent user eventId env).prog settings

inductive StatusMove : EventStatus → EventStatus → Prop
  | publish : StatusMove .draft .published
  | cancelDraft : StatusMove .draft .cancelled
  | cancelPublished : StatusMove .published .cancelled

def Database.status? (db : Database) (eventId : UUID) : Option EventStatus :=
  (db.event? eventId).map Event.status

abbrev ServiceSession := Session Database RowLock ApiError Response

section Statements
variable {settings : Settings} {eventId : UUID} {seen x : Database}

theorem saveEvent_status {set : Event → Event} (hid : ∀ e, (set e).id = e.id) :
    ((saveEvent eventId set).write seen x).status? eventId =
      (x.event? eventId).map (fun e => (set e).status) := by
  rw [Database.status?, saveEvent_event? hid, Option.map_map]
  rfl

theorem saveEvent_status_same {set : Event → Event} (hid : ∀ e, (set e).id = e.id)
    (hset : ∀ e, (set e).status = e.status) :
    ((saveEvent eventId set).write seen x).status? eventId = x.status? eventId := by
  rw [saveEvent_status hid]
  simp only [hset]
  rfl

variable (eventId seen x) in
theorem saveEvent_status_const {set : Event → Event} {status : EventStatus}
    (hid : ∀ e, (set e).id = e.id) (hset : ∀ e, (set e).status = status) :
    ((saveEvent eventId set).write seen x).status? eventId =
      (x.status? eventId).map (fun _ => status) := by
  rw [saveEvent_status hid]
  simp only [hset, Database.status?, Option.map_map, Function.comp_def]

theorem insertJobs_status (jobs : List NotificationJob) :
    ((insertJobs jobs).write seen x).status? eventId = x.status? eventId := by
  simp only [insertJobs]
  split_ifs <;> rfl

end Statements

section Requests
variable (settings : Settings) (eventId : UUID)

/-- `publish_event` between its SELECT, which found a draft, and its UPDATE. -/
def HasReadDraft (request : EventRequest) (s : ServiceSession) : Prop :=
  ∃ (user : User) (env : Env) (event : Event), request = .publish user env ∧
    s = .auto (.stmt (saveEvent eventId (Event.publish (env.now 0)))
      fun _ => .ret (.event (event.publish (env.now 0))))

def CommitsCancel (request : EventRequest) (db : Database) (s : ServiceSession) : Prop :=
  ∃ user env r w held, request = .cancel user env ∧ s = .inside (.ret r) w held ∧
    (w db).status? eventId = some .cancelled

def MayCancel (x y : Database) : Prop :=
  y.status? eventId = x.status? eventId ∨
    ((x.status? eventId).isSome ∧ y.status? eventId = some .cancelled)

theorem MayCancel.trans {x y z : Database} (h : MayCancel eventId x y) (h' : MayCancel eventId y z) :
    MayCancel eventId x z := by
  unfold MayCancel at *
  rcases h' with h' | ⟨hy, h'⟩
  · rw [h']
    exact h
  · right
    refine ⟨?_, h'⟩
    rcases h with h | ⟨hx, _⟩
    · rwa [← h]
    · exact hx

theorem updateEvent_writes (user : User) (data : EventUpdateRequest) (env : Env) :
    ((EventRequest.update user data env).prog settings eventId).Writes
      (fun x y => y.status? eventId = x.status? eventId) := by
  apply Prog.Writes.map
  refine ⟨fun _ _ => rfl, ?_⟩
  intro event?
  cases event? with
  | none => trivial
  | some event =>
    simp only
    split_ifs
    · trivial
    · trivial
    · trivial
    · trivial
    · exact ⟨fun _ _ => saveEvent_status_same (fun _ => rfl) (fun _ => rfl), fun _ => trivial⟩
    · trivial

theorem cancelEvent_writes (user : User) (env : Env) :
    ((EventRequest.cancel user env).prog settings eventId).Writes (MayCancel eventId) := by
  apply Prog.Writes.map
  refine ⟨fun _ _ => Or.inl rfl, ?_⟩
  intro event?
  cases event? with
  | none => trivial
  | some event =>
    simp only
    split_ifs
    · trivial
    · trivial
    · trivial
    · refine ⟨?_, fun _ => ⟨fun _ _ => Or.inl rfl, ?_⟩⟩
      · intro seen x
        have hsave : ((saveEvent eventId (Event.cancel (env.now 1))).write seen x).status? eventId =
            (x.status? eventId).map (fun _ => .cancelled) :=
          saveEvent_status_const eventId seen x (fun _ => rfl) (fun _ => rfl)
        cases hx : x.status? eventId with
        | none =>
          left
          rw [hsave, hx]
          rfl
        | some status =>
          right
          rw [hsave, hx]
          exact ⟨rfl, rfl⟩
      · intro regs
        simp only
        split_ifs
        · trivial
        · refine ⟨fun _ _ => Or.inl (insertJobs_status _), ?_⟩
          intro violation
          cases violation <;> trivial

inductive RequestStage : EventRequest → ServiceSession → Prop
  | asking (user : User) (env : Env) :
      RequestStage (.publish user env) (.auto ((EventRequest.publish user env).prog settings eventId))
  | read (user : User) (env : Env) (event : Event) :
      RequestStage (.publish user env) (.auto (.stmt (saveEvent eventId (Event.publish (env.now 0)))
        fun _ => .ret (.event (event.publish (env.now 0)))))
  | answered (user : User) (env : Env) (r : Response) :
      RequestStage (.publish user env) (.auto (.ret r))
  | refused (user : User) (env : Env) (e : ApiError) :
      RequestStage (.publish user env) (.auto (.raise e))
  | ended (user : User) (env : Env) (r : Except ApiError Response) :
      RequestStage (.publish user env) (.finished r)
  | updating (user : User) (data : EventUpdateRequest) (env : Env) (s : ServiceSession)
      (writes : s.Writes (fun x y => y.status? eventId = x.status? eventId)) :
      RequestStage (.update user data env) s
  | cancelling (user : User) (env : Env) (s : ServiceSession) (atomic : s.Atomic)
      (writes : s.Writes (MayCancel eventId)) : RequestStage (.cancel user env) s

theorem requestStage_start (request : EventRequest) :
    RequestStage settings eventId request (.auto (request.prog settings eventId)) := by
  cases request with
  | publish user env => exact .asking user env
  | update user data env => exact .updating user data env _ (updateEvent_writes settings eventId _ _ _)
  | cancel user env => exact .cancelling user env _ ⟨_, rfl⟩ (cancelEvent_writes settings eventId _ _)

inductive StatusEffect (request : EventRequest) (db db' : Database) (s : ServiceSession) : Prop
  | keeps (same : db'.status? eventId = db.status? eventId)
  | cancels (commits : CommitsCancel eventId request db s)
      (known : (db.status? eventId).isSome) (now : db'.status? eventId = some .cancelled)
  | publishes (read : HasReadDraft eventId request s)
      (now : db'.status? eventId = (db.status? eventId).map (fun _ => .published))

variable {settings eventId} {request : EventRequest} {s : ServiceSession}

variable (settings eventId) in
/-- The SELECT of `publish_event`: nothing is written, and only a draft is taken further. -/
theorem publish_select (user : User) (env : Env) (db : Database) :
    let next := (Session.auto ((EventRequest.publish user env).prog settings eventId)).advance db
    next.1 = db ∧ RequestStage settings eventId (.publish user env) next.2 ∧
      (HasReadDraft eventId (.publish user env) next.2 → db.status? eventId = some .draft) := by
  have hrefused : ∀ e : ApiError, RequestStage settings eventId (.publish user env)
      (.auto (.raise e)) ∧ (HasReadDraft eventId (.publish user env) (.auto (.raise e)) →
        db.status? eventId = some .draft) := by
    intro e
    refine ⟨.refused user env e, ?_⟩
    rintro ⟨_, _, _, _, h⟩
    cases h
  simp only [EventRequest.prog, Call.prog, publishEvent, getOwnedDraft, Prog.map, Prog.bind,
    selectEvent, Session.advance, Stmt.select]
  cases hevent : db.event? eventId with
  | none => exact ⟨trivial, hrefused _⟩
  | some event =>
    simp only
    split_ifs with howner hdraft
    · exact ⟨trivial, hrefused _⟩
    · exact ⟨trivial, hrefused _⟩
    · refine ⟨trivial, .read user env event, ?_⟩
      intro _
      rw [Database.status?, hevent, Option.map_some, not_not.mp hdraft]

theorem RequestStage.advance (h : RequestStage settings eventId request s) (db : Database) :
    StatusEffect eventId request db (s.advance db).1 s ∧
      RequestStage settings eventId request (s.advance db).2 ∧
      (HasReadDraft eventId request (s.advance db).2 →
        HasReadDraft eventId request s ∨ db.status? eventId = some .draft) := by
  cases h with
  | asking user env =>
    obtain ⟨hsame, hstage, hdraft⟩ := publish_select settings eventId user env db
    exact ⟨.keeps (by rw [hsame]), hstage, fun hread => Or.inr (hdraft hread)⟩
  | read user env event =>
    have hread : HasReadDraft eventId (.publish user env)
        (.auto (.stmt (saveEvent eventId (Event.publish (env.now 0)))
          fun _ => .ret (.event (event.publish (env.now 0))))) := ⟨user, env, event, rfl, rfl⟩
    refine ⟨.publishes hread ?_, .answered user env _, fun _ => Or.inl hread⟩
    exact saveEvent_status_const eventId db db (fun _ => rfl) (fun _ => rfl)
  | answered user env r =>
    refine ⟨.keeps rfl, .ended user env _, ?_⟩
    rintro ⟨_, _, _, _, h⟩
    cases h
  | refused user env e =>
    refine ⟨.keeps rfl, .ended user env _, ?_⟩
    rintro ⟨_, _, _, _, h⟩
    cases h
  | ended user env r => exact ⟨.keeps rfl, .ended user env r, Or.inl⟩
  | updating user data env s writes =>
    have htrans : ∀ x y z : Database, y.status? eventId = x.status? eventId →
        z.status? eventId = y.status? eventId → z.status? eventId = x.status? eventId :=
      fun _ _ _ h h' => h'.trans h
    have hrefl : ∀ x : Database, x.status? eventId = x.status? eventId := fun _ => rfl
    have hmove := Session.Writes.advance (R := fun x y => y.status? eventId = x.status? eventId)
      hrefl htrans writes db
    refine ⟨.keeps hmove.1, .updating user data env _ hmove.2, ?_⟩
    rintro ⟨_, _, _, h, _⟩
    cases h
  | cancelling user env s atomic writes =>
    have hrefl : ∀ x, MayCancel eventId x x := fun _ => Or.inl rfl
    have hmove := writes.advance hrefl (fun _ _ _ => MayCancel.trans eventId) db
    refine ⟨?_, .cancelling user env _ (atomic.advance db) hmove.2, ?_⟩
    · rcases hmove.1 with hsame | ⟨hknown, hnow⟩
      · exact .keeps hsame
      · rcases atomic.commits db with hsame | ⟨r, w, held, hs, hcommit⟩
        · exact .keeps (by rw [hsame])
        · rw [hcommit] at hnow ⊢
          exact .cancels ⟨user, env, r, w, held, rfl, hs, hnow⟩ hknown hnow
    · rintro ⟨_, _, _, h, _⟩
      cases h

theorem not_hasReadDraft_start (request : EventRequest) :
    ¬ HasReadDraft eventId request (.auto (request.prog settings eventId)) := by
  rintro ⟨user, env, event, rfl, h⟩
  -- where the event exists, the UPDATE needs its row lock and the SELECT none
  have hwants := congrArg (Session.wants { events := [{ event with id := eventId }] }) h
  simp [Session.wants, saveEvent, Database.event?, Table.lookup, EventRequest.prog, Call.prog,
    publishEvent, getOwnedDraft, Prog.map, selectEvent, Stmt.select] at hwants

end Requests

section Runs
variable {ι : Type} [Fintype ι] [DecidableEq ι] (settings : Settings) (db : Database)
  (eventId : UUID) (requests : ι → EventRequest) (schedule : List ι)

def lifecycleAt (n : ℕ) : System Database RowLock ApiError Response ι :=
  after offer (start (fun i => (requests i).prog settings eventId) db) (schedule.take n)

def statusAt (n : ℕ) : Option EventStatus :=
  (lifecycleAt settings db eventId requests schedule n).committed.status? eventId

/-- The committed status only ever moves along the lifecycle, and cancelled is final. -/
structure LifecycleMonotone : Prop where
  moves : ∀ n, Option.Rel (Relation.ReflGen StatusMove)
    (statusAt settings db eventId requests schedule n)
    (statusAt settings db eventId requests schedule (n + 1))
  final : ∀ m n, m ≤ n → statusAt settings db eventId requests schedule m = some .cancelled →
    statusAt settings db eventId requests schedule n = some .cancelled

/-- No `publish_event` executes its UPDATE when a `cancel_event` has committed since its SELECT. -/
def NotOvertaken : Prop :=
  ∀ k n i j, k < n → schedule[k]? = some j → schedule[n]? = some i →
    CommitsCancel eventId (requests j)
      (lifecycleAt settings db eventId requests schedule k).committed
      ((lifecycleAt settings db eventId requests schedule k).session j) →
    HasReadDraft eventId (requests i)
      ((lifecycleAt settings db eventId requests schedule k).session i) →
    HasReadDraft eventId (requests i)
      ((lifecycleAt settings db eventId requests schedule n).session i) →
    step (lifecycleAt settings db eventId requests schedule n) i = none

theorem statusRel_same {x y : Option EventStatus} (h : y = x) :
    Option.Rel (Relation.ReflGen StatusMove) x y := by
  subst h
  cases y with
  | none => exact .none
  | some status => exact .some .refl

theorem statusRel_cancel {x y : Option EventStatus} (known : x.isSome)
    (now : y = some .cancelled) : Option.Rel (Relation.ReflGen StatusMove) x y := by
  subst now
  cases x with
  | none => cases known
  | some status =>
    apply Option.Rel.some
    cases status with
    | draft => exact .single .cancelDraft
    | published => exact .single .cancelPublished
    | cancelled => exact .refl

theorem statusRel_publish {x y : Option EventStatus} (open_ : x ≠ some .cancelled)
    (now : y = x.map (fun _ => .published)) : Option.Rel (Relation.ReflGen StatusMove) x y := by
  subst now
  cases x with
  | none => exact .none
  | some status =>
    apply Option.Rel.some
    cases status with
    | draft => exact .single .publish
    | published => exact .refl
    | cancelled => exact absurd rfl open_

theorem statusRel_final {y : Option EventStatus}
    (h : Option.Rel (Relation.ReflGen StatusMove) (some .cancelled) y) : y = some .cancelled := by
  cases h with
  | some hrel =>
    cases hrel with
    | refl => rfl
    | single hmove => cases hmove

theorem published_ne_cancelled {x y : Option EventStatus} (h : x = y.map (fun _ => .published)) :
    x ≠ some .cancelled := by
  rw [h]
  cases y <;> simp

variable {settings db eventId requests schedule} {n : ℕ}

theorem lifecycleAt_succ {i : ι} (hi : schedule[n]? = some i) :
    lifecycleAt settings db eventId requests schedule (n + 1) =
      offer i (lifecycleAt settings db eventId requests schedule n) :=
  after_take_succ _ _ _ _ _ hi

theorem lifecycleAt_over (hn : schedule[n]? = none) :
    lifecycleAt settings db eventId requests schedule (n + 1) =
      lifecycleAt settings db eventId requests schedule n := by
  have hlen : schedule.length ≤ n := List.getElem?_eq_none_iff.mp hn
  unfold lifecycleAt
  rw [List.take_of_length_le hlen, List.take_of_length_le (by omega)]

theorem lifecycleAt_step {i : ι} (hi : schedule[n]? = some i)
    (hstep : step (lifecycleAt settings db eventId requests schedule n) i ≠ none) :
    (lifecycleAt settings db eventId requests schedule (n + 1)).committed =
      (((lifecycleAt settings db eventId requests schedule n).session i).advance
        (lifecycleAt settings db eventId requests schedule n).committed).1 := by
  rw [lifecycleAt_succ hi]
  rcases offer_cases (lifecycleAt settings db eventId requests schedule n) i with
    ⟨hnone, _⟩ | ⟨_, _, _, hcommitted, _⟩
  · exact absurd hnone hstep
  · exact hcommitted

/-- A commit waits for nobody. -/
theorem statusAt_commit {j : ι} (hj : schedule[n]? = some j)
    (h : CommitsCancel eventId (requests j)
      (lifecycleAt settings db eventId requests schedule n).committed
      ((lifecycleAt settings db eventId requests schedule n).session j)) :
    statusAt settings db eventId requests schedule (n + 1) = some .cancelled := by
  obtain ⟨user, env, r, w, held, _, hs, hstatus⟩ := h
  have hfree : step (lifecycleAt settings db eventId requests schedule n) j ≠ none := by
    unfold step
    rw [if_neg]
    · simp
    · rintro (hover | ⟨k, _, a, ha, _⟩)
      · rw [hs] at hover
        cases hover
      · rw [hs] at ha
        cases ha
  rw [statusAt, lifecycleAt_step hj hfree, hs]
  exact hstatus

theorem statusAt_update {i : ι} (hi : schedule[n]? = some i)
    (hread : HasReadDraft eventId (requests i)
      ((lifecycleAt settings db eventId requests schedule n).session i))
    (hstep : step (lifecycleAt settings db eventId requests schedule n) i ≠ none) :
    statusAt settings db eventId requests schedule (n + 1) =
      (statusAt settings db eventId requests schedule n).map (fun _ => .published) := by
  obtain ⟨user, env, event, _, hs⟩ := hread
  rw [statusAt, lifecycleAt_step hi hstep, hs]
  exact saveEvent_status_const eventId
    (lifecycleAt settings db eventId requests schedule n).committed _ (fun _ => rfl) (fun _ => rfl)

variable (settings db eventId requests schedule) in
theorem session_succ (n : ℕ) (i : ι) :
    (lifecycleAt settings db eventId requests schedule (n + 1)).session i =
        (lifecycleAt settings db eventId requests schedule n).session i ∨
      (schedule[n]? = some i ∧ (lifecycleAt settings db eventId requests schedule (n + 1)).session i =
        (((lifecycleAt settings db eventId requests schedule n).session i).advance
          (lifecycleAt settings db eventId requests schedule n).committed).2) := by
  cases hn : schedule[n]? with
  | none =>
    left
    rw [lifecycleAt_over hn]
  | some j =>
    rw [lifecycleAt_succ hn]
    rcases offer_cases (lifecycleAt settings db eventId requests schedule n) j with
      ⟨_, hsame⟩ | ⟨_, _, _, _, hsession⟩
    · left
      rw [hsame]
    · rw [hsession]
      by_cases hij : i = j
      · subst hij
        exact Or.inr ⟨rfl, Function.update_self ..⟩
      · exact Or.inl (Function.update_of_ne hij ..)

theorem lifecycle_stage (n : ℕ) (i : ι) : RequestStage settings eventId (requests i)
    ((lifecycleAt settings db eventId requests schedule n).session i) := by
  induction n with
  | zero => exact requestStage_start settings eventId (requests i)
  | succ n ih =>
    rcases session_succ settings db eventId requests schedule n i with hsame | ⟨_, hnext⟩
    · rw [hsame]
      exact ih
    · rw [hnext]
      exact (ih.advance _).2.1

variable (settings db eventId requests schedule) in
theorem statusAt_succ (n : ℕ) :
    statusAt settings db eventId requests schedule (n + 1) =
        statusAt settings db eventId requests schedule n ∨
      ∃ i, schedule[n]? = some i ∧
        (step (lifecycleAt settings db eventId requests schedule n) i).isSome ∧
        StatusEffect eventId (requests i)
          (lifecycleAt settings db eventId requests schedule n).committed
          (lifecycleAt settings db eventId requests schedule (n + 1)).committed
          ((lifecycleAt settings db eventId requests schedule n).session i) := by
  cases hn : schedule[n]? with
  | none =>
    left
    rw [statusAt, lifecycleAt_over hn]
    rfl
  | some i =>
    rcases offer_cases (lifecycleAt settings db eventId requests schedule n) i with
      ⟨_, hsame⟩ | ⟨_, _, hsome, hcommitted, _⟩
    · left
      rw [statusAt, lifecycleAt_succ hn, hsame]
      rfl
    · right
      refine ⟨i, rfl, hsome, ?_⟩
      rw [lifecycleAt_succ hn, hcommitted]
      exact ((lifecycle_stage n i).advance _).1

theorem statusAt_select {i : ι}
    (hbefore : ¬ HasReadDraft eventId (requests i)
      ((lifecycleAt settings db eventId requests schedule n).session i))
    (h : HasReadDraft eventId (requests i)
      ((lifecycleAt settings db eventId requests schedule (n + 1)).session i)) :
    schedule[n]? = some i ∧ statusAt settings db eventId requests schedule n = some .draft := by
  rcases session_succ settings db eventId requests schedule n i with hsame | ⟨hi, hnext⟩
  · rw [hsame] at h
    exact absurd h hbefore
  · rw [hnext] at h
    rcases ((lifecycle_stage n i).advance _).2.2 h with hread | hdraft
    · exact absurd hread hbefore
    · exact ⟨hi, hdraft⟩

/-- The turn of the SELECT does not cancel: a `publish_event` is no `cancel_event`. -/
theorem statusAt_selected {i : ι}
    (hbefore : ¬ HasReadDraft eventId (requests i)
      ((lifecycleAt settings db eventId requests schedule n).session i))
    (h : HasReadDraft eventId (requests i)
      ((lifecycleAt settings db eventId requests schedule (n + 1)).session i)) :
    statusAt settings db eventId requests schedule (n + 1) ≠ some .cancelled := by
  obtain ⟨hi, hdraft⟩ := statusAt_select hbefore h
  have hlive : statusAt settings db eventId requests schedule n ≠ some .cancelled := by
    rw [hdraft]
    simp
  rcases statusAt_succ settings db eventId requests schedule n with hsame | ⟨j, hj, _, heffect⟩
  · rwa [hsame]
  · rw [hi] at hj
    cases hj
    cases heffect with
    | keeps same => exact fun hnow => hlive (same.symm.trans hnow)
    | cancels commits _ _ =>
      obtain ⟨_, _, _, _, _, hcancel, _⟩ := commits
      obtain ⟨_, _, _, hpublish, _⟩ := h
      rw [hcancel] at hpublish
      cases hpublish
    | publishes _ now => exact published_ne_cancelled now

/-- Once `publish_event` has read its draft, the event is cancelled only if a `cancel_event` has
    committed in the meantime. -/
theorem readDraft_status {i : ι} (h : HasReadDraft eventId (requests i)
      ((lifecycleAt settings db eventId requests schedule n).session i)) :
    statusAt settings db eventId requests schedule n ≠ some .cancelled ∨
      ∃ k j, k < n ∧ schedule[k]? = some j ∧
        CommitsCancel eventId (requests j)
          (lifecycleAt settings db eventId requests schedule k).committed
          ((lifecycleAt settings db eventId requests schedule k).session j) ∧
        HasReadDraft eventId (requests i)
          ((lifecycleAt settings db eventId requests schedule k).session i) := by
  induction n with
  | zero => exact absurd h (not_hasReadDraft_start (requests i))
  | succ n ih =>
    by_cases hbefore : HasReadDraft eventId (requests i)
        ((lifecycleAt settings db eventId requests schedule n).session i)
    · rcases ih hbefore with hstatus | ⟨k, j, hk, hrest⟩
      · rcases statusAt_succ settings db eventId requests schedule n with hsame | ⟨j, hj, _, heffect⟩
        · rw [hsame]
          exact Or.inl hstatus
        · cases heffect with
          | keeps same => exact Or.inl (fun hnow => hstatus (same.symm.trans hnow))
          | cancels commits _ _ => exact Or.inr ⟨n, j, by omega, hj, commits, hbefore⟩
          | publishes _ now => exact Or.inl (published_ne_cancelled now)
      · exact Or.inr ⟨k, j, by omega, hrest⟩
    · exact Or.inl (statusAt_selected hbefore h)

/-- The moves of the status are those of the lifecycle, and cancelled is final, exactly if no
    `publish_event` executes its UPDATE after a `cancel_event` has committed behind its SELECT. -/
theorem lifecycle_monotone_iff (settings : Settings) (db : Database) (eventId : UUID)
    (requests : ι → EventRequest) (schedule : List ι) :
    LifecycleMonotone settings db eventId requests schedule ↔
      NotOvertaken settings db eventId requests schedule := by
  constructor
  · intro h k n i j hkn hk hn hcommit hreadk hread
    by_contra hstep
    have hcancelled : statusAt settings db eventId requests schedule (k + 1) = some .cancelled :=
      statusAt_commit hk hcommit
    have hnow := h.final (k + 1) n (by omega) hcancelled
    have hnext := h.final (k + 1) (n + 1) (by omega) hcancelled
    exact published_ne_cancelled (statusAt_update hn hread hstep) hnext
  · intro h
    have hmoves : ∀ n, Option.Rel (Relation.ReflGen StatusMove)
        (statusAt settings db eventId requests schedule n)
        (statusAt settings db eventId requests schedule (n + 1)) := by
      intro n
      rcases statusAt_succ settings db eventId requests schedule n with hsame | ⟨i, hi, hstep, heffect⟩
      · exact statusRel_same hsame
      · cases heffect with
        | keeps same => exact statusRel_same same
        | cancels _ known now => exact statusRel_cancel known now
        | publishes read now =>
          refine statusRel_publish ?_ now
          intro hcancelled
          rcases readDraft_status read with hstatus | ⟨k, j, hkn, hk, hcommit, hreadk⟩
          · exact hstatus hcancelled
          · rw [h k n i j hkn hk hi hcommit hreadk read] at hstep
            cases hstep
    refine ⟨hmoves, ?_⟩
    intro m n hmn hm
    induction n, hmn using Nat.le_induction with
    | base => exact hm
    | succ n _ ih =>
      have hmove := hmoves n
      rw [ih] at hmove
      exact statusRel_final hmove

end Runs

section Overtaken

def draftEvent : Database := effect {} (.createEvent organizer oneSeat (envAt 0 100)) {}

def publishAndCancel : Fin 2 → EventRequest
  | 0 => .publish organizer (envAt 1 200)
  | 1 => .cancel organizer (envAt 2 300)

/-- The publishing call reads, the cancelling call runs to its commit, the publishing call
    writes. -/
theorem cancelled_event_published :
    ¬ LifecycleMonotone {} draftEvent 100 publishAndCancel [0, 1, 1, 1, 1, 1, 0] := by
  intro h
  have hcancelled : statusAt {} draftEvent 100 publishAndCancel [0, 1, 1, 1, 1, 1, 0] 6 =
      some .cancelled := by decide +kernel
  have hpublished : statusAt {} draftEvent 100 publishAndCancel [0, 1, 1, 1, 1, 1, 0] 7 =
      some .published := by decide +kernel
  have hfinal := h.final 6 7 (by omega) hcancelled
  rw [hpublished] at hfinal
  cases hfinal

end Overtaken
end Hefest
