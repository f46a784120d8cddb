import Hefest.Lib.Views
import Hefest.Waitlist
import Hefest.WaitlistViews

set_option autoImplicit false

/-!
# Waitlist positions read while others commit

`list_my_registrations` is one query for the rows and one count for each of them that waits, with no
transaction around them. Other students register and cancel in between; what they can do to a row
that is not theirs is to promote it.
-/
namespace Hefest
open Transition Transaction Ranking

/-- A call of another student: a registration or a cancellation. -/
inductive Call.OfOther (student : User) : Call → Prop
  | registerStudent {other : User} {eventId : UUID} {env : Env} (different : other.id ≠ student.id) :
      OfOther student (.registerStudent other eventId env)
  | cancelRegistration {other : User} {regId : UUID} {env : Env} (different : other.id ≠ student.id) :
      OfOther student (.cancelRegistration other regId env)

def Held (reg : Registration) (db : Database) : Prop :=
  db.registration? reg.id = some reg ∨ db.registration? reg.id = some reg.confirm

section Others
variable {settings : Settings} {student : User} {db db' : Database} {reg : Registration}

theorem Held.owner (h : Held reg db) :
    ∃ r, db.registration? reg.id = some r ∧ r.studentId = reg.studentId := by
  rcases h with h | h
  · exact ⟨reg, h, rfl⟩
  · exact ⟨reg.confirm, h, rfl⟩

theorem Held.promoteRows {t : List Registration}
    (h : Table.lookup Registration.id reg.id t = some reg ∨
      Table.lookup Registration.id reg.id t = some reg.confirm) (next? : Option Registration) :
    Table.lookup Registration.id reg.id (promoteRows next? t) = some reg ∨
      Table.lookup Registration.id reg.id (promoteRows next? t) = some reg.confirm := by
  cases next? with
  | none => exact h
  | some next =>
    unfold Hefest.promoteRows
    rw [Table.lookup_update (by intro; rfl)]
    by_cases hnext : reg.id = next.id
    · right
      rcases h with h | h
      · rw [h, Option.map_some, if_pos hnext]
      · rw [h, Option.map_some, if_pos hnext]
        rfl
    · simp only [hnext, if_false, Option.map_id']
      exact h

theorem Change.held {c : Call} (h : Change settings c db db') (hc : c.OfOther student)
    (hmine : reg.studentId = student.id) (hheld : Held reg db) : Held reg db' := by
  cases hc with
  | registerStudent _ =>
    cases h with
    | refused => exact hheld
    | registerStudent =>
      rcases hheld with hrow | hrow
      · exact Or.inl (Table.lookup_append_of_some hrow)
      · exact Or.inr (Table.lookup_append_of_some hrow)
  | @cancelRegistration other regId env different =>
    cases h with
    | refused => exact hheld
    | @cancelRegistration _ _ _ _ cancelled event found owner =>
      have hother : reg.id ≠ cancelled.id := by
        intro hid
        obtain ⟨r, hr, hstudent⟩ := hheld.owner
        have hfound : db.registration? cancelled.id = some cancelled := by
          rw [Table.lookup_key found]
          exact found
        rw [hid, hfound, Option.some.injEq] at hr
        rw [← hr, owner, hmine] at hstudent
        exact different hstudent
      apply Held.promoteRows
      unfold cancelRows
      rw [Table.lookup_update (by intro; rfl)]
      simp only [hother, if_false, Option.map_id']
      exact hheld

end Others

def Database.waiting (db : Database) (student : User) : List Registration :=
  db.registrations.filter fun r => r.studentId = student.id ∧ r.status = .waitlisted

def CountedIn (student : User) (views : List Database) (reg : Registration) (seen : Database) :
    Prop :=
  ∃ (listed : Database) (rest : List Database) (j : ℕ), views = listed :: rest ∧
    (listed.waiting student)[j]? = some reg ∧ rest[j]? = some seen

def Meaningful (entries : List MyRegistrationResponse) : Prop :=
  ∀ entry ∈ entries, entry.status = .waitlisted → ∃ p, entry.waitlistPosition = some p ∧ 1 ≤ p

section Reads
variable {student : User}

theorem one_le_position_iff {db : Database} {reg : Registration} :
    1 ≤ db.position reg ↔ ∃ r ∈ db.waitlist reg.eventId, Registration.fifo r reg := by
  unfold Database.position rank
  simp only [Nat.one_le_iff_ne_zero, ← Nat.pos_iff_ne_zero, List.countP_pos_iff, decide_eq_true_eq]

theorem waitlistPositions_runOn {α : Type} (g : (UUID → Option ℕ) → α) {regs : List Registration}
    (hunique : Table.KeyUnique Registration.id regs) {positions : UUID → Option ℕ}
    {vs : List Database} {r : Except ApiError α}
    (h : ((waitlistPositions regs positions).map g).runOn vs = some r) :
    ∃ positions', r = .ok (g positions') ∧
      (∀ id ∉ regs.map Registration.id, positions' id = positions id) ∧
      ∀ (j : ℕ) (reg : Registration),
        (regs.filter fun r => r.status = .waitlisted)[j]? = some reg →
          ∃ v, vs[j]? = some v ∧ positions' reg.id = some (v.position reg) := by
  induction regs generalizing positions vs with
  | nil =>
    cases vs with
    | nil => cases h
    | cons v vs =>
      cases h
      exact ⟨positions, rfl, by simp, by simp⟩
  | cons reg regs ih =>
    obtain ⟨hfresh, htail⟩ := List.nodup_cons.mp hunique
    by_cases hstatus : reg.status = .waitlisted
    · simp only [waitlistPositions, hstatus, if_true] at h
      cases vs with
      | nil => cases h
      | cons v vs =>
        have hrest : ((waitlistPositions regs (Function.update positions reg.id
            (some ((countAhead reg).result v)))).map g).runOn vs = some r := h
        obtain ⟨positions', hr, hother, hcounts⟩ := ih htail hrest
        refine ⟨positions', hr, ?_, ?_⟩
        · intro id hid
          rw [List.map_cons, List.mem_cons, not_or] at hid
          rw [hother id hid.2, Function.update_of_ne hid.1]
        · intro j reg' hj
          simp only [List.filter_cons, hstatus, decide_true, if_true] at hj
          cases j with
          | zero =>
            cases hj
            refine ⟨v, rfl, ?_⟩
            rw [hother reg.id hfresh, Function.update_self, countAhead_result]
          | succ j => exact hcounts j reg' hj
    · simp only [waitlistPositions, hstatus, if_false] at h
      obtain ⟨positions', hr, hother, hcounts⟩ := ih htail h
      refine ⟨positions', hr, ?_, ?_⟩
      · intro id hid
        rw [List.map_cons, List.mem_cons, not_or] at hid
        exact hother id hid.2
      · simp only [List.filter_cons, hstatus, decide_false, Bool.false_eq_true, if_false]
        exact hcounts

theorem waiting_filter (db : Database) (student : User) :
    (db.registrations.filter fun r => r.studentId = student.id ∧ r.status ≠ .cancelled).filter
      (fun r => r.status = .waitlisted) = db.waiting student := by
  rw [List.filter_filter]
  unfold Database.waiting
  apply List.filter_congr
  intro r _
  cases r.status <;> simp

/-- The positions of the answer are the ranks in the views of the counts. -/
theorem listMyRegistrations_runOn {views : List Database} {entries : List MyRegistrationResponse}
    (hunique : ∀ v ∈ views, Table.KeyUnique Registration.id v.registrations)
    (h : (listMyRegistrations student).runOn views = some (.ok entries)) :
    Meaningful entries ↔ ∀ reg seen, CountedIn student views reg seen → 1 ≤ seen.position reg := by
  cases views with
  | nil => cases h
  | cons listed rest =>
    let regs := listed.registrations.filter fun r =>
      r.studentId = student.id ∧ r.status ≠ .cancelled
    have hcount : ((waitlistPositions regs fun _ => none).map fun positions =>
        regs.map (myRegistration positions)).runOn rest = some (.ok entries) := h
    obtain ⟨positions, hentries, _, hcounts⟩ := waitlistPositions_runOn _
      ((hunique listed List.mem_cons_self).filter _) hcount
    rw [waiting_filter] at hcounts
    have hentries := Except.ok.inj hentries
    constructor
    · rintro hmeaningful reg seen ⟨_, _, j, hviews, hj, hseen⟩
      obtain ⟨rfl, rfl⟩ := List.cons.inj hviews
      obtain ⟨v, hv, hposition⟩ := hcounts j reg hj
      have hreg := List.mem_of_getElem? hj
      rw [← waiting_filter, List.mem_filter, decide_eq_true_iff] at hreg
      have hmem : myRegistration positions reg ∈ entries := by
        rw [hentries]
        exact List.mem_map_of_mem hreg.1
      obtain ⟨p, hp, hone⟩ := hmeaningful _ hmem hreg.2
      rw [hseen] at hv
      cases hv
      have hsame : some (seen.position reg) = some p := hposition.symm.trans hp
      rw [Option.some.inj hsame]
      exact hone
    · intro hcounted entry hentry hwaits
      rw [hentries] at hentry
      obtain ⟨reg, hreg, rfl⟩ := List.mem_map.mp hentry
      have hwaiting : reg ∈ listed.waiting student := by
        rw [← waiting_filter, List.mem_filter, decide_eq_true_iff]
        exact ⟨hreg, hwaits⟩
      obtain ⟨j, hj⟩ := List.mem_iff_getElem?.mp hwaiting
      obtain ⟨v, hv, hposition⟩ := hcounts j reg hj
      exact ⟨v.position reg, hposition, hcounted reg v ⟨listed, rest, j, rfl, hj, hv⟩⟩

theorem listMyRegistrations_readOnly (student : User) : (listMyRegistrations student).ReadOnly := by
  refine ⟨fun _ _ => rfl, ?_⟩
  intro regs
  apply Prog.Writes.map
  have hcounts : ∀ positions, (waitlistPositions regs positions).Writes fun x y => y = x := by
    induction regs with
    | nil =>
      intro positions
      trivial
    | cons reg regs ih =>
      intro positions
      unfold waitlistPositions
      split_ifs
      · exact ⟨fun _ _ => rfl, fun n => ih _⟩
      · exact ih positions
  exact hcounts _

end Reads

section Races
variable {settings : Settings} {student : User} {turns : List (Option Call)} {db : Database}

theorem views_wf (hwf : Wf db) : ∀ v ∈ views (effect settings) turns db, Wf v :=
  views_invariant (effect settings) Wf (fun c _ db hdb => (change settings c db).wf hdb) hwf

theorem countedIn_held (hwf : Wf db) (hothers : ∀ c, some c ∈ turns → c.OfOther student)
    {reg : Registration} {seen : Database}
    (h : CountedIn student (views (effect settings) turns db) reg seen) :
    reg.status = .waitlisted ∧ Held reg seen := by
  obtain ⟨listed, rest, j, hviews, hj, hseen⟩ := h
  have hreg := List.mem_of_getElem? hj
  rw [Database.waiting, List.mem_filter, decide_eq_true_iff] at hreg
  obtain ⟨hmem, hmine, hwaits⟩ := hreg
  have hall : ∀ v ∈ views (effect settings) turns db, Wf v := views_wf hwf
  rw [hviews] at hall
  have hlisted : Wf listed := hall listed List.mem_cons_self
  obtain ⟨turns', hsub, hrest⟩ := views_cons (effect settings) hviews
  have hheld : ∀ v ∈ rest, Held reg v := by
    rw [← hrest]
    refine views_invariant (effect settings) (Held reg) ?_ ?_
    · intro c hc v hv
      exact (change settings c v).held (hothers c (hsub c hc)) hmine hv
    · exact Or.inl (hlisted.registrations.lookup_self hmem)
  exact ⟨hwaits, hheld seen (List.mem_of_getElem? hseen)⟩

end Races

/-- Every waiting entry has a position from one, exactly if each row that has been promoted between
    the listing and its count leaves somebody who waits and comes no later. -/
theorem listed_positions_iff (settings : Settings) (db₀ : Database) (h₀ : Initial db₀)
    (calls : List Call) (student : User) (turns : List (Option Call))
    (hothers : ∀ c, some c ∈ turns → c.OfOther student) (entries : List MyRegistrationResponse)
    (hdone : (after (among (effect settings))
      (after (effect settings) db₀ calls, .auto (listMyRegistrations student)) turns).2 =
        .finished (.ok entries)) :
    Meaningful entries ↔
      ∀ reg seen,
        CountedIn student (views (effect settings) turns (after (effect settings) db₀ calls)) reg
          seen →
        seen.registration? reg.id = some reg.confirm →
          ∃ r ∈ seen.waitlist reg.eventId, Registration.fifo r reg := by
  have hwf : Wf (after (effect settings) db₀ calls) := after_wf settings h₀ calls
  have hviews := runOn_of_finished (effect settings)
    (s := .auto (listMyRegistrations student)) (listMyRegistrations_readOnly student) turns _ hdone
  rw [listMyRegistrations_runOn (fun v hv => (views_wf hwf v hv).registrations) hviews]
  simp only [one_le_position_iff]
  constructor
  · intro h reg seen hcounted _
    exact h reg seen hcounted
  · intro h reg seen hcounted
    obtain ⟨hwaits, hrow | hpromoted⟩ := countedIn_held hwf hothers hcounted
    · -- the row itself still waits
      refine ⟨reg, mem_waitlist.mpr ⟨registration_mem hrow, rfl, hwaits⟩, Std.Refl.refl reg⟩
    · exact h reg seen hcounted hpromoted

/-- `bob` lists his registrations; `alice` gives up her seat between the listing and the count. -/
def promotedMeanwhile : List (Option Call) :=
  [none, some (.cancelRegistration alice 300 (envAt 5 600)), none, none]

theorem listed_positions_zero :
    ∃ entry : MyRegistrationResponse,
      (after (among (effect {})) (after (effect {}) {} oneSeatCalls,
        .auto (listMyRegistrations bob)) promotedMeanwhile).2 = .finished (.ok [entry]) ∧
      entry.status = .waitlisted ∧ entry.waitlistPosition = some 0 ∧ ¬ Meaningful [entry] := by
  refine ⟨_, rfl, rfl, rfl, ?_⟩
  intro h
  obtain ⟨p, hp, hone⟩ := h _ List.mem_cons_self rfl
  have hzero : some 0 = some p := hp
  rw [← Option.some.inj hzero] at hone
  omega

def joinedMeanwhile : List (Option Call) :=
  [none, some (.registerStudent carol 100 (envAt 5 600)), none, none]

theorem listed_positions_iff_joined :
    ∃ entries, (after (among (effect {})) (after (effect {}) {} oneSeatCalls,
        .auto (listMyRegistrations bob)) joinedMeanwhile).2 = .finished (.ok entries) ∧
      Meaningful entries := by
  refine ⟨_, rfl, ?_⟩
  refine (listed_positions_iff {} {} initial_empty oneSeatCalls bob joinedMeanwhile ?_ _ rfl).mpr ?_
  · intro c hc
    have hcarol : c = .registerStudent carol 100 (envAt 5 600) := by
      simpa [joinedMeanwhile] using hc
    rw [hcarol]
    exact .registerStudent (by decide)
  · rintro reg seen ⟨listed, rest, j, hviews, hj, hseen⟩ hpromoted
    obtain ⟨rfl, rfl⟩ := List.cons.inj hviews
    have hbob : (after (effect {}) {} oneSeatCalls).waiting bob =
        [⟨400, 100, 3, .waitlisted, seconds 3, none⟩] := by decide
    rw [hbob] at hj
    cases j with
    | zero =>
      cases hj
      cases hseen
      revert hpromoted
      decide
    | succ j => cases hj

end Hefest
