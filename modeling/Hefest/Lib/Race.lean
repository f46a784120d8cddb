import Hefest.Lib.Isolation

set_option autoImplicit false

/-!
# Races for a row that is not there yet

Calls that look for a row first and insert it if they find none. Nothing is committed until one of
them commits its row. From then on nothing is written any more, and every other call has either
not looked yet, which ends well, or looked too early, which does not.
-/
namespace Transaction
open Transition

/-- Before the first commit the database is `Free`; after it, it is `Won` with the rows `w`. `Same`
    says what a lock guards. -/
structure Race {σ κ : Type} [Lock κ] (ε α ι ω : Type) (Same : κ → σ → σ → Prop) : Type 1 where
  Free : σ → Prop
  Won : σ → ω → Prop
  Known : σ → Prop
  Fresh : ι → Session σ κ ε α → Prop
  Before : σ → ι → Session σ κ ε α → Prop
  Winner : ω → ι → Session σ κ ε α → Prop
  Fine : ω → ι → Session σ κ ε α → Prop
  Lost : ι → Session σ κ ε α → Prop
  symm : ∀ a b : κ, Lock.conflict a b = Lock.conflict b a
  same_refl : ∀ a db, Same a db db
  known : ∀ {db w}, Won db w → Known db
  unknown : ∀ {db}, Free db → ¬ Known db
  waiting : ∀ {i s}, Fresh i s → s.isFinished = false
  fresh_before : ∀ {db i s}, Free db → Fresh i s → Before db i s
  /-- A call changes nothing, or commits its rows under the locks it holds. -/
  before : ∀ {db i s}, Free db → Before db i s →
    ((s.advance db).1 = db ∧ Before db i (s.advance db).2) ∨
      ∃ w, Won (s.advance db).1 w ∧ Winner w i (s.advance db).2 ∧
        ChangesWithin Same s.held db (s.advance db).1
  /-- The others at the moment of the commit. -/
  overtaken : ∀ {db db' w i s}, Free db → Won db' w → Before db i s →
    (∀ a ∈ s.held, Same a db db') → Fresh i s ∨ Lost i s
  won : ∀ {w i s}, Winner w i s → s.isFinished = true ∧ Fine w i s
  fresh_fine : ∀ {i s} w, Fresh i s → Fine w i s
  fine : ∀ {db w i s}, Won db w → Fine w i s →
    (s.advance db).1 = db ∧ Fine w i (s.advance db).2
  lost : ∀ {db w i s}, Won db w → Lost i s → (s.advance db).1 = db ∧ Lost i (s.advance db).2

namespace Race
variable {σ κ ε α ι ω : Type} [Lock κ] {Same : κ → σ → σ → Prop}
  (R : Race ε α ι ω Same)

def Stage (db : σ) (i : ι) (s : Session σ κ ε α) : Prop :=
  (R.Free db ∧ R.Before db i s) ∨ ∃ w, R.Won db w ∧ (R.Fine w i s ∨ R.Lost i s)

def Move (db db' : σ) : Prop := db' = db ∨ (R.Free db ∧ ∃ w, R.Won db' w)

variable {R}

theorem not_free {db : σ} {w : ω} (h : R.Won db w) : ¬ R.Free db :=
  fun hfree => R.unknown hfree (R.known h)

theorem decided {db : σ} {w : ω} {i : ι} {s : Session σ κ ε α} (hdb : R.Won db w)
    (h : R.Fine w i s ∨ R.Lost i s) :
    (s.advance db).1 = db ∧ (R.Fine w i (s.advance db).2 ∨ R.Lost i (s.advance db).2) := by
  rcases h with hfine | hlost
  · exact ⟨(R.fine hdb hfine).1, Or.inl (R.fine hdb hfine).2⟩
  · exact ⟨(R.lost hdb hlost).1, Or.inr (R.lost hdb hlost).2⟩

variable (R) in
theorem discipline : Discipline Same R.Move R.Stage where
  symm := R.symm
  advance db i s h _ := by
    have hsame : ChangesWithin Same (s.wants db ++ s.held) db db := fun a _ => R.same_refl a db
    rcases h with ⟨hdb, hbefore⟩ | ⟨w, hdb, hfate⟩
    · rcases R.before hdb hbefore with ⟨hstill, hnext⟩ | ⟨w, hwon, hwinner, hwithin⟩
      · rw [hstill]
        exact ⟨Or.inl rfl, Or.inl ⟨hdb, hnext⟩, hsame⟩
      · refine ⟨Or.inr ⟨hdb, w, hwon⟩, Or.inr ⟨w, hwon, Or.inl (R.won hwinner).2⟩, ?_⟩
        intro a ha
        exact hwithin a fun b hb => ha b (List.mem_append_right _ hb)
    · obtain ⟨hstill, hnext⟩ := decided hdb hfate
      rw [hstill]
      exact ⟨Or.inl rfl, Or.inr ⟨w, hdb, hnext⟩, hsame⟩
  stable db db' i s h hmove hsame := by
    rcases hmove with rfl | ⟨hfree, w, hwon⟩
    · exact h
    · rcases h with ⟨_, hbefore⟩ | ⟨_, hdb, _⟩
      · right
        refine ⟨w, hwon, ?_⟩
        rcases R.overtaken hfree hwon hbefore hsame with hfresh | hlost
        · exact Or.inl (R.fresh_fine w hfresh)
        · exact Or.inr hlost
      · exact absurd hfree (not_free hdb)

section Runs
variable [DecidableEq ι] [Fintype ι] {S₀ S S' T : System σ κ ε α ι} {i : ι} {os tr : List ι} {w : ω}

variable (R) in
structure Starts (S₀ : System σ κ ε α ι) : Prop where
  free : R.Free S₀.committed
  fresh : ∀ i, R.Fresh i (S₀.session i)
  unlocked : ∀ i, (S₀.session i).held = []

variable (R) in
structure FirstCommit (i : ι) (w : ω) (T : System σ κ ε α ι) : Prop where
  won : R.Won T.committed w
  winner : R.Winner w i (T.session i)
  others : ∀ j, j ≠ i → R.Fresh j (T.session j) ∨ R.Lost j (T.session j)

omit [DecidableEq ι] [Fintype ι] in
theorem Starts.disciplined (h : R.Starts S₀) : Disciplined R.Stage S₀ where
  stage i := Or.inl ⟨h.free, R.fresh_before h.free (h.fresh i)⟩
  apart i _ _ a ha := by
    rw [h.unlocked i] at ha
    cases ha

/-- A step from a free database leaves it free, or is the first commit. -/
theorem firstCommit_step (hS : Disciplined R.Stage S) (hfree : R.Free S.committed)
    (hs : step S i = some (S', os)) : R.Free S'.committed ∨ ∃ w, R.FirstCommit i w S' := by
  obtain ⟨_, _, hcommitted, hsession⟩ := step_cases hs
  have hbefore : ∀ j, R.Before S.committed j (S.session j) := by
    intro j
    rcases hS.stage j with ⟨_, h⟩ | ⟨_, hwon, _⟩
    · exact h
    · exact absurd hfree (not_free hwon)
  rcases R.before hfree (hbefore i) with ⟨hstill, _⟩ | ⟨w, hwon, hwinner, _⟩
  · left
    rw [hcommitted, hstill]
    exact hfree
  · right
    rw [← hcommitted] at hwon
    refine ⟨w, hwon, by rw [hsession, Function.update_self]; exact hwinner, ?_⟩
    intro j hj
    rw [hsession, Function.update_of_ne hj]
    exact R.overtaken hfree hwon (hbefore j) (hS.step_same R.discipline hs hj)

/-- Until the first commit nothing changes; after it the run has a first commit behind it. -/
theorem firstCommit_run (h₀ : R.Starts S₀) (h : Run step S₀ tr S) :
    R.Free S.committed ∨ ∃ tr₁ T tr₂ i w, tr = tr₁ ++ tr₂ ∧ Run step S₀ tr₁ T ∧ Run step T tr₂ S ∧
      R.FirstCommit i w T := by
  induction h with
  | start => exact Or.inl h₀.free
  | @next tr os S S' i tail hs ih =>
    rcases ih with hfree | ⟨tr₁, T, tr₂, j, w, rfl, h₁, h₂, hfirst⟩
    · have hS := h₀.disciplined.run R.discipline tail
      rcases firstCommit_step hS hfree hs with hstill | ⟨w, hfirst⟩
      · exact Or.inl hstill
      · exact Or.inr ⟨_, S', [], i, w, (List.append_nil _).symm, .next tail hs, .start, hfirst⟩
    · exact Or.inr ⟨tr₁, T, tr₂ ++ os, j, w, List.append_assoc .., h₁, .next h₂ hs, hfirst⟩

/-- From the first commit on nothing is written any more, and every call keeps to its fate. -/
theorem decided_run (hT : R.Won T.committed w)
    (hall : ∀ j, R.Fine w j (T.session j) ∨ R.Lost j (T.session j)) (h : Run step T tr S) :
    S.committed = T.committed ∧
      ∀ j, (R.Fine w j (T.session j) → R.Fine w j (S.session j)) ∧
        (R.Lost j (T.session j) → R.Lost j (S.session j)) := by
  induction h with
  | start => exact ⟨rfl, fun j => ⟨id, id⟩⟩
  | @next tr os S S' i tail hs ih =>
    obtain ⟨hsame, hfates⟩ := ih
    obtain ⟨_, _, hcommitted, hsession⟩ := step_cases hs
    have hS : R.Won S.committed w := by
      rw [hsame]
      exact hT
    have hi : R.Fine w i (S.session i) ∨ R.Lost i (S.session i) := (hall i).imp (hfates i).1 (hfates i).2
    refine ⟨by rw [hcommitted, (decided hS hi).1, hsame], ?_⟩
    intro j
    rw [hsession]
    by_cases hj : j = i
    · subst hj
      rw [Function.update_self]
      exact ⟨fun h => (R.fine hS ((hfates j).1 h)).2, fun h => (R.lost hS ((hfates j).2 h)).2⟩
    · rw [Function.update_of_ne hj]
      exact hfates j

omit [DecidableEq ι] [Fintype ι] in
theorem FirstCommit.decided (h : R.FirstCommit i w T) (j : ι) :
    R.Fine w j (T.session j) ∨ R.Lost j (T.session j) := by
  by_cases hj : j = i
  · subst hj
    exact Or.inl (R.won h.winner).2
  · exact (h.others j hj).imp (R.fresh_fine w) id

variable (R) in
/-- In the run `tr` there is a moment at which the row is known and all calls but one have not
    looked for it. -/
def OneBefore (S₀ : System σ κ ε α ι) (tr : List ι) (S : System σ κ ε α ι) : Prop :=
  ∃ i tr₁ T tr₂, tr = tr₁ ++ tr₂ ∧ Run step S₀ tr₁ T ∧ Run step T tr₂ S ∧ R.Known T.committed ∧
    ∀ j, j ≠ i → R.Fresh j (T.session j)

/-- A call that looked too early is lost for good. -/
theorem oneBefore_of_not_lost (h₀ : R.Starts S₀) (h : Run step S₀ tr S) (hend : ¬ R.Free S.committed)
    (hnone : ∀ i, ¬ R.Lost i (S.session i)) : R.OneBefore S₀ tr S := by
  rcases firstCommit_run h₀ h with hfree | ⟨tr₁, T, tr₂, i, w, htr, h₁, h₂, hfirst⟩
  · exact absurd hfree hend
  · refine ⟨i, tr₁, T, tr₂, htr, h₁, h₂, R.known hfirst.won, ?_⟩
    intro j hj
    rcases hfirst.others j hj with hfresh | hlost
    · exact hfresh
    · exact absurd (((decided_run hfirst.won hfirst.decided h₂).2 j).2 hlost) (hnone j)

theorem OneBefore.fine (h₀ : R.Starts S₀) (h : R.OneBefore S₀ tr S) :
    ∃ w, R.Won S.committed w ∧ (∃ i, R.Winner w i (S.session i)) ∧ ∀ i, R.Fine w i (S.session i) := by
  obtain ⟨i, tr₁, T, tr₂, _, h₁, h₂, hknown, hothers⟩ := h
  rcases firstCommit_run h₀ h₁ with hfree | ⟨_, U, tr₃, first, w, _, _, h₃, hfirst⟩
  · exact absurd hknown (R.unknown hfree)
  · obtain ⟨hcommitted, hfates⟩ := decided_run hfirst.won hfirst.decided h₃
    have hover : T.session first = U.session first :=
      session_of_finished h₃ (R.won hfirst.winner).1
    have hsame : first = i := by
      by_contra hne
      have hwaits := R.waiting (hothers first hne)
      rw [hover, (R.won hfirst.winner).1] at hwaits
      cases hwaits
    have hT : R.Won T.committed w := by
      rw [hcommitted]
      exact hfirst.won
    have hall : ∀ j, R.Fine w j (T.session j) := by
      intro j
      by_cases hj : j = i
      · rw [hj, ← hsame, hover]
        exact (R.won hfirst.winner).2
      · exact R.fresh_fine w (hothers j hj)
    obtain ⟨hend, hfine⟩ := decided_run hT (fun j => Or.inl (hall j)) h₂
    refine ⟨w, by rw [hend]; exact hT, ⟨first, ?_⟩, fun j => (hfine j).1 (hall j)⟩
    rw [session_of_finished h₂ (by rw [hover]; exact (R.won hfirst.winner).1), hover]
    exact hfirst.winner

end Runs
end Race
end Transaction
