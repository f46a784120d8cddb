import Hefest.Lib.Watchdog
import Mathlib.Algebra.Order.Ring.Int

set_option autoImplicit false

namespace Hefest
open Watchdog

/-- What a renewal can raise; `other` is anything else, `CancelledError` included. -/
inductive RenewError
  | osError
  | postgresError
  | dbConnectionError
  | operationalError
  | other
deriving DecidableEq

def renewErrors : List RenewError :=
  [.osError, .postgresError, .dbConnectionError, .operationalError]

structure Renewal (T : Type*) where
  error : Option RenewError
  reading : T

inductive LoopPhase
  | looping
  | returned
  | raised
deriving DecidableEq

structure HeartbeatState (T : Type*) where
  lastSuccess : T
  /-- How many renewals were tried. -/
  renewals : ℕ := 0
  leaseLost : Bool := false
  phase : LoopPhase := .looping

namespace Heartbeat
variable {T : Type*} [Sub T] [LT T] [DecidableLT T]

def turn (reaperIdle : T) (x : HeartbeatState T) (renewal : Renewal T) : HeartbeatState T :=
  match x.phase with
  | .looping =>
    match renewal.error with
    | none => { x with lastSuccess := renewal.reading, renewals := x.renewals + 1 }
    | some error =>
      if error ∈ renewErrors then
        let staleFor := renewal.reading - x.lastSuccess
        if reaperIdle < staleFor then
          { x with renewals := x.renewals + 1, leaseLost := true, phase := .returned }
        else { x with renewals := x.renewals + 1 }
      else { x with renewals := x.renewals + 1, phase := .raised }
  | _ => x

def run (reaperIdle t0 : T) (renewals : ℕ → Renewal T) : ℕ → HeartbeatState T
  | 0 => { lastSuccess := t0 }
  | n + 1 => turn reaperIdle (run reaperIdle t0 renewals n) (renewals n)

end Heartbeat

section Renewals
variable {T : Type*} (renewals : ℕ → Renewal T)

def Renewed (n : ℕ) : Prop := (renewals n).error = none

def readings (n : ℕ) : T := (renewals n).reading

def OnlyHandled : Prop := ∀ n, ∀ error ∈ (renewals n).error, error ∈ renewErrors

end Renewals

namespace Heartbeat
variable {T : Type*} [Sub T] [LT T] [DecidableLT T]
variable {reaperIdle t0 : T} {renewals : ℕ → Renewal T} {x : HeartbeatState T} {n : ℕ}

theorem turn_renewed (h : (renewals n).error = none) (hx : x.phase = .looping) :
    turn reaperIdle x (renewals n) =
      { x with lastSuccess := (renewals n).reading, renewals := x.renewals + 1 } := by
  simp only [turn, hx, h]

theorem turn_missed (hhandled : OnlyHandled renewals) (h : ¬ Renewed renewals n)
    (hx : x.phase = .looping) :
    turn reaperIdle x (renewals n) =
      if reaperIdle < readings renewals n - x.lastSuccess then
        { x with renewals := x.renewals + 1, leaseLost := true, phase := .returned }
      else { x with renewals := x.renewals + 1 } := by
  cases herror : (renewals n).error with
  | none => exact absurd herror h
  | some error =>
    have hmem : error ∈ renewErrors := hhandled n error herror
    simp only [turn, hx, herror, if_pos hmem, readings]

theorem turn_stopped (h : x.phase ≠ .looping) (renewal : Renewal T) :
    turn reaperIdle x renewal = x := by
  unfold turn
  cases hphase : x.phase with
  | looping => exact absurd hphase h
  | returned => rfl
  | raised => rfl

theorem run_stopped (h : (run reaperIdle t0 renewals n).phase ≠ .looping) {m : ℕ} (hm : n ≤ m) :
    run reaperIdle t0 renewals m = run reaperIdle t0 renewals n := by
  induction m, hm using Nat.le_induction with
  | base => rfl
  | succ m _ ih =>
    change turn reaperIdle (run reaperIdle t0 renewals m) (renewals m) = _
    rw [ih, turn_stopped h]

structure Turning (reaperIdle t0 : T) (renewals : ℕ → Renewal T) (n : ℕ) : Prop where
  phase : (run reaperIdle t0 renewals n).phase = .looping
  lease : (run reaperIdle t0 renewals n).leaseLost = false
  count : (run reaperIdle t0 renewals n).renewals = n
  last : LastFed (Renewed renewals) (readings renewals) t0 n
    (run reaperIdle t0 renewals n).lastSuccess

theorem Turning.zero : Turning reaperIdle t0 renewals 0 := ⟨rfl, rfl, rfl, .zero⟩

theorem Turning.succ (h : Turning reaperIdle t0 renewals n) (hhandled : OnlyHandled renewals)
    (hdue : ¬ Overdue (Renewed renewals) (readings renewals) t0 reaperIdle n) :
    Turning reaperIdle t0 renewals (n + 1) := by
  have hrun : run reaperIdle t0 renewals (n + 1) =
      turn reaperIdle (run reaperIdle t0 renewals n) (renewals n) := rfl
  by_cases hrenewed : Renewed renewals n
  · rw [turn_renewed hrenewed h.phase] at hrun
    refine ⟨?_, ?_, ?_, ?_⟩
    · rw [hrun]
      exact h.phase
    · rw [hrun]
      exact h.lease
    · rw [hrun, h.count]
    · rw [hrun]
      exact LastFed.succ_fed hrenewed
  · have hfresh : ¬ reaperIdle <
        readings renewals n - (run reaperIdle t0 renewals n).lastSuccess := fun hlt =>
      hdue ((overdue_iff h.last).mpr ⟨hrenewed, hlt⟩)
    rw [turn_missed hhandled hrenewed h.phase, if_neg hfresh] at hrun
    refine ⟨?_, ?_, ?_, ?_⟩
    · rw [hrun]
      exact h.phase
    · rw [hrun]
      exact h.lease
    · rw [hrun, h.count]
    · rw [hrun]
      exact LastFed.succ_missed hrenewed h.last

theorem turning (hhandled : OnlyHandled renewals) (n : ℕ)
    (hdue : ∀ k < n, ¬ Overdue (Renewed renewals) (readings renewals) t0 reaperIdle k) :
    Turning reaperIdle t0 renewals n := by
  induction n with
  | zero => exact .zero
  | succ n ih =>
    have hbefore : Turning reaperIdle t0 renewals n := ih (fun k hk => hdue k (by omega))
    exact hbefore.succ hhandled (hdue n (by omega))

theorem Turning.aborts (h : Turning reaperIdle t0 renewals n) (hhandled : OnlyHandled renewals)
    (hdue : Overdue (Renewed renewals) (readings renewals) t0 reaperIdle n) :
    (run reaperIdle t0 renewals (n + 1)).phase = .returned ∧
      (run reaperIdle t0 renewals (n + 1)).leaseLost = true ∧
      (run reaperIdle t0 renewals (n + 1)).renewals = n + 1 := by
  have hrun : run reaperIdle t0 renewals (n + 1) =
      turn reaperIdle (run reaperIdle t0 renewals n) (renewals n) := rfl
  have hboth := (overdue_iff h.last).mp hdue
  rw [turn_missed hhandled hboth.1 h.phase, if_pos hboth.2] at hrun
  rw [hrun]
  exact ⟨rfl, rfl, by rw [h.count]⟩

end Heartbeat

section Abort
variable {T : Type*} [Sub T] [Preorder T] [DecidableLT T]

/-- The lease is given up at the first overdue renewal, at no other, and the loop ends there. Only
    the last part takes anything of the subtraction: that it is monotone, as that of floats is. -/
theorem heartbeat_aborts_exactly_when_overdue (reaperIdle t0 : T) (renewals : ℕ → Renewal T)
    (handled : OnlyHandled renewals) (hstart : t0 ≤ readings renewals 0)
    (hmono : Monotone (readings renewals)) :
    (∀ n, FirstOverdue (Renewed renewals) (readings renewals) t0 reaperIdle n →
      (Heartbeat.run reaperIdle t0 renewals n).leaseLost = false ∧
      (Heartbeat.run reaperIdle t0 renewals n).phase = .looping ∧
      ∀ m > n, (Heartbeat.run reaperIdle t0 renewals m).leaseLost = true ∧
        (Heartbeat.run reaperIdle t0 renewals m).phase = .returned ∧
        (Heartbeat.run reaperIdle t0 renewals m).renewals = n + 1) ∧
    (∀ n, (∀ k < n, ¬ Overdue (Renewed renewals) (readings renewals) t0 reaperIdle k) →
      (Heartbeat.run reaperIdle t0 renewals n).leaseLost = false ∧
      (Heartbeat.run reaperIdle t0 renewals n).phase = .looping) ∧
    ((∀ a b c : T, b ≤ c → a - c ≤ a - b) →
      (∀ n, ¬ Renewed renewals n →
        Spanned (Renewed renewals) (readings renewals) t0 reaperIdle n) →
      ∀ n, (Heartbeat.run reaperIdle t0 renewals n).leaseLost = false ∧
        (Heartbeat.run reaperIdle t0 renewals n).phase = .looping) := by
  have hturning (n : ℕ)
      (hdue : ∀ k < n, ¬ Overdue (Renewed renewals) (readings renewals) t0 reaperIdle k) :
      (Heartbeat.run reaperIdle t0 renewals n).leaseLost = false ∧
        (Heartbeat.run reaperIdle t0 renewals n).phase = .looping := by
    have h : Heartbeat.Turning reaperIdle t0 renewals n := Heartbeat.turning handled n hdue
    exact ⟨h.lease, h.phase⟩
  refine ⟨?_, hturning, ?_⟩
  · intro n hfirst
    have hbefore : Heartbeat.Turning reaperIdle t0 renewals n :=
      Heartbeat.turning handled n hfirst.2
    have habort := hbefore.aborts handled hfirst.1
    refine ⟨hbefore.lease, hbefore.phase, ?_⟩
    intro m hm
    have hstopped : (Heartbeat.run reaperIdle t0 renewals (n + 1)).phase ≠ .looping := by
      rw [habort.1]
      decide
    rw [Heartbeat.run_stopped hstopped hm]
    exact ⟨habort.2.1, habort.1, habort.2.2⟩
  · intro hsub hspanned n
    apply hturning n
    intro k _ hdue
    exact (hspanned k hdue.1).not_overdue hsub hmono hstart hdue

end Abort

/-- A renewal every 90 seconds, the first one in time and all later ones refused. -/
def refusedRenewals (n : ℕ) : Renewal ℤ where
  error := if n = 0 then none else some .osError
  reading := 90 * (n + 1)

/-- With a limit of 300 the fourth refusal is the first overdue one. -/
theorem refusedRenewals_abort :
    (Heartbeat.run 300 0 refusedRenewals 4).leaseLost = false ∧
      ∀ m > 4, (Heartbeat.run 300 0 refusedRenewals m).leaseLost = true := by
  have handled : OnlyHandled refusedRenewals := by
    intro n error herror
    by_cases hn : n = 0
    · simp [refusedRenewals, hn] at herror
    · simp only [refusedRenewals, if_neg hn, Option.mem_def, Option.some.injEq] at herror
      subst herror
      decide
  have hmono : Monotone (readings refusedRenewals) := by
    intro n m hnm
    simp only [readings, refusedRenewals]
    omega
  have hlast (n : ℕ) (hn : 0 < n) :
      LastFed (Renewed refusedRenewals) (readings refusedRenewals) 0 n 90 :=
    .feeding 0 hn rfl (fun j hj _ h => by
      simp [Renewed, refusedRenewals, Nat.pos_iff_ne_zero.mp hj] at h)
  have hfirst :
      FirstOverdue (Renewed refusedRenewals) (readings refusedRenewals) 0 300 4 := by
    refine ⟨(overdue_iff (hlast 4 (by omega))).mpr ⟨by simp [Renewed, refusedRenewals], ?_⟩, ?_⟩
    · simp [readings, refusedRenewals]
    · intro k hk hdue
      by_cases hzero : k = 0
      · subst hzero
        exact hdue.1 rfl
      · have hlt := ((overdue_iff (hlast k (by omega))).mp hdue).2
        simp only [readings, refusedRenewals] at hlt
        omega
  have h := (heartbeat_aborts_exactly_when_overdue 300 0 refusedRenewals handled
    (by simp [readings, refusedRenewals]) hmono).1 4 hfirst
  exact ⟨h.1, fun m hm => (h.2.2 m hm).1⟩

end Hefest
