import Mathlib.Order.Monotone.Basic
import Mathlib.Order.Interval.Set.Basic

set_option autoImplicit false

namespace Watchdog
variable {T : Type*} {fed : ℕ → Prop} {reading : ℕ → T} {start r : T} {n : ℕ}

inductive LastFed (fed : ℕ → Prop) (reading : ℕ → T) (start : T) (n : ℕ) : T → Prop
  | start (h : ∀ k < n, ¬ fed k) : LastFed fed reading start n start
  | feeding (k : ℕ) (hk : k < n) (h : fed k) (hlast : ∀ j, k < j → j < n → ¬ fed j) :
      LastFed fed reading start n (reading k)

theorem LastFed.zero : LastFed fed reading start 0 start :=
  .start (fun k hk => absurd hk (Nat.not_lt_zero k))

theorem LastFed.succ_fed (h : fed n) : LastFed fed reading start (n + 1) (reading n) :=
  .feeding n (Nat.lt_succ_self n) h (fun j hj hlt => by omega)

theorem LastFed.succ_missed (h : ¬ fed n) (hr : LastFed fed reading start n r) :
    LastFed fed reading start (n + 1) r := by
  cases hr with
  | start hnone =>
    refine .start (fun k hk => ?_)
    by_cases heq : k = n
    · subst heq
      exact h
    · exact hnone k (by omega)
  | feeding k hk hfed hlast =>
    refine .feeding k (by omega) hfed (fun j hkj hj => ?_)
    by_cases heq : j = n
    · subst heq
      exact h
    · exact hlast j hkj (by omega)

theorem LastFed.unique {r' : T} (h : LastFed fed reading start n r)
    (h' : LastFed fed reading start n r') : r = r' := by
  cases h with
  | start hnone =>
    cases h' with
    | start _ => rfl
    | feeding k hk hfed _ => exact absurd hfed (hnone k hk)
  | feeding k hk hfed hlast =>
    cases h' with
    | start hnone => exact absurd hfed (hnone k hk)
    | feeding k' hk' hfed' hlast' =>
      have heq : k = k' := by
        rcases Nat.lt_trichotomy k k' with hlt | heq | hlt
        · exact absurd hfed' (hlast k' hlt hk')
        · exact heq
        · exact absurd hfed (hlast' k hlt hk)
      rw [heq]

section Order
variable [Preorder T]

theorem LastFed.feeding_le (h : LastFed fed reading start n r) (hmono : Monotone reading) {k : ℕ}
    (hk : k < n) (hfed : fed k) : reading k ≤ r := by
  cases h with
  | start hnone => exact absurd hfed (hnone k hk)
  | feeding j hj _ hlast =>
    have hle : k ≤ j := by
      by_contra hgt
      exact hlast k (by omega) hk hfed
    exact hmono hle

theorem LastFed.start_le (h : LastFed fed reading start n r) (hmono : Monotone reading)
    (hstart : start ≤ reading 0) : start ≤ r := by
  cases h with
  | start _ => exact le_rfl
  | feeding k _ _ _ => exact hstart.trans (hmono (Nat.zero_le k))

end Order

section Limit
variable [Sub T] [LT T]

def Overdue (fed : ℕ → Prop) (reading : ℕ → T) (start limit : T) (n : ℕ) : Prop :=
  ¬ fed n ∧ ∃ r, LastFed fed reading start n r ∧ limit < reading n - r

def FirstOverdue (fed : ℕ → Prop) (reading : ℕ → T) (start limit : T) (n : ℕ) : Prop :=
  Overdue fed reading start limit n ∧ ∀ k < n, ¬ Overdue fed reading start limit k

theorem overdue_iff {limit : T} (h : LastFed fed reading start n r) :
    Overdue fed reading start limit n ↔ ¬ fed n ∧ limit < reading n - r := by
  constructor
  · rintro ⟨hmissed, r', hr', hlt⟩
    rw [h.unique hr']
    exact ⟨hmissed, hlt⟩
  · rintro ⟨hmissed, hlt⟩
    exact ⟨hmissed, r, h, hlt⟩

end Limit

def Spanned [Sub T] [LE T] (fed : ℕ → Prop) (reading : ℕ → T) (start limit : T) (n : ℕ) : Prop :=
  reading n - start ≤ limit ∨ ∃ k < n, fed k ∧ reading n - reading k ≤ limit

theorem Spanned.not_overdue [Sub T] [Preorder T] {limit : T}
    (hsub : ∀ a b c : T, b ≤ c → a - c ≤ a - b) (h : Spanned fed reading start limit n)
    (hmono : Monotone reading) (hstart : start ≤ reading 0) :
    ¬ Overdue fed reading start limit n := by
  rintro ⟨-, r, hr, hlt⟩
  rcases h with hspan | ⟨k, hk, hfed, hspan⟩
  · have hle : reading n - r ≤ reading n - start := hsub _ _ _ (hr.start_le hmono hstart)
    exact (hlt.trans_le (hle.trans hspan)).false
  · have hle : reading n - r ≤ reading n - reading k :=
      hsub _ _ _ (hr.feeding_le hmono hk hfed)
    exact (hlt.trans_le (hle.trans hspan)).false

end Watchdog
