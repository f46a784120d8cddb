import Mathlib.Algebra.Order.Group.Defs
import Mathlib.Algebra.Order.Sub.Defs
import Mathlib.Algebra.Order.Group.Unbundled.Basic
import Mathlib.Data.List.Basic

set_option autoImplicit false

/-!
# Admission by a sliding window

A log of admitted stamps, oldest first, on any ordered group of instants. Each stamp was admitted
because fewer than `n` earlier ones lay in the window that ends at it; then no window of the same
length, wherever it ends, holds more than `n` of them.
-/
namespace SlidingWindow
variable {T : Type*} [AddCommGroup T] [LinearOrder T] [IsOrderedAddMonoid T]

/-- The stamps that lie less than `w` before `t`, or after it. -/
def since (w t : T) (stamps : List T) : List T := stamps.filter (fun x => t - w < x)

/-- The stamps in `(t - w, t]`. -/
def window (w t : T) (stamps : List T) : List T := stamps.filter (fun x => t - w < x ∧ x ≤ t)

inductive Admitted (n : ℕ) (w : T) : List T → Prop
  | nil : Admitted n w []
  | accept {stamps : List T} {t : T} (h : Admitted n w stamps)
      (free : (since w t stamps).length < n) : Admitted n w (stamps ++ [t])

section Windows
variable {w t u : T} {stamps : List T}

omit [IsOrderedAddMonoid T] in
theorem since_append (stamps' : List T) :
    since w t (stamps ++ stamps') = since w t stamps ++ since w t stamps' := List.filter_append ..

/-- Forgetting what has left one window loses nothing that a later window looks at. -/
theorem since_since (h : t ≤ u) : since w u (since w t stamps) = since w u stamps := by
  unfold since
  rw [List.filter_filter]
  apply List.filter_congr
  intro x _
  have hle : t - w ≤ u - w := sub_le_sub_right h w
  by_cases hx : u - w < x
  · simp [hx, lt_of_le_of_lt hle hx]
  · simp [hx]

theorem window_le_since (h : u ≤ t) : (window w t stamps).length ≤ (since w u stamps).length := by
  apply List.Sublist.length_le
  apply List.monotone_filter_right
  intro x hx
  have hboth : t - w < x ∧ x ≤ t := of_decide_eq_true hx
  exact decide_eq_true (lt_of_le_of_lt (sub_le_sub_right h w) hboth.1)

theorem Admitted.bound {n : ℕ} (h : Admitted n w stamps) (t : T) :
    (window w t stamps).length ≤ n := by
  induction h with
  | nil => exact Nat.zero_le n
  | @accept stamps u h free ih =>
    have hsplit : window w t (stamps ++ [u]) = window w t stamps ++ window w t [u] :=
      List.filter_append ..
    rw [hsplit, List.length_append]
    by_cases hu : u ≤ t
    · -- The window holds the new stamp, so the older ones in it counted when it was admitted.
      have hold : (window w t stamps).length ≤ (since w u stamps).length := window_le_since hu
      have hone : (window w t [u]).length ≤ 1 := List.length_filter_le ..
      omega
    · have hnone : window w t [u] = [] := by simp [window, hu]
      rw [hnone, List.length_nil]
      omega

end Windows
end SlidingWindow
