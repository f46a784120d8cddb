import Mathlib.Data.List.Basic
import Mathlib.Data.List.Nodup

set_option autoImplicit false

namespace Slices
variable {α : Type*}

def count (n length : ℕ) : ℕ := (length + n - 1) / n

/-- `range(0, length, n)`. -/
def starts (n length : ℕ) : List ℕ := (List.range (count n length)).map (fun k => n * k)

/-- `xs[start : start + n]`. -/
def slice (n : ℕ) (xs : List α) (start : ℕ) : List α := (xs.drop start).take n

variable {n : ℕ} {xs : List α}

theorem length_slice_le (start : ℕ) : (slice n xs start).length ≤ n := List.length_take_le ..

theorem getElem?_slice {i : ℕ} (start : ℕ) (hi : i < n) :
    (slice n xs start)[i]? = xs[start + i]? := by
  unfold slice
  rw [List.getElem?_take_of_lt hi, List.getElem?_drop]

theorem mul_lt_of_lt_count {k length : ℕ} (hk : k < count n length) : n * k < length := by
  unfold count at hk
  have hn : 0 < n := by
    by_contra hzero
    have heq : n = 0 := by omega
    rw [heq, Nat.div_zero] at hk
    omega
  have hle : (k + 1) * n ≤ length + n - 1 := (Nat.le_div_iff_mul_le hn).mp hk
  rw [Nat.add_mul, Nat.mul_comm k n] at hle
  omega

theorem lt_count_of_mul_lt {k length : ℕ} (hn : 0 < n) (hk : n * k < length) :
    k < count n length := by
  have hle : (k + 1) * n ≤ length + n - 1 := by
    rw [Nat.add_mul, Nat.mul_comm k n]
    omega
  exact (Nat.le_div_iff_mul_le hn).mpr hle

theorem slice_ne_nil {k : ℕ} (hk : k < count n xs.length) : slice n xs (n * k) ≠ [] := by
  have hlt : n * k < xs.length := mul_lt_of_lt_count hk
  have hn : 0 < n := by
    by_contra hzero
    have heq : n = 0 := by omega
    simp [count, heq] at hk
  intro hnil
  have hlength := congrArg List.length hnil
  rw [slice, List.length_take, List.length_drop, List.length_nil] at hlength
  omega

theorem flatten_slices (m : ℕ) :
    ((List.range m).map (fun k => slice n xs (n * k))).flatten = xs.take (n * m) := by
  induction m with
  | zero => simp
  | succ m ih =>
    rw [List.range_succ, List.map_append, List.flatten_append, ih, List.map_singleton,
      List.flatten_singleton, Nat.mul_succ, List.take_add]
    rfl

/-- The slices, one after the other, are the list. -/
theorem flatten_starts (hn : 0 < n) :
    ((starts n xs.length).map (slice n xs)).flatten = xs := by
  have hcover : xs.length ≤ n * count n xs.length := by
    by_contra hlt
    have hmore : count n xs.length < count n xs.length := lt_count_of_mul_lt hn (by omega)
    omega
  unfold starts
  rw [List.map_map]
  exact (flatten_slices _).trans (List.take_of_length_le hcover)

end Slices
