import Mathlib.Data.List.Sort

set_option autoImplicit false

namespace Ranking
variable {α : Type*} (le : α → α → Prop) [DecidableRel le]

def rank (t : List α) (x : α) : ℕ := t.countP (fun y => le y x)

def Separates (t : List α) : Prop := ∀ x ∈ t, ∀ y ∈ t, le x y → le y x → x = y

section Rank
variable {le} {t u : List α}

theorem rank_perm (h : t.Perm u) (x : α) : rank le t x = rank le u x := h.countP_eq _

omit [DecidableRel le] in
theorem Separates.perm (h : Separates le t) (hp : t.Perm u) : Separates le u := by
  intro x hx y hy
  exact h x (hp.mem_iff.mpr hx) y (hp.mem_iff.mpr hy)

/-- Everybody is counted exactly if nobody comes later. -/
theorem rank_eq_length_iff {x : α} : rank le t x = t.length ↔ ∀ y ∈ t, le y x := by
  simp only [rank, List.countP_eq_length, decide_eq_true_eq]

theorem rank_concat_self [Std.Refl le] (x : α) : rank le (t ++ [x]) x = rank le t x + 1 := by
  unfold rank
  rw [List.countP_append, List.countP_singleton, if_pos (decide_eq_true (Std.Refl.refl x))]

theorem rank_cons_of_le {a x : α} (h : le a x) : rank le (a :: t) x = rank le t x + 1 :=
  List.countP_cons_of_pos (by simpa using h)

theorem rank_head [Std.Refl le] {a : α} (hleast : ∀ x ∈ t, le a x) (hnd : a ∉ t)
    (hsep : Separates le (a :: t)) : rank le (a :: t) a = 1 := by
  rw [rank_cons_of_le (Std.Refl.refl a)]
  have hzero : rank le t a = 0 := by
    unfold rank
    rw [List.countP_eq_zero]
    intro x hx hle
    have heq := hsep x (List.mem_cons_of_mem a hx) a List.mem_cons_self (of_decide_eq_true hle)
      (hleast x hx)
    rw [heq] at hx
    exact hnd hx
  omega

theorem map_rank_of_pairwise [Std.Refl le] (hsorted : t.Pairwise le) (hnd : t.Nodup)
    (hsep : Separates le t) : t.map (rank le t) = List.range' 1 t.length := by
  induction t with
  | nil => rfl
  | cons a t ih =>
    obtain ⟨hleast, htail⟩ := List.pairwise_cons.mp hsorted
    obtain ⟨hfresh, hnd'⟩ := List.nodup_cons.mp hnd
    have hsep' : Separates le t := fun x hx y hy =>
      hsep x (List.mem_cons_of_mem a hx) y (List.mem_cons_of_mem a hy)
    have hrest : t.map (rank le (a :: t)) = (t.map (rank le t)).map (1 + ·) := by
      rw [List.map_map]
      apply List.map_congr_left
      intro x hx
      change rank le (a :: t) x = 1 + rank le t x
      rw [rank_cons_of_le (hleast x hx)]
      omega
    rw [List.map_cons, rank_head hleast hfresh hsep, hrest, ih htail hnd' hsep',
      List.map_add_range', List.length_cons, List.range'_succ]

theorem map_rank_insertionSort [Std.Total le] [IsTrans α le] (hnd : t.Nodup)
    (hsep : Separates le t) : (t.insertionSort le).map (rank le t) = List.range' 1 t.length := by
  have hperm := List.perm_insertionSort le t
  have hranks := map_rank_of_pairwise (List.pairwise_insertionSort le t)
    (hperm.nodup_iff.mpr hnd) (hsep.perm hperm.symm)
  rw [hperm.length_eq] at hranks
  rw [← hranks]
  apply List.map_congr_left
  intro x _
  exact rank_perm hperm.symm x

end Rank

/-- The first pages of a list, one after the other. -/
theorem flatMap_pages (t : List α) (limit pages : ℕ) :
    (List.range pages).flatMap (fun k => (t.drop (k * limit)).take limit) =
      t.take (pages * limit) := by
  induction pages with
  | zero => simp
  | succ k ih =>
    rw [List.range_succ, List.flatMap_append, ih, List.flatMap_singleton, Nat.succ_mul,
      List.take_add]

end Ranking
