import Mathlib.Data.List.Nodup
import Hefest.Lib.Ranking

set_option autoImplicit false

/-!
# Pages of an order with ties

A sort by a key that does not tell all rows apart allows several orders of the rows, and every page
may be cut from another one. The pages put the rows together again, whatever the orders, exactly if
no tie reaches across the end of a page.
-/
namespace Ranking
variable {α Key : Type*} (le : α → α → Prop)

/-- An order of the rows that the sort allows: ties stand in any order. -/
structure Ordered (rows l : List α) : Prop where
  perm : l.Perm rows
  sorted : l.Pairwise le

def pages (orders : ℕ → List α) (limit n : ℕ) : List α :=
  (List.range n).flatMap fun k => ((orders k).drop (k * limit)).take limit

def NoTieAt (l : List α) (b : ℕ) : Prop :=
  ∀ x y, l[b - 1]? = some x → l[b]? = some y → ¬ le y x

theorem pages_succ (orders : ℕ → List α) (limit n : ℕ) :
    pages orders limit (n + 1) =
      pages orders limit n ++ ((orders n).drop (n * limit)).take limit := by
  unfold pages
  rw [List.range_succ, List.flatMap_append, List.flatMap_singleton]

theorem ordered_insertionSort [DecidableRel le] [Std.Total le] [IsTrans α le] (rows : List α) :
    Ordered le rows (rows.insertionSort le) :=
  ⟨List.perm_insertionSort le rows, List.pairwise_insertionSort le rows⟩

section Prefixes
variable {le} {rows l l' : List α} {orders : ℕ → List α} {limit : ℕ}

theorem filter_le_eq_take [DecidableRel le] [IsTrans α le] (hsorted : l.Pairwise le) (x : α) :
    l.filter (fun z => le z x) = l.take (l.countP fun z => le z x) := by
  induction l with
  | nil => rfl
  | cons a t ih =>
    obtain ⟨hleast, htail⟩ := List.pairwise_cons.mp hsorted
    by_cases ha : le a x
    · rw [List.filter_cons_of_pos (by simpa using ha), List.countP_cons_of_pos (by simpa using ha),
        List.take_succ_cons, ih htail]
    · have hnone : ∀ z ∈ t, ¬ le z x := by
        intro z hz hzx
        exact ha (Trans.trans (hleast z hz) hzx)
      have hcount : t.countP (fun z => le z x) = 0 := by
        rw [List.countP_eq_zero]
        simpa using hnone
      rw [List.filter_cons_of_neg (by simpa using ha), List.countP_cons_of_neg (by simpa using ha),
        ih htail, hcount]
      rfl

/-- Where no tie reaches across, the elements before the place are those up to the last of them. -/
theorem countP_of_noTie [DecidableRel le] [Std.Refl le] [IsTrans α le] (hsorted : l.Pairwise le)
    {b : ℕ} {x y : α} (hx : l[b]? = some x) (hy : l[b + 1]? = some y) (hxy : ¬ le y x) :
    l.countP (fun z => le z x) = b + 1 := by
  obtain ⟨hb, hxb⟩ := List.getElem?_eq_some_iff.mp hx
  obtain ⟨hb', hyb⟩ := List.getElem?_eq_some_iff.mp hy
  have horder := List.pairwise_iff_getElem.mp hsorted
  have hbefore : (l.take (b + 1)).countP (fun z => le z x) = b + 1 := by
    have hall : ∀ z ∈ l.take (b + 1), le z x := by
      intro z hz
      obtain ⟨i, hi, rfl⟩ := List.mem_iff_getElem.mp hz
      rw [List.length_take] at hi
      rw [List.getElem_take, ← hxb]
      rcases Nat.lt_or_ge i b with hlt | hge
      · exact horder i b (by omega) hb hlt
      · have heq : i = b := by omega
        subst heq
        exact Std.Refl.refl _
    rw [List.countP_eq_length.mpr (by simpa using hall), List.length_take]
    omega
  have hafter : (l.drop (b + 1)).countP (fun z => le z x) = 0 := by
    rw [List.countP_eq_zero]
    intro z hz hzx
    obtain ⟨i, hi, rfl⟩ := List.mem_iff_getElem.mp hz
    rw [List.length_drop] at hi
    rw [List.getElem_drop, decide_eq_true_iff] at hzx
    apply hxy
    cases i with
    | zero =>
      rw [← hyb]
      exact hzx
    | succ i =>
      rw [← hyb]
      exact Trans.trans (horder (b + 1) (b + 1 + (i + 1)) hb' (by omega) (by omega)) hzx
  have hsplit : (l.take (b + 1) ++ l.drop (b + 1)).countP (fun z => le z x) = b + 1 := by
    rw [List.countP_append, hbefore, hafter]
  rwa [List.take_append_drop] at hsplit

theorem Ordered.take_perm [DecidableRel le] [Std.Refl le] [IsTrans α le] (h : Ordered le rows l)
    (h' : Ordered le rows l') {b : ℕ} (htie : NoTieAt le l (b + 1)) :
    (l.take (b + 1)).Perm (l'.take (b + 1)) := by
  have hperm : l.Perm l' := h.perm.trans h'.perm.symm
  by_cases hb : b + 1 < l.length
  · have hx : l[b]? = some l[b] := List.getElem?_eq_getElem (by omega)
    have hy : l[b + 1]? = some l[b + 1] := List.getElem?_eq_getElem hb
    have hcount := countP_of_noTie h.sorted hx hy (htie _ _ hx hy)
    have hcount' : l'.countP (fun z => le z l[b]) = b + 1 := by rw [← hperm.countP_eq, hcount]
    have hfilter := filter_le_eq_take h.sorted l[b]
    have hfilter' := filter_le_eq_take h'.sorted l[b]
    rw [hcount] at hfilter
    rw [hcount'] at hfilter'
    rw [← hfilter, ← hfilter']
    exact hperm.filter _
  · rw [List.take_of_length_le (by omega), List.take_of_length_le (by rw [← hperm.length_eq]; omega)]
    exact hperm

/-- Where no tie reaches across the end of a page, the first pages hold the first rows. -/
theorem pages_perm [DecidableRel le] [Std.Refl le] [IsTrans α le] (h : Ordered le rows l)
    (horders : ∀ k, Ordered le rows (orders k)) (hlimit : 1 ≤ limit)
    (htie : ∀ k, NoTieAt le l ((k + 1) * limit)) (n : ℕ) :
    (pages orders limit n).Perm (l.take (n * limit)) := by
  have hsame : ∀ k, (l.take (k * limit)).Perm ((orders k).take (k * limit)) ∧
      (l.take ((k + 1) * limit)).Perm ((orders k).take ((k + 1) * limit)) := by
    have hcut : ∀ k j, (l.take ((k + 1) * limit)).Perm ((orders j).take ((k + 1) * limit)) := by
      intro k j
      have hpos : 1 ≤ (k + 1) * limit := Nat.mul_pos (Nat.succ_pos k) hlimit
      have htiek := htie k
      obtain ⟨b, hb⟩ := Nat.exists_eq_add_of_le' hpos
      rw [hb] at htiek ⊢
      exact h.take_perm (horders j) htiek
    intro k
    refine ⟨?_, hcut k k⟩
    cases k with
    | zero => simp
    | succ k => exact hcut k (k + 1)
  induction n with
  | zero => simp [pages]
  | succ n ih =>
    obtain ⟨hbefore, hafter⟩ := hsame n
    rw [pages_succ]
    refine List.Perm.trans ?_ hafter.symm
    rw [Nat.succ_mul, List.take_add]
    exact (ih.trans hbefore).append_right _

theorem Ordered.swap (h : Ordered le rows l) {b : ℕ} {x y : α} (hx : l[b]? = some x)
    (hy : l[b + 1]? = some y) (hxy : le y x) :
    Ordered le rows (l.take b ++ y :: x :: l.drop (b + 2)) := by
  obtain ⟨hb, hxb⟩ := List.getElem?_eq_some_iff.mp hx
  obtain ⟨hb', hyb⟩ := List.getElem?_eq_some_iff.mp hy
  have hsplit : l = l.take b ++ x :: y :: l.drop (b + 2) := by
    rw [← hxb, ← hyb, List.getElem_cons_drop, List.getElem_cons_drop, List.take_append_drop]
  have hsorted := h.sorted
  have hperm := h.perm
  rw [hsplit] at hsorted hperm
  refine ⟨?_, ?_⟩
  · exact (List.Perm.append_left _ (List.Perm.swap x y _)).trans hperm
  · rw [List.pairwise_append, List.pairwise_cons, List.pairwise_cons] at hsorted ⊢
    obtain ⟨hfirst, ⟨hx', hy', hrest⟩, hcross⟩ := hsorted
    refine ⟨hfirst, ⟨?_, ?_, hrest⟩, ?_⟩
    · intro z hz
      rcases List.mem_cons.mp hz with rfl | hz
      · exact hxy
      · exact hy' z hz
    · intro z hz
      exact hx' z (List.mem_cons_of_mem y hz)
    · intro a ha z hz
      exact hcross a ha z (by simpa [or_left_comm] using hz)

/-- A tie across the end of a page puts some row on two pages. -/
theorem pages_repeat (key : α → Key) (h : Ordered le rows l) (hlimit : 1 ≤ limit) {k : ℕ}
    (htie : ¬ NoTieAt le l ((k + 1) * limit)) :
    ∃ orders : ℕ → List α, (∀ j, Ordered le rows (orders j)) ∧
      ∀ n, rows.length ≤ n * limit → ¬ ((pages orders limit n).map key).Nodup := by
  simp only [NoTieAt, not_forall, not_not] at htie
  obtain ⟨x, y, hx, hy, hxy⟩ := htie
  have hpos : 1 ≤ (k + 1) * limit := Nat.mul_pos (Nat.succ_pos k) hlimit
  obtain ⟨b, hb⟩ := Nat.exists_eq_add_of_le' hpos
  rw [hb] at hx hy
  have hx : l[b]? = some x := hx
  have hswap := h.swap hx hy hxy
  have hlast : b < l.length := (List.getElem?_eq_some_iff.mp hx).1
  have hnext : b + 1 < l.length := (List.getElem?_eq_some_iff.mp hy).1
  refine ⟨fun j => if j ≤ k then l else l.take b ++ y :: x :: l.drop (b + 2), ?_, ?_⟩
  · intro j
    dsimp only
    split_ifs
    · exact h
    · exact hswap
  · intro n hn hnodup
    have hmore : k + 1 < n := by
      rw [← h.perm.length_eq] at hn
      have hlt : (k + 1) * limit < n * limit := by omega
      exact Nat.lt_of_mul_lt_mul_right hlt
    rw [pages, List.map_flatMap, List.nodup_flatMap] at hnodup
    have hapart := List.pairwise_iff_getElem.mp hnodup.2 k (k + 1) (by simp; omega) (by simpa)
      (by omega)
    simp only [List.getElem_range, Function.onFun, le_refl, if_true, Nat.not_succ_le_self,
      if_false] at hapart
    have hmul : (k + 1) * limit = k * limit + limit := Nat.succ_mul k limit
    apply hapart (a := key x)
    · -- the last row of page `k`
      apply List.mem_map_of_mem
      rw [List.mem_iff_getElem?]
      refine ⟨limit - 1, ?_⟩
      rw [List.getElem?_take_of_lt (by omega), List.getElem?_drop]
      rw [← hx]
      congr 1
      omega
    · -- the first row of the next one, cut from the other order
      apply List.mem_map_of_mem
      rw [List.mem_iff_getElem?]
      refine ⟨0, ?_⟩
      rw [List.getElem?_take_of_lt (by omega), List.getElem?_drop, hb, Nat.add_zero,
        List.getElem?_append_right (by simp), List.length_take, Nat.min_eq_left (by omega)]
      simp

/-- The pages give every row once, whatever the orders they are cut from, exactly if no tie reaches
    across the end of a page. -/
theorem pages_exact_iff [DecidableRel le] [Std.Refl le] [IsTrans α le] {key : α → Key}
    (hkey : (rows.map key).Nodup) (h : Ordered le rows l) (hlimit : 1 ≤ limit) :
    (∀ orders : ℕ → List α, (∀ k, Ordered le rows (orders k)) →
      ∀ n, rows.length ≤ n * limit → ((pages orders limit n).map key).Perm (rows.map key)) ↔
      ∀ k, NoTieAt le l ((k + 1) * limit) := by
  constructor
  · intro hexact k
    by_contra htie
    obtain ⟨orders, horders, hrepeat⟩ := pages_repeat key h hlimit htie
    have hlength : rows.length ≤ rows.length * limit := Nat.le_mul_of_pos_right _ hlimit
    apply hrepeat rows.length hlength
    exact (hexact orders horders _ hlength).nodup_iff.mpr hkey
  · intro htie orders horders n hn
    apply List.Perm.map
    have hpages := pages_perm h horders hlimit htie n
    rw [List.take_of_length_le (by rw [h.perm.length_eq]; exact hn)] at hpages
    exact hpages.trans h.perm

end Prefixes
end Ranking
