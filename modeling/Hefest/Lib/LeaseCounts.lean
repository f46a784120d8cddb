import Mathlib.Data.List.Perm.Subperm
import Hefest.Lib.Lease

set_option autoImplicit false

namespace Lease

section Counting
variable {Worker Stage Note Result : Type} [DecidableEq Note]

def Event.isNote (x : Note) : Event Worker Note Result → Bool
  | .noted _ _ y => y = x
  | _ => false

def Event.notedUnder? (x : Note) : Event Worker Note Result → Option ℕ
  | .noted _ n y => if y = x then some n else none
  | _ => none

def Event.reclaim? : Event Worker Note Result → Option ℕ
  | .reclaimed n => some n
  | _ => none

def Event.isReclaim (e : Event Worker Note Result) : Bool := e.reclaim?.isSome

def notedUnder (x : Note) (tr : List (Event Worker Note Result)) : List ℕ :=
  tr.filterMap (Event.notedUnder? x)

variable {tr : List (Event Worker Note Result)} {x : Note}

theorem length_notedUnder : (notedUnder x tr).length = tr.countP (Event.isNote x) := by
  unfold notedUnder
  rw [List.length_filterMap_eq_countP]
  apply List.countP_congr
  intro e _
  cases e with
  | noted w n y => by_cases hy : y = x <;> simp [Event.notedUnder?, Event.isNote, hy]
  | _ => simp [Event.notedUnder?, Event.isNote]

theorem count_notedUnder (n : ℕ) :
    (notedUnder x tr).count n = ((notes n tr).map Prod.snd).count x := by
  induction tr with
  | nil => rfl
  | cons e tr ih =>
    unfold notedUnder notes at ih ⊢
    cases e with
    | noted w m y =>
      by_cases hm : m = n <;> by_cases hy : y = x <;>
        simp [Event.notedUnder?, Event.note?, hm, hy, ih]
    | _ => exact ih

theorem mem_notedUnder {n : ℕ} : n ∈ notedUnder x tr ↔ ∃ w, .noted w n x ∈ tr := by
  unfold notedUnder
  rw [List.mem_filterMap]
  constructor
  · rintro ⟨e, he, hn⟩
    cases e with
    | noted w m y =>
      simp only [Event.notedUnder?] at hn
      split_ifs at hn with hy
      cases hn
      exact ⟨w, hy ▸ he⟩
    | _ => cases hn
  · rintro ⟨w, he⟩
    exact ⟨_, he, by simp [Event.notedUnder?]⟩

variable {S : State Worker Stage Result} {M : Work Stage Note Result}

theorem Told.notedUnder_nodup (h : Told M tr S)
    (once : ∀ n xs s, M.Does n xs s → xs.count x ≤ 1) : (notedUnder x tr).Nodup := by
  rw [List.nodup_iff_count_le_one]
  intro n
  obtain ⟨xs, s, hxs, hdoes⟩ := h.past n
  rw [count_notedUnder, hxs]
  exact once n xs s hdoes

variable [DecidableEq Worker]

omit [DecidableEq Note] in
theorem Runs.noted_claimed (h : Runs M .empty tr S) {w : Worker} {n : ℕ}
    (hmem : .noted w n x ∈ tr) : n ∈ claims tr := by
  induction h with
  | start => cases hmem
  | @next tr T U e tail hs ih =>
    rw [claims_append]
    apply List.mem_append_left
    rcases List.mem_append.mp hmem with hold | hnew
    · exact ih hold
    · rw [Option.mem_toList] at hnew
      cases hs with
      | @work v m s s' y task move =>
        cases y with
        | none => cases hnew
        | some y =>
          cases hnew
          cases hrow : T.row with
          | none =>
            rw [tail.sound.absent hrow] at task
            cases task
          | some row =>
            have hupto := tail.sound.upto row w n s hrow task
            rw [tail.counted.claims row hrow, List.mem_range'_1]
            omega
      | _ => cases hnew

theorem Runs.notes_le_claims (h : Runs M .empty tr S)
    (once : ∀ n xs s, M.Does n xs s → xs.count x ≤ 1) :
    tr.countP (Event.isNote x) ≤ (claims tr).length := by
  rw [← length_notedUnder]
  apply List.Subperm.length_le
  apply List.subperm_of_subset (h.told.notedUnder_nodup once)
  intro n hn
  obtain ⟨w, hmem⟩ := mem_notedUnder.mp hn
  exact h.noted_claimed hmem

omit [DecidableEq Note] in
theorem Runs.claims_le (h : Runs M .empty tr S) {k : ℕ} (hk : 1 ≤ k)
    (hreclaimed : ∀ n, .reclaimed n ∈ tr → n < k)
    (hreturned : ∀ w n m, .landed w n m none ∈ tr → n < k) : (claims tr).length ≤ k := by
  cases hrow : S.row with
  | none =>
    rw [h.counted.absent hrow]
    exact Nat.zero_le k
  | some row =>
    rw [h.counted.claims row hrow, List.length_range']
    by_cases hone : row.claims ≤ 1
    · omega
    · have hprevious := h.counted.ended row (row.claims - 1) hrow (by omega) (Or.inl (by omega))
      rcases hprevious with hre | ⟨w, hland⟩
      · have hlt := hreclaimed _ hre
        omega
      · have hlt := hreturned _ _ _ hland
        omega

/-- A claim whose work has made the note ends by its write or by a reclaim. -/
theorem Runs.notes_le_reclaims (h : Runs M .empty tr S)
    (once : ∀ n xs s, M.Does n xs s → xs.count x ≤ 1)
    (final : ∀ n xs s, M.Does n xs s → M.finish s = some none → x ∉ xs) :
    tr.countP (Event.isNote x) ≤ 1 + tr.countP Event.isReclaim := by
  have hreclaims : (tr.filterMap Event.reclaim?).length = tr.countP Event.isReclaim :=
    List.length_filterMap_eq_countP
  rw [← length_notedUnder, ← hreclaims, Nat.add_comm]
  cases hrow : S.row with
  | none =>
    rw [h.counted.absent hrow]
    exact Nat.zero_le _
  | some row =>
    have hsubset : notedUnder x tr ⊆ row.claims :: tr.filterMap Event.reclaim? := by
      intro n hn
      obtain ⟨w, hmem⟩ := mem_notedUnder.mp hn
      have hclaimed := h.noted_claimed hmem
      rw [h.counted.claims row hrow, List.mem_range'_1] at hclaimed
      by_cases hlast : n = row.claims
      · rw [hlast]
        exact List.mem_cons_self
      · apply List.mem_cons_of_mem
        rw [List.mem_filterMap]
        rcases h.counted.ended row n hrow hclaimed.1 (Or.inl (by omega)) with hre | ⟨v, hland⟩
        · exact ⟨_, hre, rfl⟩
        · obtain ⟨_, xs, s, hxs, hdoes, hfinish⟩ := h.told.landed v n n none hland
          have hnoted : (w, x) ∈ notes n tr :=
            List.mem_filterMap.mpr ⟨_, hmem, by simp [Event.note?]⟩
          rw [hxs] at hnoted
          obtain ⟨y, hy, heq⟩ := List.mem_map.mp hnoted
          cases heq
          exact absurd hy (final n xs s hdoes hfinish)
    exact (List.subperm_of_subset (h.told.notedUnder_nodup once) hsubset).length_le

end Counting
end Lease
