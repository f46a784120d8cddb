import Hefest.Lib.Transition

set_option autoImplicit false

/-!
# Runs of a machine made of parts

For total machines, the step that is to blame: what holds at one point of a run and not at a later
one is ended by a step in between, and what is there at a point was there before or is made by a
step in between. Two rules for partial machines. Purging: when the actions of
others leave alone what a party can see, its observations are those of the run in which only its own
actions are taken. Projection: a part of the state that every step either leaves alone or moves as a
machine of its own runs as that machine.
-/
namespace Transition
variable {S A O : Type*}

theorem exists_leave (f : A → S → S) (P : S → Prop) (s : S) (as : List A) {n m : ℕ} (hnm : n ≤ m)
    (hn : P (after f s (as.take n))) (hm : ¬ P (after f s (as.take m))) :
    ∃ k a, n ≤ k ∧ k < m ∧ as[k]? = some a ∧ P (after f s (as.take k)) ∧
      ¬ P (f a (after f s (as.take k))) := by
  induction hnm with
  | refl => exact absurd hn hm
  | @step m hnm ih =>
    by_cases hlast : P (after f s (as.take m))
    · cases ha : as[m]? with
      | none =>
        have hlen : as.length ≤ m := List.getElem?_eq_none_iff.mp ha
        rw [Nat.succ_eq_add_one, List.take_of_length_le (by omega)] at hm
        rw [List.take_of_length_le hlen] at hlast
        exact absurd hlast hm
      | some a =>
        rw [Nat.succ_eq_add_one, after_take_succ f s as m a ha] at hm
        exact ⟨m, a, hnm, Nat.lt_succ_self m, ha, hlast, hm⟩
    · obtain ⟨k, a, hk, hkm, ha, hbefore, hafter⟩ := ih hlast
      exact ⟨k, a, hk, Nat.lt_succ_of_lt hkm, ha, hbefore, hafter⟩

/-- The origin rule. `H s x` says that `x` is there in `s`, `L x y` that `x` has become `y`, and
    `E s a y` that the action makes `y` anew. What is there at the end has been there all
    along, or an action in between has made it and it has been there ever since. -/
theorem exists_origin {X : Type*} (f : A → S → S) (s : S) (as : List A) {H : S → X → Prop}
    {L : X → X → Prop} {E : S → A → X → Prop} (refl : ∀ x, L x x)
    (trans : ∀ x y z, L x y → L y z → L x z) (lift : ∀ u a x y, L x y → E u a x → E u a y)
    (hstep : ∀ k a y, as[k]? = some a → H (after f s (as.take (k + 1))) y →
      (∃ x, H (after f s (as.take k)) x ∧ L x y) ∨ E (after f s (as.take k)) a y)
    {n m : ℕ} (hnm : n ≤ m) {y : X} (hy : H (after f s (as.take m)) y) :
    (∀ j, n ≤ j → j ≤ m → ∃ x, H (after f s (as.take j)) x ∧ L x y) ∨
      ∃ k a, n ≤ k ∧ k < m ∧ as[k]? = some a ∧ E (after f s (as.take k)) a y ∧
        ∀ j, k < j → j ≤ m → ∃ x, H (after f s (as.take j)) x ∧ L x y := by
  induction hnm generalizing y with
  | refl =>
    left
    intro j hj hjm
    obtain rfl : j = n := by omega
    exact ⟨y, hy, refl y⟩
  | @step m hnm ih =>
    have hbefore : (∃ x, H (after f s (as.take m)) x ∧ L x y) ∨
        ∃ a, as[m]? = some a ∧ E (after f s (as.take m)) a y := by
      cases ha : as[m]? with
      | none =>
        have hlen : as.length ≤ m := List.getElem?_eq_none_iff.mp ha
        rw [Nat.succ_eq_add_one, List.take_of_length_le (by omega)] at hy
        rw [List.take_of_length_le hlen]
        exact .inl ⟨y, hy, refl y⟩
      | some a =>
        rcases hstep m a y ha hy with hkept | hmade
        · exact .inl hkept
        · exact .inr ⟨a, rfl, hmade⟩
    -- up to `m` by the induction, at the end by `hy`
    have hupTo : ∀ {l : ℕ} {x : X}, L x y →
        (∀ j, l ≤ j → j ≤ m → ∃ w, H (after f s (as.take j)) w ∧ L w x) →
        ∀ j, l ≤ j → j ≤ m.succ → ∃ w, H (after f s (as.take j)) w ∧ L w y := by
      intro l x hxy hsince j hlj hj
      rcases Nat.lt_or_ge m j with hlast | hj
      · obtain rfl : j = m + 1 := by omega
        exact ⟨y, hy, refl y⟩
      · obtain ⟨w, hw, hwx⟩ := hsince j hlj hj
        exact ⟨w, hw, trans w x y hwx hxy⟩
    rcases hbefore with ⟨x, hx, hxy⟩ | ⟨a, ha, hmade⟩
    · rcases ih hx with halong | ⟨k, a, hk, hkm, ha, hmade, hsince⟩
      · exact .inl (hupTo hxy halong)
      · exact .inr ⟨k, a, hk, Nat.lt_succ_of_lt hkm, ha, lift _ a x y hxy hmade, hupTo hxy hsince⟩
    · refine .inr ⟨m, a, hnm, Nat.lt_succ_self m, ha, hmade, ?_⟩
      intro j hmj hj
      obtain rfl : j = m + 1 := by omega
      exact ⟨y, hy, refl y⟩

/-- `sim s s'` relates a state of the full run to one of the purged run. `native` says which actions
    are the party's own, `own` which observations. -/
structure Unwinding (step : S → A → Option (S × List O)) (native : A → Bool) (own : O → Bool)
    (sim : S → S → Prop) : Prop where
  foreign : ∀ s s' a t os, sim s s' → native a = false → step s a = some (t, os) →
    sim t s' ∧ os.filter own = []
  native : ∀ s s' a t os, sim s s' → native a = true → step s a = some (t, os) →
    ∃ t', step s' a = some (t', os) ∧ sim t t' ∧ os.filter own = os

section Purging
variable {step : S → A → Option (S × List O)} {native : A → Bool} {own : O → Bool}
  {sim : S → S → Prop}

/-- The purging rule. -/
theorem Unwinding.purge (h : Unwinding step native own sim) {s s' t : S} {as : List A} {tr : List O}
    (hsim : sim s s') (hrun : execute step s as = some (t, tr)) :
    ∃ t', execute step s' (as.filter native) = some (t', tr.filter own) ∧ sim t t' := by
  induction as generalizing s s' tr with
  | nil =>
    cases hrun
    exact ⟨s', rfl, hsim⟩
  | cons a as ih =>
    simp only [execute] at hrun
    split at hrun
    · cases hrun
    · rename_i v os hv
      split at hrun
      · cases hrun
      · rename_i w tr' hw
        cases hrun
        cases ha : native a with
        | false =>
          obtain ⟨hv', hos⟩ := h.foreign s s' a v os hsim ha hv
          obtain ⟨t', ht', hlast⟩ := ih hv' hw
          refine ⟨t', ?_, hlast⟩
          rw [List.filter_cons_of_neg (by simp [ha]), List.filter_append, hos, List.nil_append]
          exact ht'
        | true =>
          obtain ⟨v', hstep, hv', hos⟩ := h.native s s' a v os hsim ha hv
          obtain ⟨t', ht', hlast⟩ := ih hv' hw
          refine ⟨t', ?_, hlast⟩
          rw [List.filter_cons_of_pos ha, List.filter_append, hos]
          simp only [execute, hstep, ht']

end Purging

section Projection
variable {T B P : Type*} {step : S → A → Option (S × List O)} {part : T → B → Option (T × List P)}

/-- The projection rule. -/
theorem Run.project (view : S → T) (seen : O → Option P) (I : S → Prop) {s t : S} {tr : List O}
    (h : Run step s tr t) (h0 : I s)
    (hstep : ∀ u a v os, I u → step u a = some (v, os) → I v ∧
      ((view v = view u ∧ os.filterMap seen = []) ∨
        ∃ b, part (view u) b = some (view v, os.filterMap seen))) :
    I t ∧ Run part (view s) (tr.filterMap seen) (view t) := by
  induction h with
  | start => exact ⟨h0, .start⟩
  | @next tr os t u a _ hs ih =>
    obtain ⟨hI, hrun⟩ := ih
    obtain ⟨hnext, hmoved⟩ := hstep t a u os hI hs
    refine ⟨hnext, ?_⟩
    rw [List.filterMap_append]
    rcases hmoved with ⟨hview, hos⟩ | ⟨b, hb⟩
    · rw [hos, List.append_nil, hview]
      exact hrun
    · exact .next hrun hb

end Projection
end Transition
