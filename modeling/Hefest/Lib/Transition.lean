import Mathlib.Data.List.Induction

set_option autoImplicit false

/-!
# Runs of state machines

Two kinds of machine. A total one (`A → S → S`) takes every action in every state; its runs are
folds. A partial one (`S → A → Option (S × List O)`) may refuse an action, and each step it takes
emits observations; its runs carry the trace of everything observed.
-/
namespace Transition

section Total
variable {S A : Type*} (f : A → S → S)

def after (s : S) (as : List A) : S := as.foldl (fun t a => f a t) s

@[simp] theorem after_nil (s : S) : after f s [] = s := rfl

@[simp] theorem after_cons (s : S) (a : A) (as : List A) :
    after f s (a :: as) = after f (f a s) as := rfl

theorem after_append (s : S) (as bs : List A) :
    after f s (as ++ bs) = after f (after f s as) bs := List.foldl_append ..

theorem after_concat (s : S) (as : List A) (a : A) :
    after f s (as ++ [a]) = f a (after f s as) := by
  rw [after_append]; rfl

theorem after_take_succ (s : S) (as : List A) (n : ℕ) (a : A) (h : as[n]? = some a) :
    after f s (as.take (n + 1)) = f a (after f s (as.take n)) := by
  rw [List.take_add_one, h]
  exact after_concat f s (as.take n) a

/-- What every allowed action preserves holds after every run of allowed actions. -/
theorem after_invariant (I : S → Prop) (ok : A → Prop) (hstep : ∀ a s, ok a → I s → I (f a s))
    (s : S) (as : List A) (hs : I s) (has : ∀ a ∈ as, ok a) : I (after f s as) := by
  induction as generalizing s with
  | nil => exact hs
  | cons a as ih =>
    exact ih (f a s) (hstep a s (has a (by simp)) hs) (fun b hb => has b (by simp [hb]))

/-- The invariant rule where the condition on an action reads the state the action is taken in. -/
theorem take_invariant (I : S → Prop) (cond : S → A → Prop)
    (hstep : ∀ a s, cond s a → I s → I (f a s)) (s : S) (as : List A) (hs : I s)
    (has : ∀ n a, as[n]? = some a → cond (after f s (as.take n)) a) (n : ℕ) :
    I (after f s (as.take n)) := by
  induction n with
  | zero => simpa using hs
  | succ n ih =>
    cases ha : as[n]? with
    | none =>
      have hn : as.length ≤ n := List.getElem?_eq_none_iff.mp ha
      rw [List.take_of_length_le (by omega)]
      rwa [List.take_of_length_le hn] at ih
    | some a =>
      rw [after_take_succ f s as n a ha]
      exact hstep a _ (has n a ha) ih

theorem take_stable (I : S → Prop) (hstep : ∀ a s, I s → I (f a s)) (s : S) (as : List A) {n m : ℕ}
    (hnm : n ≤ m) (hn : I (after f s (as.take n))) : I (after f s (as.take m)) := by
  obtain ⟨k, rfl⟩ := Nat.exists_eq_add_of_le hnm
  rw [List.take_add, after_append]
  exact after_invariant f I (fun _ => True) (fun a t _ => hstep a t) _ _ hn (fun _ _ => trivial)

theorem exists_step_concat (P : S → S → Prop) (s : S) (as : List A) (a : A) :
    (∃ n < (as ++ [a]).length,
        P (after f s ((as ++ [a]).take n)) (after f s ((as ++ [a]).take (n + 1)))) ↔
      (∃ n < as.length, P (after f s (as.take n)) (after f s (as.take (n + 1)))) ∨
        P (after f s as) (f a (after f s as)) := by
  have hfirst {n : ℕ} (hn : n ≤ as.length) : (as ++ [a]).take n = as.take n :=
    List.take_append_of_le_length hn
  have hlast : after f s ((as ++ [a]).take (as.length + 1)) = f a (after f s as) := by
    rw [List.take_of_length_le (by simp), after_concat]
  rw [List.length_append, List.length_singleton]
  constructor
  · rintro ⟨n, hn, h⟩
    by_cases hlt : n < as.length
    · left
      rw [hfirst (by omega), hfirst (by omega)] at h
      exact ⟨n, hlt, h⟩
    · right
      have heq : n = as.length := by omega
      subst heq
      rwa [hlast, hfirst (Nat.le_refl _), List.take_length] at h
  · rintro (⟨n, hn, h⟩ | h)
    · refine ⟨n, by omega, ?_⟩
      rw [hfirst (by omega), hfirst (by omega)]
      exact h
    · refine ⟨as.length, by omega, ?_⟩
      rw [hlast, hfirst (Nat.le_refl _), List.take_length]
      exact h

def history (s : S) : List A → List S
  | [] => [s]
  | a :: as => s :: history (f a s) as

theorem mem_history_self (s : S) (as : List A) : s ∈ history f s as := by
  cases as <;> simp [history]

theorem mem_history_last (s : S) (as : List A) : after f s as ∈ history f s as := by
  induction as generalizing s with
  | nil => simp [history]
  | cons a as ih => simp [history, ih]

/-- An invariant may use a fact that holds of every state the run goes through. -/
theorem history_invariant (I good : S → Prop)
    (hstep : ∀ a s, good s → good (f a s) → I s → I (f a s)) (s : S) (as : List A) (hs : I s)
    (hgood : ∀ t ∈ history f s as, good t) : I (after f s as) := by
  induction as generalizing s with
  | nil => exact hs
  | cons a as ih =>
    have hnext : good (f a s) := hgood _ (by simp [history, mem_history_self])
    refine ih (f a s) (hstep a s (hgood s (by simp [history])) hnext hs) ?_
    intro t ht
    exact hgood t (by simp [history, ht])

end Total

section Observed
variable {S A O : Type*} (step : S → A → Option (S × List O))

/-- A run of a partial machine together with everything it has emitted, oldest first. -/
inductive Run (s : S) : List O → S → Prop where
  | start : Run s [] s
  | next {tr os : List O} {t u : S} {a : A} (tail : Run s tr t) (h : step t a = some (u, os)) :
      Run s (tr ++ os) u

/-- The run rule: a relation between trace and state that one step preserves. -/
theorem Run.invariant {step : S → A → Option (S × List O)} (I : List O → S → Prop) {s t : S}
    {tr : List O} (h : Run step s tr t) (h0 : I [] s)
    (hstep : ∀ tr t a u os, I tr t → step t a = some (u, os) → I (tr ++ os) u) : I tr t := by
  induction h with
  | start => exact h0
  | next _ hs ih => exact hstep _ _ _ _ _ ih hs

/-- A run in which every step meets a condition. -/
inductive RunIf (cond : S → A → Prop) (s : S) : List O → S → Prop where
  | start : RunIf cond s [] s
  | next {tr os : List O} {t u : S} {a : A} (tail : RunIf cond s tr t) (hc : cond t a)
      (h : step t a = some (u, os)) : RunIf cond s (tr ++ os) u

theorem RunIf.run {step : S → A → Option (S × List O)} {cond : S → A → Prop} {s t : S}
    {tr : List O} (h : RunIf step cond s tr t) : Run step s tr t := by
  induction h with
  | start => exact .start
  | next _ _ hs ih => exact .next ih hs

def execute (s : S) : List A → Option (S × List O)
  | [] => some (s, [])
  | a :: as =>
    match step s a with
    | none => none
    | some (t, os) =>
      match execute t as with
      | none => none
      | some (u, tr) => some (u, os ++ tr)

theorem Run.trans {step : S → A → Option (S × List O)} {s t u : S} {tr tr' : List O}
    (h : Run step s tr t) (h' : Run step t tr' u) : Run step s (tr ++ tr') u := by
  induction h' with
  | start => simpa using h
  | next _ hs ih => rw [← List.append_assoc]; exact .next ih hs

theorem execute_run {step : S → A → Option (S × List O)} {s t : S} {as : List A} {tr : List O}
    (h : execute step s as = some (t, tr)) : Run step s tr t := by
  induction as generalizing s t tr with
  | nil =>
    simp only [execute, Option.some.injEq, Prod.mk.injEq] at h
    obtain ⟨rfl, rfl⟩ := h
    exact .start
  | cons a as ih =>
    simp only [execute] at h
    split at h
    · cases h
    · rename_i v os hv
      split at h
      · cases h
      · rename_i w tr' hw
        simp only [Option.some.injEq, Prod.mk.injEq] at h
        obtain ⟨rfl, rfl⟩ := h
        have hone : Run step s ([] ++ os) v := .next .start hv
        exact Run.trans hone (ih hw)

theorem execute_append {step : S → A → Option (S × List O)} {s u : S} {as bs : List A}
    {tr : List O} (h : execute step s (as ++ bs) = some (u, tr)) :
    ∃ t tr' tr'', execute step s as = some (t, tr') ∧ execute step t bs = some (u, tr'') ∧
      tr = tr' ++ tr'' := by
  induction as generalizing s tr with
  | nil => exact ⟨s, [], tr, rfl, h, rfl⟩
  | cons a as ih =>
    cases hstep : step s a with
    | none => simp [execute, hstep] at h
    | some r =>
      cases hrest : execute step r.1 (as ++ bs) with
      | none => simp [execute, hstep, hrest] at h
      | some q =>
        simp only [List.cons_append, execute, hstep, hrest, Option.some.injEq, Prod.mk.injEq] at h
        obtain ⟨rfl, rfl⟩ := h
        obtain ⟨t, tr', tr'', hbefore, hafter, htr⟩ := ih hrest
        refine ⟨t, r.2 ++ tr', tr'', ?_, hafter, ?_⟩
        · simp only [execute, hstep, hbefore]
        · rw [htr, List.append_assoc]

theorem execute_concat {step : S → A → Option (S × List O)} {s u : S} {as : List A} {a : A}
    {tr : List O} (h : execute step s (as ++ [a]) = some (u, tr)) :
    ∃ t tr' os, execute step s as = some (t, tr') ∧ step t a = some (u, os) ∧ tr = tr' ++ os := by
  obtain ⟨t, tr', tr'', hbefore, hlast, htr⟩ := execute_append h
  cases hstep : step t a with
  | none => simp [execute, hstep] at hlast
  | some r =>
    simp only [execute, hstep, List.append_nil, Option.some.injEq, Prod.mk.injEq] at hlast
    obtain ⟨rfl, rfl⟩ := hlast
    exact ⟨t, tr', r.2, hbefore, hstep, htr⟩

/-- The execution rule: as the run rule, but the relation may read the actions taken. -/
theorem execute_invariant {step : S → A → Option (S × List O)} (I : List A → List O → S → Prop)
    {s t : S} {as : List A} {tr : List O} (h : execute step s as = some (t, tr)) (h0 : I [] [] s)
    (hstep : ∀ as tr t a u os, execute step s as = some (t, tr) → I as tr t →
      step t a = some (u, os) → I (as ++ [a]) (tr ++ os) u) : I as tr t := by
  induction as using List.reverseRecOn generalizing t tr with
  | nil =>
    cases h
    exact h0
  | append_singleton as a ih =>
    obtain ⟨u, tr', os, hbefore, hlast, rfl⟩ := execute_concat h
    exact hstep as tr' u a t os hbefore (ih hbefore) hlast

/-- The termination rule: with a measure that every counted step takes from and no step adds to,
    an execution counts at most as many as it starts with. -/
theorem execute_bounded {step : S → A → Option (S × List O)} (I : S → Prop) (measure : S → ℕ)
    (counted : A → Bool) {s t : S} {as : List A} {tr : List O}
    (h : execute step s as = some (t, tr)) (h0 : I s)
    (hstep : ∀ t a u os, I t → step t a = some (u, os) →
      I u ∧ measure u + (if counted a then 1 else 0) ≤ measure t) :
    I t ∧ measure t + as.countP counted ≤ measure s := by
  apply execute_invariant (fun as _ t => I t ∧ measure t + as.countP counted ≤ measure s) h
  · exact ⟨h0, Nat.le_refl _⟩
  · intro as _ t a u os _ ih hs
    obtain ⟨hI, hle⟩ := hstep t a u os ih.1 hs
    refine ⟨hI, ?_⟩
    rw [List.countP_append, List.countP_singleton]
    omega

theorem execute_map {step : S → A → Option (S × List O)} {s : S} {as : List A} {B : Type*}
    {f : S × List O → B} {b : B} (h : (execute step s as).map f = some b) :
    ∃ t tr, Run step s tr t ∧ f (t, tr) = b := by
  cases hrun : execute step s as with
  | none =>
    rw [hrun] at h
    cases h
  | some r =>
    rw [hrun] at h
    exact ⟨r.1, r.2, execute_run hrun, Option.some.inj h⟩

theorem Run.runIf {step : S → A → Option (S × List O)} {cond : S → A → Bool} {s t : S} {tr : List O}
    (h : Run (fun u a => if cond u a then step u a else none) s tr t) :
    RunIf step (fun u a => cond u a = true) s tr t := by
  induction h with
  | start => exact .start
  | next _ hs ih =>
    obtain ⟨hc, hs⟩ := Option.ite_none_right_eq_some.mp hs
    exact .next ih hc hs

end Observed
end Transition
