import Mathlib.Data.List.Induction

set_option autoImplicit false

namespace Transition
variable {O : Type*}

/-- `log` is written oldest first. -/
def Since (first : Prop) (makes ends : O → Prop) (log : List O) : Prop :=
  (first ∧ ∀ o ∈ log, ¬ ends o) ∨
    ∃ before o later, log = before ++ o :: later ∧ makes o ∧ ∀ p ∈ later, ¬ ends p

section Log
variable {first : Prop} {makes ends : O → Prop} {log : List O} {o : O}

theorem since_nil : Since first makes ends [] ↔ first := by
  constructor
  · rintro (⟨h, -⟩ | ⟨before, o, later, h, -⟩)
    · exact h
    · simp at h
  · intro h
    exact .inl ⟨h, by simp⟩

theorem since_concat :
    Since first makes ends (log ++ [o]) ↔ makes o ∨ (Since first makes ends log ∧ ¬ ends o) := by
  constructor
  · rintro (⟨h, hquiet⟩ | ⟨before, p, later, hlog, hp, hquiet⟩)
    · exact .inr ⟨.inl ⟨h, fun q hq => hquiet q (by simp [hq])⟩, hquiet o (by simp)⟩
    · induction later using List.reverseRecOn with
      | nil =>
        obtain ⟨-, hsame⟩ := List.append_inj' hlog rfl
        cases hsame
        exact .inl hp
      | append_singleton later q _ =>
        rw [← List.cons_append, ← List.append_assoc] at hlog
        obtain ⟨rfl, hsame⟩ := List.append_inj' hlog rfl
        cases hsame
        refine .inr ⟨.inr ⟨before, p, later, rfl, hp, fun r hr => hquiet r (by simp [hr])⟩, ?_⟩
        exact hquiet o (by simp)
  · rintro (h | ⟨⟨h, hquiet⟩ | ⟨before, p, later, rfl, hp, hquiet⟩, ho⟩)
    · exact .inr ⟨log, o, [], rfl, h, by simp⟩
    · refine .inl ⟨h, ?_⟩
      simpa [or_imp, forall_and] using ⟨hquiet, ho⟩
    · refine .inr ⟨before, p, later ++ [o], by simp, hp, ?_⟩
      simpa [or_imp, forall_and] using ⟨hquiet, ho⟩

theorem since_append {os : List O} :
    Since first makes ends (log ++ os) ↔ Since (Since first makes ends log) makes ends os := by
  induction os using List.reverseRecOn with
  | nil => rw [List.append_nil, since_nil]
  | append_singleton os o ih => rw [← List.append_assoc, since_concat, since_concat, ih]

end Log

def Reasoned (P : List O → O → Prop) (log : List O) : Prop :=
  ∀ before o later, log = before ++ o :: later → P before o

theorem reasoned_nil (P : List O → O → Prop) : Reasoned P [] := by
  intro before o later h
  simp at h

theorem Reasoned.concat {P : List O → O → Prop} {log : List O} {o : O} (h : Reasoned P log)
    (ho : P log o) : Reasoned P (log ++ [o]) := by
  intro before p later hlog
  induction later using List.reverseRecOn with
  | nil =>
    obtain ⟨rfl, hsame⟩ := List.append_inj' hlog rfl
    cases hsame
    exact ho
  | append_singleton later q _ =>
    rw [← List.cons_append, ← List.append_assoc] at hlog
    obtain ⟨rfl, -⟩ := List.append_inj' hlog rfl
    exact h before p later rfl

end Transition
