import Hefest.Lib.Transaction

set_option autoImplicit false

namespace Transaction
variable {σ κ ε α β : Type} (R : σ → σ → Prop)

/-- Every statement, on whatever database it is reached, moves the database within `R`. -/
def Prog.Within : Prog σ κ ε α → Prop
  | .ret _ => True
  | .raise _ => True
  | .stmt s k => ∀ x, R x (s.write x x) ∧ (k (s.result x)).Within
  | .transaction p => p.Within

variable {R}

theorem Prog.Within.run {p : Prog σ κ ε α} (h : p.Within R) (refl : ∀ x, R x x)
    (trans : ∀ x y z, R x y → R y z → R x z) (db : σ) : R db (p.run db).1 := by
  induction p generalizing db with
  | ret a => exact refl db
  | raise e => exact refl db
  | stmt s k ih =>
    obtain ⟨hwrite, hnext⟩ := h db
    exact trans _ _ _ hwrite (ih _ hnext _)
  | transaction p ih =>
    have hinner := ih h db
    rw [run_transaction]
    rcases hrun : p.run db with ⟨v, r⟩
    rw [hrun] at hinner
    cases r with
    | ok a => exact hinner
    | error e => exact refl db

theorem Prog.Within.bind {p : Prog σ κ ε α} {f : α → Prog σ κ ε β} (h : p.Within R)
    (hf : ∀ a, (f a).Within R) : (p.bind f).Within R := by
  induction p with
  | ret a => exact hf a
  | raise e => trivial
  | stmt s k ih =>
    intro x
    obtain ⟨hwrite, hnext⟩ := h x
    exact ⟨hwrite, ih _ hnext⟩
  | transaction p ih => exact ih h

theorem Prog.Within.map {p : Prog σ κ ε α} (h : p.Within R) (f : α → β) : (p.map f).Within R :=
  h.bind fun _ => trivial

theorem Prog.Within.wrap {p : Prog σ κ ε α} (h : p.Within R) (f : ε → ε) (g : α → β) :
    (p.wrap f g).Within R := by
  induction p with
  | ret a => trivial
  | raise e => trivial
  | stmt s k ih =>
    intro x
    obtain ⟨hwrite, hnext⟩ := h x
    exact ⟨hwrite, ih _ hnext⟩
  | transaction p ih => exact ih h

theorem run_wrap (f : ε → ε) (g : α → β) (p : Prog σ κ ε α) (db : σ) :
    (p.wrap f g).run db = ((p.run db).1, ((p.run db).2.mapError f).map g) := by
  induction p generalizing db with
  | ret a => rfl
  | raise e => rfl
  | stmt s k ih => exact ih _ _
  | transaction p ih =>
    change settle db ((p.wrap f g).run db) = _
    rw [ih, run_transaction]
    obtain ⟨v, r⟩ := p.run db
    cases r <;> rfl

theorem within_select {ρ : Type} {f : σ → ρ} {k : ρ → Prog σ κ ε α} (refl : ∀ x, R x x)
    (hk : ∀ r, (k r).Within R) : (Prog.stmt (.select f) k).Within R :=
  fun x => ⟨refl x, hk _⟩

end Transaction
