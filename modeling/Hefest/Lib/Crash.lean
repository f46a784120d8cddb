import Hefest.Lib.Transaction

set_option autoImplicit false

namespace Transaction

variable {σ κ ε α : Type}

def Session.advanceBy : ℕ → σ → Session σ κ ε α → σ × Session σ κ ε α
  | 0, db, s => (db, s)
  | n + 1, db, s => (s.advance db).2.advanceBy n (s.advance db).1

/-- The database that a failure after `n` steps of the call leaves behind. -/
def Prog.crashed (p : Prog σ κ ε α) (n : ℕ) (db : σ) : σ := ((Session.auto p).advanceBy n db).1

def Prog.steps : Prog σ κ ε α → σ → ℕ
  | .ret _, _ => 1
  | .raise _, _ => 1
  | .stmt s k, db => (k (s.result db)).steps (s.write db db) + 1
  | .transaction p, db => p.steps db + 1

theorem Session.advanceBy_finished (n : ℕ) (db : σ) (r : Except ε α) :
    (Session.finished r : Session σ κ ε α).advanceBy n db = (db, .finished r) := by
  induction n with
  | zero => rfl
  | succ n ih => exact ih

@[simp] theorem crashed_zero (p : Prog σ κ ε α) (db : σ) : p.crashed 0 db = db := rfl

@[simp] theorem crashed_raise (e : ε) (n : ℕ) (db : σ) :
    (Prog.raise e : Prog σ κ ε α).crashed n db = db := by
  cases n with
  | zero => rfl
  | succ n => exact congrArg Prod.fst (Session.advanceBy_finished n db _)

@[simp] theorem crashed_stmt {ρ : Type} (s : Stmt σ κ ρ) (k : ρ → Prog σ κ ε α) (n : ℕ) (db : σ) :
    (Prog.stmt s k).crashed (n + 1) db = (k (s.result db)).crashed n (s.write db db) := rfl

/-- An open transaction has no effect before its last step. -/
theorem Session.advanceBy_inside (p : Prog σ κ ε α) (w : σ → σ) (held : List κ) (n : ℕ) (db : σ) :
    ((Session.inside p w held).advanceBy n db).1 =
      if n < p.steps (w db) then db else (settle db (p.run (w db))).1 := by
  induction p generalizing w held n with
  | ret a =>
    cases n with
    | zero => rfl
    | succ n =>
      rw [if_neg (by simp [Prog.steps])]
      exact congrArg Prod.fst (Session.advanceBy_finished n (w db) _)
  | raise e =>
    cases n with
    | zero => rfl
    | succ n =>
      rw [if_neg (by simp [Prog.steps])]
      exact congrArg Prod.fst (Session.advanceBy_finished n db _)
  | stmt s k ih =>
    cases n with
    | zero => rfl
    | succ n =>
      simp only [Prog.steps, Nat.add_lt_add_iff_right]
      exact ih _ (fun x => s.write (w db) (w x)) _ n
  | transaction p ih =>
    cases n with
    | zero => rfl
    | succ n =>
      simp only [Prog.steps, Nat.add_lt_add_iff_right, run_transaction, settle_settle]
      exact ih w held n

/-- A transaction is committed by its last step or not at all. -/
theorem crashed_transaction (p : Prog σ κ ε α) (n : ℕ) (db : σ) :
    (Prog.transaction p).crashed n db =
      if n < (Prog.transaction p).steps db then db else ((Prog.transaction p).run db).1 := by
  cases n with
  | zero => rfl
  | succ n =>
    simp only [Prog.steps, Nat.add_lt_add_iff_right, run_transaction]
    exact Session.advanceBy_inside p (fun x => x) [] n db

end Transaction
