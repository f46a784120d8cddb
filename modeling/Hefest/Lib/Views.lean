import Hefest.Lib.Isolation

set_option autoImplicit false

/-!
# One call among the commits of others

Under READ COMMITTED every statement of a call sees what has been committed by then. A call that
writes nothing answers what it computes from one database for each of its statements, its views;
whatever the commits of the others keep holds in all of them.
-/
namespace Transaction
open Transition

section Views
variable {σ κ ε α A : Type} (commit : A → σ → σ)

/-- One turn: the call's own next statement, or the commit of another. -/
def among : Option A → σ × Session σ κ ε α → σ × Session σ κ ε α
  | none, (db, s) => s.advance db
  | some a, (db, s) => (commit a db, s)

def views : List (Option A) → σ → List σ
  | [], _ => []
  | none :: turns, db => db :: views turns db
  | some a :: turns, db => views turns (commit a db)

def Prog.runOn : Prog σ κ ε α → List σ → Option (Except ε α)
  | _, [] => none
  | .ret a, _ :: _ => some (.ok a)
  | .raise e, _ :: _ => some (.error e)
  | .stmt s k, v :: vs => (k (s.result v)).runOn vs
  | .transaction p, _ :: vs => p.runOn vs

def Session.runOn : Session σ κ ε α → List σ → Option (Except ε α)
  | .auto p, vs => p.runOn vs
  | .inside p _ _, vs => p.runOn vs
  | .finished r, _ => some r

def Prog.ReadOnly (p : Prog σ κ ε α) : Prop := p.Writes fun x y => y = x

theorem Session.advance_runOn {s : Session σ κ ε α} (hs : s.Writes fun x y => y = x) (db : σ)
    (vs : List σ) : s.runOn (db :: vs) = (s.advance db).2.runOn vs := by
  cases s with
  | auto p => cases p <;> rfl
  | inside p w held =>
    cases p with
    | stmt s k =>
      have hview : w db = db := hs.2 db
      simp only [Session.runOn, Session.advance, Prog.runOn, hview]
    | _ => rfl
  | finished r => rfl

/-- However the turns fall, a call that writes nothing answers what its views give. -/
theorem runOn_of_finished {s : Session σ κ ε α} (hs : s.Writes fun x y => y = x)
    (turns : List (Option A)) (db : σ) {r : Except ε α}
    (hdone : (after (among commit) (db, s) turns).2 = .finished r) :
    s.runOn (views commit turns db) = some r := by
  induction turns generalizing db s with
  | nil =>
    have hs : s = .finished r := hdone
    rw [hs]
    rfl
  | cons turn turns ih =>
    cases turn with
    | none =>
      have hmove := Session.Writes.advance (R := fun x y => y = x) (fun _ => rfl)
        (fun _ _ _ hxy hyz => hyz.trans hxy) hs db
      change (after (among commit) (s.advance db) turns).2 = _ at hdone
      rw [← Prod.eta (s.advance db), hmove.1] at hdone
      rw [views, Session.advance_runOn hs]
      exact ih hmove.2 db hdone
    | some a => exact ih hs (commit a db) hdone

theorem views_invariant (I : σ → Prop) {turns : List (Option A)}
    (hstep : ∀ a, some a ∈ turns → ∀ db, I db → I (commit a db)) {db : σ} (h : I db) :
    ∀ v ∈ views commit turns db, I v := by
  induction turns generalizing db with
  | nil =>
    intro v hv
    cases hv
  | cons turn turns ih =>
    have hrest : ∀ a, some a ∈ turns → ∀ db, I db → I (commit a db) :=
      fun a ha => hstep a (List.mem_cons_of_mem turn ha)
    cases turn with
    | none =>
      intro v hv
      rcases List.mem_cons.mp hv with rfl | hv
      · exact h
      · exact ih hrest h v hv
    | some a => exact ih hrest (hstep a List.mem_cons_self db h)

theorem views_cons {turns : List (Option A)} {db v : σ} {vs : List σ}
    (h : views commit turns db = v :: vs) :
    ∃ turns', (∀ a, some a ∈ turns' → some a ∈ turns) ∧ views commit turns' v = vs := by
  induction turns generalizing db with
  | nil => cases h
  | cons turn turns ih =>
    cases turn with
    | none =>
      obtain ⟨rfl, rfl⟩ := List.cons.inj h
      exact ⟨turns, fun a ha => List.mem_cons_of_mem _ ha, rfl⟩
    | some a =>
      obtain ⟨turns', hsub, hviews⟩ := ih h
      exact ⟨turns', fun b hb => List.mem_cons_of_mem _ (hsub b hb), hviews⟩

end Views
end Transaction
