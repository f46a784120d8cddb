import Mathlib.Data.Fintype.Basic
import Mathlib.Data.Finset.Basic
import Mathlib.Logic.Relation
import Hefest.Lib.Transition

set_option autoImplicit false

/-!
# Calls as programs of SQL statements

A call is a tree of statements. `Prog.run` executes it alone; `System` interleaves any number of
calls statement by statement under READ COMMITTED: a statement sees the committed database with
the pending writes of its own transaction on top, waits while another transaction holds a
conflicting row lock, and keeps the locks it takes until its transaction ends.
-/
namespace Transaction

class Lock (κ : Type) where
  conflict : κ → κ → Bool

/-- One statement, read off the database as its transaction sees it: the row locks it takes, its
    result, and its write as a change that can be replayed on the committed database. -/
structure Stmt (σ κ ρ : Type) where
  locks : σ → List κ
  result : σ → ρ
  write : σ → σ → σ

def Stmt.select {σ κ ρ : Type} (f : σ → ρ) : Stmt σ κ ρ := ⟨fun _ => [], f, fun _ s => s⟩

/-- The transaction a `transaction` node opens lasts until the call ends: it commits when the
    call returns and rolls back when the call raises. -/
inductive Prog (σ κ ε α : Type) : Type 1
  | ret (a : α)
  | raise (e : ε)
  | stmt {ρ : Type} (s : Stmt σ κ ρ) (k : ρ → Prog σ κ ε α)
  | transaction (p : Prog σ κ ε α)

section Programs
variable {σ κ ε α β : Type}

def Prog.bind : Prog σ κ ε α → (α → Prog σ κ ε β) → Prog σ κ ε β
  | .ret a, f => f a
  | .raise e, _ => .raise e
  | .stmt s k, f => .stmt s (fun r => (k r).bind f)
  | .transaction p, f => .transaction (p.bind f)

def Prog.map (f : α → β) (p : Prog σ κ ε α) : Prog σ κ ε β := p.bind (fun a => .ret (f a))

def settle (db : σ) : σ × Except ε α → σ × Except ε α
  | (v, .ok a) => (v, .ok a)
  | (_, .error e) => (db, .error e)

def Prog.wrap (f : ε → ε) (g : α → β) : Prog σ κ ε α → Prog σ κ ε β
  | .ret a => .ret (g a)
  | .raise e => .raise (f e)
  | .stmt s k => .stmt s (fun r => (k r).wrap f g)
  | .transaction p => .transaction (p.wrap f g)

def Prog.run : Prog σ κ ε α → σ → σ × Except ε α
  | .ret a, db => (db, .ok a)
  | .raise e, db => (db, .error e)
  | .stmt s k, db => (k (s.result db)).run (s.write db db)
  | .transaction p, db => settle db (p.run db)

@[simp] theorem settle_ok (db v : σ) (a : α) :
    settle db (v, (.ok a : Except ε α)) = (v, .ok a) := rfl

@[simp] theorem settle_error (db v : σ) (e : ε) :
    settle db (v, (.error e : Except ε α)) = (db, .error e) := rfl

@[simp] theorem settle_settle (db v : σ) (x : σ × Except ε α) :
    settle db (settle v x) = settle db x := by
  obtain ⟨w, r⟩ := x
  cases r <;> rfl

@[simp] theorem run_ret (a : α) (db : σ) :
    (Prog.ret a : Prog σ κ ε α).run db = (db, .ok a) := rfl

@[simp] theorem run_raise (e : ε) (db : σ) :
    (Prog.raise e : Prog σ κ ε α).run db = (db, .error e) := rfl

@[simp] theorem run_stmt {ρ : Type} (s : Stmt σ κ ρ) (k : ρ → Prog σ κ ε α) (db : σ) :
    (Prog.stmt s k).run db = (k (s.result db)).run (s.write db db) := rfl

@[simp] theorem run_transaction (p : Prog σ κ ε α) (db : σ) :
    (Prog.transaction p).run db = settle db (p.run db) := rfl

@[simp] theorem bind_ret (a : α) (f : α → Prog σ κ ε β) : (Prog.ret a).bind f = f a := rfl

@[simp] theorem bind_raise (e : ε) (f : α → Prog σ κ ε β) :
    (Prog.raise e : Prog σ κ ε α).bind f = .raise e := rfl

@[simp] theorem bind_stmt {ρ : Type} (s : Stmt σ κ ρ) (k : ρ → Prog σ κ ε α)
    (f : α → Prog σ κ ε β) : (Prog.stmt s k).bind f = .stmt s (fun r => (k r).bind f) := rfl

theorem except_map_eq_ok {f : α → β} {x : Except ε α} {b : β} (h : x.map f = .ok b) :
    ∃ a, x = .ok a ∧ b = f a := by
  cases x with
  | error e => cases h
  | ok a =>
    cases h
    exact ⟨a, rfl, rfl⟩

theorem run_map (f : α → β) (p : Prog σ κ ε α) (db : σ) :
    (p.map f).run db = ((p.run db).1, (p.run db).2.map f) := by
  induction p generalizing db with
  | ret a => rfl
  | raise e => rfl
  | stmt s k ih => exact ih _ _
  | transaction p ih =>
    change settle db ((p.map f).run db) = _
    rw [ih, run_transaction]
    obtain ⟨v, r⟩ := p.run db
    cases r <;> rfl

@[simp] theorem wrap_ret (f : ε → ε) (g : α → β) (a : α) :
    (Prog.ret a : Prog σ κ ε α).wrap f g = .ret (g a) := rfl

@[simp] theorem wrap_raise (f : ε → ε) (g : α → β) (e : ε) :
    (Prog.raise e : Prog σ κ ε α).wrap f g = .raise (f e) := rfl

@[simp] theorem wrap_stmt {ρ : Type} (f : ε → ε) (g : α → β) (s : Stmt σ κ ρ)
    (k : ρ → Prog σ κ ε α) : (Prog.stmt s k).wrap f g = .stmt s (fun r => (k r).wrap f g) := rfl

theorem map_eq_wrap (g : α → β) (p : Prog σ κ ε α) : p.map g = p.wrap (fun e => e) g := by
  induction p with
  | ret a => rfl
  | raise e => rfl
  | stmt s k ih =>
    change Prog.stmt s (fun r => (k r).map g) = _
    simp only [ih, wrap_stmt]
  | transaction p ih =>
    change Prog.transaction (p.map g) = _
    rw [ih]
    rfl

theorem wrap_wrap {γ : Type} (f f' : ε → ε) (g : α → β) (g' : β → γ) (p : Prog σ κ ε α) :
    (p.wrap f g).wrap f' g' = p.wrap (fun e => f' (f e)) (fun a => g' (g a)) := by
  induction p with
  | ret a => rfl
  | raise e => rfl
  | stmt s k ih => simp only [wrap_stmt, ih]
  | transaction p ih =>
    change Prog.transaction ((p.wrap f g).wrap f' g') = _
    rw [ih]
    rfl

theorem run_wrap_ok {f : ε → ε} {g : α → β} {p : Prog σ κ ε α} {db db' : σ} {a : α}
    (h : p.run db = (db', .ok a)) : (p.wrap f g).run db = (db', .ok (g a)) := by
  induction p generalizing db db' with
  | ret b =>
    cases h
    rfl
  | raise e => cases h
  | stmt s k ih => exact ih _ h
  | transaction p ih =>
    have hinner : p.run db = (db', .ok a) := by
      rw [run_transaction] at h
      rcases hrun : p.run db with ⟨v, r⟩
      rw [hrun] at h
      cases r with
      | ok b => exact h
      | error e => cases h
    change settle db ((p.wrap f g).run db) = _
    rw [ih hinner]
    rfl

theorem run_map_error {f : α → β} {p : Prog σ κ ε α} {db : σ} {e : ε}
    (h : ((p.map f).run db).2 = .error e) : p.run db = ((p.run db).1, .error e) := by
  rw [run_map] at h
  rcases hrun : p.run db with ⟨v, r⟩
  rw [hrun] at h
  cases r with
  | ok a => cases h
  | error e' => exact Prod.ext rfl (by simpa [Except.map] using h)

theorem run_transaction_error {p : Prog σ κ ε α} {db db' : σ} {e : ε}
    (h : (Prog.transaction p).run db = (db', .error e)) : db' = db := by
  rw [run_transaction] at h
  generalize p.run db = x at h
  obtain ⟨v, r⟩ := x
  cases r with
  | ok a => simp at h
  | error e' =>
    simp only [settle_error, Prod.mk.injEq] at h
    exact h.1.symm

end Programs

/-- One call under way: outside a transaction, where each statement commits by itself, inside its
    transaction with its pending write and the locks it holds, or over. -/
inductive Session (σ κ ε α : Type) : Type 1
  | auto (p : Prog σ κ ε α)
  | inside (p : Prog σ κ ε α) (pending : σ → σ) (held : List κ)
  | finished (r : Except ε α)

namespace Session
variable {σ κ ε α : Type}

def held : Session σ κ ε α → List κ
  | .inside _ _ held => held
  | _ => []

def wants (committed : σ) : Session σ κ ε α → List κ
  | .auto (.stmt s _) => s.locks committed
  | .inside (.stmt s _) w _ => s.locks (w committed)
  | _ => []

def isFinished : Session σ κ ε α → Bool
  | .finished _ => true
  | _ => false

def returned? : Session σ κ ε α → Option α
  | .finished (.ok a) => some a
  | _ => none

def answer? : Session σ κ ε α → Option α
  | .auto (.ret a) => some a
  | .finished (.ok a) => some a
  | _ => none

theorem returned?_eq_some {s : Session σ κ ε α} {a : α} (h : s.returned? = some a) :
    s = .finished (.ok a) := by
  cases s with
  | finished r =>
    cases r with
    | ok a' =>
      cases h
      rfl
    | error e => cases h
  | _ => cases h

def advance (committed : σ) : Session σ κ ε α → σ × Session σ κ ε α
  | .auto (.stmt s k) => (s.write committed committed, .auto (k (s.result committed)))
  | .auto (.transaction p) => (committed, .inside p (fun s => s) [])
  | .auto (.ret a) => (committed, .finished (.ok a))
  | .auto (.raise e) => (committed, .finished (.error e))
  | .inside (.stmt s k) w held =>
    (committed, .inside (k (s.result (w committed))) (fun x => s.write (w committed) (w x))
      (s.locks (w committed) ++ held))
  | .inside (.transaction p) w held => (committed, .inside p w held)
  | .inside (.ret a) w _ => (w committed, .finished (.ok a))
  | .inside (.raise e) _ _ => (committed, .finished (.error e))
  | .finished r => (committed, .finished r)

def wrap {β : Type} (f : ε → ε) (g : α → β) : Session σ κ ε α → Session σ κ ε β
  | .auto p => .auto (p.wrap f g)
  | .inside p w held => .inside (p.wrap f g) w held
  | .finished (.ok a) => .finished (.ok (g a))
  | .finished (.error e) => .finished (.error (f e))

section Wrapped
variable {β : Type} (f : ε → ε) (g : α → β) (s : Session σ κ ε α)

theorem wrap_held : (s.wrap f g).held = s.held := by
  cases s with
  | finished r => cases r <;> rfl
  | _ => rfl

theorem wrap_answer? : (s.wrap f g).answer? = s.answer?.map g := by
  cases s with
  | auto p => cases p <;> rfl
  | inside p w held => rfl
  | finished r => cases r <;> rfl

theorem wrap_wants (committed : σ) : (s.wrap f g).wants committed = s.wants committed := by
  cases s with
  | auto p => cases p <;> rfl
  | inside p w held => cases p <;> rfl
  | finished r => cases r <;> rfl

theorem wrap_advance (committed : σ) : (s.wrap f g).advance committed =
    ((s.advance committed).1, (s.advance committed).2.wrap f g) := by
  cases s with
  | auto p => cases p <;> rfl
  | inside p w held => cases p <;> rfl
  | finished r => cases r <;> rfl

end Wrapped
end Session

structure System (σ κ ε α ι : Type) : Type 1 where
  committed : σ
  session : ι → Session σ κ ε α

section Interleaving
variable {σ κ ε α ι : Type} [Lock κ]

/-- The next statement of `i` needs a lock that conflicts with one held by the transaction of
    another call. -/
def Waits (S : System σ κ ε α ι) (i j : ι) : Prop :=
  j ≠ i ∧ ∃ a ∈ (S.session i).wants S.committed, ∃ b ∈ (S.session j).held,
    Lock.conflict a b = true

def start (progs : ι → Prog σ κ ε α) (db : σ) : System σ κ ε α ι := ⟨db, fun i => .auto (progs i)⟩

variable [DecidableEq ι]

instance (S : System σ κ ε α ι) (i j : ι) : Decidable (Waits S i j) :=
  inferInstanceAs (Decidable (_ ∧ _))

variable [Fintype ι]

/-- The scheduler lets call `i` execute its next statement; refused while `i` waits for a lock. -/
def step (S : System σ κ ε α ι) (i : ι) : Option (System σ κ ε α ι × List ι) :=
  if (S.session i).isFinished = true ∨ ∃ j, Waits S i j then none
  else
    let next := (S.session i).advance S.committed
    some (⟨next.1, Function.update S.session i next.2⟩, [i])

theorem step_cases {S S' : System σ κ ε α ι} {i : ι} {os : List ι} (h : step S i = some (S', os)) :
    (S.session i).isFinished = false ∧ (∀ j, ¬ Waits S i j) ∧
      S'.committed = ((S.session i).advance S.committed).1 ∧
      S'.session = Function.update S.session i ((S.session i).advance S.committed).2 := by
  unfold step at h
  split at h
  · cases h
  · rename_i hfree
    rw [not_or, not_exists] at hfree
    simp only [Option.some.injEq, Prod.mk.injEq] at h
    obtain ⟨rfl, _⟩ := h
    exact ⟨by simpa using hfree.1, hfree.2, rfl, rfl⟩

end Interleaving

section Serial
variable {σ κ ε α ι : Type} (progs : ι → Prog σ κ ε α)

def serial : List ι → σ → σ × List (ι × Except ε α)
  | [], db => (db, [])
  | i :: is, db =>
    let first := (progs i).run db
    let rest := serial is first.1
    (rest.1, (i, first.2) :: rest.2)

theorem serial_concat (is : List ι) (i : ι) (db : σ) :
    serial progs (is ++ [i]) db =
      (((progs i).run (serial progs is db).1).1,
        (serial progs is db).2 ++ [(i, ((progs i).run (serial progs is db).1).2)]) := by
  induction is generalizing db with
  | nil => rfl
  | cons j is ih => simp [serial, ih]

end Serial

section Guarded
variable {σ κ ε α ι : Type} (L : κ) (le : σ → σ → Prop)

/-- `Guarded L le P db q`: inside its transaction, with nothing written and nothing locked, the
    call `P` still has `q` to do after its last look at the committed database `db`. The order
    `le` says how the committed database may have moved before the next statement. -/
inductive Guarded (P : Prog σ κ ε α) : σ → Prog σ κ ε α → Prop where
  | giveUp {db : σ} {e : ε} (h : P.run db = (db, .error e)) : Guarded P db (.raise e)
  | look {db : σ} {ρ : Type} {s : Stmt σ κ ρ} {k : ρ → Prog σ κ ε α}
      (locks : ∀ x, s.locks x = []) (write : ∀ x y, s.write x y = y)
      (next : ∀ db', le db db' → Guarded P db' (k (s.result db'))) : Guarded P db (.stmt s k)
  | acquire {db : σ} {ρ : Type} {s : Stmt σ κ ρ} {k : ρ → Prog σ κ ε α}
      (lock : ∀ db', le db db' → L ∈ s.locks db')
      (same : ∀ db', le db db' → settle db' ((Prog.stmt s k).run db') = P.run db') :
      Guarded P db (.stmt s k)

/-- Every call of the family is guarded by `L`, and every call executed alone moves the database
    up in `le`. -/
structure SingleLock [Lock κ] (progs : ι → Prog σ κ ε α) (db₀ : σ) : Prop where
  refl : ∀ db, le db db
  trans : ∀ a b c, le a b → le b c → le a c
  exclusive : Lock.conflict L L = true
  mono : ∀ i db, le db₀ db → le db ((progs i).run db).1
  guarded : ∀ i db, le db₀ db →
    ∃ body, progs i = .transaction body ∧ Guarded L le (progs i) db body

/-- Where a session stands with respect to the serial execution `log` that ends in `db`. -/
inductive Explained (progs : ι → Prog σ κ ε α) (db : σ) (log : List (ι × Except ε α)) (i : ι) :
    Session σ κ ε α → Prop where
  | waiting (fresh : i ∉ log.map Prod.fst) : Explained progs db log i (.auto (progs i))
  | looking {q : Prog σ κ ε α} {w : σ → σ} {seen : σ} (fresh : i ∉ log.map Prod.fst)
      (nothing : ∀ x, w x = x) (moved : le seen db) (guarded : Guarded L le (progs i) seen q)
      (going : ∀ e, q ≠ .raise e) : Explained progs db log i (.inside q w [])
  | refused {w : σ → σ} {e : ε} (logged : (i, .error e) ∈ log) :
      Explained progs db log i (.inside (.raise e) w [])
  | holding {q : Prog σ κ ε α} {w : σ → σ} {held : List κ} (fresh : i ∉ log.map Prod.fst)
      (lock : L ∈ held) (same : settle db (q.run (w db)) = (progs i).run db) :
      Explained progs db log i (.inside q w held)
  | finished {r : Except ε α} (logged : (i, r) ∈ log) : Explained progs db log i (.finished r)

/-- The invariant of an interleaving: it is the serial execution recorded in `log`, and at most
    one session holds the lock. -/
structure Serialized (progs : ι → Prog σ κ ε α) (db₀ : σ) (S : System σ κ ε α ι)
    (log : List (ι × Except ε α)) : Prop where
  nodup : (log.map Prod.fst).Nodup
  serial : serial progs (log.map Prod.fst) db₀ = (S.committed, log)
  moved : le db₀ S.committed
  sessions : ∀ i, Explained L le progs S.committed log i (S.session i)
  single : ∀ i j, L ∈ (S.session i).held → L ∈ (S.session j).held → i = j

variable {L le} {progs : ι → Prog σ κ ε α} {db : σ} {log : List (ι × Except ε α)}

theorem Explained.held_eq {i : ι} {s : Session σ κ ε α} (h : Explained L le progs db log i s) :
    s.held = [] ∨ L ∈ s.held := by
  cases h with
  | holding _ lock _ => exact Or.inr lock
  | _ => exact Or.inl rfl

theorem Explained.log_more {i j : ι} {r : Except ε α} {s : Session σ κ ε α} (hij : i ≠ j)
    (h : Explained L le progs db log i s) :
    Explained L le progs db (log ++ [(j, r)]) i s := by
  have fresh' : i ∉ log.map Prod.fst → i ∉ (log ++ [(j, r)]).map Prod.fst := by
    intro hi
    simp only [List.map_append, List.mem_append, List.map_cons, List.map_nil, List.mem_singleton,
      not_or]
    exact ⟨hi, hij⟩
  cases h with
  | waiting fresh => exact .waiting (fresh' fresh)
  | looking fresh nothing moved guarded going =>
    exact .looking (fresh' fresh) nothing moved guarded going
  | refused logged => exact .refused (List.mem_append_left _ logged)
  | holding fresh lock same => exact .holding (fresh' fresh) lock same
  | finished logged => exact .finished (List.mem_append_left _ logged)

/-- The database moved under a session that does not hold the lock. -/
theorem Explained.move {db' : σ} {i : ι} {s : Session σ κ ε α}
    (trans : ∀ a b c, le a b → le b c → le a c) (hle : le db db') (hs : L ∉ s.held)
    (h : Explained L le progs db log i s) : Explained L le progs db' log i s := by
  cases h with
  | waiting fresh => exact .waiting fresh
  | looking fresh nothing moved guarded going =>
    exact .looking fresh nothing (trans _ _ _ moved hle) guarded going
  | refused logged => exact .refused logged
  | holding _ lock _ => exact absurd lock hs
  | finished logged => exact .finished logged

section Steps
variable {db₀ : σ} {S : System σ κ ε α ι} {i : ι}

theorem serialized_start [Lock κ] (h : SingleLock L le progs db₀) :
    Serialized L le progs db₀ (start progs db₀) [] where
  nodup := List.nodup_nil
  serial := rfl
  moved := h.refl db₀
  sessions _ := .waiting (by simp)
  single _ _ hi := by simp [start, Session.held] at hi

variable [DecidableEq ι]

theorem Serialized.move (h : Serialized L le progs db₀ S log) {s : Session σ κ ε α}
    (hs : Explained L le progs S.committed log i s)
    (hlock : L ∈ s.held → ∀ j, j ≠ i → L ∉ (S.session j).held) :
    Serialized L le progs db₀ ⟨S.committed, Function.update S.session i s⟩ log where
  nodup := h.nodup
  serial := h.serial
  moved := h.moved
  sessions j := by
    by_cases hj : j = i
    · subst hj
      simpa using hs
    · simpa [hj] using h.sessions j
  single j k hj hk := by
    by_cases hji : j = i <;> by_cases hki : k = i
    · exact hji.trans hki.symm
    · subst hji
      simp only [Function.update_self, ne_eq, hki, not_false_eq_true, Function.update_of_ne] at hj hk
      exact absurd hk (hlock hj k hki)
    · subst hki
      simp only [Function.update_self, ne_eq, hji, not_false_eq_true, Function.update_of_ne] at hj hk
      exact absurd hj (hlock hk j hji)
    · simp only [ne_eq, hji, hki, not_false_eq_true, Function.update_of_ne] at hj hk
      exact h.single j k hj hk

variable [Lock κ]

/-- Session `i` takes effect: it is executed serially on the committed database and logged. The
    database moves only if `i` held the lock. -/
theorem Serialized.record (hL : SingleLock L le progs db₀) (h : Serialized L le progs db₀ S log)
    {db' : σ} {r : Except ε α} {s : Session σ κ ε α} (hfresh : i ∉ log.map Prod.fst)
    (hrun : (progs i).run S.committed = (db', r))
    (hs : Explained L le progs db' (log ++ [(i, r)]) i s) (hheld : s.held = [])
    (hmove : db' = S.committed ∨ L ∈ (S.session i).held) :
    Serialized L le progs db₀ ⟨db', Function.update S.session i s⟩ (log ++ [(i, r)]) where
  nodup := by
    rw [List.map_append, List.nodup_append]
    refine ⟨h.nodup, by simp, ?_⟩
    intro a ha b hb
    simp only [List.map_cons, List.map_nil, List.mem_singleton] at hb
    rintro rfl
    exact hfresh (hb ▸ ha)
  serial := by
    rw [List.map_append, List.map_cons, List.map_nil, serial_concat, h.serial, hrun]
  moved := by
    have hm := hL.mono i S.committed h.moved
    rw [hrun] at hm
    exact hL.trans _ _ _ h.moved hm
  sessions j := by
    by_cases hj : j = i
    · subst hj
      simpa using hs
    · have hold := (h.sessions j).log_more (r := r) hj
      simp only [ne_eq, hj, not_false_eq_true, Function.update_of_ne]
      rcases hmove with rfl | hlock
      · exact hold
      · have hm := hL.mono i S.committed h.moved
        rw [hrun] at hm
        exact hold.move hL.trans hm (fun hjL => hj (h.single j i hjL hlock))
  single j k hj hk := by
    by_cases hji : j = i
    · subst hji
      simp [hheld] at hj
    · by_cases hki : k = i
      · subst hki
        simp [hheld] at hk
      · simp only [ne_eq, hji, hki, not_false_eq_true, Function.update_of_ne] at hj hk
        exact h.single j k hj hk

theorem Serialized.looked (hL : SingleLock L le progs db₀) (h : Serialized L le progs db₀ S log)
    (hfresh : i ∉ log.map Prod.fst) {q : Prog σ κ ε α} {w : σ → σ} (hw : ∀ x, w x = x)
    (hg : Guarded L le (progs i) S.committed q) :
    ∃ log', Serialized L le progs db₀
      ⟨S.committed, Function.update S.session i (.inside q w [])⟩ log' := by
  by_cases hq : ∃ e, q = .raise e
  · obtain ⟨e, rfl⟩ := hq
    cases hg with
    | giveUp hrun =>
      refine ⟨_, h.record hL hfresh hrun (.refused ?_) rfl (Or.inl rfl)⟩
      simp
  · have hgoing : ∀ e, q ≠ .raise e := fun e he => hq ⟨e, he⟩
    have hnone : ∀ s : Session σ κ ε α, s.held = [] → L ∈ s.held → ∀ j, j ≠ i →
        L ∉ (S.session j).held := by
      intro s hs hmem
      rw [hs] at hmem
      cases hmem
    exact ⟨log, h.move (.looking hfresh hw (hL.refl _) hg hgoing) (hnone _ rfl)⟩

variable [Fintype ι]

/-- One statement of any call keeps the execution serialized. -/
theorem serialized_step (hL : SingleLock L le progs db₀) (h : Serialized L le progs db₀ S log)
    {S' : System σ κ ε α ι} {os : List ι} (hs : step S i = some (S', os)) :
    ∃ log', Serialized L le progs db₀ S' log' := by
  obtain ⟨hrunning, hfree, hc, hsess⟩ := step_cases hs
  obtain ⟨c', sess'⟩ := S'
  simp only at hc hsess
  subst hc hsess
  have hi := h.sessions i
  revert hrunning hfree hi
  generalize hsi : S.session i = s
  intro hrunning hfree hi
  cases hi with
  | waiting fresh =>
    obtain ⟨body, hbody, hg⟩ := hL.guarded i S.committed h.moved
    have hnext : (Session.auto (progs i)).advance S.committed =
        (S.committed, .inside body (fun x => x) []) := by rw [hbody]; rfl
    rw [hnext]
    exact h.looked hL fresh (fun _ => rfl) hg
  | @looking q w seen fresh nothing moved guarded going =>
    cases guarded with
    | giveUp _ => exact absurd rfl (going _)
    | @look _ ρ st k locks write next =>
      have hnext : (Session.inside (.stmt st k) w []).advance S.committed =
          (S.committed, .inside (k (st.result S.committed)) (fun x => st.write S.committed (w x))
            []) := by
        simp [Session.advance, nothing, locks]
      rw [hnext]
      exact h.looked hL fresh (fun x => by rw [write, nothing]) (next _ moved)
    | @acquire _ ρ st k lock same =>
      have hmem : L ∈ st.locks S.committed := lock _ moved
      refine ⟨log, h.move ?_ ?_⟩
      · refine .holding fresh (List.mem_append_left _ (by rw [nothing]; exact hmem)) ?_
        have hsame := same _ moved
        simpa [nothing] using hsame
      · intro _ j hj hjL
        apply hfree j
        refine ⟨hj, L, ?_, L, hjL, hL.exclusive⟩
        rw [hsi]
        simpa [Session.wants, nothing] using hmem
  | @refused w e logged =>
    exact ⟨log, h.move (.finished logged) (fun hmem => by cases hmem)⟩
  | @holding q w held fresh lock same =>
    have hothers : ∀ j, j ≠ i → L ∉ (S.session j).held := by
      intro j hj hjL
      refine hj (h.single j i hjL ?_)
      rw [hsi]
      exact lock
    cases q with
    | ret a =>
      refine ⟨_, h.record hL fresh same.symm (.finished (by simp)) rfl (Or.inr ?_)⟩
      rw [hsi]
      exact lock
    | raise e =>
      exact ⟨_, h.record hL fresh same.symm (.finished (by simp)) rfl (Or.inl rfl)⟩
    | stmt st k =>
      exact ⟨log, h.move (.holding fresh (List.mem_append_right _ lock) same) fun _ => hothers⟩
    | transaction p =>
      refine ⟨log, h.move (.holding fresh lock ?_) fun _ => hothers⟩
      simpa using same
  | finished _ => cases hrunning

/-- Every interleaving of calls guarded by one lock is a serial execution. -/
theorem serialized_run (hL : SingleLock L le progs db₀) {S : System σ κ ε α ι} {tr : List ι}
    (h : Transition.Run step (start progs db₀) tr S) :
    ∃ log, Serialized L le progs db₀ S log := by
  refine h.invariant (fun _ S => ∃ log, Serialized L le progs db₀ S log)
    ⟨[], serialized_start hL⟩ ?_
  rintro _ T i U os ⟨log, hT⟩ hs
  exact serialized_step hL hT hs

end Steps

section Deadlock
variable [Lock κ] {db₀ : σ} {S : System σ κ ε α ι}

/-- Only the session that holds the lock is ever waited for. -/
theorem Serialized.waits_holder (h : Serialized L le progs db₀ S log) {i j : ι}
    (hw : Waits S i j) : L ∈ (S.session j).held := by
  obtain ⟨_, _, _, b, hb, _⟩ := hw
  rcases (h.sessions j).held_eq with hnil | hmem
  · rw [hnil] at hb
    cases hb
  · exact hmem

/-- The session that holds the lock waits for nobody, so no two waits ever chain. -/
theorem Serialized.not_waits (h : Serialized L le progs db₀ S log) {i j k : ι}
    (hij : Waits S i j) : ¬ Waits S j k := by
  intro hjk
  exact hjk.1 (h.single k j (h.waits_holder hjk) (h.waits_holder hij))

theorem Serialized.no_cycle (h : Serialized L le progs db₀ S log) (i : ι) :
    ¬ Relation.TransGen (Waits S) i i := by
  intro hc
  obtain ⟨j, hij, hji⟩ := Relation.TransGen.head'_iff.mp hc
  rcases Relation.ReflTransGen.cases_head_iff.mp hji with rfl | ⟨k, hjk, _⟩
  · exact hij.1 rfl
  · exact h.not_waits hij hjk

variable [DecidableEq ι] [Fintype ι]

/-- While some call is unfinished, some call can execute its next statement. -/
theorem Serialized.progress (h : Serialized L le progs db₀ S log) {i : ι}
    (hi : (S.session i).isFinished = false) : ∃ j S' os, step S j = some (S', os) := by
  have enabled : ∀ j, (S.session j).isFinished = false → (∀ k, ¬ Waits S j k) →
      ∃ S' os, step S j = some (S', os) := by
    intro j hj hfree
    have hgo : ¬ ((S.session j).isFinished = true ∨ ∃ k, Waits S j k) := by
      rintro (hf | ⟨k, hk⟩)
      · rw [hj] at hf
        cases hf
      · exact hfree k hk
    unfold step
    rw [if_neg hgo]
    exact ⟨_, _, rfl⟩
  by_cases hw : ∃ j, Waits S i j
  · obtain ⟨j, hij⟩ := hw
    have hmem := h.waits_holder hij
    have hj : (S.session j).isFinished = false := by
      cases hsj : S.session j with
      | finished r => rw [hsj] at hmem; cases hmem
      | _ => rfl
    exact ⟨j, enabled j hj (fun k => h.not_waits hij)⟩
  · exact ⟨i, enabled i hi (fun k hk => hw ⟨k, hk⟩)⟩

end Deadlock

/-- When every call has finished, the log is an order of all of them. -/
theorem Serialized.complete {db₀ : σ} {S : System σ κ ε α ι}
    (h : Serialized L le progs db₀ S log)
    (hall : ∀ i, (S.session i).isFinished = true) :
    (∀ i, i ∈ log.map Prod.fst) ∧ ∀ i r, (i, r) ∈ log ↔ S.session i = .finished r := by
  have hlogged : ∀ i r, S.session i = .finished r → (i, r) ∈ log := by
    intro i r hr
    have hi := h.sessions i
    rw [hr] at hi
    cases hi with
    | finished logged => exact logged
  have hfin : ∀ i, ∃ r, S.session i = .finished r := by
    intro i
    have hi := hall i
    cases hsi : S.session i with
    | finished r => exact ⟨r, rfl⟩
    | _ => rw [hsi] at hi; cases hi
  refine ⟨?_, ?_⟩
  · intro i
    obtain ⟨r, hr⟩ := hfin i
    exact List.mem_map.mpr ⟨(i, r), hlogged i r hr, rfl⟩
  · intro i r
    refine ⟨?_, hlogged i r⟩
    intro hmem
    obtain ⟨r', hr'⟩ := hfin i
    have hsame : (i, r) = (i, r') :=
      List.inj_on_of_nodup_map h.nodup hmem (hlogged i r' hr') rfl
    rw [hr', (Prod.mk.inj hsame).2]

end Guarded
end Transaction
