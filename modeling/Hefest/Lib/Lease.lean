import Mathlib.Data.List.Nodup
import Mathlib.Data.List.Range
import Mathlib.Logic.Function.Basic

set_option autoImplicit false

/-!
# Leases whose fence names the holder only

One row of a work queue. A worker claims it, works under the claim and writes a result back; the
write is accepted while the row is held by that worker, whatever the number of the claim. Claims
may be taken back at any time. The one assumption is that a worker never claims the row while it
still works under an earlier claim of it.
-/
namespace Lease

/-- What a worker does under one claim. A move may emit one note. In its last stages the worker
    writes its result: `none` gives the row back, `some r` closes it. -/
structure Work (Stage Note Result : Type) where
  first : Stage
  move : ℕ → Stage → Option Note → Stage → Prop
  finish : Stage → Option (Option Result)
  settled : ∀ {n : ℕ} {s s' : Stage} {x : Option Note} {r : Option Result},
    finish s = some r → move n s x s' → x = none ∧ finish s' = some r

inductive Status (Result : Type)
  | pending
  | held
  | closed (r : Result)

structure Row (Worker Result : Type) where
  status : Status Result
  holder : Option Worker
  claims : ℕ

/-- `M.Does n xs s`: the work under claim `n` has come to stage `s` and made the notes `xs`. -/
inductive Work.Does {Stage Note Result : Type} (M : Work Stage Note Result) (n : ℕ) :
    List Note → Stage → Prop
  | start : M.Does n [] M.first
  | move {xs : List Note} {s s' : Stage} {x : Option Note} (h : M.Does n xs s)
      (hm : M.move n s x s') : M.Does n (xs ++ x.toList) s'

/-- The row, if it is in the table yet, and the claim under which each worker works on it. -/
structure State (Worker Stage Result : Type) where
  row : Option (Row Worker Result)
  task : Worker → Option (ℕ × Stage)

inductive Event (Worker Note Result : Type)
  | enqueued
  | claimed (w : Worker) (n : ℕ)
  | reclaimed (n : ℕ)
  | noted (w : Worker) (n : ℕ) (x : Note)
  | landed (w : Worker) (n m : ℕ) (r : Option Result)
deriving DecidableEq

section Machine
variable {Worker Stage Note Result : Type}

def written (w : Worker) (m : ℕ) : Option Result → Row Worker Result
  | none => ⟨.pending, none, m⟩
  | some r => ⟨.closed r, some w, m⟩

theorem written_claims (w : Worker) (m : ℕ) (r : Option Result) : (written w m r).claims = m := by
  cases r <;> rfl

theorem written_not_held (w : Worker) (m : ℕ) (r : Option Result) :
    (written w m r).status ≠ .held := by
  cases r <;> simp [written]

def State.empty : State Worker Stage Result := ⟨none, fun _ => none⟩

structure Sound (S : State Worker Stage Result) : Prop where
  absent : S.row = none → ∀ w, S.task w = none
  upto : ∀ row w n s, S.row = some row → S.task w = some (n, s) → 1 ≤ n ∧ n ≤ row.claims
  latest : ∀ row w n s, S.row = some row → S.task w = some (n, s) → row.status = .held →
    row.holder = some w → n = row.claims
  alone : ∀ w w' n s s', S.task w = some (n, s) → S.task w' = some (n, s') → w = w'

theorem sound_empty : Sound (State.empty : State Worker Stage Result) where
  absent _ _ := rfl
  upto _ _ _ _ h := by cases h
  latest _ _ _ _ h := by cases h
  alone _ _ _ _ _ h := by cases h

theorem Sound.row_change {S : State Worker Stage Result} (h : Sound S) {old new : Row Worker Result}
    (hold : S.row = some old) (hclaims : new.claims = old.claims) (hheld : new.status ≠ .held) :
    Sound { S with row := some new } where
  absent h' := by cases h'
  upto row w n s hrow htask := by
    cases hrow
    rw [hclaims]
    exact h.upto old w n s hold htask
  latest row w n s hrow htask hstatus := by
    cases hrow
    exact absurd hstatus hheld
  alone := h.alone

def Event.claim? : Event Worker Note Result → Option ℕ
  | .claimed _ n => some n
  | _ => none

def Event.end? : Event Worker Note Result → Option ℕ
  | .reclaimed n => some n
  | .landed _ n _ _ => some n
  | _ => none

def Event.note? (n : ℕ) : Event Worker Note Result → Option (Worker × Note)
  | .noted w m x => if m = n then some (w, x) else none
  | _ => none

def claims (tr : List (Event Worker Note Result)) : List ℕ := tr.filterMap Event.claim?
def ends (tr : List (Event Worker Note Result)) : List ℕ := tr.filterMap Event.end?

def notes (n : ℕ) (tr : List (Event Worker Note Result)) : List (Worker × Note) :=
  tr.filterMap (Event.note? n)

theorem filterMap_append_toList {α β : Type} (f : α → Option β) (l : List α) (e : Option α) :
    (l ++ e.toList).filterMap f = l.filterMap f ++ (e.bind f).toList := by
  cases e with
  | none => simp
  | some e =>
    cases h : f e <;> simp [h]

section Append
variable (tr : List (Event Worker Note Result)) (e : Option (Event Worker Note Result))

theorem claims_append : claims (tr ++ e.toList) = claims tr ++ (e.bind Event.claim?).toList :=
  filterMap_append_toList _ tr e

theorem ends_append : ends (tr ++ e.toList) = ends tr ++ (e.bind Event.end?).toList :=
  filterMap_append_toList _ tr e

theorem notes_append (n : ℕ) :
    notes n (tr ++ e.toList) = notes n tr ++ (e.bind (Event.note? n)).toList :=
  filterMap_append_toList _ tr e

theorem notes_noted (w : Worker) (n : ℕ) (x : Option Note) (k : ℕ) :
    notes k (tr ++ (x.map (Event.noted w n)).toList) =
      notes k tr ++ if k = n then x.toList.map (Prod.mk w) else [] := by
  rw [notes_append]
  cases x with
  | none => simp
  | some x =>
    by_cases hk : k = n
    · subst hk
      simp [Event.note?]
    · simp [Event.note?, hk, Ne.symm hk]

end Append

theorem note_claim? (w : Worker) (n : ℕ) (x : Option Note) :
    (x.map fun y => (.noted w n y : Event Worker Note Result)).bind Event.claim? = none := by
  cases x <;> rfl

theorem note_end? (w : Worker) (n : ℕ) (x : Option Note) :
    (x.map fun y => (.noted w n y : Event Worker Note Result)).bind Event.end? = none := by
  cases x <;> rfl

structure Counted (tr : List (Event Worker Note Result)) (S : State Worker Stage Result) : Prop where
  absent : S.row = none → tr = []
  claims : ∀ row, S.row = some row → claims tr = List.range' 1 row.claims
  nodup : (ends tr).Nodup
  upto : ∀ row n, S.row = some row → n ∈ ends tr →
    1 ≤ n ∧ n ≤ row.claims ∧ (row.status = .held → n ≠ row.claims)
  held : ∀ row, S.row = some row → row.status = .held → 1 ≤ row.claims
  ended : ∀ row n, S.row = some row → 1 ≤ n →
    n < row.claims ∨ (n = row.claims ∧ row.status = .pending) →
    .reclaimed n ∈ tr ∨ ∃ w, .landed w n n none ∈ tr
  closed : ∀ row r, S.row = some row → row.status = .closed r →
    ∃ w, .landed w row.claims row.claims (some r) ∈ tr

theorem counted_empty : Counted ([] : List (Event Worker Note Result))
    (State.empty : State Worker Stage Result) where
  absent _ := rfl
  claims _ h := by cases h
  nodup := List.nodup_nil
  upto _ _ h := by cases h
  held _ h := by cases h
  ended _ _ h := by cases h
  closed _ _ h := by cases h

section CountedChanges
variable {tr : List (Event Worker Note Result)} {S : State Worker Stage Result}

theorem Counted.same_row (h : Counted tr S) {e : Option (Event Worker Note Result)}
    {task : Worker → Option (ℕ × Stage)} (hpresent : S.row = none → e = none)
    (hclaim : e.bind Event.claim? = none) (hend : e.bind Event.end? = none) :
    Counted (tr ++ e.toList) { S with task := task } := by
  have hclaims : Lease.claims (tr ++ e.toList) = Lease.claims tr := by
    rw [claims_append, hclaim]
    simp
  have hends : ends (tr ++ e.toList) = ends tr := by
    rw [ends_append, hend]
    simp
  constructor
  · intro hrow
    rw [h.absent hrow, hpresent hrow]
    rfl
  · intro row hrow
    rw [hclaims]
    exact h.claims row hrow
  · rw [hends]
    exact h.nodup
  · intro row n hrow hn
    rw [hends] at hn
    exact h.upto row n hrow hn
  · exact h.held
  · intro row n hrow hn hlt
    rcases h.ended row n hrow hn hlt with hre | ⟨w, hland⟩
    · exact Or.inl (List.mem_append_left _ hre)
    · exact Or.inr ⟨w, List.mem_append_left _ hland⟩
  · intro row r hrow hr
    obtain ⟨w, hland⟩ := h.closed row r hrow hr
    exact ⟨w, List.mem_append_left _ hland⟩

theorem Counted.end_claim (h : Counted tr S) {e : Event Worker Note Result}
    {holder : Option Worker} {m : ℕ} {new : Row Worker Result}
    (hrow : S.row = some ⟨.held, holder, m⟩) (hclaims : new.claims = m)
    (hheld : new.status ≠ .held) (hclaim : e.claim? = none) (hend : e.end? = some m)
    (hpending : new.status = .pending → e = .reclaimed m ∨ ∃ w, e = .landed w m m none)
    (hclosed : ∀ r, new.status = .closed r → ∃ w, e = .landed w m m (some r)) :
    Counted (tr ++ [e]) { S with row := some new } := by
  have hclaims' : Lease.claims (tr ++ [e]) = Lease.claims tr := by
    have happend := claims_append tr (some e)
    rw [Option.bind_some, hclaim] at happend
    simpa using happend
  have hends : ends (tr ++ [e]) = ends tr ++ [m] := by
    have happend := ends_append tr (some e)
    rw [Option.bind_some, hend] at happend
    simpa using happend
  have hone := h.held _ hrow rfl
  constructor
  · intro hnone
    cases hnone
  · intro row hsome
    cases hsome
    rw [hclaims', hclaims]
    exact h.claims _ hrow
  · rw [hends, List.nodup_append]
    refine ⟨h.nodup, by simp, ?_⟩
    intro n hn k hk
    rw [List.mem_singleton.mp hk]
    exact (h.upto _ n hrow hn).2.2 rfl
  · intro row n hsome hn
    cases hsome
    rw [hends, List.mem_append, List.mem_singleton] at hn
    refine ⟨?_, ?_, fun hst => absurd hst hheld⟩
    · rcases hn with hn | hn
      · exact (h.upto _ n hrow hn).1
      · rw [hn]
        exact hone
    · rw [hclaims]
      rcases hn with hn | hn
      · exact (h.upto _ n hrow hn).2.1
      · omega
  · intro row hsome hst
    cases hsome
    exact absurd hst hheld
  · intro row n hsome hn hlt
    cases hsome
    rw [hclaims] at hlt
    rcases hlt with hlt | ⟨heq, hst⟩
    · rcases h.ended _ n hrow hn (Or.inl hlt) with hre | ⟨w, hland⟩
      · exact Or.inl (List.mem_append_left _ hre)
      · exact Or.inr ⟨w, List.mem_append_left _ hland⟩
    · subst heq
      rcases hpending hst with he | ⟨w, he⟩
      · left
        simp [he]
      · right
        exact ⟨w, by simp [he]⟩
  · intro row r hsome hst
    cases hsome
    obtain ⟨w, he⟩ := hclosed r hst
    exact ⟨w, by simp [he, hclaims]⟩

theorem Counted.claim (h : Counted tr S) {w : Worker} {holder : Option Worker} {m : ℕ}
    {task : Worker → Option (ℕ × Stage)} (hrow : S.row = some ⟨.pending, holder, m⟩) :
    Counted (tr ++ [.claimed w (m + 1)]) (⟨some ⟨.held, some w, m + 1⟩, task⟩ :
      State Worker Stage Result) := by
  have hclaims : Lease.claims (tr ++ [.claimed w (m + 1)]) = Lease.claims tr ++ [m + 1] := by
    have happend := claims_append tr (some (.claimed w (m + 1)))
    simpa [Event.claim?] using happend
  have hends : ends (tr ++ [.claimed w (m + 1)]) = ends tr := by
    have happend := ends_append tr (some (.claimed w (m + 1)))
    simpa [Event.end?] using happend
  constructor
  · intro hnone
    cases hnone
  · intro row hsome
    cases hsome
    rw [hclaims, h.claims _ hrow, List.range'_concat]
    congr 2
    omega
  · rw [hends]
    exact h.nodup
  · intro row n hsome hn
    cases hsome
    rw [hends] at hn
    have hupto := h.upto _ n hrow hn
    dsimp only at hupto ⊢
    refine ⟨hupto.1, by omega, fun _ => by omega⟩
  · intro row hsome _
    cases hsome
    exact Nat.le_add_left 1 m
  · intro row n hsome hn hlt
    cases hsome
    rcases hlt with hlt | ⟨_, hst⟩
    · have hle : n < m ∨ (n = m ∧ (Status.pending : Status Result) = .pending) := by
        dsimp only at hlt
        rcases Nat.lt_or_eq_of_le (Nat.le_of_lt_succ hlt) with hlt | heq
        · exact Or.inl hlt
        · exact Or.inr ⟨heq, rfl⟩
      rcases h.ended _ n hrow hn hle with hre | ⟨v, hland⟩
      · exact Or.inl (List.mem_append_left _ hre)
      · exact Or.inr ⟨v, List.mem_append_left _ hland⟩
    · cases hst
  · intro row r hsome hst
    cases hsome
    cases hst

theorem Counted.enqueue (h : Counted tr S) (habsent : S.row = none) :
    Counted (tr ++ [.enqueued]) { S with row := some ⟨.pending, none, 0⟩ } := by
  rw [h.absent habsent]
  constructor
  · intro hnone
    cases hnone
  · intro row hsome
    cases hsome
    rfl
  · exact List.nodup_nil
  · intro row n _ hn
    cases hn
  · intro row hsome hst
    cases hsome
    cases hst
  · intro row n hsome hn hlt
    cases hsome
    dsimp only at hlt
    omega
  · intro row r hsome hst
    cases hsome
    cases hst

end CountedChanges

section ToldChanges
variable {M : Work Stage Note Result} {tr : List (Event Worker Note Result)}
  {S : State Worker Stage Result}

/-- What a trace says about the work under each claim. -/
structure Told (M : Work Stage Note Result) (tr : List (Event Worker Note Result))
    (S : State Worker Stage Result) : Prop where
  live : ∀ w n s, S.task w = some (n, s) →
    ∃ xs, notes n tr = xs.map (Prod.mk w) ∧ M.Does n xs s
  past : ∀ n, ∃ xs s, (notes n tr).map Prod.snd = xs ∧ M.Does n xs s
  upto : ∀ row n, S.row = some row → row.claims < n → notes n tr = []
  landed : ∀ w n m r, .landed w n m r ∈ tr →
    n = m ∧ ∃ xs s, notes n tr = xs.map (Prod.mk w) ∧ M.Does n xs s ∧ M.finish s = some r
  done : ∀ w n m r, .landed w n m r ∈ tr → ∀ v s, S.task v = some (n, s) → M.finish s = some r

theorem told_empty : Told M ([] : List (Event Worker Note Result))
    (State.empty : State Worker Stage Result) where
  live _ _ _ h := by cases h
  past n := ⟨[], M.first, rfl, .start⟩
  upto _ _ h := by cases h
  landed _ _ _ _ h := by cases h
  done _ _ _ _ h := by cases h

theorem Told.silent {T : State Worker Stage Result} {e : Event Worker Note Result}
    (h : Told M tr S) (hnote : ∀ n, e.note? n = none) (hland : ∀ w n m r, e ≠ .landed w n m r)
    (htask : ∀ w n s, T.task w = some (n, s) → S.task w = some (n, s) ∨
      (s = M.first ∧ notes n tr = [] ∧ ∀ v m r, .landed v n m r ∉ tr))
    (hrow : ∀ row', T.row = some row' → (∃ row, S.row = some row ∧ row.claims ≤ row'.claims) ∨ tr = []) :
    Told M (tr ++ [e]) T := by
  have hnotes : ∀ n, notes n (tr ++ [e]) = notes n tr := by
    intro n
    have happend := notes_append tr (some e) n
    rw [Option.bind_some, hnote] at happend
    simpa using happend
  have hback : ∀ w n m r, .landed w n m r ∈ tr ++ [e] → .landed w n m r ∈ tr := by
    intro w n m r hmem
    rcases List.mem_append.mp hmem with hold | hnew
    · exact hold
    · exact absurd (List.mem_singleton.mp hnew).symm (hland w n m r)
  constructor
  · intro w n s ht
    rw [hnotes]
    rcases htask w n s ht with hold | ⟨rfl, hnil, _⟩
    · exact h.live w n s hold
    · exact ⟨[], hnil, .start⟩
  · intro n
    rw [hnotes]
    exact h.past n
  · intro row' n hsome hlt
    rw [hnotes]
    rcases hrow row' hsome with ⟨row, hold, hle⟩ | hnil
    · exact h.upto row n hold (Nat.lt_of_le_of_lt hle hlt)
    · rw [hnil]
      rfl
  · intro w n m r hmem
    rw [hnotes]
    exact h.landed w n m r (hback w n m r hmem)
  · intro w n m r hmem v s ht
    rcases htask v n s ht with hold | ⟨_, _, hfree⟩
    · exact h.done w n m r (hback w n m r hmem) v s hold
    · exact absurd (hback w n m r hmem) (hfree w m r)

theorem Told.land {w : Worker} {n : ℕ} {s : Stage} {r : Option Result} (h : Told M tr S)
    (hsound : Sound S) (hcounted : Counted tr S) {holder : Option Worker}
    (htask : S.task w = some (n, s)) (hfinish : M.finish s = some r)
    (hrow : S.row = some ⟨.held, holder, n⟩) :
    Told M (tr ++ [.landed w n n r]) { S with row := some (written w n r) } := by
  have hnotes : ∀ k, notes k (tr ++ [.landed w n n r]) = notes k tr := by
    intro k
    have happend := notes_append tr (some (.landed w n n r)) k
    simpa [Event.note?] using happend
  have hfirst : ∀ v m q, .landed v n m q ∉ tr := by
    intro v m q hmem
    have hend : n ∈ ends tr := List.mem_filterMap.mpr ⟨_, hmem, rfl⟩
    exact (hcounted.upto _ n hrow hend).2.2 rfl rfl
  constructor
  · intro v k t ht
    rw [hnotes]
    exact h.live v k t ht
  · intro k
    rw [hnotes]
    exact h.past k
  · intro row k hsome hlt
    cases hsome
    rw [written_claims] at hlt
    rw [hnotes]
    exact h.upto _ k hrow hlt
  · intro v k m q hmem
    rw [hnotes]
    rcases List.mem_append.mp hmem with hold | hnew
    · exact h.landed v k m q hold
    · cases List.mem_singleton.mp hnew
      obtain ⟨xs, hxs, hdoes⟩ := h.live w n s htask
      exact ⟨rfl, xs, s, hxs, hdoes, hfinish⟩
  · intro v k m q hmem u t ht
    rcases List.mem_append.mp hmem with hold | hnew
    · exact h.done v k m q hold u t ht
    · cases List.mem_singleton.mp hnew
      have huw := hsound.alone u w n t s ht htask
      subst huw
      have hsame : t = s := by
        have heq := ht.symm.trans htask
        simpa using heq
      rw [hsame]
      exact hfinish

end ToldChanges

variable [DecidableEq Worker] (M : Work Stage Note Result)

inductive Step : State Worker Stage Result → Option (Event Worker Note Result) →
    State Worker Stage Result → Prop
  | enqueue {S : State Worker Stage Result} (absent : S.row = none) :
      Step S (some .enqueued) { S with row := some ⟨.pending, none, 0⟩ }
  | claim {S : State Worker Stage Result} {w : Worker} {holder : Option Worker} {m : ℕ}
      (row : S.row = some ⟨.pending, holder, m⟩) (free : S.task w = none) :
      Step S (some (.claimed w (m + 1)))
        ⟨some ⟨.held, some w, m + 1⟩, Function.update S.task w (some (m + 1, M.first))⟩
  | reclaim {S : State Worker Stage Result} {holder : Option Worker} {m : ℕ}
      (row : S.row = some ⟨.held, holder, m⟩) :
      Step S (some (.reclaimed m)) { S with row := some ⟨.pending, none, m⟩ }
  | work {S : State Worker Stage Result} {w : Worker} {n : ℕ} {s s' : Stage} {x : Option Note}
      (task : S.task w = some (n, s)) (move : M.move n s x s') :
      Step S (x.map (.noted w n)) { S with task := Function.update S.task w (some (n, s')) }
  | land {S : State Worker Stage Result} {w : Worker} {n m : ℕ} {s : Stage} {r : Option Result}
      (task : S.task w = some (n, s)) (finish : M.finish s = some r)
      (row : S.row = some ⟨.held, some w, m⟩) :
      Step S (some (.landed w n m r)) { S with row := some (written w m r) }
  | drop {S : State Worker Stage Result} (w : Worker) :
      Step S none { S with task := Function.update S.task w none }

inductive Runs (S : State Worker Stage Result) : List (Event Worker Note Result) →
    State Worker Stage Result → Prop
  | start : Runs S [] S
  | next {tr : List (Event Worker Note Result)} {T U : State Worker Stage Result}
      {e : Option (Event Worker Note Result)} (tail : Runs S tr T) (h : Step M T e U) :
      Runs S (tr ++ e.toList) U

variable {M}

theorem Runs.one {S T : State Worker Stage Result} {e : Option (Event Worker Note Result)}
    (h : Step M S e T) : Runs M S e.toList T := by
  simpa using Runs.next .start h

theorem Runs.trans {S T U : State Worker Stage Result} {tr tr' : List (Event Worker Note Result)}
    (h : Runs M S tr T) (h' : Runs M T tr' U) : Runs M S (tr ++ tr') U := by
  induction h' with
  | start => simpa using h
  | next _ hs ih => rw [← List.append_assoc]; exact .next ih hs

theorem update_eq_some {α : Type} {f : Worker → Option α} {w v : Worker} {t : Option α} {x : α}
    (h : Function.update f w t v = some x) : (v = w ∧ t = some x) ∨ (v ≠ w ∧ f v = some x) := by
  by_cases hvw : v = w
  · subst hvw
    rw [Function.update_self] at h
    exact Or.inl ⟨rfl, h⟩
  · rw [Function.update_of_ne hvw] at h
    exact Or.inr ⟨hvw, h⟩

theorem Sound.retask {S : State Worker Stage Result} (h : Sound S) {w : Worker}
    {t : Option (ℕ × Stage)} (ht : ∀ n s, t = some (n, s) → ∃ s', S.task w = some (n, s')) :
    Sound { S with task := Function.update S.task w t } := by
  have hback : ∀ v n s, Function.update S.task w t v = some (n, s) →
      ∃ s', S.task v = some (n, s') := by
    intro v n s hv
    rcases update_eq_some hv with ⟨rfl, hnew⟩ | ⟨_, hold⟩
    · exact ht n s hnew
    · exact ⟨s, hold⟩
  constructor
  · intro hrow v
    cases hv : Function.update S.task w t v with
    | none => exact hv
    | some ns =>
      obtain ⟨s', hs'⟩ := hback v ns.1 ns.2 hv
      rw [h.absent hrow v] at hs'
      cases hs'
  · intro row v n s hrow hv
    obtain ⟨s', hs'⟩ := hback v n s hv
    exact h.upto row v n s' hrow hs'
  · intro row v n s hrow hv
    obtain ⟨s', hs'⟩ := hback v n s hv
    exact h.latest row v n s' hrow hs'
  · intro v v' n s s' hv hv'
    obtain ⟨u, hu⟩ := hback v n s hv
    obtain ⟨u', hu'⟩ := hback v' n s' hv'
    exact h.alone v v' n u u' hu hu'

/-- A new claim exceeds every claim under which anybody still works. -/
theorem Sound.claim {S : State Worker Stage Result} (h : Sound S) {w : Worker}
    {holder : Option Worker} {m : ℕ} {s : Stage} (hrow : S.row = some ⟨.pending, holder, m⟩) :
    Sound (⟨some ⟨.held, some w, m + 1⟩, Function.update S.task w (some (m + 1, s))⟩ :
      State Worker Stage Result) := by
  have hcases : ∀ v k t, Function.update S.task w (some (m + 1, s)) v = some (k, t) →
      (v = w ∧ k = m + 1) ∨ (v ≠ w ∧ S.task v = some (k, t) ∧ 1 ≤ k ∧ k ≤ m) := by
    intro v k t hv
    rcases update_eq_some hv with ⟨hvw, hnew⟩ | ⟨hvw, hold⟩
    · cases hnew
      exact Or.inl ⟨hvw, rfl⟩
    · exact Or.inr ⟨hvw, hold, h.upto _ v k t hrow hold⟩
  constructor
  · intro hnone
    cases hnone
  · intro row v k t hsome hv
    cases hsome
    rcases hcases v k t hv with ⟨_, hk⟩ | ⟨_, _, hk⟩ <;> dsimp only <;> omega
  · intro row v k t hsome hv _ hholder
    cases hsome
    rcases hcases v k t hv with ⟨_, hk⟩ | ⟨hne, _, _⟩
    · exact hk
    · exact absurd (Option.some.inj hholder).symm hne
  · intro v v' k t t' hv hv'
    rcases hcases v k t hv with ⟨hw, hk⟩ | ⟨_, ht, hk⟩
    · rcases hcases v' k t' hv' with ⟨hw', _⟩ | ⟨_, _, hk'⟩
      · rw [hw, hw']
      · omega
    · rcases hcases v' k t' hv' with ⟨_, hk'⟩ | ⟨_, ht', _⟩
      · omega
      · exact h.alone v v' k t t' ht ht'

theorem Sound.step {S T : State Worker Stage Result} {e : Option (Event Worker Note Result)}
    (h : Sound S) (hs : Step M S e T) : Sound T := by
  cases hs with
  | enqueue absent =>
    constructor
    · intro hnone
      cases hnone
    · intro row w n s _ htask
      rw [h.absent absent w] at htask
      cases htask
    · intro row w n s _ htask
      rw [h.absent absent w] at htask
      cases htask
    · exact h.alone
  | claim row free => exact h.claim row
  | reclaim row => exact h.row_change row rfl (by simp)
  | @work w n s s' _ task move =>
    apply h.retask
    intro k t ht
    cases ht
    exact ⟨s, task⟩
  | land task finish row =>
    exact h.row_change row (written_claims _ _ _) (written_not_held _ _ _)
  | drop w => exact h.retask (by simp)

theorem Runs.sound {tr : List (Event Worker Note Result)} {S : State Worker Stage Result}
    (h : Runs M .empty tr S) : Sound S := by
  induction h with
  | start => exact sound_empty
  | next _ hs ih => exact ih.step hs

section CountedSteps
variable {tr : List (Event Worker Note Result)} {S : State Worker Stage Result}

theorem Counted.step {T : State Worker Stage Result} {e : Option (Event Worker Note Result)}
    (h : Counted tr S) (hsound : Sound S) (hs : Step M S e T) : Counted (tr ++ e.toList) T := by
  cases hs with
  | enqueue absent => exact h.enqueue absent
  | claim row free => exact h.claim row
  | reclaim row =>
    exact h.end_claim row rfl (by simp) rfl rfl (fun _ => Or.inl rfl) (fun r hr => by cases hr)
  | work task move =>
    refine h.same_row ?_ (note_claim? _ _ _) (note_end? _ _ _)
    intro hnone
    rw [hsound.absent hnone] at task
    cases task
  | @land w n m s r task finish row =>
    have hlatest : n = m := hsound.latest _ w n s row task rfl rfl
    subst hlatest
    refine h.end_claim row (written_claims _ _ _) (written_not_held _ _ _) rfl rfl ?_ ?_
    · intro hst
      cases r with
      | none => exact Or.inr ⟨w, rfl⟩
      | some r => cases hst
    · intro r' hst
      cases r with
      | none => cases hst
      | some r =>
        cases hst
        exact ⟨w, rfl⟩
  | drop w => exact h.same_row (fun _ => rfl) rfl rfl

theorem Runs.counted (h : Runs M .empty tr S) : Counted tr S := by
  induction h with
  | start => exact counted_empty
  | next tail hs ih => exact ih.step tail.sound hs

end CountedSteps

section Notes
variable {tr : List (Event Worker Note Result)} {S : State Worker Stage Result}

theorem Told.work {w : Worker} {n : ℕ} {s s' : Stage} {x : Option Note} (h : Told M tr S)
    (hsound : Sound S) (htask : S.task w = some (n, s)) (hmove : M.move n s x s') :
    Told M (tr ++ (x.map (Event.noted w n)).toList)
      { S with task := Function.update S.task w (some (n, s')) } := by
  have hlanded : ∀ v k m r, .landed v k m r ∈ tr ++ (x.map (Event.noted w n)).toList →
      .landed v k m r ∈ tr := by
    intro v k m r hmem
    rcases List.mem_append.mp hmem with hold | hnew
    · exact hold
    · cases x with
      | none => cases hnew
      | some x => cases List.mem_singleton.mp hnew
  obtain ⟨xs, hxs, hdoes⟩ := h.live w n s htask
  have hlive : notes n (tr ++ (x.map (Event.noted w n)).toList) =
      (xs ++ x.toList).map (Prod.mk w) := by
    rw [notes_noted, if_pos rfl, hxs, List.map_append]
  have hother : ∀ k, k ≠ n → notes k (tr ++ (x.map (Event.noted w n)).toList) = notes k tr := by
    intro k hk
    rw [notes_noted, if_neg hk, List.append_nil]
  constructor
  · intro v k t ht
    rcases update_eq_some ht with ⟨rfl, hnew⟩ | ⟨hvw, hold⟩
    · cases hnew
      exact ⟨xs ++ x.toList, hlive, hdoes.move hmove⟩
    · have hk : k ≠ n := by
        intro heq
        subst heq
        exact hvw (hsound.alone v w k t s hold htask)
      rw [hother k hk]
      exact h.live v k t hold
  · intro k
    by_cases hk : k = n
    · subst hk
      refine ⟨xs ++ x.toList, s', ?_, hdoes.move hmove⟩
      rw [hlive]
      simp [Function.comp_def]
    · rw [hother k hk]
      exact h.past k
  · intro row k hrow hlt
    have hk : k ≠ n := by
      have hle := (hsound.upto row w n s hrow htask).2
      omega
    rw [hother k hk]
    exact h.upto row k hrow hlt
  · intro v k m r hmem
    have hold := hlanded v k m r hmem
    obtain ⟨hkm, ys, t, hys, hd, hf⟩ := h.landed v k m r hold
    refine ⟨hkm, ?_⟩
    by_cases hk : k = n
    · subst hk
      have hfinish := h.done v k m r hold w s htask
      obtain ⟨rfl, hfinish'⟩ := M.settled hfinish hmove
      refine ⟨ys, t, ?_, hd, hf⟩
      rw [notes_noted, if_pos rfl, hys]
      simp
    · rw [hother k hk]
      exact ⟨ys, t, hys, hd, hf⟩
  · intro v k m r hmem u t ht
    have hland := hlanded v k m r hmem
    rcases update_eq_some ht with ⟨rfl, hnew⟩ | ⟨_, hold⟩
    · cases hnew
      exact (M.settled (h.done v n m r hland u s htask) hmove).2
    · exact h.done v k m r hland u t hold

theorem Told.step {T : State Worker Stage Result} {e : Option (Event Worker Note Result)}
    (h : Told M tr S) (hsound : Sound S) (hcounted : Counted tr S) (hs : Step M S e T) :
    Told M (tr ++ e.toList) T := by
  cases hs with
  | enqueue absent =>
    refine h.silent (fun _ => rfl) (by simp) (fun _ _ _ ht => Or.inl ht) ?_
    intro row' _
    exact Or.inr (hcounted.absent absent)
  | @claim w holder m row free =>
    refine h.silent (fun _ => rfl) (by simp) ?_ ?_
    · intro v n s ht
      rcases update_eq_some ht with ⟨_, hnew⟩ | ⟨_, hold⟩
      · cases hnew
        refine Or.inr ⟨rfl, h.upto _ _ row (Nat.lt_succ_self m), ?_⟩
        intro u k r hmem
        have hend : m + 1 ∈ ends tr := List.mem_filterMap.mpr ⟨_, hmem, rfl⟩
        have hle : m + 1 ≤ m := (hcounted.upto _ _ row hend).2.1
        omega
      · exact Or.inl hold
    · intro row' hsome
      cases hsome
      exact Or.inl ⟨_, row, Nat.le_succ m⟩
  | @reclaim holder m row =>
    refine h.silent (fun _ => rfl) (by simp) (fun _ _ _ ht => Or.inl ht) ?_
    intro row' hsome
    cases hsome
    exact Or.inl ⟨_, row, le_rfl⟩
  | work task move => exact h.work hsound task move
  | @land w n m s r task finish row =>
    have hlatest : n = m := hsound.latest _ w n s row task rfl rfl
    subst hlatest
    exact h.land hsound hcounted task finish row
  | drop w =>
    rw [Option.toList_none, List.append_nil]
    have hback : ∀ v n s, Function.update S.task w none v = some (n, s) →
        S.task v = some (n, s) := by
      intro v n s hv
      rcases update_eq_some hv with ⟨_, hnew⟩ | ⟨_, hold⟩
      · cases hnew
      · exact hold
    constructor
    · intro v n s hv
      exact h.live v n s (hback v n s hv)
    · exact h.past
    · exact h.upto
    · exact h.landed
    · intro v n m r hmem u s hu
      exact h.done v n m r hmem u s (hback u n s hu)

theorem Runs.told (h : Runs M .empty tr S) : Told M tr S := by
  induction h with
  | start => exact told_empty
  | next tail hs ih => exact ih.step tail.sound tail.counted hs

/-- At a write, the work under the claim had come to a stage that writes just this. -/
theorem Runs.landed_before (h : Runs M .empty tr S) {tr₁ tr₂ : List (Event Worker Note Result)}
    {w : Worker} {n m : ℕ} {r : Option Result} (htr : tr = tr₁ ++ .landed w n m r :: tr₂) :
    ∃ xs s, notes n tr₁ = xs.map (Prod.mk w) ∧ M.Does n xs s ∧ M.finish s = some r := by
  induction h generalizing tr₂ with
  | start => simp at htr
  | @next tr T U e tail hs ih =>
    cases e with
    | none => exact ih (by simpa using htr)
    | some e =>
      rcases List.eq_nil_or_concat tr₂ with rfl | ⟨tr₃, o, rfl⟩
      · obtain ⟨rfl, he⟩ := List.append_inj' htr rfl
        have hland : e = .landed w n m r := by simpa using he
        subst hland
        generalize he' : some (Event.landed w n m r) = e' at hs
        cases hs with
        | @land v k l s q task finish row =>
          cases he'
          obtain ⟨xs, hxs, hdoes⟩ := tail.told.live w n s task
          exact ⟨xs, s, hxs, hdoes, finish⟩
        | @work _ _ _ _ x => cases x <;> cases he'
        | _ => cases he'
      · rw [List.concat_eq_append, ← List.cons_append, ← List.append_assoc] at htr
        exact ih (List.append_inj' htr rfl).1

end Notes

theorem Runs.kept {S T : State Worker Stage Result} {tr : List (Event Worker Note Result)}
    (h : Runs M S tr T) (hrow : S.row ≠ none) : T.row ≠ none := by
  induction h with
  | start => exact hrow
  | next _ hs ih =>
    cases hs with
    | work => exact ih
    | drop => exact ih
    | _ => simp

theorem Runs.closed {S T : State Worker Stage Result} {tr : List (Event Worker Note Result)}
    (h : Runs M S tr T) {row : Row Worker Result} {r : Result} (hrow : S.row = some row)
    (hr : row.status = .closed r) : T.row = some row := by
  induction h with
  | start => exact hrow
  | next _ hs ih =>
    have refused : ∀ {row' : Row Worker Result}, some row' = some row → row'.status ≠ .closed r →
        False := by
      intro row' heq hne
      cases heq
      exact hne hr
    cases hs with
    | enqueue absent =>
      rw [absent] at ih
      cases ih
    | claim row' => exact (refused (row'.symm.trans ih) (by simp)).elim
    | reclaim row' => exact (refused (row'.symm.trans ih) (by simp)).elim
    | land _ _ row' => exact (refused (row'.symm.trans ih) (by simp)).elim
    | work => exact ih
    | drop => exact ih

end Machine
end Lease
