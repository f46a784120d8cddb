import Hefest.Lib.Transaction

set_option autoImplicit false

/-!
# What interleaved statements keep

Three rules for runs of `Transaction.System`. A relation in which every write of the programs moves
up is kept by the committed database. A property of the database is kept by writes that what was
read before justifies, as long as no commit takes away what others have read. And what a session
has read under its row locks stays true until its transaction ends: the locks of two sessions never
conflict, and a session changes only what its own locks guard.
-/
namespace Transaction

section Schedules
variable {σ κ ε α ι : Type} [Lock κ] [DecidableEq ι] [Fintype ι]

/-- The scheduler offers call `i` its turn; a call that is over or waits for a lock passes. -/
def offer (i : ι) (S : System σ κ ε α ι) : System σ κ ε α ι := ((step S i).map Prod.fst).getD S

theorem step_emits {S S' : System σ κ ε α ι} {i : ι} {os : List ι} (h : step S i = some (S', os)) :
    os = [i] := by
  unfold step at h
  split at h
  · cases h
  · cases h
    rfl

theorem offer_of_step {S S' : System σ κ ε α ι} {i : ι} {os : List ι}
    (h : step S i = some (S', os)) : offer i S = S' := by
  simp [offer, h]

theorem offer_cases (S : System σ κ ε α ι) (i : ι) :
    (step S i = none ∧ offer i S = S) ∨
      ((S.session i).isFinished = false ∧ (∀ j, ¬ Waits S i j) ∧ (step S i).isSome ∧
        (offer i S).committed = ((S.session i).advance S.committed).1 ∧
        (offer i S).session = Function.update S.session i ((S.session i).advance S.committed).2) := by
  cases hs : step S i with
  | none =>
    left
    exact ⟨rfl, by simp [offer, hs]⟩
  | some next =>
    right
    obtain ⟨S', os⟩ := next
    rw [offer_of_step hs]
    have h := step_cases hs
    exact ⟨h.1, h.2.1, rfl, h.2.2⟩

theorem session_of_not_mem {S T : System σ κ ε α ι} {i : ι} {tr : List ι}
    (h : Transition.Run step S tr T) (hi : i ∉ tr) : T.session i = S.session i := by
  induction h with
  | start => rfl
  | @next tr os T U j tail hs ih =>
    rw [List.mem_append, not_or] at hi
    have hj : i ≠ j := by
      intro hij
      apply hi.2
      rw [hij, step_emits hs]
      exact List.mem_singleton_self j
    obtain ⟨_, _, _, hsession⟩ := step_cases hs
    rw [hsession, Function.update_of_ne hj]
    exact ih hi.1

theorem session_of_finished {S T : System σ κ ε α ι} {i : ι} {tr : List ι}
    (h : Transition.Run step S tr T) (hdone : (S.session i).isFinished = true) :
    T.session i = S.session i := by
  induction h with
  | start => rfl
  | @next tr os T U j tail hs ih =>
    obtain ⟨hrunning, _, _, hsession⟩ := step_cases hs
    have hj : i ≠ j := by
      rintro rfl
      rw [ih, hdone] at hrunning
      cases hrunning
    rw [hsession, Function.update_of_ne hj]
    exact ih

end Schedules

section Writes
variable {σ κ ε α β : Type} (R : σ → σ → Prop)

def Prog.Writes : Prog σ κ ε α → Prop
  | .ret _ => True
  | .raise _ => True
  | .stmt s k => (∀ seen x, R x (s.write seen x)) ∧ ∀ r, (k r).Writes
  | .transaction p => p.Writes

def Session.Writes : Session σ κ ε α → Prop
  | .auto p => p.Writes R
  | .inside p w _ => p.Writes R ∧ ∀ x, R x (w x)
  | .finished _ => True

variable {R}

theorem Prog.Writes.map {p : Prog σ κ ε α} (h : p.Writes R) (f : α → β) : (p.map f).Writes R := by
  induction p with
  | ret a => trivial
  | raise e => trivial
  | stmt s k ih => exact ⟨h.1, fun r => ih r (h.2 r)⟩
  | transaction p ih => exact ih h

theorem Session.Writes.advance (refl : ∀ x, R x x) (trans : ∀ x y z, R x y → R y z → R x z)
    {s : Session σ κ ε α} (h : s.Writes R) (db : σ) :
    R db (s.advance db).1 ∧ (s.advance db).2.Writes R := by
  cases s with
  | auto p =>
    cases p with
    | ret a => exact ⟨refl db, trivial⟩
    | raise e => exact ⟨refl db, trivial⟩
    | stmt s k => exact ⟨h.1 db db, h.2 _⟩
    | transaction p => exact ⟨refl db, h, refl⟩
  | inside p w held =>
    cases p with
    | ret a => exact ⟨h.2 db, trivial⟩
    | raise e => exact ⟨refl db, trivial⟩
    | stmt s k =>
      refine ⟨refl db, h.1.2 _, ?_⟩
      intro x
      exact trans _ _ _ (h.2 x) (h.1.1 _ _)
    | transaction p => exact ⟨refl db, h⟩
  | finished r => exact ⟨refl db, trivial⟩

def Session.Atomic : Session σ κ ε α → Prop
  | .auto p => ∃ body, p = .transaction body
  | _ => True

theorem Session.Atomic.advance {s : Session σ κ ε α} (h : s.Atomic) (db : σ) :
    (s.advance db).2.Atomic := by
  cases s with
  | auto p =>
    obtain ⟨body, rfl⟩ := h
    trivial
  | inside p w held => cases p <;> trivial
  | finished r => trivial

theorem Session.Atomic.commits {s : Session σ κ ε α} (h : s.Atomic) (db : σ) :
    (s.advance db).1 = db ∨
      ∃ a w held, s = .inside (.ret a) w held ∧ (s.advance db).1 = w db := by
  cases s with
  | auto p =>
    obtain ⟨body, rfl⟩ := h
    exact Or.inl rfl
  | inside p w held =>
    cases p with
    | ret a => exact Or.inr ⟨a, w, held, rfl, rfl⟩
    | _ => exact Or.inl rfl
  | finished r => exact Or.inl rfl

end Writes

section Justified
variable {σ κ ε α β : Type} (Le : σ → σ → Prop) (Ok : σ → Prop)

/-- A write, fixed when its transaction saw `seen`, that may be replayed on any later database. -/
structure Replays (seen : σ) (w : σ → σ) : Prop where
  grows : ∀ x, Le seen x → Ok x → Le x (w x)
  ok : ∀ x, Le seen x → Ok x → Ok (w x)
  mono : ∀ x y, Le seen x → Le x y → Le (w x) (w y)

/-- Whatever the program sees, as long as it is above `v`, its writes keep the database growing and
    `Ok`; each statement puts what follows above what it has left. -/
def Prog.Keeps : Prog σ κ ε α → σ → Prop
  | .ret _, _ => True
  | .raise _, _ => True
  | .stmt s k, v => ∀ u, Le v u → Ok u → Replays Le Ok u (s.write u) ∧
      (k (s.result u)).Keeps (s.write u u)
  | .transaction p, v => p.Keeps v

def Session.Keeps (db : σ) : Session σ κ ε α → Prop
  | .auto p => p.Keeps Le Ok db
  | .inside p w _ => Replays Le Ok db w ∧ p.Keeps Le Ok (w db)
  | .finished _ => True

variable {Le Ok}

theorem Prog.Keeps.map {p : Prog σ κ ε α} {v : σ} (h : p.Keeps Le Ok v) (f : α → β) :
    (p.map f).Keeps Le Ok v := by
  induction p generalizing v with
  | ret a => trivial
  | raise e => trivial
  | stmt s k ih =>
    intro u hu hok
    exact ⟨(h u hu hok).1, ih _ (h u hu hok).2⟩
  | transaction p ih => exact ih h

section Growth
variable (refl : ∀ x, Le x x) (trans : ∀ x y z, Le x y → Le y z → Le x z)
include trans

theorem Prog.Keeps.mono {p : Prog σ κ ε α} {v v' : σ} (h : p.Keeps Le Ok v) (hv : Le v v') :
    p.Keeps Le Ok v' := by
  induction p generalizing v v' with
  | ret a => trivial
  | raise e => trivial
  | stmt s k ih =>
    intro u hu hok
    exact h u (trans _ _ _ hv hu) hok
  | transaction p ih => exact ih h hv

theorem Session.Keeps.mono {s : Session σ κ ε α} {db db' : σ} (h : s.Keeps Le Ok db)
    (hdb : Le db db') (hself : Le db db) : s.Keeps Le Ok db' := by
  cases s with
  | auto p => exact Prog.Keeps.mono trans h hdb
  | inside p w held =>
    obtain ⟨hw, hp⟩ := h
    refine ⟨⟨?_, ?_, ?_⟩, Prog.Keeps.mono trans hp (hw.mono db db' hself hdb)⟩
    · intro x hx
      exact hw.grows x (trans _ _ _ hdb hx)
    · intro x hx
      exact hw.ok x (trans _ _ _ hdb hx)
    · intro x y hx
      exact hw.mono x y (trans _ _ _ hdb hx)
  | finished r => trivial

include refl

theorem Session.Keeps.advance {s : Session σ κ ε α} {db : σ} (h : s.Keeps Le Ok db) (hok : Ok db) :
    Le db (s.advance db).1 ∧ Ok (s.advance db).1 ∧ (s.advance db).2.Keeps Le Ok (s.advance db).1 := by
  cases s with
  | auto p =>
    cases p with
    | ret a => exact ⟨refl db, hok, trivial⟩
    | raise e => exact ⟨refl db, hok, trivial⟩
    | stmt s k =>
      obtain ⟨hw, hk⟩ := h db (refl db) hok
      exact ⟨hw.grows db (refl db) hok, hw.ok db (refl db) hok, hk⟩
    | transaction p =>
      exact ⟨refl db, hok, ⟨fun x _ _ => refl x, fun _ _ hx => hx, fun _ _ _ hxy => hxy⟩, h⟩
  | inside p w held =>
    obtain ⟨hw, hp⟩ := h
    have hview : Ok (w db) := hw.ok db (refl db) hok
    cases p with
    | ret a => exact ⟨hw.grows db (refl db) hok, hview, trivial⟩
    | raise e => exact ⟨refl db, hok, trivial⟩
    | stmt s k =>
      obtain ⟨hs, hk⟩ := hp (w db) (refl _) hview
      refine ⟨refl db, hok, ⟨?_, ?_, ?_⟩, hk⟩
      · intro x hx hxok
        have habove : Le (w db) (w x) := hw.mono db x (refl db) hx
        exact trans _ _ _ (hw.grows x hx hxok) (hs.grows (w x) habove (hw.ok x hx hxok))
      · intro x hx hxok
        exact hs.ok (w x) (hw.mono db x (refl db) hx) (hw.ok x hx hxok)
      · intro x y hx hxy
        exact hs.mono (w x) (w y) (hw.mono db x (refl db) hx) (hw.mono x y hx hxy)
    | transaction p => exact ⟨refl db, hok, hw, hp⟩
  | finished r => exact ⟨refl db, hok, trivial⟩

variable {ι : Type} [Lock κ] [DecidableEq ι] [Fintype ι]

/-- However calls that keep it are interleaved, the committed database stays `Ok` and grows. -/
theorem keeps_run {progs : ι → Prog σ κ ε α} {db : σ} {S : System σ κ ε α ι} {tr : List ι}
    (hok : Ok db) (h : ∀ i, (progs i).Keeps Le Ok db)
    (hrun : Transition.Run step (start progs db) tr S) :
    Le db S.committed ∧ Ok S.committed ∧ ∀ i, (S.session i).Keeps Le Ok S.committed := by
  induction hrun with
  | start => exact ⟨refl db, hok, h⟩
  | @next tr os S T i tail hs ih =>
    obtain ⟨hle, hcommitted, hkeeps⟩ := ih
    obtain ⟨_, _, hnext, hsession⟩ := step_cases hs
    obtain ⟨hgrow, hokNext, hown⟩ := Session.Keeps.advance refl trans (hkeeps i) hcommitted
    rw [hnext, hsession]
    refine ⟨trans _ _ _ hle hgrow, hokNext, ?_⟩
    intro j
    by_cases hj : j = i
    · subst hj
      rw [Function.update_self]
      exact hown
    · rw [Function.update_of_ne hj]
      exact (hkeeps j).mono trans hgrow (refl _)

end Growth
end Justified

section Locks
variable {σ κ ε α ι : Type} [Lock κ]

omit [Lock κ] in
theorem Session.held_advance (s : Session σ κ ε α) (db : σ) {a : κ}
    (h : a ∈ (s.advance db).2.held) : a ∈ s.wants db ++ s.held := by
  cases s with
  | auto p => cases p <;> cases h
  | inside p w held =>
    cases p with
    | stmt s k => exact h
    | transaction p => exact List.mem_append_right _ h
    | ret a => cases h
    | raise e => cases h
  | finished r => cases h

/-- `Same a x y` says that what the lock `a` guards is the same in both databases. A change lies
    within some locks if whatever conflicts with none of them stays. -/
def ChangesWithin (Same : κ → σ → σ → Prop) (locks : List κ) (x y : σ) : Prop :=
  ∀ a, (∀ b ∈ locks, Lock.conflict a b = false) → Same a x y

variable (Same : κ → σ → σ → Prop) (Move : σ → σ → Prop) (Stage : σ → ι → Session σ κ ε α → Prop)

/-- `Stage db i s` says where session `s` of call `i` stands and what it knows of the committed
    database `db`. Its own statements keep that up and change only what their locks guard; it
    survives every other commit that leaves alone what its locks guard. -/
structure Discipline : Prop where
  symm : ∀ a b : κ, Lock.conflict a b = Lock.conflict b a
  advance : ∀ db i s, Stage db i s → s.isFinished = false →
    Move db (s.advance db).1 ∧ Stage (s.advance db).1 i (s.advance db).2 ∧
      ChangesWithin Same (s.wants db ++ s.held) db (s.advance db).1
  stable : ∀ db db' i s, Stage db i s → Move db db' → (∀ a ∈ s.held, Same a db db') →
    Stage db' i s

/-- Every session is at its stage, and the locks of two sessions do not conflict. -/
structure Disciplined (S : System σ κ ε α ι) : Prop where
  stage : ∀ i, Stage S.committed i (S.session i)
  apart : ∀ i j, i ≠ j → ∀ a ∈ (S.session i).held, ∀ b ∈ (S.session j).held,
    Lock.conflict a b = false

variable {Same Move Stage}

theorem disciplined_start {progs : ι → Prog σ κ ε α} {db : σ}
    (h : ∀ i, Stage db i (.auto (progs i))) : Disciplined Stage (start progs db) where
  stage := h
  apart _ _ _ _ ha := by cases ha

variable [DecidableEq ι] [Fintype ι]

/-- The locks that a step needs or holds conflict with none of another session. -/
theorem Disciplined.step_apart (hd : Discipline Same Move Stage) {S S' : System σ κ ε α ι} {i : ι}
    {os : List ι} (h : Disciplined Stage S) (hs : step S i = some (S', os)) {j : ι} (hj : j ≠ i) :
    ∀ a ∈ (S.session j).held,
      ∀ b ∈ (S.session i).wants S.committed ++ (S.session i).held, Lock.conflict a b = false := by
  obtain ⟨_, hfree, _, _⟩ := step_cases hs
  intro a ha b hb
  rw [hd.symm]
  rcases List.mem_append.mp hb with hwant | hheld
  · by_contra hconflict
    exact hfree j ⟨hj, b, hwant, a, ha, by simpa using hconflict⟩
  · exact h.apart i j hj.symm b hheld a ha

/-- A step leaves alone what the locks of another session guard. -/
theorem Disciplined.step_same (hd : Discipline Same Move Stage) {S S' : System σ κ ε α ι} {i : ι}
    {os : List ι} (h : Disciplined Stage S) (hs : step S i = some (S', os)) {j : ι} (hj : j ≠ i) :
    ∀ a ∈ (S.session j).held, Same a S.committed S'.committed := by
  obtain ⟨hrunning, _, hcommitted, _⟩ := step_cases hs
  intro a ha
  rw [hcommitted]
  exact (hd.advance S.committed i (S.session i) (h.stage i) hrunning).2.2 a
    (h.step_apart hd hs hj a ha)

theorem Disciplined.turn (hd : Discipline Same Move Stage) {S S' : System σ κ ε α ι} {i : ι}
    {os : List ι} (h : Disciplined Stage S) (hs : step S i = some (S', os)) :
    Disciplined Stage S' ∧ Move S.committed S'.committed := by
  obtain ⟨hrunning, _, hcommitted, hsession⟩ := step_cases hs
  have hown := hd.advance S.committed i (S.session i) (h.stage i) hrunning
  refine ⟨⟨?_, ?_⟩, ?_⟩
  · intro j
    by_cases hj : j = i
    · subst hj
      rw [hcommitted, hsession, Function.update_self]
      exact hown.2.1
    · have hsame := h.step_same hd hs hj
      rw [hcommitted] at hsame ⊢
      rw [hsession, Function.update_of_ne hj]
      exact hd.stable _ _ _ _ (h.stage j) hown.1 hsame
  · intro j k hjk a ha b hb
    rw [hsession] at ha hb
    by_cases hj : j = i
    · subst hj
      rw [Function.update_self] at ha
      rw [Function.update_of_ne hjk.symm] at hb
      rw [hd.symm]
      exact h.step_apart hd hs hjk.symm b hb a ((S.session j).held_advance S.committed ha)
    · rw [Function.update_of_ne hj] at ha
      by_cases hk : k = i
      · subst hk
        rw [Function.update_self] at hb
        exact h.step_apart hd hs hj a ha b ((S.session k).held_advance S.committed hb)
      · rw [Function.update_of_ne hk] at hb
        exact h.apart j k hjk a ha b hb
  · rw [hcommitted]
    exact hown.1

theorem Disciplined.run (hd : Discipline Same Move Stage) {S T : System σ κ ε α ι} {tr : List ι}
    (h : Disciplined Stage S) (hrun : Transition.Run step S tr T) : Disciplined Stage T := by
  induction hrun with
  | start => exact h
  | next _ hs ih => exact (ih.turn hd hs).1

end Locks
end Transaction
