import Mathlib.Data.String.Basic
import Mathlib.Tactic.Linarith
import Hefest.RateLimit

set_option autoImplicit false

namespace Hefest
open Transition

instance : Std.Total ZEntry.before where
  total a b := by
    rcases lt_trichotomy a.score b.score with h | h | h
    · exact Or.inl (Or.inl h)
    · rcases le_total a.member b.member with hm | hm
      · exact Or.inl (Or.inr ⟨h, hm⟩)
      · exact Or.inr (Or.inr ⟨h.symm, hm⟩)
    · exact Or.inr (Or.inl h)

instance : IsTrans ZEntry ZEntry.before where
  trans a b c hab hbc := by
    rcases hab with hab | ⟨hab, hm⟩
    · rcases hbc with hbc | ⟨hbc, _⟩
      · exact Or.inl (hab.trans hbc)
      · exact Or.inl (hbc ▸ hab)
    · rcases hbc with hbc | ⟨hbc, hm'⟩
      · exact Or.inl (hab ▸ hbc)
      · exact Or.inr ⟨hab.trans hbc, hm.trans hm'⟩

theorem ZEntry.score_le_of_before {a b : ZEntry} (h : a.before b) : a.score ≤ b.score := by
  rcases h with h | ⟨h, _⟩
  · exact h.le
  · exact h.le

theorem ZKey.oldest_le {k : ZKey} {e : ZEntry} (h : k.oldest = some e) :
    ∀ e' ∈ k.entries, e.score ≤ e'.score := by
  intro e' he'
  rcases Table.first_least ZEntry.before h e' he' with rfl | hbefore
  · exact le_refl _
  · exact ZEntry.score_le_of_before hbefore

structure KeyState where
  key : ZKey := {}
  clock : ℚ

def KeyState.found (expiry : Bool) (S : KeyState) (r : ScriptCall) : ZKey :=
  if expiry && S.key.lapsed r.now r.atDeadline then {} else S.key

/-- One execution of the script, at a reading of the clock that is not before the last one. -/
def scriptStep (expiry : Bool) (window : ℚ) (limit : ℤ) (S : KeyState) (r : ScriptCall) :
    Option (KeyState × List LimiterReply) :=
  if S.clock ≤ r.now then
    let result := slidingWindow r.now window limit r.member (S.found expiry r)
    some (⟨result.1, r.now⟩, [result.2])
  else none

structure Bounded (window : ℚ) (limit : ℤ) (S : KeyState) : Prop where
  card : (S.key.entries.length : ℤ) ≤ limit
  past : ∀ e ∈ S.key.entries, e.score ≤ S.clock
  deadline : ∀ d, S.key.expiresAt = some d → ∀ e ∈ S.key.entries, e.score + window ≤ d

section Step
variable {expiry : Bool} {window : ℚ} {limit : ℤ} {S S' : KeyState} {r : ScriptCall}
  {replies : List LimiterReply}

def KeyState.evicted (expiry : Bool) (window : ℚ) (S : KeyState) (r : ScriptCall) : ZKey :=
  (S.found expiry r).zremrangebyscore 0 (r.now - window)

inductive ScriptStep (expiry : Bool) (window : ℚ) (limit : ℤ) (S : KeyState) (r : ScriptCall) :
    KeyState → LimiterReply → Prop
  | accepted (clock : S.clock ≤ r.now) (free : ((S.evicted expiry window r).zcard : ℤ) < limit) :
      ScriptStep expiry window limit S r
        ⟨((S.evicted expiry window r).zadd r.now r.member).expire r.now ⌈window⌉, r.now⟩ ⟨0, 0⟩
  | rejected (clock : S.clock ≤ r.now) (full : limit ≤ (S.evicted expiry window r).zcard) :
      ScriptStep expiry window limit S r ⟨S.evicted expiry window r, r.now⟩
        ⟨1, retryAfter r.now window (S.evicted expiry window r)⟩

theorem scriptStep_iff {reply : LimiterReply} :
    scriptStep expiry window limit S r = some (S', [reply]) ↔
      ScriptStep expiry window limit S r S' reply := by
  unfold scriptStep slidingWindow
  constructor
  · intro h
    obtain ⟨hclock, heq⟩ := Option.ite_none_right_eq_some.mp h
    by_cases hfree : ((S.evicted expiry window r).zcard : ℤ) < limit
    · have hresult := Option.some.inj heq
      simp only [KeyState.evicted] at hfree
      simp only [if_pos hfree, Prod.mk.injEq, List.cons.injEq, and_true] at hresult
      obtain ⟨rfl, rfl⟩ := hresult
      exact .accepted hclock hfree
    · have hresult := Option.some.inj heq
      simp only [KeyState.evicted] at hfree
      simp only [if_neg hfree, Prod.mk.injEq, List.cons.injEq, and_true] at hresult
      obtain ⟨rfl, rfl⟩ := hresult
      exact .rejected hclock (not_lt.mp hfree)
  · intro h
    cases h with
    | accepted clock free =>
      simp only [KeyState.evicted] at free
      simp only [if_pos clock, if_pos free]
      rfl
    | rejected clock full =>
      have hfull := not_lt.mpr full
      simp only [KeyState.evicted] at hfull
      simp only [if_pos clock, if_neg hfull]
      rfl

theorem scriptStep_reply (h : scriptStep expiry window limit S r = some (S', replies)) :
    ∃ reply, replies = [reply] := by
  obtain ⟨_, heq⟩ := Option.ite_none_right_eq_some.mp h
  exact ⟨_, (Prod.mk.inj (Option.some.inj heq)).2.symm⟩

theorem found_entries {e : ZEntry} (he : e ∈ (S.found expiry r).entries) : e ∈ S.key.entries := by
  unfold KeyState.found at he
  split_ifs at he
  · cases he
  · exact he

theorem evicted_entries {e : ZEntry} (he : e ∈ (S.evicted expiry window r).entries) :
    e ∈ S.key.entries := by
  unfold KeyState.evicted at he
  rw [ZKey.zremrangebyscore_entries] at he
  exact found_entries (List.mem_of_mem_filter he)

theorem evicted_card : (S.evicted expiry window r).entries.length ≤ S.key.entries.length := by
  have hfound : (S.found expiry r).entries.length ≤ S.key.entries.length := by
    unfold KeyState.found
    split_ifs
    · exact Nat.zero_le _
    · exact le_refl _
  have hevicted :
      (S.evicted expiry window r).entries.length ≤ (S.found expiry r).entries.length := by
    unfold KeyState.evicted
    rw [ZKey.zremrangebyscore_entries]
    exact List.length_filter_le ..
  exact hevicted.trans hfound

namespace Bounded

theorem evicted_deadline (hS : Bounded window limit S) :
    ∀ d, (S.evicted expiry window r).expiresAt = some d →
      ∀ e ∈ (S.evicted expiry window r).entries, e.score + window ≤ d := by
  intro d hd e he
  have hfound : (S.found expiry r).expiresAt = some d := ZKey.zremrangebyscore_expiresAt hd
  unfold KeyState.found at hfound
  split_ifs at hfound
  exact hS.deadline d hfound e (evicted_entries he)

theorem evicted (hS : Bounded window limit S) (hclock : S.clock ≤ r.now) :
    Bounded window limit ⟨S.evicted expiry window r, r.now⟩ where
  card := by
    have hcard := hS.card
    have hle : (S.evicted expiry window r).entries.length ≤ S.key.entries.length := evicted_card
    change ((S.evicted expiry window r).entries.length : ℤ) ≤ limit
    omega
  past e he := (hS.past e (evicted_entries he)).trans hclock
  deadline := hS.evicted_deadline

/-- The member may be one that is in the set: its entry moves to the new stamp. -/
theorem accept (hS : Bounded window limit S) (hwindow : 0 < window) (hclock : S.clock ≤ r.now)
    (hfree : ((S.evicted expiry window r).zcard : ℤ) < limit) :
    Bounded window limit
      ⟨((S.evicted expiry window r).zadd r.now r.member).expire r.now ⌈window⌉, r.now⟩ := by
  have hpast : ∀ e ∈ (S.evicted expiry window r).entries, e.score ≤ r.now := by
    intro e he
    exact (hS.past e (evicted_entries he)).trans hclock
  refine ⟨?_, ZKey.zadd_expire_past hpast, ZKey.zadd_expire_deadline hwindow hpast⟩
  rw [ZKey.expire_pos (Int.ceil_pos.mpr hwindow)]
  have hkept : (Table.delete ZEntry.member r.member (S.evicted expiry window r).entries).length ≤
      (S.evicted expiry window r).entries.length := List.length_filter_le ..
  unfold ZKey.zcard at hfree
  simp only [ZKey.zadd, List.length_append, List.length_singleton]
  omega

theorem step (hS : Bounded window limit S) (hwindow : 0 < window)
    (h : scriptStep expiry window limit S r = some (S', replies)) : Bounded window limit S' := by
  obtain ⟨reply, rfl⟩ := scriptStep_reply h
  cases scriptStep_iff.mp h with
  | accepted clock free => exact hS.accept hwindow clock free
  | rejected clock full => exact hS.evicted clock

end Bounded

theorem scores_step (hclock : 0 ≤ S.clock) (hS : ∀ e ∈ S.key.entries, 0 ≤ e.score)
    (h : scriptStep expiry window limit S r = some (S', replies)) :
    0 ≤ S'.clock ∧ ∀ e ∈ S'.key.entries, 0 ≤ e.score := by
  obtain ⟨reply, rfl⟩ := scriptStep_reply h
  have hkept : ∀ e ∈ (S.evicted expiry window r).entries, 0 ≤ e.score :=
    fun e he => hS e (evicted_entries he)
  cases scriptStep_iff.mp h with
  | accepted clock free =>
    have hnow : 0 ≤ r.now := hclock.trans clock
    refine ⟨hnow, ?_⟩
    intro e he
    rcases ZKey.mem_zadd_expire he with he | rfl
    · exact hkept e he
    · exact hnow
  | rejected clock full => exact ⟨hclock.trans clock, hkept⟩

end Step

theorem ZKey.zremrangebyscore_none {low high : ℚ} {k : ZKey} (hne : k.entries ≠ [])
    (h : ∀ e ∈ k.entries, high < e.score) : k.zremrangebyscore low high = k := by
  have hkept : (k.entries.filter fun e => !decide (low ≤ e.score ∧ e.score ≤ high)) = k.entries := by
    apply List.filter_eq_self.mpr
    intro e he
    simp [h e he]
  unfold zremrangebyscore
  rw [hkept]
  obtain ⟨entries, expiresAt⟩ := k
  cases entries with
  | nil => exact absurd rfl hne
  | cons e es => rfl

section Rejected
variable {expiry : Bool} {window : ℚ} {limit : ℤ} {K : ZKey} {now : ℚ} {oldest : ZEntry}
  {member : String} {atDeadline : Bool} {k : ℤ}

/-- Until the oldest entry leaves the window nothing does, and the key does not lapse. -/
theorem rejected_before (hK : Bounded window limit ⟨K, now⟩) (hfull : limit ≤ K.zcard)
    (holdest : K.oldest = some oldest) (hk : 0 ≤ k) (hinside : now + k < oldest.score + window) :
    scriptStep expiry window limit ⟨K, now⟩ ⟨now + k, member, atDeadline⟩ =
      some (⟨K, now + k⟩, [⟨1, retryAfter (now + k) window K⟩]) := by
  have hmem : oldest ∈ K.entries := Table.first_mem _ holdest
  have hlive : K.lapsed (now + k) atDeadline = false := by
    unfold ZKey.lapsed
    cases hd : K.expiresAt with
    | none => rfl
    | some d =>
      have hbefore : now + k < d := lt_of_lt_of_le hinside (hK.deadline d hd oldest hmem)
      simp [hbefore.le, hbefore.ne']
  have hfound : KeyState.found expiry ⟨K, now⟩ ⟨now + k, member, atDeadline⟩ = K := by
    unfold KeyState.found
    rw [hlive, Bool.and_false]
    rfl
  have hevicted : KeyState.evicted expiry window ⟨K, now⟩ ⟨now + k, member, atDeadline⟩ = K := by
    unfold KeyState.evicted
    rw [hfound]
    apply ZKey.zremrangebyscore_none (List.ne_nil_of_mem hmem)
    intro e he
    have hle := ZKey.oldest_le holdest e he
    change now + k - window < e.score
    linarith
  have hclock : now ≤ now + (k : ℚ) := by
    have hk' : (0 : ℚ) ≤ k := by exact_mod_cast hk
    linarith
  have hstep : ScriptStep expiry window limit ⟨K, now⟩ ⟨now + k, member, atDeadline⟩ _ _ :=
    .rejected hclock (by rw [hevicted]; exact hfull)
  rw [hevicted] at hstep
  exact scriptStep_iff.mpr hstep

theorem accepted_after (hK : Bounded window limit ⟨K, now⟩) (hlimit : 1 ≤ limit)
    (holdest : K.oldest = some oldest) (hepoch : 0 ≤ oldest.score) (hk : 0 ≤ k)
    (houtside : oldest.score + window ≤ now + k) :
    ∃ S', scriptStep expiry window limit ⟨K, now⟩ ⟨now + k, member, atDeadline⟩ =
      some (S', [⟨0, 0⟩]) := by
  have hmem : oldest ∈ K.entries := Table.first_mem _ holdest
  have hfree : ((KeyState.evicted expiry window ⟨K, now⟩
      ⟨now + k, member, atDeadline⟩).zcard : ℤ) < limit := by
    unfold KeyState.evicted KeyState.found ZKey.zcard
    rw [ZKey.zremrangebyscore_entries]
    split_ifs
    · exact_mod_cast Int.lt_of_lt_of_le Int.one_pos hlimit
    · have hgone : (K.entries.filter fun e =>
          !decide (0 ≤ e.score ∧ e.score ≤ now + k - window)).length < K.entries.length := by
        rw [List.length_filter_lt_length_iff_exists]
        refine ⟨oldest, hmem, ?_⟩
        have hout : oldest.score ≤ now + k - window := by linarith
        simp [hepoch, hout]
      have hcard : (K.entries.length : ℤ) ≤ limit := hK.card
      change ((K.entries.filter fun e =>
        !decide (0 ≤ e.score ∧ e.score ≤ now + k - window)).length : ℤ) < limit
      omega
  have hclock : now ≤ now + (k : ℚ) := by
    have hk' : (0 : ℚ) ≤ k := by exact_mod_cast hk
    linarith
  exact ⟨_, scriptStep_iff.mpr (.accepted hclock hfree)⟩

end Rejected

section Runs
variable {expiry : Bool} {start : ℚ} {window limit : ℤ} {S : KeyState} {tr : List LimiterReply}

theorem bounded_run (hwindow : 1 ≤ window) (hlimit : 1 ≤ limit)
    (h : Run (scriptStep expiry window limit) ⟨{}, start⟩ tr S) : Bounded window limit S := by
  have hpos : (0 : ℚ) < window := by exact_mod_cast Int.lt_of_lt_of_le Int.one_pos hwindow
  apply h.invariant (fun _ S => Bounded window limit S)
  · refine ⟨?_, ?_, ?_⟩
    · change (0 : ℤ) ≤ limit
      omega
    · simp
    · simp
  · intro _ S r S' os hS hstep
    exact hS.step hpos hstep

theorem scores_run (hstart : 0 ≤ start)
    (h : Run (scriptStep expiry window limit) ⟨{}, start⟩ tr S) :
    0 ≤ S.clock ∧ ∀ e ∈ S.key.entries, 0 ≤ e.score := by
  apply h.invariant (fun _ S => 0 ≤ S.clock ∧ ∀ e ∈ S.key.entries, 0 ≤ e.score)
  · exact ⟨hstart, by simp⟩
  · intro _ S r S' os hS hstep
    exact scores_step hS.1 hS.2 hstep

end Runs

/-- A rejected request that comes back after exactly the time it was told is admitted; every whole
    number of seconds earlier it is rejected, and told the rest of that time. The readings of the
    clock are Unix times, which only the admission relies on. -/
theorem retry_after_exact (expiry : Bool) (window limit : ℤ) (hwindow : 1 ≤ window)
    (hlimit : 1 ≤ limit) (start : ℚ) (tr : List LimiterReply) (S S' : KeyState)
    (h : Run (scriptStep expiry window limit) ⟨{}, start⟩ tr S) (r : ScriptCall) (retry : ℤ)
    (hrejected : scriptStep expiry window limit S r = some (S', [⟨1, retry⟩])) :
    1 ≤ retry ∧
    (0 ≤ start → ∀ member atDeadline,
      (scriptStep expiry window limit S' ⟨r.now + retry, member, atDeadline⟩).map Prod.snd =
        some [⟨0, 0⟩]) ∧
    ∀ k : ℤ, 1 ≤ k → k < retry → ∀ member atDeadline,
      (scriptStep expiry window limit S' ⟨r.now + k, member, atDeadline⟩).map Prod.snd =
        some [⟨1, retry - k⟩] := by
  have hS' : Bounded window limit S' := bounded_run hwindow hlimit (h.next hrejected)
  have hscores : 0 ≤ start → ∀ e ∈ S'.key.entries, 0 ≤ e.score :=
    fun hstart => (scores_run hstart (h.next hrejected)).2
  rcases scriptStep_iff.mp hrejected with _ | ⟨clock, full⟩
  generalize S.evicted expiry window r = K at *
  -- the set is full, so it has an oldest entry
  obtain ⟨oldest, holdest⟩ : ∃ oldest, K.oldest = some oldest := by
    cases hentries : K.oldest with
    | some oldest => exact ⟨oldest, rfl⟩
    | none =>
      have hempty : K.entries = [] := (Table.first_eq_none _).mp hentries
      unfold ZKey.zcard at full
      rw [hempty] at full
      exact absurd (hlimit.trans full) (by decide)
  have hmem : oldest ∈ K.entries := Table.first_mem _ holdest
  have hretry : ∀ now : ℚ, retryAfter now window K = max 1 ⌈window - (now - oldest.score)⌉ := by
    intro now
    unfold retryAfter
    rw [holdest]
  rw [hretry]
  generalize hleft : (window : ℚ) - (r.now - oldest.score) = left
  refine ⟨le_max_left _ _, ?_, ?_⟩
  · intro hstart member atDeadline
    have hreach : left ≤ ((max 1 ⌈left⌉ : ℤ) : ℚ) :=
      (Int.le_ceil left).trans (by exact_mod_cast le_max_right _ _)
    obtain ⟨S'', haccepted⟩ : ∃ S'', scriptStep expiry window limit ⟨K, r.now⟩
        ⟨r.now + (max 1 ⌈left⌉ : ℤ), member, atDeadline⟩ = some (S'', [⟨0, 0⟩]) :=
      accepted_after hS' hlimit holdest (hscores hstart oldest hmem)
        (zero_le_one.trans (le_max_left 1 ⌈left⌉)) (by linarith)
    rw [haccepted]
    rfl
  · intro k hk hlt member atDeadline
    have hceil : k < ⌈left⌉ := by omega
    have hbefore : (k : ℚ) < left := Int.lt_ceil.mp hceil
    rw [rejected_before hS' full holdest (by omega) (by linarith), hretry]
    have hrest : (window : ℚ) - (r.now + k - oldest.score) = left - k := by linarith
    rw [hrest, Int.ceil_sub_intCast]
    change some [(⟨1, max 1 (⌈left⌉ - k)⟩ : LimiterReply)] = some [⟨1, max 1 ⌈left⌉ - k⟩]
    rw [max_eq_right (by omega), max_eq_right (by omega)]

theorem retry_after_exact_logins :
    ∃ S S' tr, Run (scriptStep true 60 2) ⟨{}, 100⟩ tr S ∧
      scriptStep true 60 2 S ⟨135, "c", true⟩ = some (S', [⟨1, 25⟩]) ∧
      (scriptStep true 60 2 S' ⟨135 + 25, "d", true⟩).map Prod.snd = some [⟨0, 0⟩] ∧
      (scriptStep true 60 2 S' ⟨135 + 24, "d", true⟩).map Prod.snd = some [⟨1, 1⟩] := by
  have hrun : ((execute (scriptStep true 60 2) ⟨{}, 100⟩ [⟨100, "a", true⟩, ⟨130, "b", true⟩]).bind
      fun p => (scriptStep true 60 2 p.1 ⟨135, "c", true⟩).map fun q => q.2) =
        some [⟨1, 25⟩] := by
    decide +kernel
  obtain ⟨⟨S, tr⟩, hexec, hstep⟩ := Option.bind_eq_some_iff.mp hrun
  obtain ⟨⟨S', replies⟩, hlast, hreplies⟩ := Option.map_eq_some_iff.mp hstep
  cases hreplies
  obtain ⟨_, hadmitted, hrejected⟩ := retry_after_exact true 60 2 (by decide) (by decide) 100 tr S S'
    (execute_run hexec) ⟨135, "c", true⟩ 25 hlast
  exact ⟨S, S', tr, execute_run hexec, hlast, hadmitted (by norm_num) "d" true,
    hrejected 24 (by decide) (by decide) "d" true⟩

end Hefest
