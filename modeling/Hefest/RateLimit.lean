import Mathlib.Data.Rat.Floor
import Hefest.Lib.SlidingWindow
import Hefest.Lib.Table
import Hefest.Lib.Transition

set_option autoImplicit false

/-!
# The sliding-window limiter

A Redis key that holds a sorted set, the five commands the script uses on it, and the script.
Scores and clock readings are exact rationals, in seconds.
-/
namespace Hefest

structure ZEntry where
  score : ℚ
  member : String
deriving DecidableEq

/-- A sorted set lists lower scores first, and equal scores by member. -/
def ZEntry.before (a b : ZEntry) : Prop :=
  a.score < b.score ∨ (a.score = b.score ∧ a.member ≤ b.member)

instance zentryBefore : DecidableRel ZEntry.before := fun _ _ => inferInstanceAs (Decidable (_ ∨ _))

/-- What is stored under a key; a key without entries does not exist and has no deadline. -/
structure ZKey where
  entries : List ZEntry := []
  expiresAt : Option ℚ := none
deriving DecidableEq

namespace ZKey

/-- Redis drops a key when its clock is past the deadline; at the deadline itself the key may still
    be there. -/
def lapsed (now : ℚ) (atDeadline : Bool) (k : ZKey) : Bool :=
  match k.expiresAt with
  | none => false
  | some deadline => decide (deadline < now) || (decide (deadline = now) && atDeadline)

def zremrangebyscore (low high : ℚ) (k : ZKey) : ZKey :=
  match k.entries.filter fun e => !decide (low ≤ e.score ∧ e.score ≤ high) with
  | [] => {}
  | e :: es => { k with entries := e :: es }

def zcard (k : ZKey) : ℕ := k.entries.length

def zadd (score : ℚ) (member : String) (k : ZKey) : ZKey :=
  { k with entries := Table.delete ZEntry.member member k.entries ++ [⟨score, member⟩] }

def expire (now : ℚ) (seconds : ℤ) (k : ZKey) : ZKey :=
  if seconds ≤ 0 then {} else { k with expiresAt := some (now + seconds) }

/-- `ZRANGE key 0 0 WITHSCORES`. -/
def oldest (k : ZKey) : Option ZEntry := Table.first ZEntry.before k.entries

end ZKey

structure LimiterReply where
  isLimited : ℤ
  retryAfter : ℤ
deriving DecidableEq

def retryAfter (now window : ℚ) (k : ZKey) : ℤ :=
  match k.oldest with
  | some e => max 1 ⌈window - (now - e.score)⌉
  | none => ⌈window⌉

def slidingWindow (now window : ℚ) (limit : ℤ) (member : String) (key : ZKey) : ZKey × LimiterReply :=
  let key := key.zremrangebyscore 0 (now - window)
  if (key.zcard : ℤ) < limit then
    ((key.zadd now member).expire now ⌈window⌉, ⟨0, 0⟩)
  else (key, ⟨1, retryAfter now window key⟩)

structure ScriptCall where
  now : ℚ
  member : String
  atDeadline : Bool

structure Limiter where
  key : ZKey := {}
  clock : ℚ
  members : List String := []

def Limiter.found (expiry : Bool) (S : Limiter) (r : ScriptCall) : ZKey :=
  if expiry && S.key.lapsed r.now r.atDeadline then {} else S.key

/-- One execution of the script. Without `expiry` the deadlines of `EXPIRE` are ignored. There is no
    step for a reading before the last one executed, nor for a member that has been drawn before. -/
def limiterStep (expiry : Bool) (window : ℚ) (limit : ℤ) (S : Limiter) (r : ScriptCall) :
    Option (Limiter × List (ℚ × LimiterReply)) :=
  if S.clock ≤ r.now ∧ r.member ∉ S.members then
    let result := slidingWindow r.now window limit r.member (S.found expiry r)
    some (⟨result.1, r.now, r.member :: S.members⟩, [(r.now, result.2)])
  else none

def admittedStamps (tr : List (ℚ × LimiterReply)) : List ℚ :=
  (tr.filter fun o => o.2.isLimited = 0).map Prod.fst

namespace ZKey

def stamps (k : ZKey) : List ℚ := k.entries.map ZEntry.score

section Commands
variable {now window low high : ℚ} {k : ZKey}

theorem zremrangebyscore_entries :
    (k.zremrangebyscore low high).entries =
      k.entries.filter fun e => !decide (low ≤ e.score ∧ e.score ≤ high) := by
  unfold zremrangebyscore
  split
  · rename_i h
    rw [h]
  · rename_i h
    rw [h]

theorem zremrangebyscore_expiresAt {deadline : ℚ}
    (h : (k.zremrangebyscore low high).expiresAt = some deadline) : k.expiresAt = some deadline := by
  unfold zremrangebyscore at h
  split at h
  · cases h
  · exact h

theorem since_stamps :
    SlidingWindow.since window now k.stamps =
      (k.entries.filter fun e => decide (now - window < e.score)).map ZEntry.score := by
  unfold SlidingWindow.since stamps
  rw [List.filter_map]
  rfl

theorem zremrangebyscore_inside :
    ((k.zremrangebyscore low (now - window)).entries.filter fun e => decide (now - window < e.score)) =
      k.entries.filter fun e => decide (now - window < e.score) := by
  rw [zremrangebyscore_entries, List.filter_filter]
  apply List.filter_congr
  intro e _
  by_cases h : now - window < e.score
  · simp [h]
  · simp [h]

theorem zadd_entries {member : String} (h : ∀ e ∈ k.entries, e.member ≠ member) :
    (k.zadd now member).entries = k.entries ++ [⟨now, member⟩] := by
  unfold zadd Table.delete
  have hkeep : k.entries.filter (fun e => e.member ≠ member) = k.entries := by
    apply List.filter_eq_self.mpr
    intro e he
    exact decide_eq_true (h e he)
  rw [hkeep]

theorem mem_zadd_expire {member : String} {seconds : ℤ} {e : ZEntry}
    (h : e ∈ ((k.zadd now member).expire now seconds).entries) :
    e ∈ k.entries ∨ e = ⟨now, member⟩ := by
  unfold expire at h
  split_ifs at h
  · cases h
  · rcases List.mem_append.mp h with hold | hnew
    · exact .inl (List.mem_of_mem_filter hold)
    · exact .inr (List.mem_singleton.mp hnew)

theorem expire_pos {seconds : ℤ} (h : 0 < seconds) :
    k.expire now seconds = { k with expiresAt := some (now + seconds) } := if_neg (not_le.mpr h)

theorem zadd_expire_past {member : String} {seconds : ℤ} (h : ∀ e ∈ k.entries, e.score ≤ now) :
    ∀ e ∈ ((k.zadd now member).expire now seconds).entries, e.score ≤ now := by
  intro e he
  rcases mem_zadd_expire he with hold | rfl
  · exact h e hold
  · exact le_refl now

/-- The deadline of a window that starts now is behind the windows of all entries. -/
theorem zadd_expire_deadline {member : String} (hwindow : 0 < window)
    (h : ∀ e ∈ k.entries, e.score ≤ now) :
    ∀ d, ((k.zadd now member).expire now ⌈window⌉).expiresAt = some d →
      ∀ e ∈ ((k.zadd now member).expire now ⌈window⌉).entries, e.score + window ≤ d := by
  intro d hd e he
  have hscore : e.score ≤ now := zadd_expire_past h e he
  rw [expire_pos (Int.ceil_pos.mpr hwindow)] at hd
  have hd : now + (⌈window⌉ : ℚ) = d := Option.some.inj hd
  have hceil : window ≤ (⌈window⌉ : ℚ) := Int.le_ceil window
  linarith

/-- A key that has lapsed holds nothing that is still inside the window. -/
theorem lapsed_outside {atDeadline : Bool}
    (hdeadline : ∀ d, k.expiresAt = some d → ∀ e ∈ k.entries, e.score + window ≤ d)
    (h : k.lapsed now atDeadline = true) : ∀ e ∈ k.entries, e.score ≤ now - window := by
  unfold lapsed at h
  cases hk : k.expiresAt with
  | none =>
    rw [hk] at h
    cases h
  | some d =>
    rw [hk] at h
    have hd : d ≤ now := by
      rcases Bool.or_eq_true_iff.mp h with hlt | hat
      · exact le_of_lt (of_decide_eq_true hlt)
      · exact le_of_eq (of_decide_eq_true (Bool.and_eq_true_iff.mp hat).1)
    intro e he
    have hscore := hdeadline d hk e he
    linarith

end Commands
end ZKey

structure Limited (window : ℚ) (limit : ℤ) (tr : List (ℚ × LimiterReply)) (S : Limiter) : Prop where
  admitted : SlidingWindow.Admitted limit.toNat window (admittedStamps tr)
  recent : SlidingWindow.since window S.clock S.key.stamps =
    SlidingWindow.since window S.clock (admittedStamps tr)
  card : S.key.entries.length ≤ limit.toNat
  past : ∀ e ∈ S.key.entries, e.score ≤ S.clock
  members : ∀ e ∈ S.key.entries, e.member ∈ S.members
  deadline : ∀ d, S.key.expiresAt = some d → ∀ e ∈ S.key.entries, e.score + window ≤ d

section Step
variable {expiry : Bool} {window : ℚ} {limit : ℤ} {S S' : Limiter} {r : ScriptCall}
  {tr os : List (ℚ × LimiterReply)}

def Limiter.evicted (expiry : Bool) (window : ℚ) (S : Limiter) (r : ScriptCall) : ZKey :=
  (S.found expiry r).zremrangebyscore 0 (r.now - window)

inductive LimiterStep (expiry : Bool) (window : ℚ) (limit : ℤ) (S : Limiter) (r : ScriptCall) :
    Limiter → List (ℚ × LimiterReply) → Prop
  | accepted (clock : S.clock ≤ r.now) (fresh : r.member ∉ S.members)
      (free : ((S.evicted expiry window r).zcard : ℤ) < limit) :
      LimiterStep expiry window limit S r
        ⟨((S.evicted expiry window r).zadd r.now r.member).expire r.now ⌈window⌉, r.now,
          r.member :: S.members⟩ [(r.now, ⟨0, 0⟩)]
  | rejected (clock : S.clock ≤ r.now) (fresh : r.member ∉ S.members)
      (full : limit ≤ (S.evicted expiry window r).zcard) :
      LimiterStep expiry window limit S r
        ⟨S.evicted expiry window r, r.now, r.member :: S.members⟩
        [(r.now, ⟨1, retryAfter r.now window (S.evicted expiry window r)⟩)]

theorem limiterStep_cases (h : limiterStep expiry window limit S r = some (S', os)) :
    LimiterStep expiry window limit S r S' os := by
  obtain ⟨hready, heq⟩ := Option.ite_none_right_eq_some.mp h
  by_cases hfree : ((S.evicted expiry window r).zcard : ℤ) < limit
  · have hscript : slidingWindow r.now window limit r.member (S.found expiry r) =
        (((S.evicted expiry window r).zadd r.now r.member).expire r.now ⌈window⌉, ⟨0, 0⟩) :=
      if_pos hfree
    rw [hscript] at heq
    cases heq
    exact .accepted hready.1 hready.2 hfree
  · have hscript : slidingWindow r.now window limit r.member (S.found expiry r) =
        (S.evicted expiry window r, ⟨1, retryAfter r.now window (S.evicted expiry window r)⟩) :=
      if_neg hfree
    rw [hscript] at heq
    cases heq
    exact .rejected hready.1 hready.2 (not_lt.mp hfree)

namespace Limited

theorem found_entries {e : ZEntry} (he : e ∈ (S.found expiry r).entries) : e ∈ S.key.entries := by
  unfold Limiter.found at he
  split_ifs at he
  · cases he
  · exact he

theorem found_inside (hS : Limited window limit tr S) :
    ((S.found expiry r).entries.filter fun e => decide (r.now - window < e.score)) =
      S.key.entries.filter fun e => decide (r.now - window < e.score) := by
  unfold Limiter.found
  split_ifs with hlapsed
  · have houtside := ZKey.lapsed_outside hS.deadline (Bool.and_eq_true_iff.mp hlapsed).2
    symm
    apply List.filter_eq_nil_iff.mpr
    intro e he
    have hle := houtside e he
    simpa using hle
  · rfl

theorem evicted_entries {e : ZEntry} (he : e ∈ (S.evicted expiry window r).entries) :
    e ∈ S.key.entries := by
  unfold Limiter.evicted at he
  rw [ZKey.zremrangebyscore_entries] at he
  exact found_entries (List.mem_of_mem_filter he)

theorem evicted_inside (hS : Limited window limit tr S) :
    ((S.evicted expiry window r).entries.filter fun e => decide (r.now - window < e.score)) =
      S.key.entries.filter fun e => decide (r.now - window < e.score) :=
  ZKey.zremrangebyscore_inside.trans hS.found_inside

theorem evicted_recent (hS : Limited window limit tr S) (hclock : S.clock ≤ r.now) :
    SlidingWindow.since window r.now (S.evicted expiry window r).stamps =
      SlidingWindow.since window r.now (admittedStamps tr) := by
  have hinside : SlidingWindow.since window r.now (S.evicted expiry window r).stamps =
      SlidingWindow.since window r.now S.key.stamps := by
    rw [ZKey.since_stamps, ZKey.since_stamps, hS.evicted_inside]
  rw [hinside, ← SlidingWindow.since_since hclock, hS.recent, SlidingWindow.since_since hclock]

theorem evicted_card (hS : Limited window limit tr S) : (S.evicted expiry window r).entries.length ≤ limit.toNat := by
  have hfound : (S.found expiry r).entries.length ≤ S.key.entries.length := by
    unfold Limiter.found
    split_ifs
    · exact Nat.zero_le _
    · exact le_refl _
  have hevicted : (S.evicted expiry window r).entries.length ≤ (S.found expiry r).entries.length := by
    unfold Limiter.evicted
    rw [ZKey.zremrangebyscore_entries]
    exact List.length_filter_le ..
  have hcard := hS.card
  omega

theorem evicted_deadline (hS : Limited window limit tr S) : ∀ d, (S.evicted expiry window r).expiresAt = some d →
    ∀ e ∈ (S.evicted expiry window r).entries, e.score + window ≤ d := by
  intro d hd e he
  have hfound : (S.found expiry r).expiresAt = some d := ZKey.zremrangebyscore_expiresAt hd
  unfold Limiter.found at hfound
  split_ifs at hfound
  exact hS.deadline d hfound e (evicted_entries he)

/-- An admitted request joins the entries that the eviction left. -/
theorem accept (hS : Limited window limit tr S) (hwindow : 0 < window) (hclock : S.clock ≤ r.now)
    (hfresh : r.member ∉ S.members) (hfree : ((S.evicted expiry window r).zcard : ℤ) < limit) :
    Limited window limit (tr ++ [(r.now, ⟨0, 0⟩)])
      ⟨((S.evicted expiry window r).zadd r.now r.member).expire r.now ⌈window⌉, r.now,
        r.member :: S.members⟩ := by
  have hentries : (((S.evicted expiry window r).zadd r.now r.member).expire r.now ⌈window⌉).entries =
      (S.evicted expiry window r).entries ++ [⟨r.now, r.member⟩] := by
    rw [ZKey.expire_pos (Int.ceil_pos.mpr hwindow)]
    apply ZKey.zadd_entries
    intro e he heq
    exact hfresh (heq ▸ hS.members e (evicted_entries he))
  have hlog : admittedStamps (tr ++ [(r.now, ⟨0, 0⟩)]) = admittedStamps tr ++ [r.now] := by
    simp [admittedStamps, List.filter_append]
  have hcount : (S.evicted expiry window r).entries.length < limit.toNat := by
    unfold ZKey.zcard at hfree
    omega
  have hrecent : SlidingWindow.since window r.now (S.evicted expiry window r).stamps =
      SlidingWindow.since window r.now (admittedStamps tr) := hS.evicted_recent hclock
  have hpast : ∀ e ∈ (S.evicted expiry window r).entries, e.score ≤ r.now := by
    intro e he
    exact le_trans (hS.past e (evicted_entries he)) hclock
  refine ⟨?_, ?_, ?_, ?_, ?_, ?_⟩
  · rw [hlog]
    apply hS.admitted.accept
    rw [← hrecent]
    have hle : (SlidingWindow.since window r.now (S.evicted expiry window r).stamps).length ≤
        (S.evicted expiry window r).entries.length := by
      rw [ZKey.since_stamps, List.length_map]
      exact List.length_filter_le ..
    omega
  · rw [hlog]
    unfold ZKey.stamps
    rw [hentries, List.map_append, SlidingWindow.since_append, SlidingWindow.since_append]
    exact congrArg (· ++ _) hrecent
  · rw [hentries, List.length_append, List.length_singleton]
    omega
  · exact ZKey.zadd_expire_past hpast
  · intro e he
    rcases ZKey.mem_zadd_expire he with he | rfl
    · exact List.mem_cons_of_mem _ (hS.members e (evicted_entries he))
    · exact List.mem_cons_self
  · exact ZKey.zadd_expire_deadline hwindow hpast

theorem reject (hS : Limited window limit tr S) (hclock : S.clock ≤ r.now) (retryAfter : ℤ) :
    Limited window limit (tr ++ [(r.now, ⟨1, retryAfter⟩)])
      ⟨S.evicted expiry window r, r.now, r.member :: S.members⟩ := by
  have hlog : admittedStamps (tr ++ [(r.now, ⟨1, retryAfter⟩)]) = admittedStamps tr := by
    simp [admittedStamps, List.filter_append]
  refine ⟨?_, ?_, hS.evicted_card, ?_, ?_, hS.evicted_deadline⟩
  · rw [hlog]
    exact hS.admitted
  · rw [hlog]
    exact hS.evicted_recent hclock
  · intro e he
    exact le_trans (hS.past e (evicted_entries he)) hclock
  · intro e he
    exact List.mem_cons_of_mem _ (hS.members e (evicted_entries he))

theorem step (hS : Limited window limit tr S) (hwindow : 0 < window)
    (h : limiterStep expiry window limit S r = some (S', os)) :
    Limited window limit (tr ++ os) S' := by
  cases limiterStep_cases h with
  | accepted clock fresh free => exact hS.accept hwindow clock fresh free
  | rejected clock _ _ => exact hS.reject clock _

/-- Without deadlines the script would find the same entries after its own eviction: a key lapses
    only when everything in it has left the window. -/
theorem evicted_expiry (hS : Limited window limit tr S) (hepoch : ∀ e ∈ S.key.entries, 0 ≤ e.score) :
    S.evicted true window r = S.evicted false window r := by
  unfold Limiter.evicted Limiter.found
  simp only [Bool.true_and, Bool.false_and, Bool.false_eq_true, if_false]
  split_ifs with hlapsed
  · have houtside := ZKey.lapsed_outside hS.deadline hlapsed
    have hempty : (S.key.entries.filter fun e =>
        !decide (0 ≤ e.score ∧ e.score ≤ r.now - window)) = [] := by
      apply List.filter_eq_nil_iff.mpr
      intro e he
      simp [hepoch e he, houtside e he]
    unfold ZKey.zremrangebyscore
    rw [hempty]
    rfl
  · rfl

theorem same_without_expiry (hS : Limited window limit tr S)
    (hepoch : ∀ e ∈ S.key.entries, 0 ≤ e.score) :
    limiterStep true window limit S r = limiterStep false window limit S r := by
  have hsame : slidingWindow r.now window limit r.member (S.found true r) =
      slidingWindow r.now window limit r.member (S.found false r) := by
    have hevicted := hS.evicted_expiry hepoch (r := r)
    unfold Limiter.evicted at hevicted
    unfold slidingWindow
    rw [hevicted]
  unfold limiterStep
  rw [hsame]

end Limited

end Step

/-- The instants are Unix times. -/
structure Epoch (S : Limiter) : Prop where
  clock : 0 ≤ S.clock
  scores : ∀ e ∈ S.key.entries, 0 ≤ e.score

section Runs
variable {window start : ℚ} {limit : ℤ} {S S' : Limiter} {r : ScriptCall}
  {tr os : List (ℚ × LimiterReply)} {expiry : Bool}

theorem Epoch.step (hS : Epoch S) (h : limiterStep expiry window limit S r = some (S', os)) :
    Epoch S' := by
  have hscores : ∀ e ∈ (S.evicted expiry window r).entries, 0 ≤ e.score :=
    fun e he => hS.scores e (Limited.evicted_entries he)
  cases limiterStep_cases h with
  | accepted clock fresh free =>
    have hnow : 0 ≤ r.now := le_trans hS.clock clock
    refine ⟨hnow, ?_⟩
    intro e he
    rcases ZKey.mem_zadd_expire he with he | rfl
    · exact hscores e he
    · exact hnow
  | rejected clock _ _ => exact ⟨le_trans hS.clock clock, hscores⟩

theorem limiter_run (hwindow : 0 < window)
    (h : Transition.Run (limiterStep expiry window limit) ⟨{}, start, []⟩ tr S) :
    Limited window limit tr S := by
  apply h.invariant (Limited window limit)
  · refine ⟨.nil, rfl, Nat.zero_le _, ?_, ?_, ?_⟩
    all_goals simp
  · intro tr S r S' os hS hstep
    exact hS.step hwindow hstep

theorem limiter_epoch (hstart : 0 ≤ start)
    (h : Transition.Run (limiterStep expiry window limit) ⟨{}, start, []⟩ tr S) : Epoch S := by
  apply h.invariant (fun _ S => Epoch S)
  · exact ⟨hstart, by simp⟩
  · intro _ S r S' os hS hstep
    exact hS.step hstep

/-- The run is one of a Redis whose keys never lapse, too. -/
theorem limiter_run_without_expiry (hwindow : 0 < window) (hstart : 0 ≤ start)
    (h : Transition.Run (limiterStep true window limit) ⟨{}, start, []⟩ tr S) :
    Transition.Run (limiterStep false window limit) ⟨{}, start, []⟩ tr S := by
  induction h with
  | start => exact .start
  | next tail hstep ih =>
    rw [(limiter_run hwindow tail).same_without_expiry (limiter_epoch hstart tail).scores] at hstep
    exact .next ih hstep

theorem limiter_reject_inside (hwindow : 0 < window)
    (h : Transition.Run (limiterStep expiry window limit) ⟨{}, start, []⟩ tr S) {reply : LimiterReply}
    (hstep : limiterStep expiry window limit S r = some (S', [(r.now, reply)]))
    (hlimited : reply.isLimited = 1) :
    (S'.key.entries.filter fun e => decide (r.now - window < e.score)) =
      S.key.entries.filter fun e => decide (r.now - window < e.score) := by
  cases limiterStep_cases hstep with
  | accepted _ _ _ => cases hlimited
  | rejected _ _ _ => exact (limiter_run hwindow h).evicted_inside

/-- The sliding-window bound, for every limit and every sequence of requests on one key. -/
theorem sliding_window_bound (hwindow : 0 < window)
    (h : Transition.Run (limiterStep true window limit) ⟨{}, start, []⟩ tr S) :
    (∀ t, (SlidingWindow.window window t (admittedStamps tr)).length ≤ limit.toNat) ∧
    S.key.entries.length ≤ limit.toNat ∧
    (∀ r S' reply, limiterStep true window limit S r = some (S', [(r.now, reply)]) →
      reply.isLimited = 1 →
        (S'.key.entries.filter fun e => decide (r.now - window < e.score)) =
          S.key.entries.filter fun e => decide (r.now - window < e.score)) ∧
    (0 ≤ start →
      Transition.Run (limiterStep false window limit) ⟨{}, start, []⟩ tr S ∧
        ∀ r, limiterStep true window limit S r = limiterStep false window limit S r) := by
  have hS := limiter_run hwindow h
  refine ⟨hS.admitted.bound, hS.card, ?_, ?_⟩
  · intro r S' reply hstep hlimited
    exact limiter_reject_inside hwindow h hstep hlimited
  · intro hstart
    refine ⟨limiter_run_without_expiry hwindow hstart h, ?_⟩
    intro r
    exact hS.same_without_expiry (limiter_epoch hstart h).scores

end Runs

/-- Two requests a minute: the third waits, and the fourth comes when the first has just left. -/
def threeLogins : List ScriptCall :=
  [⟨100, "a", true⟩, ⟨130, "b", true⟩, ⟨159, "c", true⟩, ⟨160, "d", true⟩]

theorem sliding_window_bound_logins :
    ∃ S tr, Transition.Run (limiterStep true 60 2) ⟨{}, 100, []⟩ tr S ∧
      tr = [(100, ⟨0, 0⟩), (130, ⟨0, 0⟩), (159, ⟨1, 1⟩), (160, ⟨0, 0⟩)] ∧
      (∀ t, (SlidingWindow.window 60 t (admittedStamps tr)).length ≤ 2) ∧
      S.key.entries.length ≤ 2 ∧
      ∀ r, limiterStep true 60 2 S r = limiterStep false 60 2 S r := by
  have hrun : (Transition.execute (limiterStep true 60 2) ⟨{}, 100, []⟩ threeLogins).map (·.2) =
      some [(100, ⟨0, 0⟩), (130, ⟨0, 0⟩), (159, ⟨1, 1⟩), (160, ⟨0, 0⟩)] := by
    decide +kernel
  obtain ⟨S, tr, h, htr⟩ := Transition.execute_map hrun
  have hbound := sliding_window_bound (by norm_num) h
  exact ⟨S, tr, h, htr, hbound.1, hbound.2.1, (hbound.2.2.2 (by norm_num)).2⟩

end Hefest
