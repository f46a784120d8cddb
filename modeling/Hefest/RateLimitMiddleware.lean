import Hefest.Lib.Components
import Hefest.LimiterKeys
import Hefest.RateLimit

set_option autoImplicit false

namespace Hefest
open Transition

/-- A request as the middleware meets it: when its token is decoded, and its execution of the
    script. -/
structure Arrival where
  request : HttpRequest
  decodedAt : Time
  call : ScriptCall

structure TooMany where
  statusCode : ℕ := 429
  detail : String
  code : String := "rate_limit_exceeded"
  retryAfter : String
deriving DecidableEq

def tooMany (retryAfter : ℤ) : TooMany where
  detail := "Too many requests. Please retry after " ++ toString retryAfter ++ " seconds."
  retryAfter := toString retryAfter

inductive Dispatched
  | callNext
  | tooMany (response : TooMany)
deriving DecidableEq

structure Served where
  arrival : Arrival
  reply : Option LimiterReply

def Served.answer (o : Served) : Dispatched :=
  match o.reply with
  | none => .callNext
  | some reply =>
    if reply.isLimited ≠ 0 then .tooMany (Hefest.tooMany reply.retryAfter) else .callNext

abbrev Counters := List Char → Limiter

def Counters.empty (start : ℚ) : Counters := fun _ => ⟨{}, start, []⟩

section Dispatch
variable (settings : Settings) (jwt : PyJwt)

def dispatch (S : Counters) (a : Arrival) : Option (Counters × List Served) :=
  match dispatchCheck settings jwt a.decodedAt a.request with
  | none => some (S, [⟨a, none⟩])
  | some (key, limit, window) =>
    match limiterStep true window limit (S key) a.call with
    | none => none
    | some (counter, replies) =>
      some (Function.update S key counter, replies.map fun reply => ⟨a, some reply.2⟩)

def Arrival.rule? (a : Arrival) : Option Rule :=
  (rules settings).find? fun rule => rule.matches a.request.method a.request.path

def Arrival.identifier (a : Arrival) (rule : Rule) : List Char :=
  identifierOf settings jwt a.decodedAt a.request rule.identifier

def Arrival.key? (a : Arrival) : Option (List Char) :=
  limiterKey settings jwt a.decodedAt a.request

def Arrival.countsFor (identifier : List Char) (a : Arrival) : Bool :=
  (a.rule? settings).any fun rule => a.identifier settings jwt rule == identifier

def passedStamps (key : List Char) (log : List Served) : List ℚ :=
  (log.filter fun o => o.arrival.key? settings jwt = some key ∧ o.answer = .callNext).map
    fun o => o.arrival.call.now

end Dispatch

section Keys
variable {settings : Settings} {jwt : PyJwt} {a : Arrival} {rule rule' : Rule}
  {identifier identifier' key : List Char}

theorem rules_tags :
    (rules settings).map Rule.tag = ["login", "register", "event_register", "global"] := rfl

theorem rule_tag_eq (h : rule ∈ rules settings) (h' : rule' ∈ rules settings)
    (htag : rule.tag = rule'.tag) : rule = rule' := by
  have hnodup : ((rules settings).map Rule.tag).Nodup := by
    rw [rules_tags]
    decide
  exact List.inj_on_of_nodup_map hnodup h h' htag

theorem colon_notMem_tag (h : rule ∈ rules settings) : ':' ∉ rule.tag.toList := by
  have htags : ∀ tag ∈ ["login", "register", "event_register", "global"], ':' ∉ tag.toList := by
    decide
  apply htags
  rw [← rules_tags]
  exact List.mem_map_of_mem h

/-- The tag ends at the first colon, so a key says which rule and which identifier it is for. -/
theorem ruleKey_inj (h : rule ∈ rules settings) (h' : rule' ∈ rules settings) :
    ruleKey rule identifier = ruleKey rule' identifier' ↔
      rule = rule' ∧ identifier = identifier' := by
  constructor
  · intro heq
    unfold ruleKey at heq
    rw [List.append_assoc, List.append_assoc] at heq
    have hrest : rule.tag.toList ++ ':' :: identifier = rule'.tag.toList ++ ':' :: identifier' :=
      (List.cons.inj (List.append_cancel_left heq)).2
    have htag {tag : List Char} (hcolon : ':' ∉ tag) (rest : List Char) :
        (tag ++ ':' :: rest).takeWhile (· ≠ ':') = tag := by
      have hkept : ∀ c ∈ tag, decide (c ≠ ':') = true := by
        intro c hc
        exact decide_eq_true (ne_of_mem_of_not_mem hc hcolon)
      rw [List.takeWhile_append_of_pos hkept]
      simp
    have htags : rule.tag.toList = rule'.tag.toList := by
      have hcut := congrArg (List.takeWhile (· ≠ ':')) hrest
      rwa [htag (colon_notMem_tag h), htag (colon_notMem_tag h')] at hcut
    refine ⟨rule_tag_eq h h' (String.toList_inj.mp htags), ?_⟩
    rw [htags] at hrest
    exact (List.cons.inj (List.append_cancel_left hrest)).2
  · rintro ⟨rfl, rfl⟩
    rfl

theorem rule?_mem (h : a.rule? settings = some rule) : rule ∈ rules settings :=
  List.mem_of_find?_eq_some h

theorem dispatchCheck_eq : dispatchCheck settings jwt a.decodedAt a.request =
    (a.rule? settings).map fun rule =>
      (ruleKey rule (a.identifier settings jwt rule), rule.limit, rule.window) := rfl

theorem key?_eq : a.key? settings jwt =
    (a.rule? settings).map fun rule => ruleKey rule (a.identifier settings jwt rule) := by
  unfold Arrival.key? limiterKey
  rw [dispatchCheck_eq, Option.map_map]
  rfl

theorem key?_eq_some (h : rule ∈ rules settings) :
    a.key? settings jwt = some (ruleKey rule identifier) ↔
      a.rule? settings = some rule ∧ a.identifier settings jwt rule = identifier := by
  rw [key?_eq, Option.map_eq_some_iff]
  constructor
  · rintro ⟨found, hfound, hkey⟩
    obtain ⟨rfl, rfl⟩ := (ruleKey_inj (rule?_mem hfound) h).mp hkey
    exact ⟨hfound, rfl⟩
  · rintro ⟨hrule, rfl⟩
    exact ⟨rule, hrule, rfl⟩

theorem countsFor_iff : a.countsFor settings jwt identifier = true ↔
    ∃ rule, a.rule? settings = some rule ∧ a.identifier settings jwt rule = identifier := by
  unfold Arrival.countsFor
  rw [Option.any_eq_true]
  simp

theorem countsFor_address {host : List Char}
    (h : a.countsFor settings jwt ("ip:".toList ++ host) = true) : clientIp a.request = host := by
  obtain ⟨rule, _, hidentifier⟩ := countsFor_iff.mp h
  unfold Arrival.identifier identifierOf at hidentifier
  cases hby : rule.identifier with
  | ip =>
    rw [hby] at hidentifier
    exact List.append_cancel_left hidentifier
  | user =>
    rw [hby] at hidentifier
    dsimp only at hidentifier
    split at hidentifier
    · exact absurd hidentifier (by simp)
    · exact List.append_cancel_left hidentifier

theorem countsFor_user {uid : List Char}
    (h : a.countsFor settings jwt ("user:".toList ++ uid) = true) :
    verifiedUserId settings jwt a.decodedAt (bearerToken a.request) = some uid := by
  obtain ⟨rule, _, hidentifier⟩ := countsFor_iff.mp h
  unfold Arrival.identifier identifierOf at hidentifier
  cases hby : rule.identifier with
  | ip =>
    rw [hby] at hidentifier
    exact absurd hidentifier (by simp)
  | user =>
    rw [hby] at hidentifier
    dsimp only at hidentifier
    split at hidentifier
    · rename_i uid' huid
      rw [huid, List.append_cancel_left hidentifier]
    · exact absurd hidentifier (by simp)

end Keys

section Step
variable {settings : Settings} {jwt : PyJwt} {S S' : Counters} {a : Arrival} {os : List Served}

/-- Everything that `dispatch` can do: pass a request that no rule governs, or execute the script
    under the key of the rule. -/
inductive Dispatch (settings : Settings) (jwt : PyJwt) (S : Counters) (a : Arrival) :
    Counters → List Served → Prop
  | ungoverned (rule : a.rule? settings = none) : Dispatch settings jwt S a S [⟨a, none⟩]
  | checked {rule : Rule} {counter : Limiter} {reply : LimiterReply}
      (found : a.rule? settings = some rule)
      (script : limiterStep true rule.window rule.limit
        (S (ruleKey rule (a.identifier settings jwt rule))) a.call =
          some (counter, [(a.call.now, reply)])) :
      Dispatch settings jwt S a
        (Function.update S (ruleKey rule (a.identifier settings jwt rule)) counter)
        [⟨a, some reply⟩]

theorem limiterStep_reply {window : ℚ} {limit : ℤ} {L L' : Limiter} {r : ScriptCall}
    {replies : List (ℚ × LimiterReply)}
    (h : limiterStep true window limit L r = some (L', replies)) :
    ∃ reply, replies = [(r.now, reply)] := by
  cases limiterStep_cases h with
  | accepted _ _ _ => exact ⟨_, rfl⟩
  | rejected _ _ _ => exact ⟨_, rfl⟩

theorem dispatch_cases (h : dispatch settings jwt S a = some (S', os)) :
    Dispatch settings jwt S a S' os := by
  unfold dispatch at h
  rw [dispatchCheck_eq] at h
  cases hrule : a.rule? settings with
  | none =>
    rw [hrule] at h
    cases h
    exact .ungoverned hrule
  | some rule =>
    rw [hrule] at h
    dsimp only [Option.map_some] at h
    split at h
    · cases h
    · rename_i counter replies hscript
      obtain ⟨reply, rfl⟩ := limiterStep_reply hscript
      cases h
      exact .checked hrule hscript

theorem dispatch_checked {rule : Rule} {counter : Limiter} {reply : LimiterReply}
    (found : a.rule? settings = some rule)
    (script : limiterStep true rule.window rule.limit
      (S (ruleKey rule (a.identifier settings jwt rule))) a.call =
        some (counter, [(a.call.now, reply)])) :
    dispatch settings jwt S a =
      some (Function.update S (ruleKey rule (a.identifier settings jwt rule)) counter,
        [⟨a, some reply⟩]) := by
  unfold dispatch
  rw [dispatchCheck_eq, found]
  dsimp only [Option.map_some]
  rw [script]
  rfl

end Step

section Isolation
variable {settings : Settings} {jwt : PyJwt} {identifier : List Char} {start : ℚ}

def SameCounters (settings : Settings) (identifier : List Char) (S S' : Counters) : Prop :=
  ∀ rule ∈ rules settings, S (ruleKey rule identifier) = S' (ruleKey rule identifier)

theorem sameCounters_update {S S' : Counters} {key : List Char} {counter : Limiter}
    (h : SameCounters settings identifier S S') :
    SameCounters settings identifier (Function.update S key counter)
      (Function.update S' key counter) := by
  intro rule hrule
  by_cases hkey : ruleKey rule identifier = key
  · rw [hkey, Function.update_self, Function.update_self]
  · rw [Function.update_of_ne hkey, Function.update_of_ne hkey]
    exact h rule hrule

theorem sameCounters_other {S S' : Counters} {rule' : Rule} {other : List Char} {counter : Limiter}
    (hrule' : rule' ∈ rules settings) (hother : other ≠ identifier)
    (h : SameCounters settings identifier S S') :
    SameCounters settings identifier (Function.update S (ruleKey rule' other) counter) S' := by
  intro rule hrule
  have hkey : ruleKey rule identifier ≠ ruleKey rule' other := by
    intro heq
    exact hother ((ruleKey_inj hrule hrule').mp heq).2.symm
  rw [Function.update_of_ne hkey]
  exact h rule hrule

theorem dispatch_unwinding (settings : Settings) (jwt : PyJwt) (identifier : List Char) :
    Unwinding (dispatch settings jwt) (Arrival.countsFor settings jwt identifier)
      (fun o => o.arrival.countsFor settings jwt identifier)
      (SameCounters settings identifier) where
  foreign S S' a T os hsim ha hstep := by
    cases dispatch_cases hstep with
    | ungoverned _ =>
      refine ⟨hsim, ?_⟩
      simp [ha]
    | @checked rule counter reply found script =>
      refine ⟨sameCounters_other (rule?_mem found) ?_ hsim, by simp [ha]⟩
      intro hidentifier
      rw [countsFor_iff.mpr ⟨rule, found, hidentifier⟩] at ha
      cases ha
  native S S' a T os hsim ha hstep := by
    cases dispatch_cases hstep with
    | ungoverned hrule =>
      obtain ⟨rule, found, _⟩ := countsFor_iff.mp ha
      rw [hrule] at found
      cases found
    | @checked rule counter reply found script =>
      obtain ⟨rule', found', hidentifier⟩ := countsFor_iff.mp ha
      have hrule : rule' = rule := Option.some.inj (found'.symm.trans found)
      subst hrule
      rw [hidentifier] at script ⊢
      rw [hsim rule' (rule?_mem found), ← hidentifier] at script
      have hpurged := dispatch_checked found script
      rw [hidentifier] at hpurged
      exact ⟨_, hpurged, sameCounters_update hsim, by simp [ha]⟩

/-- What a client is answered does not depend on the requests of others, while the readings that
    reach a counter do not go back: those that count for one address or user are answered,
    `Retry-After` included, as in the run without all other requests. And only requests from an
    address count for it, only verified tokens of a user for that user. -/
theorem dispatch_isolated (settings : Settings) (jwt : PyJwt) (identifier : List Char) (start : ℚ)
    (arrivals : List Arrival) (S : Counters) (log : List Served)
    (h : execute (dispatch settings jwt) (Counters.empty start) arrivals = some (S, log)) :
    (∃ S', execute (dispatch settings jwt) (Counters.empty start)
        (arrivals.filter (Arrival.countsFor settings jwt identifier)) =
          some (S', log.filter fun o => o.arrival.countsFor settings jwt identifier) ∧
      SameCounters settings identifier S S') ∧
    (∀ host, identifier = "ip:".toList ++ host →
      ∀ a ∈ arrivals, a.countsFor settings jwt identifier = true → clientIp a.request = host) ∧
    ∀ uid, identifier = "user:".toList ++ uid →
      ∀ a ∈ arrivals, a.countsFor settings jwt identifier = true →
        verifiedUserId settings jwt a.decodedAt (bearerToken a.request) = some uid := by
  refine ⟨?_, ?_, ?_⟩
  · have hsim : SameCounters settings identifier (Counters.empty start) (Counters.empty start) :=
      fun _ _ => rfl
    exact (dispatch_unwinding settings jwt identifier).purge hsim h
  · rintro host rfl a _ ha
    exact countsFor_address ha
  · rintro uid rfl a _ ha
    exact countsFor_user ha

end Isolation

section Limit
variable {settings : Settings} {jwt : PyJwt} {start : ℚ} {S S' : Counters} {log os : List Served}
  {a : Arrival} {rule : Rule} {identifier key : List Char}

def Served.underKey (settings : Settings) (jwt : PyJwt) (key : List Char) (o : Served) :
    Option (ℚ × LimiterReply) :=
  if o.arrival.key? settings jwt = some key then
    o.reply.map fun reply => (o.arrival.call.now, reply)
  else none

/-- Each request under a key is an execution of the script on it. -/
theorem counter_run (hrule : rule ∈ rules settings)
    (h : Run (dispatch settings jwt) (Counters.empty start) log S) :
    Run (limiterStep true rule.window rule.limit) ⟨{}, start, []⟩
      (log.filterMap (Served.underKey settings jwt (ruleKey rule identifier)))
      (S (ruleKey rule identifier)) := by
  refine (h.project (fun S => S (ruleKey rule identifier))
    (Served.underKey settings jwt (ruleKey rule identifier)) (fun _ => True) trivial ?_).2
  intro T a T' os _ hstep
  refine ⟨trivial, ?_⟩
  cases dispatch_cases hstep with
  | ungoverned hnone =>
    left
    have hkey : a.key? settings jwt ≠ some (ruleKey rule identifier) := by
      simp [key?_eq, hnone]
    simp [Served.underKey, hkey]
  | @checked found counter reply hfound script =>
    have hkey : a.key? settings jwt = some (ruleKey found (a.identifier settings jwt found)) := by
      rw [key?_eq, hfound]
      rfl
    by_cases hsame : ruleKey found (a.identifier settings jwt found) = ruleKey rule identifier
    · right
      obtain ⟨rfl, rfl⟩ := (ruleKey_inj (rule?_mem hfound) hrule).mp hsame
      refine ⟨a.call, ?_⟩
      rw [script, Function.update_self]
      simp [Served.underKey, hkey]
    · left
      refine ⟨Function.update_of_ne (fun heq => hsame heq.symm) _ _, ?_⟩
      simp [Served.underKey, hkey, hsame]

theorem admittedStamps_underKey
    (h : ∀ o ∈ log, o.arrival.key? settings jwt = some key → o.reply ≠ none) :
    admittedStamps (log.filterMap (Served.underKey settings jwt key)) =
      passedStamps settings jwt key log := by
  induction log with
  | nil => rfl
  | cons o log ih =>
    have htail := ih (fun p hp => h p (List.mem_cons_of_mem o hp))
    unfold admittedStamps passedStamps at htail ⊢
    by_cases hkey : o.arrival.key? settings jwt = some key
    · obtain ⟨reply, hreply⟩ := Option.ne_none_iff_exists'.mp (h o List.mem_cons_self hkey)
      have hseen : o.underKey settings jwt key = some (o.arrival.call.now, reply) := by
        rw [Served.underKey, if_pos hkey, hreply]
        rfl
      have hpassed : o.answer = .callNext ↔ reply.isLimited = 0 := by
        unfold Served.answer
        rw [hreply]
        by_cases hlimited : reply.isLimited = 0
        · simp [hlimited]
        · simp [hlimited]
      rw [List.filterMap_cons_some hseen]
      by_cases hlimited : reply.isLimited = 0
      · rw [List.filter_cons_of_pos (by simp [hlimited]),
          List.filter_cons_of_pos (by simp [hkey, hpassed, hlimited]), List.map_cons, List.map_cons,
          htail]
      · rw [List.filter_cons_of_neg (by simp [hlimited]),
          List.filter_cons_of_neg (by simp [hpassed, hlimited]), htail]
    · have hseen : o.underKey settings jwt key = none := if_neg hkey
      rw [List.filterMap_cons_none hseen, List.filter_cons_of_neg (by simp [hkey]), htail]

theorem reply_of_key (h : Run (dispatch settings jwt) (Counters.empty start) log S) :
    ∀ o ∈ log, o.arrival.key? settings jwt ≠ none → o.reply ≠ none := by
  apply h.invariant (fun log _ => ∀ o ∈ log, o.arrival.key? settings jwt ≠ none → o.reply ≠ none)
  · intro o ho
    cases ho
  · intro log T a T' os ih hstep o ho hkey
    rcases List.mem_append.mp ho with ho | ho
    · exact ih o ho hkey
    · cases dispatch_cases hstep with
      | ungoverned hnone =>
        rw [List.mem_singleton.mp ho, key?_eq, hnone] at hkey
        exact absurd rfl hkey
      | checked _ _ =>
        rw [List.mem_singleton.mp ho]
        exact Option.some_ne_none _

theorem counter_limited (hrule : rule ∈ rules settings) (hwindow : 0 < rule.window)
    (h : Run (dispatch settings jwt) (Counters.empty start) log S) :
    SlidingWindow.Admitted rule.limit.toNat (rule.window : ℚ)
        (passedStamps settings jwt (ruleKey rule identifier) log) ∧
      ∀ r : ScriptCall, 0 ≤ start → (S (ruleKey rule identifier)).clock ≤ r.now →
        ((S (ruleKey rule identifier)).evicted true rule.window r).entries.length =
          (SlidingWindow.since (rule.window : ℚ) r.now
            (passedStamps settings jwt (ruleKey rule identifier) log)).length := by
  have hrun : Run (limiterStep true rule.window rule.limit) ⟨{}, start, []⟩
      (log.filterMap (Served.underKey settings jwt (ruleKey rule identifier)))
      (S (ruleKey rule identifier)) := counter_run hrule h
  have hpositive : (0 : ℚ) < rule.window := Int.cast_pos.mpr hwindow
  have hlimited := limiter_run hpositive hrun
  have hstamps : admittedStamps
        (log.filterMap (Served.underKey settings jwt (ruleKey rule identifier))) =
      passedStamps settings jwt (ruleKey rule identifier) log :=
    admittedStamps_underKey fun o ho hkey =>
      reply_of_key h o ho (by rw [hkey]; exact Option.some_ne_none _)
  refine ⟨hstamps ▸ hlimited.admitted, ?_⟩
  intro r hstart hclock
  have hepoch : Epoch (S (ruleKey rule identifier)) := limiter_epoch hstart hrun
  -- Nothing is left of what is outside the window, so the count is the count of the window.
  have hinside : ((S (ruleKey rule identifier)).evicted true rule.window r).entries.filter
      (fun e => decide (r.now - rule.window < e.score)) =
        ((S (ruleKey rule identifier)).evicted true rule.window r).entries := by
    apply List.filter_eq_self.mpr
    intro e he
    have hscore := hepoch.scores e (Limited.evicted_entries he)
    unfold Limiter.evicted at he
    rw [ZKey.zremrangebyscore_entries] at he
    have hkept := (List.mem_filter.mp he).2
    simpa [hscore] using hkept
  rw [← hstamps, ← hlimited.evicted_recent hclock, ZKey.since_stamps, List.length_map, hinside]

theorem answer_of_script {counter : Limiter} {reply : LimiterReply} (hrule : rule ∈ rules settings)
    (hwindow : 0 < rule.window) (hstart : 0 ≤ start)
    (h : Run (dispatch settings jwt) (Counters.empty start) log S)
    (script : limiterStep true rule.window rule.limit (S (ruleKey rule identifier)) a.call =
      some (counter, [(a.call.now, reply)])) :
    Served.answer ⟨a, some reply⟩ = .callNext ↔
      ((SlidingWindow.since (rule.window : ℚ) a.call.now
        (passedStamps settings jwt (ruleKey rule identifier) log)).length : ℤ) < rule.limit := by
  have hcount : (S (ruleKey rule identifier)).clock ≤ a.call.now →
      ((S (ruleKey rule identifier)).evicted true rule.window a.call).entries.length =
        (SlidingWindow.since (rule.window : ℚ) a.call.now
          (passedStamps settings jwt (ruleKey rule identifier) log)).length :=
    (counter_limited hrule hwindow h).2 a.call hstart
  cases limiterStep_cases script with
  | accepted clock _ free =>
    unfold ZKey.zcard at free
    rw [hcount clock] at free
    exact iff_of_true rfl free
  | rejected clock _ full =>
    unfold ZKey.zcard at full
    rw [hcount clock] at full
    exact iff_of_false (by simp [Served.answer]) (not_lt.mpr full)

/-- While the readings that reach a counter do not go back, a request passes exactly when fewer than
    the limit of its rule have passed under that rule, for the same address or user, in the window
    that ends with it; so at no time does a window hold more than the limit. -/
theorem dispatch_exact (settings : Settings) (jwt : PyJwt) (start : ℚ) (hstart : 0 ≤ start)
    (hwindow : ∀ rule ∈ rules settings, 0 < rule.window) (S : Counters) (log : List Served)
    (h : Run (dispatch settings jwt) (Counters.empty start) log S) :
    (∀ a S' os, dispatch settings jwt S a = some (S', os) →
      ∃ reply, os = [⟨a, reply⟩] ∧
        (Served.answer ⟨a, reply⟩ = .callNext ↔ ∀ rule, a.rule? settings = some rule →
          ((SlidingWindow.since (rule.window : ℚ) a.call.now (passedStamps settings jwt
            (ruleKey rule (a.identifier settings jwt rule)) log)).length : ℤ) < rule.limit)) ∧
    (∀ rule ∈ rules settings, ∀ identifier t, (SlidingWindow.window (rule.window : ℚ) t
      (passedStamps settings jwt (ruleKey rule identifier) log)).length ≤ rule.limit.toNat) ∧
    ∀ (a : Arrival), ∀ rule ∈ rules settings, ∀ identifier,
      a.key? settings jwt = some (ruleKey rule identifier) ↔
        a.rule? settings = some rule ∧ a.identifier settings jwt rule = identifier := by
  refine ⟨?_, ?_, ?_⟩
  · intro a S' os hstep
    cases dispatch_cases hstep with
    | ungoverned hnone =>
      refine ⟨none, rfl, iff_of_true rfl ?_⟩
      intro rule hrule
      rw [hnone] at hrule
      cases hrule
    | @checked rule counter reply found script =>
      have hmem : rule ∈ rules settings := rule?_mem found
      have hanswer := answer_of_script hmem (hwindow rule hmem) hstart h script
      refine ⟨some reply, rfl, hanswer.trans ?_⟩
      constructor
      · intro hfree rule' hrule'
        cases Option.some.inj (found.symm.trans hrule')
        exact hfree
      · intro hfree
        exact hfree rule found
  · intro rule hrule identifier t
    exact (counter_limited hrule (hwindow rule hrule) h).1.bound t
  · intro a rule hrule identifier
    exact key?_eq_some hrule

end Limit

def loginRequest (host : List Char) : HttpRequest where
  method := "POST"
  path := "/login".toList
  authorization := []
  clientHost := some host

def loginArrival (host : List Char) (now : ℚ) (member : String) : Arrival :=
  ⟨loginRequest host, 0, ⟨now, member, true⟩⟩

/-- With one login a minute: the first client is refused once, whatever the second one does. -/
def twoClients : List Arrival :=
  [loginArrival "10.0.0.1".toList 100 "a", loginArrival "10.0.0.2".toList 101 "b",
    loginArrival "10.0.0.1".toList 130 "c", loginArrival "10.0.0.1".toList 160 "d"]

def oneLogin : Settings := { rateLimitLoginCount := 1 }

theorem twoClients_run :
    (execute (dispatch oneLogin plainJwt) (Counters.empty 100) twoClients).map
        (fun r => r.2.map Served.answer) =
      some [.callNext, .callNext, .tooMany (tooMany 30), .callNext] := by
  decide +kernel

theorem dispatch_isolated_clients :
    ∃ S log S',
      execute (dispatch oneLogin plainJwt) (Counters.empty 100) twoClients = some (S, log) ∧
      execute (dispatch oneLogin plainJwt) (Counters.empty 100)
          (twoClients.filter
            (Arrival.countsFor oneLogin plainJwt ("ip:".toList ++ "10.0.0.1".toList))) =
        some (S', log.filter fun o =>
          o.arrival.countsFor oneLogin plainJwt ("ip:".toList ++ "10.0.0.1".toList)) := by
  cases hrun : execute (dispatch oneLogin plainJwt) (Counters.empty 100) twoClients with
  | none =>
    have hanswers := twoClients_run
    rw [hrun] at hanswers
    cases hanswers
  | some r =>
    obtain ⟨S', hpurged, _⟩ := (dispatch_isolated oneLogin plainJwt _ 100 twoClients r.1 r.2 hrun).1
    exact ⟨r.1, r.2, S', rfl, hpurged⟩

theorem dispatch_exact_clients :
    ∃ S log, Run (dispatch oneLogin plainJwt) (Counters.empty 100) log S ∧
      log.map Served.answer = [.callNext, .callNext, .tooMany (tooMany 30), .callNext] ∧
      ∀ t, (SlidingWindow.window ((60 : ℤ) : ℚ) t (passedStamps oneLogin plainJwt
        "hefest:ratelimit:login:ip:10.0.0.1".toList log)).length ≤ 1 := by
  obtain ⟨S, log, h, hlog⟩ := execute_map twoClients_run
  have hwindow : ∀ rule ∈ rules oneLogin, 0 < rule.window := by
    decide
  have hbound := (dispatch_exact oneLogin plainJwt 100 (by norm_num) hwindow S log h).2.1
  let rule : Rule :=
    { methods := ["POST"]
      path := .exact "/login"
      identifier := .ip
      tag := "login"
      limit := 1
      window := 60 }
  have hrule : rule ∈ rules oneLogin := List.mem_cons_self
  have hkey : ruleKey rule "ip:10.0.0.1".toList = "hefest:ratelimit:login:ip:10.0.0.1".toList := by
    decide
  refine ⟨S, log, h, hlog, ?_⟩
  intro t
  have hlogin := hbound rule hrule "ip:10.0.0.1".toList t
  rw [hkey] at hlogin
  exact hlogin

end Hefest
