import Hefest.Mailer

set_option autoImplicit false

namespace Hefest
open Templates Transition ResourcePool

inductive Stepped (config : MailerConfig) (x : MailerState) :
    MailerAction → MailerState × List SentOn → Prop
  | called (content : EmailContent) (to_ : String) :
      Stepped config x (.call content to_)
        ({ x with sends := x.sends ++ [⟨content, to_, .waiting⟩] }, [])
  | got (i : ℕ) (call : SendCall) (client : ℕ) (queue : List ℕ) (hcall : x.sends[i]? = some call)
      (hphase : call.phase = .waiting) (hqueue : x.queue = client :: queue) :
      Stepped config x (.get i)
        (MailerState.ensureConnected config { x with queue := queue } i call client)
  | gaveUp (i : ℕ) (call : SendCall) (hcall : x.sends[i]? = some call)
      (hphase : call.phase = .waiting) :
      Stepped config x (.cancelWaiting i) (x.setPhase i call (.finished .cancelled), [])
  | resumed (i : ℕ) (call : SendCall) (operation : SmtpOperation) (client : ℕ) (ending : Ending)
      (stays : Bool) (hcall : x.sends[i]? = some call)
      (hphase : call.phase = .awaiting operation client) :
      Stepped config x (.resume i ending stays)
        ((x.setClient client ((x.clients client).after operation ending stays)).resume config i call
          operation client ending)
  | disconnected (client : ℕ) :
      Stepped config x (.disconnect client)
        (x.setClient client { x.clients client with isConnected := false }, [])

section Steps
variable {config : MailerConfig} {x y : MailerState} {a : MailerAction} {os : List SentOn}

theorem MailerState.step_cases (h : x.step config a = some (y, os)) :
    Stepped config x a (y, os) := by
  cases a with
  | call content to_ =>
    cases h
    exact .called content to_
  | get i =>
    simp only [MailerState.step] at h
    split at h
    · rename_i call client queue hcall hqueue
      split at h
      · rename_i hphase
        rw [← Option.some.inj h]
        exact .got i call client queue hcall hphase hqueue
      · cases h
    · cases h
  | cancelWaiting i =>
    simp only [MailerState.step] at h
    split at h
    · rename_i call hcall
      split at h
      · rename_i hphase
        cases h
        exact .gaveUp i call hcall hphase
      · cases h
    · cases h
  | resume i ending stays =>
    simp only [MailerState.step] at h
    split at h
    · rename_i call hcall
      split at h
      · rename_i operation client hphase
        rw [← Option.some.inj h]
        exact .resumed i call operation client ending stays hcall hphase
      · cases h
    · cases h
  | disconnect client =>
    cases h
    exact .disconnected client

end Steps

namespace MailerState

def pool (x : MailerState) : Pool ℕ := ⟨x.queue, x.sends.map fun call => call.phase.client?⟩

def held (x : MailerState) : List ℕ := x.sends.filterMap fun call => call.phase.client?

theorem pool_all (x : MailerState) : x.pool.all = x.queue ++ x.held := by
  unfold Pool.all Pool.held held pool
  rw [List.reduceOption, List.filterMap_map]
  rfl

def Lent (x : MailerState) (i client : ℕ) (resources : List ℕ) : Prop :=
  Pool.Circulates ⟨x.queue, x.pool.holders.set i (some client)⟩ resources

section Moves
variable {config : MailerConfig} {x : MailerState} {i client : ℕ} {call : SendCall}

theorem pool_setPhase (phase : SendPhase) :
    (x.setPhase i call phase).pool = ⟨x.queue, x.pool.holders.set i phase.client?⟩ := by
  unfold pool setPhase
  rw [List.map_set]

theorem holders_get (hcall : x.sends[i]? = some call) :
    x.pool.holders[i]? = some call.phase.client? := by
  unfold pool
  rw [List.getElem?_map, hcall]
  rfl

theorem holders_awaiting (hcall : x.sends[i]? = some call) {operation : SmtpOperation}
    (hphase : call.phase = .awaiting operation client) :
    x.pool.holders[i]? = some (some client) := by
  rw [holders_get hcall, hphase]
  rfl

theorem holders_waiting (hcall : x.sends[i]? = some call) (hphase : call.phase = .waiting) :
    x.pool.holders[i]? = some none := by
  rw [holders_get hcall, hphase]
  rfl

theorem putNowait_sends : (x.putNowait config client).sends = x.sends := by
  unfold putNowait
  split <;> rfl

theorem putNowait_clients : (x.putNowait config client).clients = x.clients := by
  unfold putNowait
  split <;> rfl

theorem finish_sends (ending : SendEnd) : (x.finish config i call client ending).sends =
    x.sends.set i { call with phase := .finished ending } := by
  change (x.putNowait config client).sends.set i _ = _
  rw [putNowait_sends]

theorem setClient_clients_self (value : SmtpClient) :
    (x.setClient client value).clients client = value := Function.update_self _ _ _

theorem setClient_clients_of_ne {c : ℕ} (h : c ≠ client) (value : SmtpClient) :
    (x.setClient client value).clients c = x.clients c := Function.update_of_ne h _ _

structure Sound (config : MailerConfig) (x : MailerState) : Prop where
  circulates : x.pool.Circulates (List.range config.workerSendConcurrency)
  fits : x.overflowed = false

theorem Lent.finish (h : x.Lent i client (List.range config.workerSendConcurrency))
    (hcall : x.sends[i]? = some call) (hfits : x.overflowed = false) (ending : SendEnd) :
    (x.finish config i call client ending).Sound config := by
  have hholds : (x.pool.holders.set i (some client))[i]? = some (some client) := by
    obtain ⟨hlt, -⟩ := List.getElem?_eq_some_iff.mp (holders_get hcall)
    rw [List.getElem?_set_self hlt]
  have hroom : x.queue.length < config.workerSendConcurrency := by
    have hlt : x.queue.length < (List.range config.workerSendConcurrency).length := h.room hholds
    rwa [List.length_range] at hlt
  have hput : x.putNowait config client = { x with queue := x.queue ++ [client] } :=
    if_pos (Or.inr hroom)
  have hgive := h.step (.give client x.queue (x.pool.holders.set i (some client)) i hholds)
  rw [List.set_set] at hgive
  refine ⟨?_, ?_⟩
  · rw [MailerState.finish, hput, pool_setPhase]
    exact hgive
  · rw [MailerState.finish, hput]
    exact hfits

theorem Lent.setPhase (h : x.Lent i client (List.range config.workerSendConcurrency))
    (hfits : x.overflowed = false) (operation : SmtpOperation) :
    (x.setPhase i call (.awaiting operation client)).Sound config := by
  refine ⟨?_, hfits⟩
  rw [pool_setPhase]
  exact h

theorem Lent.deliver (h : x.Lent i client (List.range config.workerSendConcurrency))
    (hcall : x.sends[i]? = some call) (hfits : x.overflowed = false) :
    (x.deliver config i call client).1.Sound config := by
  unfold MailerState.deliver
  cases buildMessage config call.content call.to_ with
  | error error => exact h.finish hcall hfits _
  | ok message => exact h.setPhase hfits .sendMessage

theorem Lent.ensureConnected (h : x.Lent i client (List.range config.workerSendConcurrency))
    (hcall : x.sends[i]? = some call) (hfits : x.overflowed = false) :
    (x.ensureConnected config i call client).1.Sound config := by
  unfold MailerState.ensureConnected
  split
  · exact h.deliver hcall hfits
  · exact h.setPhase hfits .connect

theorem Lent.resume (h : x.Lent i client (List.range config.workerSendConcurrency))
    (hcall : x.sends[i]? = some call) (hfits : x.overflowed = false) (operation : SmtpOperation)
    (ending : Ending) : (x.resume config i call operation client ending).1.Sound config := by
  cases ending with
  | raises error => exact h.finish hcall hfits _
  | cancelled => exact h.finish hcall hfits _
  | returns =>
    cases operation with
    | connect =>
      simp only [MailerState.resume]
      split
      · exact h.setPhase hfits .login
      · exact h.deliver hcall hfits
    | login => exact h.deliver hcall hfits
    | sendMessage => exact h.finish hcall hfits _

theorem Sound.lent (h : x.Sound config) (hcall : x.sends[i]? = some call)
    {operation : SmtpOperation} (hphase : call.phase = .awaiting operation client) :
    x.Lent i client (List.range config.workerSendConcurrency) := by
  unfold Lent
  rw [set_same_holder (holders_awaiting hcall hphase)]
  exact h.circulates

/-- A call that gets the first client of the queue holds it from then on. -/
theorem Sound.lend (h : x.Sound config) (hcall : x.sends[i]? = some call)
    (hphase : call.phase = .waiting) {queue : List ℕ} (hqueue : x.queue = client :: queue) :
    MailerState.Lent { x with queue := queue } i client
      (List.range config.workerSendConcurrency) := by
  have hpool : x.pool = ⟨client :: queue, x.pool.holders⟩ := by
    rw [← hqueue]
    rfl
  have hcirculates := h.circulates
  rw [hpool] at hcirculates
  exact hcirculates.step (.take client queue x.pool.holders i (holders_waiting hcall hphase))

end Moves
end MailerState

section Sound
variable {config : MailerConfig} {x y : MailerState} {a : MailerAction} {os : List SentOn}

theorem Stepped.sound {r : MailerState × List SentOn} (h : Stepped config x a r)
    (hx : x.Sound config) : r.1.Sound config := by
  cases h with
  | called content to_ =>
    refine ⟨?_, hx.fits⟩
    have hjoin := hx.circulates.step (.join x.queue x.pool.holders)
    have hholders : (x.sends ++ [(⟨content, to_, .waiting⟩ : SendCall)]).map
        (fun call => call.phase.client?) = x.pool.holders ++ [none] := by
      rw [List.map_append]
      rfl
    unfold MailerState.pool
    rw [hholders]
    exact hjoin
  | got i call client queue hcall hphase hqueue =>
    exact (hx.lend hcall hphase hqueue).ensureConnected hcall hx.fits
  | gaveUp i call hcall hphase =>
    refine ⟨?_, hx.fits⟩
    rw [MailerState.pool_setPhase]
    change Pool.Circulates ⟨x.queue, x.pool.holders.set i none⟩ _
    rw [set_same_holder (MailerState.holders_waiting hcall hphase)]
    exact hx.circulates
  | resumed i call operation client ending stays hcall hphase =>
    have hlent : (x.setClient client ((x.clients client).after operation ending stays)).Lent i
        client (List.range config.workerSendConcurrency) := hx.lent hcall hphase
    exact hlent.resume hcall hx.fits operation ending
  | disconnected client => exact ⟨hx.circulates, hx.fits⟩

theorem mailerInit_queue (n : ℕ) (h : n ≤ config.workerSendConcurrency) :
    (List.range n).foldl (fun x client => x.putNowait config client) {} =
      ({ queue := List.range n } : MailerState) := by
  induction n with
  | zero => rfl
  | succ n ih =>
    have hroom : (List.range n).length < config.workerSendConcurrency := by
      rw [List.length_range]
      omega
    rw [List.range_succ, List.foldl_append, ih (by omega)]
    exact if_pos (Or.inr hroom)

theorem mailerInit_eq :
    mailerInit config = { queue := List.range config.workerSendConcurrency } :=
  mailerInit_queue _ le_rfl

theorem mailerInit_sound : (mailerInit config).Sound config := by
  rw [mailerInit_eq]
  refine ⟨?_, rfl⟩
  change (List.range config.workerSendConcurrency ++ [].reduceOption).Perm _
  rw [List.reduceOption_nil, List.append_nil]

theorem run_sound {tr : List SentOn} (h : Run (MailerState.step config) (mailerInit config) tr x) :
    x.Sound config :=
  h.invariant (fun _ x => x.Sound config) mailerInit_sound
    (fun _ _ _ _ _ hx hstep => (MailerState.step_cases hstep).sound hx)

end Sound

/-- Over every interleaving the clients that were created are in the queue or with one call, each
    once, and `put_nowait` always finds room. -/
theorem mailer_pool_circulates (config : MailerConfig) {x : MailerState} {tr : List SentOn}
    (run : Run (MailerState.step config) (mailerInit config) tr x) :
    (x.queue ++ x.held).Perm (List.range config.workerSendConcurrency) ∧
    (∀ (i j client : ℕ) (call other : SendCall), x.sends[i]? = some call →
      x.sends[j]? = some other → call.phase.client? = some client →
      other.phase.client? = some client → i = j) ∧
    x.overflowed = false := by
  have hsound : x.Sound config := run_sound run
  refine ⟨?_, ?_, hsound.fits⟩
  · rw [← x.pool_all]
    exact hsound.circulates
  · intro i j client call other hi hj hcall hother
    have hfirst : x.pool.holders[i]? = some (some client) := by
      rw [MailerState.holders_get hi, hcall]
    have hsecond : x.pool.holders[j]? = some (some client) := by
      rw [MailerState.holders_get hj, hother]
    exact hsound.circulates.exclusive List.nodup_range hfirst hsecond

/-- Three calls on two clients: one is cancelled while it waits, one while it connects, and the
    server refuses the recipient of the third. -/
theorem mailer_pool_circulates_cancelled :
    ∃ (x : MailerState) (tr : List SentOn),
      (x.queue ++ x.held).Perm (List.range 2) ∧ x.queue = [1, 0] ∧ tr.length = 1 := by
  have hrun : (execute (MailerState.step { workerSendConcurrency := 2 })
      (mailerInit { workerSendConcurrency := 2 })
      [.call ⟨"a", ""⟩ "x", .call ⟨"b", ""⟩ "y", .call ⟨"c", ""⟩ "z", .get 0, .get 1,
        .resume 0 .returns true, .cancelWaiting 2, .resume 1 .cancelled false,
        .resume 0 (.raises (.recipientsRefused [550] "no such user")) true]).map
      (fun r => (r.1.queue, r.2.length)) = some ([1, 0], 1) := by decide
  obtain ⟨x, tr, run, hread⟩ := execute_map hrun
  have hqueue : x.queue = [1, 0] := congrArg Prod.fst hread
  have hlength : tr.length = 1 := congrArg Prod.snd hread
  exact ⟨x, tr, (mailer_pool_circulates { workerSendConcurrency := 2 } run).1, hqueue, hlength⟩

end Hefest
